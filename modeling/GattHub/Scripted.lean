import GattHub.Desk

/-! A host that follows a script: it knows some peers, turns some calls down, and posts set
reports when others are made. -/

namespace GattHub

inductive CallKind where
  | openCentral | scan | stopScan | close | lookup | connect | cancelConnection | attMtu
  | discoverServices | discoverCharacteristics | discoverDescriptors
  | readCharacteristic | writeCharacteristic | readDescriptor | writeDescriptor
  | subscribe | unsubscribe | readRssi
  deriving DecidableEq

variable {H : Handles}

def PeerCall.kind : PeerCall H → CallKind
  | connect => .connect
  | cancelConnection => .cancelConnection
  | attMtu => .attMtu
  | discoverServices .. => .discoverServices
  | discoverCharacteristics .. => .discoverCharacteristics
  | discoverDescriptors .. => .discoverDescriptors
  | readCharacteristic .. => .readCharacteristic
  | writeCharacteristic .. => .writeCharacteristic
  | readDescriptor .. => .readDescriptor
  | writeDescriptor .. => .writeDescriptor
  | subscribe .. => .subscribe
  | unsubscribe .. => .unsubscribe
  | readRssi => .readRssi

def HostCall.kind : HostCall H → CallKind
  | openCentral => .openCentral
  | scan _ => .scan
  | stopScan => .stopScan
  | lookup _ => .lookup
  | peer _ c => c.kind
  | close => .close

namespace Scripted

/-- A native peer is its identity with a token; attributes are numbers. -/
abbrev handles : Handles := ⟨PeerId × Int, UInt64, UInt64, UInt64⟩

end Scripted

structure Scripted where
  known : Table PeerId Int
  mtu : Option UInt16
  refusals : Table CallKind Refusal
  /-- What is posted when a call is made and not turned down. -/
  script : Table CallKind (List (Report Scripted.handles))
  opened : List CentralId

namespace Scripted

def blank : Scripted := ⟨∅, none, ∅, ∅, []⟩

def answers (s : Scripted) : Answers handles where
  refusal _ k := s.refusals.get? k.kind
  lookup _ p := (s.known.get? p).map fun token => (p, token)
  attMtu _ _ := s.mtu

def accept (s : Scripted) (c : CentralId) (k : HostCall handles) (refusal : Option Refusal) :
    Acceptance handles Scripted where
  state := if k = .openCentral then { s with opened := s.opened.insert c } else s
  posts :=
    match refusal with
    | some _ => []
    | none => ((s.script.get? k.kind).getD []).map fun r => (c, r)
  lines := []

def stack : HostStack handles Scripted := ⟨answers, accept⟩

end Scripted

abbrev Bench := Desk Scripted.handles Scripted

namespace Bench

def run : Turn Scripted.handles Scripted → Turn Scripted.handles Scripted :=
  Turn.settle Scripted.stack

/-- Posts a report the way the host would, which it can once it was asked to open the manager. -/
def post? (b : Bench) (c : CentralId) (r : Report Scripted.handles) :
    Option (Outcome Scripted.handles Scripted Bool) :=
  if c ∈ b.host.opened then some (Desk.post run b c r) else none

end Bench

end GattHub
