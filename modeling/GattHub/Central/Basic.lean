import GattHub.Peer.Action
import GattHub.Peer.Completion

/-! A central manager: its power state, its scan, and the peers that it tracks. -/

namespace GattHub

/-- A scan under way. -/
structure Scan where
  allowDuplicates : Bool
  /-- The peers reported since the scan began. -/
  reported : List PeerId
  deriving DecidableEq

namespace Scan

def begin (allowDuplicates : Bool) : Scan := ⟨allowDuplicates, []⟩

/-- Whether an advertisement of a peer is passed on. -/
def reports (s : Scan) (p : PeerId) : Bool := s.allowDuplicates || p ∉ s.reported

def note (s : Scan) (p : PeerId) : Scan := { s with reported := s.reported.insert p }

end Scan

structure Central (H : Handles) where
  id : CentralId
  poweredOn : Bool
  scan : Option Scan
  peers : Table PeerId (Peer H)

structure CentralInfo where
  id : CentralId
  poweredOn : Bool
  scanning : Bool
  peers : List PeerId
  deriving DecidableEq

namespace Central

variable {H : Handles}

def new (id : CentralId) : Central H := ⟨id, false, none, ∅⟩

def info (c : Central H) : CentralInfo :=
  ⟨c.id, c.poweredOn, c.scan.isSome, c.peers.keys.mergeSort (· ≤ ·)⟩

def peer (c : Central H) (p : PeerId) : Except Rejection (Peer H) :=
  match c.peers.get? p with
  | some peer => .ok peer
  | none => .error (.unknownPeer p)

/-- A call on behalf of this manager whose refusal changes nothing. -/
def call (answers : Answers H) (c : Central H) (k : HostCall H) : Effect H :=
  .call c.id k (answers.refusal c.id k)

def startScan (answers : Answers H) (c : Central H) (allowDuplicates : Bool) :
    Response H (Central H) Unit :=
  match c.scan with
  | some _ => ⟨c, .error .alreadyScanning, []⟩
  | none =>
    ⟨{ c with scan := some (.begin allowDuplicates) }, .ok (),
      [c.call answers (.scan allowDuplicates), .log (.scanStarted c.id allowDuplicates)]⟩

/-- Ends the scan; without one there is nothing to do. -/
def stopScan (answers : Answers H) (c : Central H) : Step H (Central H) :=
  match c.scan with
  | none => ⟨c, [.log (.notScanning c.id)]⟩
  | some _ =>
    ⟨{ c with scan := none }, [c.call answers .stopScan, .log (.scanStopped c.id)]⟩

/-- The tracked peer of an identity. A peer that is not tracked yet is looked up at the host. -/
def track (answers : Answers H) (c : Central H) (p : PeerId) :
    Response H (Central H) (Peer H) :=
  match c.peers.get? p with
  | some peer => ⟨c, .ok peer, []⟩
  | none =>
    let lookup := c.call answers (.lookup p)
    match answers.lookup c.id p with
    | none => ⟨c, .error (.unknownPeer p), [lookup]⟩
    | some native =>
      let peer := Peer.new c.id p native
      ⟨{ c with peers := c.peers.insert p peer }, .ok peer, [lookup, .log (.tracking c.id p)]⟩

/-- Puts a request to a peer, tracking it if need be. -/
def withPeer {α : Type} (answers : Answers H) (c : Central H) (p : PeerId)
    (f : Peer H → Response H (Peer H) α) : Response H (Central H) α :=
  let tracked := c.track answers p
  match tracked.result with
  | .error reason => ⟨tracked.state, .error reason, tracked.effects⟩
  | .ok peer =>
    let r := f peer
    ⟨{ tracked.state with peers := tracked.state.peers.insert p r.state }, r.result,
      tracked.effects ++ r.effects⟩

/-- Stops tracking a peer whose link is down. -/
def forget (c : Central H) (p : PeerId) : Response H (Central H) Unit :=
  match c.peer p with
  | .error reason => ⟨c, .error reason, []⟩
  | .ok peer =>
    if peer.state = .disconnected then
      ⟨{ c with peers := c.peers.erase p }, .ok (), [.log (.forgot c.id p)]⟩
    else ⟨c, .error (.wrongState p peer.state), []⟩

/-- Takes in the power state of the radio. A scan does not outlive the loss of power. -/
def powerChanged (c : Central H) (on : Bool) (message : String) : Step H (Central H) :=
  ⟨{ c with poweredOn := on, scan := if on then c.scan else none },
    [.log (.powered c.id on message), .notice (.stateChanged c.id on message)]⟩

/-- Takes in an advertisement. Its level is kept even if the advertisement is not passed on. -/
def advertised (c : Central H) (record : Advertisement) : Step H (Central H) :=
  let seen := { c with peers := c.peers.modify record.peer fun p => p.observe record.rssi }
  match c.scan with
  | none => ⟨seen, [.log (.unreported c.id record.peer)]⟩
  | some scan =>
    if scan.reports record.peer then
      ⟨{ seen with scan := some (scan.note record.peer) }, [.notice (.discovered c.id record)]⟩
    else ⟨seen, []⟩

def peerReported (settings : Settings) (ids : IdSource) (c : Central H) (p : PeerId)
    (report : PeerReport H) : Step H (Central H × IdSource) :=
  match c.peers.get? p with
  | none => ⟨(c, ids), [.log (.untracked c.id p (.peer p report))]⟩
  | some peer =>
    let next := peer.receive settings ids report
    ⟨({ c with peers := c.peers.insert p next.state.1 }, next.state.2), next.effects⟩

def receive (settings : Settings) (ids : IdSource) (c : Central H) (report : Report H) :
    Step H (Central H × IdSource) :=
  let next : Step H (Central H × IdSource) :=
    match report with
    | .stateChanged on message =>
      let s := c.powerChanged on message
      ⟨(s.state, ids), s.effects⟩
    | .advertised record =>
      let s := c.advertised record
      ⟨(s.state, ids), s.effects⟩
    | .peer p report => c.peerReported settings ids p report
  ⟨next.state, .log (.reported c.id report) :: next.effects⟩

/-- What happens when the manager goes away: its scan stops, then each peer's link ends, in the
given order, and at last the host closes its side. -/
def teardown (answers : Answers H) (order : List PeerId) (c : Central H) : List (Effect H) :=
  (if c.scan.isSome then (c.stopScan answers).effects else []) ++
    (order.filterMap c.peers.get?).flatMap (fun p => (p.teardown answers).effects) ++
    [c.call answers .close]

end Central

end GattHub
