import GattHub.Host.Call
import GattHub.Journal

/-! What a step does to the outside, in order: calls to the host, notices, lines of the journal. -/

namespace GattHub

inductive Effect (H : Handles) where
  /-- A call to the host, and the refusal if the host turned it down. -/
  | call (central : CentralId) (call : HostCall H) (refusal : Option Refusal)
  | notice (n : Notice)
  | log (e : LogEntry H)
  deriving DecidableEq

variable {H : Handles}

namespace Effect

def call? : Effect H → Option (CentralId × HostCall H)
  | call c k _ => some (c, k)
  | _ => none

def notice? : Effect H → Option Notice
  | notice n => some n
  | _ => none

/-- Each notice is entered in the journal as it goes out. -/
def log? : Effect H → Option (LogEntry H)
  | call .. => none
  | notice n => some (.dispatching n)
  | log e => some e

def calls (es : List (Effect H)) : List (CentralId × HostCall H) := es.filterMap call?

def notices (es : List (Effect H)) : List Notice := es.filterMap notice?

def journal (es : List (Effect H)) : List (LogEntry H) := es.filterMap log?

end Effect

/-- A new state and what happened on the way to it. -/
structure Step (H : Handles) (σ : Type) where
  state : σ
  effects : List (Effect H)

/-- The outcome of a request: a new state, the answer, and what happened on the way. -/
structure Response (H : Handles) (σ α : Type) where
  state : σ
  result : Except Rejection α
  effects : List (Effect H)

end GattHub
