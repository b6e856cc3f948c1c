import GattHub.Host.Stack
import GattHub.Hub.Basic

/-! The worker: it takes messages off one queue, first in, first out, and hands what a step does
to the host. What the host posts meanwhile goes to the end of the queue. -/

namespace GattHub

/-- A message on the queue. A request carries the ticket of the caller who waits for its reply. -/
inductive Message (H : Handles) where
  /-- The first message: the worker begins. -/
  | start
  | request (ticket : Nat) (r : Request PeerId)
  | report (c : CentralId) (r : Report H)
  | shutdown

/-- What happens while messages are handled, in order. -/
inductive Occurrence (H : Handles) where
  | effect (e : Effect H)
  | reply (ticket : Nat) (r : Except Rejection Reply)
  /-- A line that the host enters into the journal. -/
  | line (l : LogLine)

variable {H : Handles}

namespace Occurrence

def effect? : Occurrence H → Option (Effect H)
  | effect e => some e
  | _ => none

def reply? : Occurrence H → Option (Nat × Except Rejection Reply)
  | reply t r => some (t, r)
  | _ => none

def line? : Occurrence H → Option LogLine
  | effect e => e.log?.map LogEntry.line
  | reply .. => none
  | line l => some l

def effects (os : List (Occurrence H)) : List (Effect H) := os.filterMap effect?

def notices (os : List (Occurrence H)) : List Notice := Effect.notices (effects os)

def lines (os : List (Occurrence H)) : List LogLine := os.filterMap line?

def replyTo? (ticket : Nat) (os : List (Occurrence H)) : Option (Except Rejection Reply) :=
  (os.filterMap reply?).lookup ticket

end Occurrence

/-- A hub with the queue in front of it. The hub is gone once the worker has stopped. -/
structure Worker (H : Handles) where
  hub : Option (Hub H)
  queue : List (Message H)

namespace Worker

def start (settings : Settings) : Worker H := ⟨some (.new settings), [.start]⟩

def running (w : Worker H) : Bool := w.hub.isSome

def post (w : Worker H) (m : Message H) : Worker H :=
  if w.running then { w with queue := w.queue ++ [m] } else w

/-- Takes in a request as callers make it. A text that names no peer is turned down at once,
and so is every request when the worker has stopped. -/
def submit (w : Worker H) (ticket : Nat) (r : Request String) : Except Rejection (Worker H) :=
  r.resolve.bind fun r =>
    if w.running then .ok (w.post (.request ticket r)) else .error .closed

/-- The worker as it is left when the ground is taken from under it: nothing is closed. -/
def abandon (w : Worker H) : Worker H := { w with hub := none, queue := [] }

end Worker

/-- A hub at work, its host, and what has happened so far. -/
structure Turn (H : Handles) (σ : Type) where
  worker : Worker H
  host : σ
  occurrences : List (Occurrence H)

namespace Turn

variable {σ : Type}

def log (t : Turn H σ) (os : List (Occurrence H)) : Turn H σ :=
  { t with occurrences := t.occurrences ++ os }

def deliver (host : HostStack H σ) (t : Turn H σ) (e : Effect H) : Turn H σ :=
  match e with
  | .call c k refusal =>
    let a := host.accept t.host c k refusal
    ⟨a.posts.foldl (fun w p => w.post (.report p.1 p.2)) t.worker, a.state,
      t.occurrences ++ .effect e :: a.lines.map .line⟩
  | _ => t.log [.effect e]

/-- Goes over to the next state of the hub and hands the effects to the host. -/
def advance (host : HostStack H σ) (t : Turn H σ) (s : Step H (Hub H)) : Turn H σ :=
  s.effects.foldl (deliver host) { t with worker.hub := some s.state }

/-- A caller who still waits when the worker stops is told that it has. -/
def dismissed : Message H → Option (Occurrence H)
  | .request ticket _ => some (.reply ticket (.error .closed))
  | _ => none

def stop (host : HostStack H σ) (t : Turn H σ) (h : Hub H) : Turn H σ :=
  let closed := t.advance host (h.shutdown (host.answers t.host))
  { closed with worker.hub := none }.log [.effect (.log .stopped)]

def take (host : HostStack H σ) (t : Turn H σ) (m : Message H) : Turn H σ :=
  match t.worker.hub, m with
  | none, _ => t.log (dismissed m).toList
  | some _, .start => t.log [.effect (.log .started)]
  | some h, .request ticket r =>
    let response := h.request (host.answers t.host) r
    (t.advance host ⟨response.state, response.effects⟩).log [.reply ticket response.result]
  | some h, .report c r => t.advance host (h.receive c r)
  | some h, .shutdown => t.stop host h

def round (host : HostStack H σ) (t : Turn H σ) : Turn H σ :=
  t.worker.queue.foldl (take host) { t with worker.queue := [] }

/-- Handles all messages, also those that the host posts while requests are handled. Reports make
no calls, so nothing is posted in the second round. -/
def settle (host : HostStack H σ) (t : Turn H σ) : Turn H σ := (t.round host).round host

end Turn

end GattHub
