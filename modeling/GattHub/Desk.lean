import GattHub.Feed
import GattHub.Hub.Snapshot
import GattHub.Worker.Basic

/-! The desk: where callers put their requests, hosts their reports, and readers open feeds. It
holds a worker and the host beneath it, and runs them until nothing is left to do. -/

namespace GattHub

structure Desk (H : Handles) (σ : Type) where
  worker : Worker H
  host : σ
  feeds : Feeds

/-- The desk after a step, what was answered, and what happened meanwhile. -/
structure Outcome (H : Handles) (σ α : Type) where
  desk : Desk H σ
  answer : α
  occurrences : List (Occurrence H)

namespace Desk

variable {H : Handles} {σ : Type}

def start (settings : Settings) (host : σ) : Desk H σ :=
  ⟨.start settings, host, .new settings.eventCapacity⟩

/-- Whether callers still hold the hub. -/
def held (d : Desk H σ) : Bool := !d.feeds.ended

variable (run : Turn H σ → Turn H σ)

def proceed (d : Desk H σ) : Outcome H σ Unit :=
  let t := run ⟨d.worker, d.host, []⟩
  ⟨⟨t.worker, t.host, d.feeds.push (Occurrence.notices t.occurrences)⟩, (), t.occurrences⟩

def ask (d : Desk H σ) (r : Request String) : Outcome H σ (Except Rejection Reply) :=
  match d.worker.submit 0 r with
  | .error reason =>
    let o := d.proceed run
    ⟨o.desk, .error reason, o.occurrences⟩
  | .ok w =>
    let o := { d with worker := w }.proceed run
    ⟨o.desk, (Occurrence.replyTo? 0 o.occurrences).getD (.error .closed), o.occurrences⟩

/-- Puts a report of the host to a manager. The answer tells whether anyone takes it. -/
def post (d : Desk H σ) (c : CentralId) (r : Report H) : Outcome H σ Bool :=
  let o := { d with worker := d.worker.post (.report c r) }.proceed run
  ⟨o.desk, d.worker.running, o.occurrences⟩

/-- Lets go of the hub: the feeds end, and the worker closes everything and stops. -/
def close (d : Desk H σ) : Outcome H σ Unit :=
  { d with worker := d.worker.post .shutdown, feeds := d.feeds.ending }.proceed run

/-- Runs until idle, then takes the ground from under the worker, while callers still hold the
hub. -/
def abandon (d : Desk H σ) : Outcome H σ Unit :=
  let o := d.proceed run
  { o with desk.worker := o.desk.worker.abandon }

def view (d : Desk H σ) : List CentralView :=
  match d.worker.hub with
  | some h => h.view
  | none => []

end Desk

end GattHub
