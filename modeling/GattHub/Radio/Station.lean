import GattHub.Desk
import GattHub.Radio.Scene

/-! A hub over a radio, and what can happen to the radio from outside. -/

namespace GattHub.Radio

abbrev Station := Desk handles Stack

namespace Stack

/-- Gives something to the subscribers that can take it, and lets them run. Tells how many did. -/
def deliver (s : Stack) (f : Task → Option Task) : Nat × Stack :=
  let takers := s.subscribers.filterMap fun i => ((s.tasks.get? i).bind f).map fun t => (i, t)
  (takers.length,
    takers.foldl (fun s e => { s with tasks := s.tasks.insert e.1 e.2 }.call e.1) s)

/-- Changes the inbox of a task that has subscribed to the adapter's events. -/
def inListener (f : Inbox AdapterEvent → Inbox AdapterEvent) : Task → Option Task
  | .readState c inbox => some (.readState c (f inbox))
  | .listening c inbox => some (.listening c (f inbox))
  | _ => none

/-- Changes the inbox of a task that forwards the notifications of a device. -/
def inForwarder (d : DeviceId) (f : Inbox Notification → Inbox Notification) :
    Task → Option Task
  | .forwarding a inbox => if a.device = d then some (.forwarding a (f inbox)) else none
  | _ => none

/-- The task whose operation of a kind is held up longest. -/
def longestHeld? (s : Stack) (k : OperationKind) : Option Nat :=
  s.suspended.find? fun i =>
    ((s.tasks.get? i).bind Task.operation?).any fun o => o.kind = k

/-- Lets the operation of a kind that is held up longest go on, if there is one. -/
def release? (s : Stack) (k : OperationKind) : Option Stack :=
  (s.longestHeld? k).map fun i =>
    { s with suspended := s.suspended.erase i }.call i

end Stack

namespace Station

/-- Starts a hub over the adapter of a number, with one feed open. -/
def start (settings : Settings) (platform : Platform) (index : Nat) :
    Except PlatformError Station :=
  (platform.openAdapter index).map fun _ =>
    let s : Station := Desk.start settings (Stack.new platform)
    { s with feeds := s.feeds.opened }

/-- Changes the platform, which nobody is told. -/
def withPlatform (s : Station) (p : Platform) : Station := { s with host.platform := p }

/-- Runs on from a changed stack. -/
def resume {α : Type} (s : Station) (r : α × Stack) : Outcome handles Stack α :=
  let o := Desk.proceed Scene.settle { s with host := r.2 }
  ⟨o.desk, r.1, o.occurrences⟩

/-- Sends an event of the adapter to all who listen, and counts them. -/
def emit (s : Station) (e : AdapterEvent) : Outcome handles Stack Nat :=
  s.resume (s.host.deliver (Stack.inListener (·.push e)))

/-- Ends the adapter's events. -/
def endEvents (s : Station) : Outcome handles Stack Nat :=
  s.resume (s.host.deliver (Stack.inListener Inbox.ending))

/-- Sends a notification of a device to all who listen, and counts them. -/
def notify (s : Station) (d : DeviceId) (n : Notification) : Outcome handles Stack Nat :=
  s.resume (s.host.deliver (Stack.inForwarder d (·.push n)))

/-- Ends the notifications of a device. -/
def endNotifications (s : Station) (d : DeviceId) : Outcome handles Stack Nat :=
  s.resume (s.host.deliver (Stack.inForwarder d Inbox.ending))

/-- Lets a held operation go on. The answer tells whether there was one. -/
def release (s : Station) (k : OperationKind) : Outcome handles Stack Bool :=
  match s.host.release? k with
  | some host => s.resume (true, host)
  | none => s.resume (false, s.host)

end Station

end GattHub.Radio
