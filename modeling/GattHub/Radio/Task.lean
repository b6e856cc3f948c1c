import GattHub.Radio.Job

/-! Tasks: what a radio stack has going on at one time. A task runs until it has to wait. -/

namespace GattHub.Radio

/-- One attempt at a link. A link that was closed is never opened again. -/
structure LinkId where
  raw : Nat
  deriving DecidableEq

inductive AdapterEvent where
  | discovered (d : DeviceId)
  | updated (d : DeviceId)
  | connected (d : DeviceId)
  | disconnected (d : DeviceId)
  | servicesAdvertised (d : DeviceId) (services : List Uuid)
  | stateUpdated (s : AdapterState)
  deriving DecidableEq

structure Notification where
  uuid : Uuid
  value : Octets
  deriving DecidableEq

/-- What a task has received and not looked at yet, oldest first, and whether more can come. -/
structure Inbox (α : Type) where
  items : List α
  ended : Bool
  deriving DecidableEq

namespace Inbox

variable {α : Type}

def empty : Inbox α := ⟨[], false⟩

def push (i : Inbox α) (a : α) : Inbox α := { i with items := i.items ++ [a] }

def ending (i : Inbox α) : Inbox α := { i with ended := true }

end Inbox

/-- A connect under way, or the link that came of it. -/
structure Attempt where
  central : CentralId
  peer : PeerId
  device : DeviceId
  link : LinkId
  deriving DecidableEq

/-- A task, by what it does next. An operation that has begun goes on when the radio is done. -/
inductive Task where
  /-- Subscribes to the adapter's events for a manager. -/
  | listen (c : CentralId)
  /-- Reads the state of the adapter, with the subscription open. -/
  | readState (c : CentralId) (inbox : Inbox AdapterEvent)
  | listening (c : CentralId) (inbox : Inbox AdapterEvent)
  /-- Switches the scan of the radio. -/
  | switchScan (on begun : Bool)
  | request (c : CentralId) (p : PeerId) (d : DeviceId) (job : Job) (begun : Bool)
  | connect (a : Attempt) (begun : Bool)
  /-- Subscribes to the notifications of a new link. -/
  | subscribe (a : Attempt)
  /-- Passes the notifications of a link on. -/
  | forwarding (a : Attempt) (inbox : Inbox Notification)
  deriving DecidableEq

namespace Task

def operation? : Task → Option Operation
  | switchScan on _ => some (if on then .startScan else .stopScan)
  | request _ _ d job _ => some (job.operation d)
  | connect a _ => some (.connect a.device)
  | listen _ | readState .. | listening .. | subscribe _ | forwarding .. => none

/-- How many steps a task takes at most before it has to wait. -/
def work : Task → Nat
  | listen _ => 3
  | readState _ inbox => inbox.items.length + 2
  | listening _ inbox => inbox.items.length + 1
  | switchScan .. | request .. => 2
  | connect .. => 4
  | subscribe _ => 2
  | forwarding _ inbox => inbox.items.length + 1

end Task

/-- Operations that only look things up are neither held up nor recorded. -/
def Operation.isOnAir : Operation → Bool
  | .events | .adapterState | .peripheral _ | .properties _ | .notifications _ => false
  | _ => true

end GattHub.Radio
