import GattHub.Radio.Stack
import GattHub.Worker.Basic

/-! The worker and the tasks of a radio together. Each runs in its turn until it has to wait;
whoever gets something to do goes to the end of the line. A task that was woken from outside waits
until the line is empty, so that all that one brings about is over before the next begins. -/

namespace GattHub.Radio

/-- A worker over a radio, in the course of a step. -/
abbrev Scene := Turn handles Stack

namespace Scene

def enter (t : Scene) (e : Entry) : Scene := t.log [.line e.line]

def withStack (t : Scene) (s : Stack) : Scene := { t with host := s }

def post (t : Scene) (c : CentralId) (r : Report handles) : Scene :=
  if t.worker.running then
    ⟨t.worker.post (.report c r), t.host.wake .worker, t.occurrences⟩
  else t

def become (t : Scene) (i : Nat) (task : Task) : Scene :=
  t.withStack { t.host with tasks := t.host.tasks.insert i task }

def finish (t : Scene) (i : Nat) : Scene :=
  t.withStack { t.host with
    tasks := t.host.tasks.erase i, subscribers := t.host.subscribers.erase i }

def subscribed (t : Scene) (i : Nat) (task : Task) : Scene :=
  (t.withStack (t.host.subscribed i)).become i task

/-- Takes in that a device advertises. -/
def advertise (t : Scene) (c : CentralId) (d : DeviceId) : Scene :=
  match t.host.platform.perform (.peripheral d), t.host.platform.perform (.properties d) with
  | .ok _, .ok (some properties) =>
    (t.withStack (t.host.noteDevice c d)).post c
      (.advertised (properties.advertisement d.peer))
  | _, _ => t

def hear (c : CentralId) (t : Scene) : AdapterEvent → Scene
  | .discovered d | .updated d => t.advertise c d
  | .disconnected d =>
    ((t.enter (.linkLost d)).withStack (t.host.closeLink c d.peer)).post c
      (.peer d.peer (.disconnected .ok))
  | .stateUpdated s => (t.enter (.stateUpdated s)).post c s.report
  | .connected _ | .servicesAdvertised .. => t

def stopListening (t : Scene) (i : Nat) (c : CentralId) : Scene :=
  (t.enter (.listenerStopped c)).finish i

def listen (t : Scene) (i : Nat) (c : CentralId) : Scene :=
  match t.host.platform.perform .events with
  | .ok _ => t.subscribed i (.readState c .empty)
  | .error e => ((t.enter (.listenFailed e)).post c (.stateChanged false e.message)).finish i

def readState (t : Scene) (i : Nat) (c : CentralId) (inbox : Inbox AdapterEvent) : Scene :=
  let reported :=
    match t.host.platform.perform .adapterState with
    | .ok s => t.post c s.report
    | .error e => (t.enter (.stateUnavailable e)).post c (.stateChanged true "adapter ready")
  reported.become i (.listening c inbox)

/-- Takes in the next event of the adapter, unless the manager is closed or no more come. -/
def listening (t : Scene) (i : Nat) (c : CentralId) (inbox : Inbox AdapterEvent) : Scene :=
  match inbox.items with
  | e :: rest =>
    if t.host.isOpen c then hear c (t.become i (.listening c { inbox with items := rest })) e
    else t.stopListening i c
  | [] => t.stopListening i c

def stopForwarding (t : Scene) (i : Nat) (a : Attempt) : Scene :=
  (t.enter (.forwarderEnded a.peer)).finish i

/-- Passes the next notification on, unless the link is closed or no more come. -/
def forwarding (t : Scene) (i : Nat) (a : Attempt) (inbox : Inbox Notification) : Scene :=
  match inbox.items with
  | n :: rest =>
    if t.host.isLive a && t.worker.running then
      (t.become i (.forwarding a { inbox with items := rest })).post a.central
        (.peer a.peer (.characteristicRead .ok n.uuid n.value))
    else t.stopForwarding i a
  | [] => t.stopForwarding i a

def subscribe (t : Scene) (i : Nat) (a : Attempt) : Scene :=
  match t.host.platform.perform (.notifications a.device) with
  | .ok _ => t.subscribed i (.forwarding a .empty)
  | .error e => (t.enter (.notificationsFailed a.peer e)).finish i

/-- An operation goes on the air, where it may be held up. -/
def begin (t : Scene) (i : Nat) (o : Operation) (next : Task) : Scene :=
  let begun := t.become i next
  if o.isOnAir then
    begun.withStack { begun.host with
      made := begun.host.made ++ [o]
      suspended := if t.host.platform.holds o then begun.host.suspended ++ [i]
        else begun.host.suspended }
  else begun

def switched (t : Scene) (i : Nat) (on : Bool) : Scene :=
  match t.host.platform.perform (if on then .startScan else .stopScan) with
  | .ok _ => t.finish i
  | .error e => (t.enter (if on then .startScanFailed e else .stopScanFailed e)).finish i

/-- The radio is done with a job, and the outcome is reported. -/
def answered (t : Scene) (i : Nat) (c : CentralId) (p : PeerId) (d : DeviceId) (job : Job) :
    Scene :=
  let r := t.host.platform.perform (job.operation d)
  let entered := (job.entry p d r).elim t t.enter
  ((job.report d r).elim entered fun report => entered.post c (.peer p report)).finish i

/-- The radio is done with a connect. The result is reported before anything else. -/
def connected (t : Scene) (i : Nat) (a : Attempt) : Scene :=
  let r := t.host.platform.perform (.connect a.device)
  let reported := t.post a.central (.peer a.peer (.connected (PlatformError.statusOf r)))
  match r with
  | .ok _ => reported.become i (.subscribe a)
  | .error _ => reported.finish i

def go (t : Scene) (i : Nat) : Task → Scene
  | .listen c => t.listen i c
  | .readState c inbox => t.readState i c inbox
  | .listening c inbox => t.listening i c inbox
  | .switchScan on true => t.switched i on
  | .switchScan on false =>
    t.begin i (if on then .startScan else .stopScan) (.switchScan on true)
  | .request c p d job true => t.answered i c p d job
  | .request c p d job false => t.begin i (job.operation d) (.request c p d job true)
  | .connect a true => t.connected i a
  | .connect a false => t.begin i (.connect a.device) (.connect a true)
  | .subscribe a => t.subscribe i a
  | .forwarding a inbox => t.forwarding i a inbox

/-- One step of a task that has not ended and does not have to wait. -/
def stepTask (i : Nat) (t : Scene) : Scene :=
  match t.host.tasks.get? i with
  | some task => if t.host.waits i task then t else t.go i task
  | none => t

/-- Lets a task run up to where it has to wait. -/
def runTask (t : Scene) (i : Nat) : Scene :=
  match t.host.tasks.get? i with
  | some task => Nat.repeat (stepTask i) task.work t
  | none => t

def run (t : Scene) : Runner → Scene
  | .worker => t.settle Stack.host
  | .task i => t.runTask i

def runNext (t : Scene) : Scene :=
  match t.host.ready with
  | [] => t
  | r :: rest => run (t.withStack { t.host with ready := rest }) r

/-- Lets everybody have a turn who is in line now. -/
def round (t : Scene) : Scene := Nat.repeat runNext t.host.ready.length t

/-- Runs until nobody is in line. The worker starts tasks, tasks wake each other and post reports,
and reports start nothing, so that the line is empty after a few rounds. -/
def clear (t : Scene) : Scene := Nat.repeat round 6 t

/-- Lets the first task run that was woken from outside, and all that it wakes. -/
def answerCall (t : Scene) : Scene :=
  match t.host.called with
  | [] => t
  | i :: rest => ((t.withStack { t.host with called := rest }).runTask i).clear

/-- Runs until nobody has anything to do. -/
def settle (t : Scene) : Scene :=
  Nat.repeat answerCall t.host.called.length
    (clear (if t.worker.queue.isEmpty then t else t.withStack (t.host.wake .worker)))

end Scene

end GattHub.Radio
