import GattHub.Host.Stack
import GattHub.Radio.Task

/-! The radio stack: every manager opened on it shares the adapter. A request starts a task; the
radio scans as long as any manager does. -/

namespace GattHub.Radio

structure Side where
  scanning : Bool
  /-- The manager was closed. Its listener and its forwarders end. -/
  closed : Bool
  devices : Table PeerId DeviceId
  /-- The link of each peer that was opened last and not closed since. -/
  links : Table PeerId LinkId

def Side.blank : Side := ⟨false, false, ∅, ∅⟩

/-- Who waits for a turn. -/
inductive Runner where
  | worker
  | task (i : Nat)
  deriving DecidableEq

structure Stack where
  platform : Platform
  /-- How many managers scan. -/
  scans : Nat
  sides : Table CentralId Side
  tasks : Table Nat Task
  nextTask : Nat
  nextLink : Nat
  ready : List Runner
  /-- The tasks that were woken from outside. They run when nobody else is to. -/
  called : List Nat
  /-- The tasks that have subscribed to what comes from outside, in that order. -/
  subscribers : List Nat
  /-- The tasks whose operation is held up, longest first. -/
  suspended : List Nat
  /-- The operations on the air so far. -/
  made : List Operation

namespace Stack

def new (platform : Platform) : Stack := ⟨platform, 0, ∅, ∅, 0, 0, [], [], [], [], []⟩

/-- Whether somebody waits for a turn already. -/
def isWaiting (s : Stack) (r : Runner) : Bool :=
  r ∈ s.ready || r ∈ s.called.map Runner.task

def wake (s : Stack) (r : Runner) : Stack :=
  if s.isWaiting r then s else { s with ready := s.ready ++ [r] }

/-- Lets a task run because of something from outside. -/
def call (s : Stack) (i : Nat) : Stack :=
  if s.isWaiting (.task i) then s else { s with called := s.called ++ [i] }

def subscribed (s : Stack) (i : Nat) : Stack := { s with subscribers := s.subscribers ++ [i] }

def spawn (s : Stack) (t : Task) : Stack :=
  { s with tasks := s.tasks.insert s.nextTask t, nextTask := s.nextTask + 1 }.wake
    (.task s.nextTask)

def isOpen (s : Stack) (c : CentralId) : Bool := (s.sides.get? c).any fun side => !side.closed

/-- Whether a link is the one of its peer and was not closed, nor was its manager. -/
def isLive (s : Stack) (a : Attempt) : Bool :=
  (s.sides.get? a.central).any fun side =>
    !side.closed && side.links.get? a.peer = some a.link

/-- Whether a task has to wait: for its operation, or for something to come in. -/
def waits (s : Stack) (i : Nat) (t : Task) : Bool :=
  i ∈ s.suspended ||
    match t with
    | .listening c inbox => s.isOpen c && inbox.items.isEmpty && !inbox.ended
    | .forwarding a inbox => s.isLive a && inbox.items.isEmpty && !inbox.ended
    | _ => false

/-- Lets the tasks run that have a property. -/
def wakeTasks (s : Stack) (p : Task → Bool) : Stack :=
  (s.tasks.entries.filter fun e => p e.2).foldl (fun s e => s.wake (.task e.1)) s

/-- Whether a task passes on the notifications of a peer's link. -/
def forwards (c : CentralId) (p : PeerId) : Task → Bool
  | .forwarding a _ => a.central = c && a.peer = p
  | _ => false

def noteDevice (s : Stack) (c : CentralId) (d : DeviceId) : Stack :=
  { s with sides := s.sides.modify c fun side =>
      { side with devices := side.devices.insert d.peer d } }

/-- Closes the link of a peer, which ends the forwarder of it. -/
def closeLink (s : Stack) (c : CentralId) (p : PeerId) : Stack :=
  { s with sides := s.sides.modify c fun side =>
      { side with links := side.links.erase p } }.wakeTasks (forwards c p)

/-- Opens a link to a peer, which ends the forwarder of any earlier one. -/
def openLink (s : Stack) (c : CentralId) (p : PeerId) : LinkId × Stack :=
  let link : LinkId := ⟨s.nextLink⟩
  (link,
    { s with
      sides := s.sides.modify c fun side => { side with links := side.links.insert p link }
      nextLink := s.nextLink + 1 }.wakeTasks (forwards c p))

/-- Whether a task watches for the close of a manager. -/
def watches (c : CentralId) : Task → Bool
  | .listening c' _ => c' = c
  | .forwarding a _ => a.central = c
  | _ => false

/-- Counts a manager that begins to scan. The first one starts the radio's scan. -/
def startScan (s : Stack) (c : CentralId) : Stack × List Entry :=
  match s.sides.get? c with
  | some side =>
    if side.scanning then (s, [])
    else
      let counted := { s with
        sides := s.sides.insert c { side with scanning := true }, scans := s.scans + 1 }
      if s.scans = 0 then (counted.spawn (.switchScan true false), []) else (counted, [.scanShared])
  | none => (s, [])

/-- Counts a manager that ends its scan. The last one stops the radio's scan. -/
def stopScan (s : Stack) (c : CentralId) : Stack × List Entry :=
  match s.sides.get? c with
  | some side =>
    if side.scanning then
      let counted := { s with
        sides := s.sides.insert c { side with scanning := false }, scans := s.scans - 1 }
      if s.scans = 1 then (counted.spawn (.switchScan false false), [])
      else (counted, [.scanStillShared])
    else (s, [])
  | none => (s, [])

/-- Closes a manager: its scan ends, and so do its listener and its forwarders. -/
def close (s : Stack) (c : CentralId) : Stack × List Entry :=
  let stopped := s.stopScan c
  ({ stopped.1 with sides := stopped.1.sides.modify c fun side => { side with closed := true }
    }.wakeTasks (watches c),
    stopped.2 ++ [.closed c])

/-- Drops a manager, closed or not. A scan that it still has counts no longer, and the radio is not
told. -/
def drop (s : Stack) (c : CentralId) : Stack :=
  { s with
    scans := if (s.sides.get? c).any Side.scanning then s.scans - 1 else s.scans
    sides := s.sides.erase c }.wakeTasks (watches c)

/-- What becomes of a call to a peer: the job that it starts, if it goes over the air. -/
def job? : PeerCall handles → Option Job
  | .discoverServices filter => some (.discoverServices filter)
  | .readCharacteristic c => some (.read c)
  | .writeCharacteristic c value noResponse => some (.write c value noResponse)
  | .readDescriptor d => some (.readDescriptor d)
  | .writeDescriptor d value => some (.writeDescriptor d value)
  | .subscribe c => some (.subscribe c)
  | .unsubscribe c => some (.unsubscribe c)
  | .readRssi => some .readRssi
  | .cancelConnection => some .disconnect
  | .connect | .attMtu | .discoverCharacteristics .. | .discoverDescriptors _ => none

/-- What is known at once: services come with their whole subtree. -/
def report? : PeerCall handles → Option (PeerReport handles)
  | .discoverCharacteristics s filter =>
    some (.characteristicsDiscovered .ok s (foundCharacteristics filter s))
  | .discoverDescriptors c => some (.descriptorsDiscovered .ok c (foundDescriptors c))
  | _ => none

def acceptPeer (s : Stack) (c : CentralId) (p : PeerId) (d : DeviceId) (k : PeerCall handles) :
    Stack :=
  match k with
  | .connect =>
    let opened := s.openLink c p
    opened.2.spawn (.connect ⟨c, p, d, opened.1⟩ false)
  | .cancelConnection => (s.closeLink c p).spawn (.request c p d .disconnect false)
  | k =>
    match job? k with
    | some job => s.spawn (.request c p d job false)
    | none => s

def accept (s : Stack) (c : CentralId) : HostCall handles → Acceptance handles Stack
  | .openCentral =>
    ⟨{ s with sides := s.sides.insert c .blank }.spawn (.listen c), [], [(Entry.opened c).line]⟩
  | .scan _ => of (s.startScan c)
  | .stopScan => of (s.stopScan c)
  | .close =>
    -- A manager is dropped as soon as it is closed.
    let closed := s.close c
    of (closed.1.drop c, closed.2)
  | .lookup _ => ⟨s, [], []⟩
  | .peer n k =>
    ⟨s.acceptPeer c n.1 n.2 k, (report? k).toList.map fun r => (c, .peer n.1 r), []⟩
where
  of (r : Stack × List Entry) : Acceptance handles Stack := ⟨r.1, [], r.2.map Entry.line⟩

/-- No call is ever turned down; a peer is known once it advertised. -/
def answers (s : Stack) : Answers handles where
  refusal _ _ := none
  lookup c p := ((s.sides.get? c).bind fun side => side.devices.get? p).map fun d => (p, d)
  attMtu _ _ := none

def host : HostStack handles Stack := ⟨answers, fun s c k _ => s.accept c k⟩

end Stack

end GattHub.Radio
