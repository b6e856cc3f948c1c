import GattHub.Host.Report
import GattHub.Notice.Basic

/-! A tracked peer: its link, its attributes, and the operations that await an outcome. -/

namespace GattHub

/-- An accepted operation whose outcome is still to come. Discoveries remember the parent they
were asked for, other operations the attribute's identifier. -/
inductive Pending where
  | services
  | characteristics (service : AttrId)
  | descriptors (characteristic : AttrId)
  | readCharacteristic (uuid : Uuid)
  | writeCharacteristic (uuid : Uuid)
  | readDescriptor (uuid : Uuid)
  | writeDescriptor (uuid : Uuid)
  | notifyState (uuid : Uuid)
  | rssi
  deriving DecidableEq

namespace Pending

def tier? : Pending → Option Tier
  | services => some .services
  | characteristics _ => some .characteristics
  | descriptors _ => some .descriptors
  | _ => none

def service? : Pending → Option AttrId
  | characteristics id => some id
  | _ => none

def characteristic? : Pending → Option AttrId
  | descriptors id => some id
  | _ => none

def cancelled : Pending → PeerNotice
  | services => .servicesDiscovered .cancelled []
  | characteristics _ => .characteristicsDiscovered .cancelled []
  | descriptors _ => .descriptorsDiscovered .cancelled []
  | readCharacteristic uuid => .characteristicRead .cancelled uuid []
  | writeCharacteristic uuid => .characteristicWritten .cancelled uuid
  | readDescriptor uuid => .descriptorRead .cancelled uuid []
  | writeDescriptor uuid => .descriptorWritten .cancelled uuid
  | notifyState uuid => .notificationStateChanged .cancelled uuid false
  | rssi => .rssiRead .cancelled .unknown

def text : Pending → String
  | services => "Services"
  | characteristics id => Text.wrapped "Characteristics" (Text.wrapped "AttrId" id.text)
  | descriptors id => Text.wrapped "Descriptors" (Text.wrapped "AttrId" id.text)
  | readCharacteristic uuid => Text.wrapped "ReadCharacteristic" uuid.text
  | writeCharacteristic uuid => Text.wrapped "WriteCharacteristic" uuid.text
  | readDescriptor uuid => Text.wrapped "ReadDescriptor" uuid.text
  | writeDescriptor uuid => Text.wrapped "WriteDescriptor" uuid.text
  | notifyState uuid => Text.wrapped "NotifyState" uuid.text
  | rssi => "Rssi"

/-- Takes out the oldest operation with a given property. -/
def take? (matching : Pending → Bool) (queue : List Pending) : Option (Pending × List Pending) :=
  (queue.find? matching).map fun p => (p, queue.eraseP matching)

/-- Takes out the discovery that a completion answers, given which parent a discovery has: the
one for the current identity of the parent, else the oldest. Gives the parent asked for. -/
def takeDiscovery? (parent? : Pending → Option AttrId) (current : Option AttrId)
    (queue : List Pending) : Option (AttrId × List Pending) :=
  let parents := queue.filterMap parent?
  let requested := (current.filter (· ∈ parents)).or parents.head?
  requested.map fun id => (id, queue.eraseP (parent? · = some id))

end Pending

structure Peer (H : Handles) where
  central : CentralId
  id : PeerId
  native : H.Peer
  state : LinkState
  /-- The last level seen in an advertisement or a read. -/
  rssi : Option Level
  tree : Gatt.Tree H.Service H.Characteristic H.Descriptor
  pending : List Pending
  /-- The characteristics whose values are passed on as notifications. -/
  subscriptions : List Uuid

structure PeerInfo where
  peer : PeerId
  state : LinkState
  rssi : Option Level
  /-- The tiers under discovery, oldest request first. -/
  discovering : List Tier
  pendingOperations : Nat
  deriving DecidableEq

namespace Peer

variable {H : Handles}

def new (central : CentralId) (id : PeerId) (native : H.Peer) : Peer H :=
  ⟨central, id, native, .disconnected, none, ∅, [], []⟩

def info (p : Peer H) : PeerInfo :=
  ⟨p.id, p.state, p.rssi, p.pending.filterMap Pending.tier?, p.pending.length⟩

def observe (p : Peer H) (level : Level) : Peer H :=
  if level = .unknown then p else { p with rssi := some level }

def notice (p : Peer H) (n : PeerNotice) : Notice := .peer p.central p.id n

end Peer

end GattHub
