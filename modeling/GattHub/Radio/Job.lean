import GattHub.Radio.Journal

/-! Jobs: the one operation that a request to a peer takes, and the report of its outcome. -/

namespace GattHub.Radio

/-- A request that goes over the air. A connect is a task of its own. -/
inductive Job where
  | disconnect
  | discoverServices (filter : List Uuid)
  | read (c : Characteristic)
  | write (c : Characteristic) (value : Octets) (noResponse : Bool)
  | readDescriptor (d : Descriptor)
  | writeDescriptor (d : Descriptor) (value : Octets)
  | subscribe (c : Characteristic)
  | unsubscribe (c : Characteristic)
  | readRssi
  deriving DecidableEq

/-- Whether a filter lets an identifier through. An empty filter lets all through. -/
def matchesFilter (filter : List Uuid) (u : Uuid) : Bool := filter.isEmpty || filter.contains u

/-- The services of an outcome that a filter lets through. -/
def foundServices (filter : List Uuid) (services : List Service) : List (Gatt.Found Service) :=
  (services.filter fun s => matchesFilter filter s.uuid).map fun s => ⟨s, s.uuid⟩

def foundCharacteristics (filter : List Uuid) (s : Service) :
    List (Gatt.FoundCharacteristic Characteristic) :=
  (s.characteristics.filter fun c => matchesFilter filter c.uuid).map fun c =>
    ⟨c, c.uuid, c.properties⟩

def foundDescriptors (c : Characteristic) : List (Gatt.Found Descriptor) :=
  c.descriptors.map fun d => ⟨d, d.uuid⟩

/-- What an outcome holds, or a default if it is a failure. -/
def valueOr {α : Type} (d : α) : Except PlatformError α → α
  | .ok a => a
  | .error _ => d

namespace Job

open PlatformError (statusOf)

def operation (d : DeviceId) : Job → Operation
  | disconnect => .disconnect d
  | discoverServices _ => .discoverServices d
  | read c => .read d c
  | write c value noResponse => .write d c value !noResponse
  | readDescriptor descriptor => .readDescriptor d descriptor
  | writeDescriptor descriptor value => .writeDescriptor d descriptor value
  | subscribe c => .subscribe d c
  | unsubscribe c => .unsubscribe d c
  | readRssi => .properties d

/-- The report of the outcome. Only a write without response has none. -/
def report (d : DeviceId) : (j : Job) → Except PlatformError (j.operation d).Result →
    Option (PeerReport handles)
  | disconnect, _ => some (.disconnected .ok)
  | discoverServices filter, r =>
    some (.servicesDiscovered (statusOf r) (foundServices filter (valueOr [] r)))
  | read c, r => some (.characteristicRead (statusOf r) c.uuid (valueOr [] r))
  | write c _ noResponse, r =>
    if noResponse then none else some (.characteristicWritten (statusOf r) c.uuid)
  | readDescriptor descriptor, r =>
    some (.descriptorRead (statusOf r) descriptor.uuid (valueOr [] r))
  | writeDescriptor descriptor _, r => some (.descriptorWritten (statusOf r) descriptor.uuid)
  | subscribe c, r =>
    some (.notificationStateChanged (statusOf r) c.uuid r.isOk)
  | unsubscribe c, r => some (.notificationStateChanged (statusOf r) c.uuid false)
  | readRssi, r =>
    some (.rssiRead (statusOf r) (((valueOr none r).bind Properties.rssi).getD .unknown))

/-- The journal's entry for a failure that is reported nowhere else. -/
def entry (p : PeerId) (d : DeviceId) : (j : Job) →
    Except PlatformError (j.operation d).Result → Option Entry
  | disconnect, .error e => some (.disconnectFailed p e)
  | write _ _ true, .error e => some (.writeFailed p e)
  | _, _ => none

end Job

end GattHub.Radio
