import GattHub.Radio.Handles
import GattHub.Radio.PlatformError
import GattHub.Table

/-! The platform: the adapters, the devices in reach, and the operations on them. Each operation
fails if it was set to, and some can be held up. -/

namespace GattHub.Radio

inductive AdapterState where
  | poweredOn | poweredOff | unknown
  deriving DecidableEq

structure Properties where
  rssi : Option Level
  powerLevel : Option Level
  localName : Option String
  services : List Uuid
  /-- Advertised bytes by company. -/
  manufacturerData : Table UInt16 Octets
  /-- Advertised bytes by service. -/
  serviceData : Table Uuid Octets

structure Device where
  properties : Option Properties
  services : List Service
  /-- What a read of a characteristic or descriptor gives, by the text of its identifier. -/
  values : Table String Octets

inductive OperationKind where
  | openManager | adapters | events | adapterState | peripheral | properties | notifications
  | startScan | stopScan | connect | disconnect | discoverServices | read | write
  | subscribe | unsubscribe | readDescriptor | writeDescriptor
  deriving DecidableEq

inductive Operation where
  | events
  | adapterState
  | peripheral (d : DeviceId)
  | properties (d : DeviceId)
  | notifications (d : DeviceId)
  | startScan
  | stopScan
  | connect (d : DeviceId)
  | disconnect (d : DeviceId)
  | discoverServices (d : DeviceId)
  | read (d : DeviceId) (c : Characteristic)
  | write (d : DeviceId) (c : Characteristic) (value : Octets) (response : Bool)
  | subscribe (d : DeviceId) (c : Characteristic)
  | unsubscribe (d : DeviceId) (c : Characteristic)
  | readDescriptor (d : DeviceId) (descriptor : Descriptor)
  | writeDescriptor (d : DeviceId) (descriptor : Descriptor) (value : Octets)
  deriving DecidableEq

namespace Operation

def kind : Operation → OperationKind
  | events => .events
  | adapterState => .adapterState
  | peripheral _ => .peripheral
  | properties _ => .properties
  | notifications _ => .notifications
  | startScan => .startScan
  | stopScan => .stopScan
  | connect _ => .connect
  | disconnect _ => .disconnect
  | discoverServices _ => .discoverServices
  | read .. => .read
  | write .. => .write
  | subscribe .. => .subscribe
  | unsubscribe .. => .unsubscribe
  | readDescriptor .. => .readDescriptor
  | writeDescriptor .. => .writeDescriptor

abbrev Result : Operation → Type
  | adapterState => AdapterState
  | properties _ => Option Properties
  | discoverServices _ => List Service
  | read .. | readDescriptor .. => Octets
  | _ => Unit

end Operation

structure Platform where
  adapters : Nat
  state : AdapterState
  devices : Table DeviceId Device
  failures : Table OperationKind PlatformError
  /-- The kinds of operation that are held up. -/
  held : List OperationKind

namespace Platform

/-- The value of an attribute; of an unknown one, nothing. -/
def value (p : Platform) (d : DeviceId) (u : Uuid) : Octets :=
  ((p.devices.get? d).bind fun device => device.values.get? u.text).getD []

/-- What an operation gives if nothing stands in its way. -/
def result (p : Platform) : (o : Operation) → Except PlatformError o.Result
  | .adapterState => .ok p.state
  | .peripheral d => if p.devices.contains d then .ok () else .error .deviceNotFound
  | .properties d => .ok ((p.devices.get? d).bind Device.properties)
  | .discoverServices d => .ok (((p.devices.get? d).map Device.services).getD [])
  | .read d c => .ok (p.value d c.uuid)
  | .readDescriptor d descriptor => .ok (p.value d descriptor.uuid)
  | .events | .notifications _ | .startScan | .stopScan | .connect _ | .disconnect _
  | .write .. | .subscribe .. | .unsubscribe .. | .writeDescriptor .. => .ok ()

def perform (p : Platform) (o : Operation) : Except PlatformError o.Result :=
  match p.failures.get? o.kind with
  | some e => .error e
  | none => p.result o

def holds (p : Platform) (o : Operation) : Bool := p.held.contains o.kind

def openAdapter (p : Platform) (index : Nat) : Except PlatformError Unit :=
  match p.failures.get? .openManager, p.failures.get? .adapters with
  | some e, _ => .error e
  | none, some e => .error e
  | none, none => if index < p.adapters then .ok () else .error .deviceNotFound

end Platform

end GattHub.Radio
