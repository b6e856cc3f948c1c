import GattHub.Notice.Basic

/-! The written form of notices in the journal. -/

namespace GattHub

def CentralId.wrappedText (c : CentralId) : String := Text.wrapped "ManagerId" c.text

def AttrId.wrappedText (a : AttrId) : String := Text.wrapped "AttrId" a.text

namespace Gatt

def Service.text (s : Service) : String :=
  Text.record "Service" [("id", s.id.wrappedText), ("uuid", s.uuid.text)]

def Characteristic.text (c : Characteristic) : String :=
  Text.record "Characteristic"
    [("id", c.id.wrappedText), ("uuid", c.uuid.text),
      ("properties", toString c.properties.toNat)]

def Descriptor.text (d : Descriptor) : String :=
  Text.record "Descriptor" [("id", d.id.wrappedText), ("uuid", d.uuid.text)]

end Gatt

def NoticeKind.name : NoticeKind → String
  | .stateChanged => "StateChanged"
  | .discovered => "PeripheralDiscovered"
  | .connected => "PeripheralConnected"
  | .disconnected => "PeripheralDisconnected"
  | .servicesDiscovered => "ServicesDiscovered"
  | .characteristicsDiscovered => "CharacteristicsDiscovered"
  | .descriptorsDiscovered => "DescriptorsDiscovered"
  | .characteristicRead => "CharacteristicRead"
  | .characteristicWritten => "CharacteristicWritten"
  | .descriptorRead => "DescriptorRead"
  | .descriptorWritten => "DescriptorWritten"
  | .notificationStateChanged => "NotificationStateChanged"
  | .rssiRead => "RssiRead"

def PeerNotice.fields : PeerNotice → List (String × String)
  | connected status => [("status", status.text)]
  | disconnected reason => [("reason", reason.text)]
  | servicesDiscovered status services =>
    [("status", status.text), ("services", Text.list (services.map Gatt.Service.text))]
  | characteristicsDiscovered status characteristics =>
    [("status", status.text),
      ("characteristics", Text.list (characteristics.map Gatt.Characteristic.text))]
  | descriptorsDiscovered status descriptors =>
    [("status", status.text), ("descriptors", Text.list (descriptors.map Gatt.Descriptor.text))]
  | characteristicRead status uuid value | descriptorRead status uuid value =>
    [("status", status.text), ("uuid", uuid.text), ("value", Text.octets value)]
  | characteristicWritten status uuid | descriptorWritten status uuid =>
    [("status", status.text), ("uuid", uuid.text)]
  | notificationStateChanged status uuid enabled =>
    [("status", status.text), ("uuid", uuid.text), ("enabled", Text.bool enabled)]
  | rssiRead status rssi => [("status", status.text), ("rssi", rssi.text)]

namespace Notice

def fields : Notice → List (String × String)
  | stateChanged _ poweredOn message =>
    [("powered_on", Text.bool poweredOn), ("message", Text.quoted message)]
  | discovered _ record => [("record", record.text)]
  | peer _ p notice => ("peer", p.wrappedText) :: notice.fields

def text (n : Notice) : String :=
  Text.record n.kind.name (("manager", n.central.wrappedText) :: n.fields)

end Notice

end GattHub
