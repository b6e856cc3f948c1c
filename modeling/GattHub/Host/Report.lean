import GattHub.Advertisement
import GattHub.Gatt.Tree
import GattHub.Host.Handles

/-! What a host stack reports of its own accord or as the outcome of a call. -/

namespace GattHub

inductive PeerReport (H : Handles) where
  | connected (status : Status)
  | disconnected (reason : Status)
  | servicesDiscovered (status : Status) (services : List (Gatt.Found H.Service))
  | characteristicsDiscovered (status : Status) (service : H.Service)
      (characteristics : List (Gatt.FoundCharacteristic H.Characteristic))
  | descriptorsDiscovered (status : Status) (characteristic : H.Characteristic)
      (descriptors : List (Gatt.Found H.Descriptor))
  /-- The answer to a read, or a notified value. -/
  | characteristicRead (status : Status) (uuid : Uuid) (value : Octets)
  | characteristicWritten (status : Status) (uuid : Uuid)
  | descriptorRead (status : Status) (uuid : Uuid) (value : Octets)
  | descriptorWritten (status : Status) (uuid : Uuid)
  | notificationStateChanged (status : Status) (uuid : Uuid) (enabled : Bool)
  | rssiRead (status : Status) (rssi : Level)
  deriving DecidableEq

inductive Report (H : Handles) where
  | stateChanged (poweredOn : Bool) (message : String)
  | advertised (record : Advertisement)
  | peer (peer : PeerId) (report : PeerReport H)
  deriving DecidableEq

variable {H : Handles}

namespace PeerReport

def name : PeerReport H → String
  | connected .. => "Connected"
  | disconnected .. => "Disconnected"
  | servicesDiscovered .. => "ServicesDiscovered"
  | characteristicsDiscovered .. => "CharacteristicsDiscovered"
  | descriptorsDiscovered .. => "DescriptorsDiscovered"
  | characteristicRead .. => "CharacteristicRead"
  | characteristicWritten .. => "CharacteristicWritten"
  | descriptorRead .. => "DescriptorRead"
  | descriptorWritten .. => "DescriptorWritten"
  | notificationStateChanged .. => "NotificationStateChanged"
  | rssiRead .. => "RssiRead"

/-- The details that the journal keeps: payloads by their size only. -/
def details : PeerReport H → List String
  | connected status => ["status=" ++ status.text]
  | disconnected reason => ["reason=" ++ reason.text]
  | servicesDiscovered status services =>
    ["status=" ++ status.text, "count=" ++ toString services.length]
  | characteristicsDiscovered status _ characteristics =>
    ["status=" ++ status.text, "count=" ++ toString characteristics.length]
  | descriptorsDiscovered status _ descriptors =>
    ["status=" ++ status.text, "count=" ++ toString descriptors.length]
  | characteristicRead status uuid value | descriptorRead status uuid value =>
    ["status=" ++ status.text, "uuid=" ++ uuid.text, "len=" ++ toString value.length]
  | characteristicWritten status uuid | descriptorWritten status uuid =>
    ["status=" ++ status.text, "uuid=" ++ uuid.text]
  | notificationStateChanged status uuid enabled =>
    ["status=" ++ status.text, "uuid=" ++ uuid.text, "enabled=" ++ Text.bool enabled]
  | rssiRead status rssi => ["status=" ++ status.text, "rssi=" ++ rssi.text]

end PeerReport

namespace Report

def peer? : Report H → Option PeerId
  | stateChanged .. | advertised .. => none
  | peer p _ => some p

def text : Report H → String
  | stateChanged poweredOn message =>
    Text.record "StateChanged"
      [("powered_on", Text.bool poweredOn), ("message", Text.quoted message)]
  | advertised record => Text.wrapped "PeripheralDiscovered" record.text
  | peer p report => Text.wrapped report.name (", ".intercalate (p.text :: report.details))

end Report

end GattHub
