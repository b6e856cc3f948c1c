import GattHub.Status
import GattHub.Text.Record

/-! One observation of an advertising peer. -/

namespace GattHub

/-- Bytes that a peer advertises for one of its services. -/
structure ServiceData where
  uuid : Uuid
  data : Octets
  deriving DecidableEq

def ServiceData.text (d : ServiceData) : String :=
  Text.record "ServiceData" [("uuid", d.uuid.text), ("data", Text.octets d.data)]

structure Advertisement where
  peer : PeerId
  rssi : Level
  localName : Option String
  powerLevel : Level
  connectable : Bool
  manufacturerData : Option Octets
  serviceUuids : List Uuid
  serviceData : List ServiceData
  deriving DecidableEq

def PeerId.wrappedText (p : PeerId) : String := Text.wrapped "PeerId" p.text

def Advertisement.text (a : Advertisement) : String :=
  Text.record "DiscoveredPeripheral"
    [("peer_id", a.peer.wrappedText), ("rssi", a.rssi.text),
      ("local_name", Text.option (a.localName.map Text.quoted)),
      ("power_level", a.powerLevel.text), ("connectable", Text.bool a.connectable),
      ("manufacturer_data", Text.option (a.manufacturerData.map Text.octets)),
      ("service_uuids", Text.list (a.serviceUuids.map Uuid.text)),
      ("service_data", Text.list (a.serviceData.map ServiceData.text))]

end GattHub
