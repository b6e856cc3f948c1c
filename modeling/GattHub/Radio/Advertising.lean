import GattHub.Host.Report
import GattHub.Radio.Platform
import GattHub.Uuid.Named

/-! What a radio reports of its own accord: the power state of the adapter and the devices that
advertise. -/

namespace GattHub.Radio

def peerSpace : Uuid := .ofNat 0x6c1b42a70f4e4d1c9a532be8d5a0c317

def DeviceId.written (d : DeviceId) : String := Text.wrapped "PeripheralId" (Text.quoted d.text)

def DeviceId.peer (d : DeviceId) : PeerId := ⟨.named peerSpace (Octets.ofText d.written)⟩

namespace AdapterState

def name : AdapterState → String
  | poweredOn => "PoweredOn"
  | poweredOff => "PoweredOff"
  | unknown => "Unknown"

def report {H : Handles} : AdapterState → Report H
  | poweredOn => .stateChanged true "powered on"
  | poweredOff => .stateChanged false "powered off"
  | unknown => .stateChanged false "state unknown"

end AdapterState

namespace Properties

/-- The payload of the least company, behind the two bytes of its number. -/
def manufacturerPayload (p : Properties) : Option Octets :=
  (p.manufacturerData.entries.mergeSort (·.1 ≤ ·.1)).head?.map fun e =>
    Octets.littleEndian16 e.1 ++ e.2

/-- The advertised bytes in the order of the services. -/
def sortedServiceData (p : Properties) : List ServiceData :=
  (p.serviceData.entries.map fun e => ⟨e.1, e.2⟩).mergeSort (·.uuid ≤ ·.uuid)

/-- The advertisement that these properties show. Every device counts as connectable. -/
def advertisement (p : Properties) (peer : PeerId) : Advertisement where
  peer := peer
  rssi := p.rssi.getD .unknown
  localName := p.localName
  powerLevel := p.powerLevel.getD .unknown
  connectable := true
  manufacturerData := p.manufacturerPayload
  serviceUuids := p.services
  serviceData := p.sortedServiceData

end Properties

end GattHub.Radio
