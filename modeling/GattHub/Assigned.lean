import GattHub.Uuid.Basic

/-! Assigned numbers: the well-known services, characteristics and descriptors, and the bits of
a characteristic's properties. -/

namespace GattHub.Assigned

namespace Service

def genericAccess : Uuid := .ofShort 0x1800
def deviceInformation : Uuid := .ofShort 0x180A
def heartRate : Uuid := .ofShort 0x180D
def battery : Uuid := .ofShort 0x180F

end Service

namespace Characteristic

def deviceName : Uuid := .ofShort 0x2A00
def batteryLevel : Uuid := .ofShort 0x2A19
def manufacturerName : Uuid := .ofShort 0x2A29
def heartRateMeasurement : Uuid := .ofShort 0x2A37

end Characteristic

namespace Descriptor

def characteristicUserDescription : Uuid := .ofShort 0x2901
def clientCharacteristicConfiguration : Uuid := .ofShort 0x2902

end Descriptor

namespace Property

def broadcast : UInt8 := 0x01
def read : UInt8 := 0x02
def writeWithoutResponse : UInt8 := 0x04
def write : UInt8 := 0x08
def notify : UInt8 := 0x10
def indicate : UInt8 := 0x20
def authenticatedSignedWrites : UInt8 := 0x40
def extendedProperties : UInt8 := 0x80

end Property

end GattHub.Assigned
