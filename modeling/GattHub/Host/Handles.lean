/-! The objects by which a host stack knows peers and attributes. Nothing is asked of them but
that equality can be decided. -/

namespace GattHub

/-- The types of a host's native objects. -/
structure Handles where
  Peer : Type
  Service : Type
  Characteristic : Type
  Descriptor : Type
  [decPeer : DecidableEq Peer]
  [decService : DecidableEq Service]
  [decCharacteristic : DecidableEq Characteristic]
  [decDescriptor : DecidableEq Descriptor]

attribute [instance] Handles.decPeer Handles.decService Handles.decCharacteristic
  Handles.decDescriptor

end GattHub
