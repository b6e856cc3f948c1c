import GattHub.Identity
import GattHub.Host.Handles

/-! Attributes as a radio knows them: plain values, the same when all their parts are. A set of
them is kept in ascending order without repetition. -/

namespace GattHub.Radio

structure Descriptor where
  uuid : Uuid
  service : Uuid
  characteristic : Uuid
  deriving DecidableEq, Ord

structure Characteristic where
  uuid : Uuid
  service : Uuid
  properties : UInt8
  descriptors : List Descriptor
  deriving DecidableEq, Ord

structure Service where
  uuid : Uuid
  isPrimary : Bool
  characteristics : List Characteristic
  deriving DecidableEq, Ord

/-- The set of some values, as an ascending list. -/
def setOf {α : Type} [Ord α] [BEq α] (xs : List α) : List α :=
  (xs.mergeSort fun a b => (compare a b).isLE).eraseReps

structure DeviceId where
  text : String
  deriving DecidableEq

instance : Inhabited DeviceId := ⟨⟨""⟩⟩

/-- The native objects of a radio. -/
abbrev handles : Handles := ⟨PeerId × DeviceId, Service, Characteristic, Descriptor⟩

end GattHub.Radio
