import GattHub.Digest.Sha1
import GattHub.Uuid.Basic

/-! Identifiers derived from a name: version 5 of the standard, on SHA-1. -/

namespace GattHub.Uuid

/-- Writes the version number 5 and the variant of the standard into an identifier. -/
def withVersion5 (u : Uuid) : Uuid :=
  ⟨(u.bits &&& 0xFFFFFFFFFFFF0FFF3FFFFFFFFFFFFFFF#128) |||
    0x00000000000050008000000000000000#128⟩

def named (space : Uuid) (name : Octets) : Uuid :=
  withVersion5 (ofOctets ((Sha1.digest (space.octets ++ name)).take 16))

end GattHub.Uuid
