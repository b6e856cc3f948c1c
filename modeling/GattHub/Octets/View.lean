import GattHub.Octets

/-! Views of a byte string by address and length, as they cross a language boundary. -/

namespace GattHub.Octets

/-- Where a view points: nowhere, or at the first of some bytes. -/
inductive Address where
  | null
  | first (bytes : Octets)
  deriving DecidableEq

/-- An address and a length. A view of `n` bytes points at no fewer, or is null. -/
structure View where
  address : Address
  length : Nat
  deriving DecidableEq

namespace View

def of (bytes : Octets) : View := ⟨.first bytes, bytes.length⟩

def isEmpty (v : View) : Bool := v.length == 0

/-- A null view shows nothing, whatever its length. -/
def octets (v : View) : Octets :=
  match v.address with
  | .null => []
  | .first bytes => bytes.take v.length

theorem octets_of (bytes : Octets) : (of bytes).octets = bytes := by
  simp [of, octets]

end View

end GattHub.Octets
