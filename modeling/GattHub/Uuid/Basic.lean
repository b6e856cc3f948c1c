import GattHub.Octets

/-! Universally unique identifiers: 128 bits, ordered as numbers. -/

namespace GattHub

structure Uuid where
  bits : BitVec 128
  deriving DecidableEq

namespace Uuid

instance : Inhabited Uuid := ⟨⟨0⟩⟩

instance : Ord Uuid := ⟨fun u v => compare u.bits.toNat v.bits.toNat⟩

instance : LE Uuid := ⟨fun u v => u.bits.toNat ≤ v.bits.toNat⟩

instance (u v : Uuid) : Decidable (u ≤ v) :=
  inferInstanceAs (Decidable (u.bits.toNat ≤ v.bits.toNat))

def ofNat (n : Nat) : Uuid := ⟨BitVec.ofNat 128 n⟩

/-- The identifier that a 16-bit assigned number stands for. -/
def ofShort (n : UInt16) : Uuid := ofNat (0x0000000000001000800000805F9B34FB + n.toNat <<< 96)

def octets (u : Uuid) : Octets := Octets.ofNat 16 u.bits.toNat

def ofOctets (bytes : Octets) : Uuid := ofNat bytes.toNat

theorem le_refl (u : Uuid) : u ≤ u := Nat.le_refl u.bits.toNat

theorem le_trans {u v w : Uuid} (h : u ≤ v) (h' : v ≤ w) : u ≤ w :=
  Nat.le_trans (n := u.bits.toNat) h h'

theorem le_total (u v : Uuid) : u ≤ v ∨ v ≤ u := Nat.le_total u.bits.toNat v.bits.toNat

theorem le_antisymm {u v : Uuid} (h : u ≤ v) (h' : v ≤ u) : u = v := by
  cases u
  cases v
  exact congrArg Uuid.mk (BitVec.eq_of_toNat_eq (Nat.le_antisymm h h'))

end Uuid

end GattHub
