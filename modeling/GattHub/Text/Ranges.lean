/-! Sets of code points given as inclusive ranges. -/

namespace GattHub.Text

/-- Inclusive ranges of code points, ascending and apart. -/
abbrev Ranges := List (Nat × Nat)

def Ranges.covers (ranges : Ranges) (c : Char) : Bool :=
  ranges.any fun r => r.1 ≤ c.toNat && c.toNat ≤ r.2

end GattHub.Text
