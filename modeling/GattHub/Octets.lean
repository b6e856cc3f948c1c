/-! Byte strings, their hexadecimal text, and numbers written in a fixed count of digits. -/

namespace GattHub

abbrev Octets := List UInt8

/-- The lowest `width` digits of `n` to the given base, most significant first. -/
def digitsOf (base : Nat) : Nat → Nat → List Nat
  | 0, _ => []
  | width + 1, n => digitsOf base width (n / base) ++ [n % base]

/-- The number with the given digits, most significant first. -/
def ofDigits (base : Nat) (digits : List Nat) : Nat :=
  digits.foldl (fun n d => n * base + d) 0

theorem length_digitsOf (base width n : Nat) : (digitsOf base width n).length = width := by
  induction width generalizing n with
  | zero => rfl
  | succ width ih => simp [digitsOf, ih]

theorem lt_of_mem_digitsOf {base width n d : Nat} (hb : 0 < base)
    (h : d ∈ digitsOf base width n) : d < base := by
  induction width generalizing n with
  | zero => simp [digitsOf] at h
  | succ width ih =>
    rcases List.mem_append.1 h with h | h
    · exact ih h
    · rw [List.mem_singleton.1 h]
      exact Nat.mod_lt _ hb

theorem ofDigits_append_singleton (base : Nat) (ds : List Nat) (d : Nat) :
    ofDigits base (ds ++ [d]) = ofDigits base ds * base + d := by
  simp [ofDigits]

theorem ofDigits_digitsOf (base width n : Nat) :
    ofDigits base (digitsOf base width n) = n % Nat.pow base width := by
  induction width generalizing n with
  | zero => simp [digitsOf, ofDigits, Nat.mod_one]
  | succ width ih =>
    rw [digitsOf, ofDigits_append_singleton, ih, show Nat.pow base (width + 1) =
      Nat.pow base width * base from rfl, Nat.mul_comm (Nat.pow base width), Nat.mod_mul,
      Nat.mul_comm base, Nat.add_comm]

namespace Hex

/-- The lower-case digit of a number below sixteen. -/
def digit (n : Nat) : Char :=
  if n < 10 then Char.ofNat (48 + n) else Char.ofNat (87 + n)

def value? (c : Char) : Option Nat :=
  if '0' ≤ c ∧ c ≤ '9' then some (c.toNat - 48)
  else if 'a' ≤ c ∧ c ≤ 'f' then some (c.toNat - 87)
  else if 'A' ≤ c ∧ c ≤ 'F' then some (c.toNat - 55)
  else none

theorem value?_digit {n : Nat} (h : n < 16) : value? (digit n) = some n := by
  have : ∀ n ∈ List.range 16, value? (digit n) = some n := by decide
  exact this n (List.mem_range.2 h)

def ofNat (width n : Nat) : List Char := (digitsOf 16 width n).map digit

def toNat? (cs : List Char) : Option Nat := (cs.mapM value?).map (ofDigits 16)

theorem mapM_value?_digit {ds : List Nat} (h : ∀ d ∈ ds, d < 16) :
    (ds.map digit).mapM value? = some ds := by
  induction ds with
  | nil => rfl
  | cons d ds ih =>
    simp [List.mapM_cons, value?_digit (h d (by simp)), ih fun x hx => h x (by simp [hx])]

theorem toNat?_ofNat (width n : Nat) : toNat? (ofNat width n) = some (n % Nat.pow 16 width) := by
  rw [toNat?, ofNat, mapM_value?_digit fun d hd => lt_of_mem_digitsOf (by decide) hd,
    Option.map_some, ofDigits_digitsOf]

end Hex

namespace Octets

def hex (bytes : Octets) : String :=
  String.ofList (bytes.flatMap fun b => Hex.ofNat 2 b.toNat)

def ofDigitPairs? : List Char → Option Octets
  | [] => some []
  | [_] => none
  | a :: b :: rest => do
    let n ← Hex.toNat? [a, b]
    let tail ← ofDigitPairs? rest
    return UInt8.ofNat n :: tail

/-- The bytes that an even count of digits writes. -/
def ofHex? (s : String) : Option Octets := ofDigitPairs? s.toList

def ofNat (width n : Nat) : Octets := (digitsOf 256 width n).map UInt8.ofNat

def toNat (bytes : Octets) : Nat := ofDigits 256 (bytes.map UInt8.toNat)

def littleEndian16 (n : UInt16) : Octets := [n.toUInt8, (n >>> 8).toUInt8]

def ofText (s : String) : Octets := s.toUTF8.toList

end Octets

end GattHub
