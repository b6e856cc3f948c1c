import GattHub.Uuid.Basic

/-! The written forms of an identifier. It is printed in five hyphenated groups of lower-case
digits; it is read from 32 digits, from the five groups, from the groups in braces, and from the
groups behind the prefix `urn:uuid:`, in either letter case. -/

namespace GattHub.Uuid

/-- The sizes of the hyphenated groups. -/
def groupSizes : List Nat := [8, 4, 4, 4, 12]

/-- Puts a hyphen between groups of the given sizes; the last group takes what is left. -/
def group : List Nat → List Char → List Char
  | [], s => s
  | [_], s => s
  | n :: ns, s => s.take n ++ '-' :: group ns (s.drop n)

/-- Takes out the hyphens between groups of the given sizes. -/
def ungroup? : List Nat → List Char → Option (List Char)
  | [], s => if s = [] then some [] else none
  | [n], s => if s.length = n then some s else none
  | n :: ns, s =>
    match s.drop n with
    | '-' :: r => (ungroup? ns r).map (s.take n ++ ·)
    | _ => none

def digits (u : Uuid) : List Char := Hex.ofNat 32 u.bits.toNat

/-- The identifier that 32 digits write. -/
def ofDigits? (cs : List Char) : Option Uuid :=
  if cs.length = 32 then (Hex.toNat? cs).map ofNat else none

def text (u : Uuid) : String := String.ofList (group groupSizes u.digits)

/-- The 32 digits without hyphens. -/
def simpleText (u : Uuid) : String := String.ofList u.digits

def ofGroups? (s : List Char) : Option Uuid := (ungroup? groupSizes s).bind ofDigits?

/-- What stands between braces. -/
def unbraced? : List Char → Option (List Char)
  | '\x7b' :: s => if s.getLast? = some '\x7d' then some s.dropLast else none
  | _ => none

def urnPrefix : List Char := ['u', 'r', 'n', ':', 'u', 'u', 'i', 'd', ':']

/-- What stands behind the prefix. -/
def afterUrnPrefix? (s : List Char) : Option (List Char) :=
  if (s.take 9).map Char.toLower = urnPrefix then some (s.drop 9) else none

def parse? (s : List Char) : Option Uuid :=
  ofDigits? s <|> ofGroups? s <|> (unbraced? s).bind ofGroups? <|>
    (afterUrnPrefix? s).bind ofGroups?

theorem length_digits (u : Uuid) : u.digits.length = 32 := by
  simp [digits, Hex.ofNat, length_digitsOf]

theorem ofDigits?_digits (u : Uuid) : ofDigits? u.digits = some u := by
  rw [ofDigits?, if_pos u.length_digits, digits, Hex.toNat?_ofNat, Option.map_some, ofNat]
  cases u with
  | mk bits =>
    rw [Nat.mod_eq_of_lt (show bits.toNat < Nat.pow 16 32 from bits.isLt), BitVec.ofNat_toNat,
      BitVec.setWidth_eq]

theorem ungroup?_group {ns : List Nat} {s : List Char} (hn : ns ≠ [])
    (h : s.length = ns.foldr Nat.add 0) : ungroup? ns (group ns s) = some s := by
  induction ns generalizing s with
  | nil => exact absurd rfl hn
  | cons n ns ih =>
    cases ns with
    | nil => rw [group, ungroup?, if_pos (by simpa using h)]
    | cons m ns =>
      have hl : (s.take n).length = n := by
        rw [List.length_take]
        simp only [List.foldr_cons, Nat.add_eq] at h
        omega
      have hd : (s.drop n).length = (m :: ns).foldr Nat.add 0 := by
        rw [List.length_drop]
        simp only [List.foldr_cons, Nat.add_eq] at h ⊢
        omega
      have ht : (s.take n ++ '-' :: group (m :: ns) (s.drop n)).drop n =
          '-' :: group (m :: ns) (s.drop n) := List.drop_left' hl
      rw [group, ungroup?, ht]
      · simp only [ih (by simp) hd, Option.map_some, List.take_left' hl, List.take_append_drop]
      · simp
      · simp

theorem ofGroups?_text (u : Uuid) : ofGroups? u.text.toList = some u := by
  rw [ofGroups?, text, String.toList_ofList, ungroup?_group (by simp [groupSizes])
    (by simp [length_digits, groupSizes]), Option.bind_some, ofDigits?_digits]

end GattHub.Uuid
