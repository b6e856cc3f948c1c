/-! White space in the sense of Unicode, and texts without it at their ends. -/

namespace GattHub.Text

/-- The characters with the property White_Space. -/
def isBlank (c : Char) : Bool :=
  (0x9 ≤ c.toNat && c.toNat ≤ 0xD) || c.toNat == 0x20 || c.toNat == 0x85 || c.toNat == 0xA0 ||
    c.toNat == 0x1680 || (0x2000 ≤ c.toNat && c.toNat ≤ 0x200A) || c.toNat == 0x2028 ||
    c.toNat == 0x2029 || c.toNat == 0x202F || c.toNat == 0x205F || c.toNat == 0x3000

def trim (s : List Char) : List Char :=
  ((s.dropWhile isBlank).reverse.dropWhile isBlank).reverse

theorem dropWhile_isBlank_append {s t : List Char} (h : ∀ c ∈ s, isBlank c = true) :
    (s ++ t).dropWhile isBlank = t.dropWhile isBlank := by
  induction s with
  | nil => rfl
  | cons c s ih =>
    rw [List.cons_append, List.dropWhile_cons, if_pos (h c (by simp))]
    exact ih fun x hx => h x (by simp [hx])

theorem dropWhile_isBlank_of_forall {s : List Char} (h : ∀ c ∈ s, isBlank c = false) :
    s.dropWhile isBlank = s := by
  cases s with
  | nil => rfl
  | cons c s => rw [List.dropWhile_cons, if_neg (by simp [h c (by simp)])]

/-- White space around a text that has none goes away. -/
theorem trim_append_append {l s r : List Char} (hl : ∀ c ∈ l, isBlank c = true)
    (hs : ∀ c ∈ s, isBlank c = false) (hr : ∀ c ∈ r, isBlank c = true) :
    trim (l ++ s ++ r) = s := by
  rw [trim, List.append_assoc, dropWhile_isBlank_append hl]
  cases s with
  | nil =>
    have hr' : r.dropWhile isBlank = [] := by
      simpa using dropWhile_isBlank_append (t := []) hr
    simp [hr']
  | cons c s =>
    rw [List.cons_append, List.dropWhile_cons, if_neg (by simp [hs c (by simp)]),
      ← List.cons_append, List.reverse_append, dropWhile_isBlank_append (by simpa using hr),
      dropWhile_isBlank_of_forall (fun x hx => hs x (List.mem_reverse.1 hx)), List.reverse_reverse]

end GattHub.Text
