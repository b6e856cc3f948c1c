import GattHub.Identity
import Mathlib

/-! Which texts name an identity: exactly those that are one of its four written forms once the
white space around them is gone and their letters are in lower case. Reading does not see the case
of a letter, each form reads as the identity that it writes, and whatever is read was such a form. -/

namespace GattHub

namespace Text

theorem toNat_toLower (c : Char) :
    c.toLower.toNat = if 65 ≤ c.toNat ∧ c.toNat ≤ 90 then c.toNat + 32 else c.toNat := by
  have hupper : c.isUpper = true ↔ 65 ≤ c.toNat ∧ c.toNat ≤ 90 := by
    simp only [Char.isUpper, decide_eq_true_eq, ge_iff_le, UInt32.le_iff_toNat_le]
    rfl
  split
  next h =>
    rw [Char.toLower_eq_of_isUpper (hupper.mpr h), Char.toNat_ofNat, if_pos (.inl (by omega))]
  next h => rw [Char.toLower_eq_of_not_isUpper fun hc => h (hupper.mp hc)]

/-- What is no letter in lower case was none before. -/
theorem eq_of_toLower_eq {c d : Char} (h : c.toLower = d) (hd : d.isAlpha = false) : c = d := by
  have hc : c.isAlpha = false := by rw [← Char.isAlpha_toLower_eq_isAlpha, h, hd]
  have hupper : ¬ c.isUpper = true := by simp_all [Char.isAlpha]
  rw [← h, Char.toLower_eq_of_not_isUpper hupper]

theorem isBlank_toLower (c : Char) : isBlank c.toLower = isBlank c := by
  simp only [isBlank, toNat_toLower]
  by_cases h : 65 ≤ c.toNat ∧ c.toNat ≤ 90
  · grind
  · rw [if_neg h]

end Text

/-- Digits are read back from the number that they write. -/
theorem digitsOf_ofDigits {base : Nat} {ds : List Nat} (h : ∀ d ∈ ds, d < base) :
    digitsOf base ds.length (ofDigits base ds) = ds := by
  induction ds using List.reverseRecOn with
  | nil => rfl
  | append_singleton ds d ih =>
    have hd : d < base := h d (by simp)
    have hb : 0 < base := by omega
    have hdiv : (ofDigits base ds * base + d) / base = ofDigits base ds := by
      rw [Nat.mul_comm, Nat.mul_add_div hb, Nat.div_eq_of_lt hd, Nat.add_zero]
    have hmod : (ofDigits base ds * base + d) % base = d := by
      rw [Nat.mul_comm, Nat.mul_add_mod, Nat.mod_eq_of_lt hd]
    rw [List.length_append, List.length_singleton, ofDigits_append_singleton, digitsOf, hdiv, hmod,
      ih fun x hx => h x (by simp [hx])]

theorem ofDigits_lt {base : Nat} {ds : List Nat} (h : ∀ d ∈ ds, d < base) (hb : 0 < base) :
    ofDigits base ds < Nat.pow base ds.length := by
  have hmod := ofDigits_digitsOf base ds.length (ofDigits base ds)
  rw [digitsOf_ofDigits h] at hmod
  rw [hmod]
  exact Nat.mod_lt _ (Nat.pow_pos hb)

namespace Hex

theorem toNat_digit {n : Nat} (h : n < 16) :
    (digit n).toNat = if n < 10 then 48 + n else 87 + n := by
  have hall : ∀ n ∈ List.range 16, (digit n).toNat = if n < 10 then 48 + n else 87 + n := by decide
  exact hall n (List.mem_range.mpr h)

theorem value?_eq_some_iff {c : Char} {n : Nat} :
    value? c = some n ↔ n < 16 ∧ c.toLower = digit n := by
  have hle (d : Char) : d ≤ c ↔ d.toNat ≤ c.toNat := UInt32.le_iff_toNat_le
  have hge (d : Char) : c ≤ d ↔ c.toNat ≤ d.toNat := UInt32.le_iff_toNat_le
  have hnat : value? c =
      if 48 ≤ c.toNat ∧ c.toNat ≤ 57 then some (c.toNat - 48)
      else if 97 ≤ c.toNat ∧ c.toNat ≤ 102 then some (c.toNat - 87)
      else if 65 ≤ c.toNat ∧ c.toNat ≤ 70 then some (c.toNat - 55) else none := by
    simp only [value?, hle, hge]
    rfl
  rw [hnat, ← Char.toNat_inj, Text.toNat_toLower]
  constructor
  · intro h
    have hn : n < 16 := by grind
    refine ⟨hn, ?_⟩
    rw [toNat_digit hn]
    grind
  · rintro ⟨hn, h⟩
    rw [toNat_digit hn] at h
    grind

theorem value?_toLower (c : Char) : value? c.toLower = value? c := by
  refine Option.ext fun n => ?_
  rw [value?_eq_some_iff, value?_eq_some_iff, Char.toLower_toLower_eq_toLower]

theorem toNat?_map_toLower (cs : List Char) : toNat? (cs.map Char.toLower) = toNat? cs := by
  have hvalues : (cs.map Char.toLower).mapM value? = cs.mapM value? := by
    induction cs with
    | nil => rfl
    | cons c cs ih => rw [List.map_cons, List.mapM_cons, List.mapM_cons, value?_toLower, ih]
  rw [toNat?, toNat?, hvalues]

theorem map_toLower_of_mapM_value? {cs : List Char} {ds : List Nat} (h : cs.mapM value? = some ds) :
    (∀ d ∈ ds, d < 16) ∧ cs.map Char.toLower = ds.map digit := by
  induction cs generalizing ds with
  | nil =>
    cases h
    exact ⟨nofun, rfl⟩
  | cons c cs ih =>
    rw [List.mapM_cons] at h
    obtain ⟨n, hn, h⟩ := Option.bind_eq_some_iff.mp h
    obtain ⟨ns, hns, h⟩ := Option.bind_eq_some_iff.mp h
    cases h
    obtain ⟨hlt, hc⟩ := value?_eq_some_iff.mp hn
    obtain ⟨hall, hcs⟩ := ih hns
    exact ⟨List.forall_mem_cons.mpr ⟨hlt, hall⟩, by rw [List.map_cons, List.map_cons, hc, hcs]⟩

/-- What is read as a number was that number, written in as many digits. -/
theorem map_toLower_of_toNat? {cs : List Char} {n : Nat} (h : toNat? cs = some n) :
    n < Nat.pow 16 cs.length ∧ cs.map Char.toLower = ofNat cs.length n := by
  obtain ⟨ds, hds, rfl⟩ := Option.map_eq_some_iff.mp h
  obtain ⟨hlt, hcs⟩ := map_toLower_of_mapM_value? hds
  have hlength : cs.length = ds.length := by
    have hmap := congrArg List.length hcs
    rwa [List.length_map, List.length_map] at hmap
  rw [hlength]
  exact ⟨ofDigits_lt hlt (by decide), by rw [hcs, ofNat, digitsOf_ofDigits hlt]⟩

end Hex

namespace Uuid

variable {u : Uuid} {ns : List Nat} {s t : List Char}

theorem ofDigits?_map_toLower (s : List Char) : ofDigits? (s.map Char.toLower) = ofDigits? s := by
  rw [ofDigits?, ofDigits?, List.length_map, Hex.toNat?_map_toLower]

theorem map_toLower_of_ofDigits? (h : ofDigits? s = some u) : s.map Char.toLower = u.digits := by
  by_cases hlen : s.length = 32
  · rw [ofDigits?, if_pos hlen] at h
    obtain ⟨n, hn, rfl⟩ := Option.map_eq_some_iff.mp h
    obtain ⟨hlt, hs⟩ := Hex.map_toLower_of_toNat? hn
    rw [hlen] at hlt hs
    have hbits : (ofNat n).bits.toNat = n := Nat.mod_eq_of_lt hlt
    rw [hs, digits, hbits]
  · rw [ofDigits?, if_neg hlen] at h
    cases h

/-! Groups -/

theorem length_group (h : s.length = ns.foldr Nat.add 0) :
    (group ns s).length = s.length + (ns.length - 1) := by
  induction ns generalizing s with
  | nil => rfl
  | cons n ns ih =>
    cases ns with
    | nil => rfl
    | cons m ns =>
      simp only [List.foldr_cons, Nat.add_eq] at h
      have hdrop : (s.drop n).length = (m :: ns).foldr Nat.add 0 := by
        simp only [List.length_drop, List.foldr_cons, Nat.add_eq]
        omega
      have hrest := ih hdrop
      simp only [group, List.length_append, List.length_cons, hrest, List.length_take,
        List.length_drop]
      omega

theorem map_group (f : Char → Char) (hf : f '-' = '-') (ns : List Nat) (s : List Char) :
    (group ns s).map f = group ns (s.map f) := by
  induction ns generalizing s with
  | nil => rfl
  | cons n ns ih =>
    cases ns with
    | nil => rfl
    | cons m ns => simp [group, hf, ih]

theorem mem_group {c : Char} (h : c ∈ group ns s) : c = '-' ∨ c ∈ s := by
  induction ns generalizing s with
  | nil => exact .inr h
  | cons n ns ih =>
    cases ns with
    | nil => exact .inr h
    | cons m ns =>
      rw [group, List.mem_append, List.mem_cons] at h
      · rcases h with h | h | h
        · exact .inr (List.mem_of_mem_take h)
        · exact .inl h
        · exact (ih h).imp_right List.mem_of_mem_drop
      · simp

theorem group_of_ungroup? (h : ungroup? ns s = some t) :
    s = group ns t ∧ t.length = ns.foldr Nat.add 0 := by
  fun_induction ungroup? ns s generalizing t with
  | case1 =>
    cases h
    exact ⟨rfl, rfl⟩
  | case2 => cases h
  | case3 =>
    cases h
    exact ⟨rfl, by simp⟩
  | case4 => cases h
  | case5 n ns s hns r hr ih =>
    obtain ⟨t', ht', rfl⟩ := Option.map_eq_some_iff.mp h
    obtain ⟨hgroup, hlength⟩ := ih ht'
    have hn : (s.take n).length = n := by
      have hlen := congrArg List.length hr
      rw [List.length_drop, List.length_cons] at hlen
      rw [List.length_take]
      omega
    constructor
    · rw [group, List.take_left' hn, List.drop_left' hn, ← hgroup, ← hr, List.take_append_drop]
      exact hns
    · rw [List.length_append, hn, hlength]
      rfl
  | case6 => cases h

theorem ungroup?_map_toLower (ns : List Nat) (s : List Char) :
    ungroup? ns (s.map Char.toLower) = (ungroup? ns s).map (List.map Char.toLower) := by
  fun_induction ungroup? ns s with
  | case1 => rfl
  | case2 s hs => simp [ungroup?, hs]
  | case3 s => simp [ungroup?]
  | case4 n s hs => simp [ungroup?, hs]
  | case5 n ns s hns r hr ih =>
    have hdrop : (s.map Char.toLower).drop n = '-' :: r.map Char.toLower := by
      rw [← List.map_drop, hr]
      rfl
    rw [ungroup?, hdrop]
    · simp only [ih, Option.map_map]
      congr 1
      funext t
      simp
    · exact hns
  | case6 n ns s hns hs =>
    rw [ungroup?, Option.map_none]
    · split
      next r hr =>
        -- a hyphen in lower case was a hyphen
        rw [← List.map_drop, List.map_eq_cons_iff] at hr
        obtain ⟨c, r', hr, hc, -⟩ := hr
        exact absurd (Text.eq_of_toLower_eq hc (by decide) ▸ hr) (hs r')
      next => rfl
    · exact hns

theorem ofGroups?_map_toLower (s : List Char) : ofGroups? (s.map Char.toLower) = ofGroups? s := by
  rw [ofGroups?, ofGroups?, ungroup?_map_toLower]
  cases ungroup? groupSizes s with
  | none => rfl
  | some t => exact ofDigits?_map_toLower t

theorem map_toLower_of_ofGroups? (h : ofGroups? s = some u) :
    s.map Char.toLower = u.text.toList := by
  obtain ⟨t, ht, hu⟩ := Option.bind_eq_some_iff.mp h
  have hgroup := (group_of_ungroup? ht).1
  rw [hgroup, map_group _ rfl, map_toLower_of_ofDigits? hu, text, String.toList_ofList]

theorem length_text (u : Uuid) : u.text.toList.length = 36 := by
  rw [text, String.toList_ofList, length_group, length_digits]
  · rfl
  · rw [length_digits]
    rfl

theorem not_isBlank_of_mem_text {c : Char} (h : c ∈ u.text.toList) : Text.isBlank c = false := by
  rw [text, String.toList_ofList] at h
  rcases mem_group h with rfl | h
  · rfl
  · obtain ⟨n, hn, rfl⟩ := List.mem_map.mp h
    have hall : ∀ n ∈ List.range 16, Text.isBlank (Hex.digit n) = false := by decide
    exact hall n (List.mem_range.mpr (lt_of_mem_digitsOf (by decide) hn))

/-! Braces and the prefix -/

theorem unbraced?_eq_some_iff : unbraced? s = some t ↔ s = '\x7b' :: t ++ ['\x7d'] := by
  constructor
  · intro h
    rw [unbraced?.eq_def] at h
    split at h
    next s =>
      split at h
      next hlast =>
        cases h
        obtain ⟨r, rfl⟩ := List.getLast?_eq_some_iff.mp hlast
        simp
      next => cases h
    next => cases h
  · rintro rfl
    simp [unbraced?]

theorem unbraced?_map_toLower (s : List Char) :
    unbraced? (s.map Char.toLower) = (unbraced? s).map (List.map Char.toLower) := by
  refine Option.ext fun t => ?_
  rw [unbraced?_eq_some_iff, Option.map_eq_some_iff]
  constructor
  · intro h
    obtain ⟨l, r, rfl, hl, hr⟩ := List.map_eq_append_iff.mp h
    obtain ⟨c, l, rfl, hc, rfl⟩ := List.map_eq_cons_iff.mp hl
    obtain ⟨d, rfl, hd⟩ := List.map_eq_singleton_iff.mp hr
    have hc' : c = '\x7b' := Text.eq_of_toLower_eq hc (by decide)
    have hd' : d = '\x7d' := Text.eq_of_toLower_eq hd (by decide)
    exact ⟨l, unbraced?_eq_some_iff.mpr (by rw [hc', hd']), rfl⟩
  · rintro ⟨r, hr, rfl⟩
    rw [unbraced?_eq_some_iff.mp hr]
    simp

theorem afterUrnPrefix?_map_toLower (s : List Char) :
    afterUrnPrefix? (s.map Char.toLower) = (afterUrnPrefix? s).map (List.map Char.toLower) := by
  have hlower (r : List Char) : (r.map Char.toLower).map Char.toLower = r.map Char.toLower := by
    simp
  rw [afterUrnPrefix?, afterUrnPrefix?, ← List.map_take, hlower]
  split
  · rw [Option.map_some, List.map_drop]
  · rfl

theorem map_toLower_of_afterUrnPrefix? (h : afterUrnPrefix? s = some t) :
    s.map Char.toLower = urnPrefix ++ t.map Char.toLower := by
  rw [afterUrnPrefix?] at h
  split at h
  next hp =>
    cases h
    rw [← hp, ← List.map_append, List.take_append_drop]
  next => cases h

theorem afterUrnPrefix?_append (t : List Char) : afterUrnPrefix? (urnPrefix ++ t) = some t := by
  have hlength : urnPrefix.length = 9 := rfl
  have hlower : urnPrefix.map Char.toLower = urnPrefix := by decide
  rw [afterUrnPrefix?, List.take_left' hlength, if_pos hlower, List.drop_left' hlength]

/-! The written forms -/

/-- The texts in lower case that name the identifier. -/
def forms (u : Uuid) : List (List Char) :=
  [u.digits, u.text.toList, '\x7b' :: u.text.toList ++ ['\x7d'], urnPrefix ++ u.text.toList]

theorem parse?_eq_some_iff : parse? s = some u ↔
    ofDigits? s = some u ∨ ofDigits? s = none ∧ (ofGroups? s = some u ∨ ofGroups? s = none ∧
      ((unbraced? s).bind ofGroups? = some u ∨ (unbraced? s).bind ofGroups? = none ∧
        (afterUrnPrefix? s).bind ofGroups? = some u)) := by
  simp only [parse?, Option.orElse_eq_orElse, Option.orElse_eq_or, Option.or_eq_some_iff]

/-- Reading does not see the case of a letter. -/
theorem parse?_map_toLower (s : List Char) : parse? (s.map Char.toLower) = parse? s := by
  have hbind (o : Option (List Char)) :
      (o.map (List.map Char.toLower)).bind ofGroups? = o.bind ofGroups? := by
    cases o with
    | none => rfl
    | some r => exact ofGroups?_map_toLower r
  rw [parse?, parse?, ofDigits?_map_toLower, ofGroups?_map_toLower, unbraced?_map_toLower,
    afterUrnPrefix?_map_toLower, hbind, hbind]

theorem map_toLower_mem_forms (h : parse? s = some u) : s.map Char.toLower ∈ u.forms := by
  rcases parse?_eq_some_iff.mp h with h | ⟨-, h | ⟨-, h | ⟨-, h⟩⟩⟩
  · simp [forms, map_toLower_of_ofDigits? h]
  · simp [forms, map_toLower_of_ofGroups? h]
  · obtain ⟨t, ht, hu⟩ := Option.bind_eq_some_iff.mp h
    simp [forms, unbraced?_eq_some_iff.mp ht, map_toLower_of_ofGroups? hu]
  · obtain ⟨t, ht, hu⟩ := Option.bind_eq_some_iff.mp h
    simp [forms, map_toLower_of_afterUrnPrefix? ht, map_toLower_of_ofGroups? hu]

/-- Each form reads as the identifier that it writes. The forms differ in length, so none is taken
for another. -/
theorem parse?_of_mem_forms (h : s ∈ u.forms) : parse? s = some u := by
  have hdigits (hs : s.length ≠ 32) : ofDigits? s = none := by rw [ofDigits?, if_neg hs]
  have hgroups (hs : s.length ≠ 36) : ofGroups? s = none := by
    refine Option.eq_none_iff_forall_ne_some.mpr fun v hv => hs ?_
    rw [← List.length_map Char.toLower, map_toLower_of_ofGroups? hv, length_text]
  have htext := ofGroups?_text u
  rw [parse?_eq_some_iff]
  simp only [forms, List.mem_cons, List.not_mem_nil, or_false] at h
  rcases h with h | h | h | h
  · exact .inl (h ▸ ofDigits?_digits u)
  · have hlen : s.length = 36 := by rw [h, length_text]
    exact .inr ⟨hdigits (by omega), .inl (h ▸ htext)⟩
  · have hlen : s.length = 38 := by simp [h, length_text]
    refine .inr ⟨hdigits (by omega), .inr ⟨hgroups (by omega), .inl ?_⟩⟩
    rw [unbraced?_eq_some_iff.mpr h, Option.bind_some, htext]
  · have hlen : s.length = 45 := by simp [h, length_text, urnPrefix]
    have hbraces (r : List Char) : unbraced? (urnPrefix ++ r) = none := rfl
    refine .inr ⟨hdigits (by omega), .inr ⟨hgroups (by omega), .inr ⟨?_, ?_⟩⟩⟩
    · rw [h, hbraces, Option.bind_none]
    · rw [h, afterUrnPrefix?_append, Option.bind_some, htext]

theorem parse?_eq_some_iff_mem_forms : parse? s = some u ↔ s.map Char.toLower ∈ u.forms := by
  constructor
  · exact map_toLower_mem_forms
  · intro h
    rw [← parse?_map_toLower, parse?_of_mem_forms h]

end Uuid

namespace PeerId

variable {p : PeerId} {s : String}

/-- The texts that name a peer. -/
theorem parse?_eq_some_iff :
    parse? s = some p ↔ (Text.trim s.toList).map Char.toLower ∈ p.uuid.forms := by
  rw [← Uuid.parse?_eq_some_iff_mem_forms, parse?, Option.map_eq_some_iff]
  constructor
  · rintro ⟨u, hu, rfl⟩
    exact hu
  · intro h
    exact ⟨p.uuid, h, rfl⟩

/-- White space around the printed text and the case of its letters do not matter. -/
theorem parse?_of_spelled {l t r : List Char} (hl : ∀ c ∈ l, Text.isBlank c = true)
    (hr : ∀ c ∈ r, Text.isBlank c = true) (ht : t.map Char.toLower = p.text.toList) :
    parse? (String.ofList (l ++ t ++ r)) = some p := by
  have hblank : ∀ c ∈ t, Text.isBlank c = false := by
    intro c hc
    have hmem : c.toLower ∈ p.uuid.text.toList := ht ▸ List.mem_map_of_mem hc
    rw [← Text.isBlank_toLower, Uuid.not_isBlank_of_mem_text hmem]
  rw [parse?_eq_some_iff, String.toList_ofList, Text.trim_append_append hl hblank hr, ht]
  simp [text, Uuid.forms]

theorem parse?_text (p : PeerId) : parse? p.text = some p := by
  have hlower : p.text.toList.map Char.toLower = p.text.toList :=
    Uuid.map_toLower_of_ofGroups? (Uuid.ofGroups?_text p.uuid)
  have hspelled := parse?_of_spelled (l := []) (r := []) nofun nofun hlower
  rwa [List.nil_append, List.append_nil, String.ofList_toList] at hspelled

end PeerId

end GattHub
