/-! Finite tables that list their keys in the order in which these first came in. The view of a
table is `get?`; one lemma says what each operation does to it. -/

namespace GattHub

/-- A table with at most one value for each key. -/
structure Table (K V : Type) where
  entries : List (K × V)
  nodup_keys : (entries.map Prod.fst).Nodup

namespace Table

variable {K V : Type}

def empty : Table K V := ⟨[], List.nodup_nil⟩

instance : EmptyCollection (Table K V) := ⟨empty⟩

instance : Inhabited (Table K V) := ⟨empty⟩

def keys (t : Table K V) : List K := t.entries.map Prod.fst

def values (t : Table K V) : List V := t.entries.map Prod.snd

def size (t : Table K V) : Nat := t.entries.length

theorem ext {s t : Table K V} (h : s.entries = t.entries) : s = t := by
  cases s
  cases t
  cases h
  rfl

theorem nodup_keys_map (t : Table K V) {W : Type} (f : K → V → W) :
    ((t.entries.map fun e => (e.1, f e.1 e.2)).map Prod.fst).Nodup := by
  simpa [List.map_map, Function.comp_def] using t.nodup_keys

def map {W : Type} (f : V → W) (t : Table K V) : Table K W :=
  ⟨t.entries.map fun e => (e.1, f e.2), t.nodup_keys_map fun _ v => f v⟩

variable [DecidableEq K]

def get? (t : Table K V) (k : K) : Option V := (t.entries.find? (·.1 = k)).map Prod.snd

def contains (t : Table K V) (k : K) : Bool := (t.get? k).isSome

def modify (t : Table K V) (k : K) (f : V → V) : Table K V :=
  ⟨t.entries.map fun e => (e.1, if e.1 = k then f e.2 else e.2),
    t.nodup_keys_map fun i v => if i = k then f v else v⟩

def erase (t : Table K V) (k : K) : Table K V :=
  ⟨t.entries.filter (·.1 ≠ k), (t.nodup_keys).sublist (List.filter_sublist.map _)⟩

/-- Gives a key its value; a key that is present keeps its place. -/
def insert (t : Table K V) (k : K) (v : V) : Table K V :=
  if h : k ∈ t.keys then t.modify k fun _ => v
  else ⟨t.entries ++ [(k, v)], by
    rw [List.map_append, List.nodup_append]
    refine ⟨t.nodup_keys, by simp, ?_⟩
    intro a ha b hb hab
    rw [show b = k by simpa using hb] at hab
    exact h (hab ▸ ha)⟩

/-- The table with these entries; of two entries for one key the later one counts. -/
def ofList (entries : List (K × V)) : Table K V :=
  entries.foldl (fun t e => t.insert e.1 e.2) ∅

theorem find?_fst_map (l : List (K × V)) (f : K → V → V) (k : K) :
    (l.map fun e => (e.1, f e.1 e.2)).find? (·.1 = k) =
      (l.find? (·.1 = k)).map fun e => (e.1, f e.1 e.2) := by
  rw [List.find?_map]
  rfl

@[simp] theorem get?_empty (k : K) : (∅ : Table K V).get? k = none := rfl

theorem mem_keys_iff {t : Table K V} {k : K} : k ∈ t.keys ↔ (t.get? k).isSome := by
  simp [keys, get?, List.find?_isSome]

theorem get?_eq_none_iff {t : Table K V} {k : K} : t.get? k = none ↔ k ∉ t.keys := by
  rw [mem_keys_iff]
  cases t.get? k <;> simp

theorem get?_modify (t : Table K V) (k : K) (f : V → V) (i : K) :
    (t.modify k f).get? i = if i = k then (t.get? i).map f else t.get? i := by
  simp only [get?, modify]
  rw [find?_fst_map _ fun i v => if i = k then f v else v]
  cases he : t.entries.find? (·.1 = i) with
  | none => by_cases h : i = k <;> simp [h]
  | some e =>
    have hi : e.1 = i := by simpa using List.find?_some he
    by_cases h : i = k <;> simp [h, hi]

theorem get?_insert (t : Table K V) (k : K) (v : V) (i : K) :
    (t.insert k v).get? i = if i = k then some v else t.get? i := by
  rw [insert]
  split
  next h =>
    rw [get?_modify]
    by_cases hi : i = k
    · subst hi
      obtain ⟨w, hw⟩ := Option.isSome_iff_exists.1 (mem_keys_iff.1 h)
      simp [hw]
    · simp [hi]
  next h =>
    have hk : t.entries.find? (·.1 = k) = none := by
      have := get?_eq_none_iff.2 h
      simpa [get?] using this
    simp only [get?, List.find?_append]
    by_cases hi : i = k
    · subst hi
      simp [hk]
    · simp [hi, Ne.symm hi]

theorem get?_erase (t : Table K V) (k i : K) :
    (t.erase k).get? i = if i = k then none else t.get? i := by
  simp only [get?, erase, List.find?_filter]
  by_cases hi : i = k
  · subst hi
    simp
  · have hp : (fun e : K × V => !decide (e.1 = k) && decide (e.1 = i)) =
        fun e => decide (e.1 = i) := by
      funext e
      by_cases he : e.1 = i
      · simp [he, hi]
      · simp [he]
    simp [hi, hp]

theorem get?_map {W : Type} (f : V → W) (t : Table K V) (k : K) :
    (t.map f).get? k = (t.get? k).map f := by
  simp only [get?, map, List.find?_map, Option.map_map]
  rfl

theorem mem_entries_iff {t : Table K V} {k : K} {v : V} :
    (k, v) ∈ t.entries ↔ t.get? k = some v := by
  obtain ⟨l, hl⟩ := t
  simp only [get?]
  induction l with
  | nil => simp
  | cons e l ih =>
    obtain ⟨hnot, hl⟩ := List.nodup_cons.mp hl
    by_cases he : e.1 = k
    · have hmem : (k, v) ∉ l := fun h => hnot (List.mem_map.mpr ⟨_, h, he.symm⟩)
      simp [hmem, he, Prod.ext_iff, eq_comm]
    · simp [Prod.ext_iff, he, Ne.symm he, ih hl]

theorem insert_of_get? {t : Table K V} {k : K} {v : V} (h : t.get? k = some v) :
    t.insert k v = t := by
  rw [insert, dif_pos (mem_keys_iff.2 (by rw [h]; rfl))]
  apply ext
  have hid : ∀ e ∈ t.entries, (e.1, if e.1 = k then v else e.2) = e := by
    intro e he
    split
    next hk =>
      have hv := mem_entries_iff.1 he
      rw [hk, h] at hv
      simp [Option.some.inj hv]
    next => rfl
  exact (List.map_congr_left hid).trans t.entries.map_id

end Table

end GattHub
