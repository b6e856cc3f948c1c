import GattHub.Gatt.HandleTable
import Mathlib.Data.List.Nodup

/-! What registering and retiring do to a table of handles. As long as the source does not run out
of identities, handles and live identities go one to one, and a retired identity stays dead. -/

namespace GattHub

namespace IdSource

/-- The source once it gave out the identities from one to `n`. -/
def after (n : Nat) : IdSource := ⟨.ofNat (n + 1)⟩

theorem advance_after (n : Nat) : (after n).advance = after (n + 1) := by
  simp [after, advance]

theorem fresh_after {n : Nat} (hn : n < UInt64.size - 1) : (after n).fresh.raw.toNat = n + 1 := by
  have hmod : (n + 1) % 2 ^ 64 = n + 1 := Nat.mod_eq_of_lt (by rw [UInt64.size] at hn; omega)
  simpa [after, fresh, UInt64.toNat_ofNat'] using hmod

end IdSource

namespace Gatt.HandleTable

variable {κ τ : Type}

/-- The handle of a live identity. -/
def handle? (t : HandleTable κ τ) (id : AttrId) : Option κ := (t.get? id).map Entry.handle

theorem handle?_of_get? {t : HandleTable κ τ} {id : AttrId} {e : Entry κ τ}
    (he : t.get? id = some e) : t.handle? id = some e.handle := by
  rw [handle?, he]
  rfl

/-- Changes what is kept of a live identity. -/
def mapValue (t : HandleTable κ τ) (id : AttrId) (f : τ → τ) : HandleTable κ τ :=
  t.modify id fun e => { e with value := f e.value }

theorem get?_mapValue (t : HandleTable κ τ) (id : AttrId) (f : τ → τ) (i : AttrId) :
    (t.mapValue id f).get? i =
      if i = id then (t.get? i).map fun e => { e with value := f e.value } else t.get? i :=
  t.entries.get?_modify id _ i

theorem handle?_mapValue (t : HandleTable κ τ) (id : AttrId) (f : τ → τ) (i : AttrId) :
    (t.mapValue id f).handle? i = t.handle? i := by
  rw [handle?, get?_mapValue]
  split
  · cases he : t.get? i <;> simp [handle?, he]
  · rfl

variable [DecidableEq κ] {t : HandleTable κ τ} {n : Nat}

/-- Handles and live identities go one to one, and the identities are among the first `n`. -/
structure Sound (t : HandleTable κ τ) (n : Nat) : Prop where
  idOf?_iff : ∀ h id, t.idOf? h = some id ↔ t.handle? id = some h
  le : ∀ id h, t.handle? id = some h → id.raw.toNat ≤ n

theorem sound_empty (n : Nat) : (∅ : HandleTable κ τ).Sound n :=
  ⟨fun _ _ => ⟨nofun, nofun⟩, nofun⟩

theorem Sound.mono {m : Nat} (ht : t.Sound n) (hnm : n ≤ m) : t.Sound m :=
  ⟨ht.idOf?_iff, fun id h hh => Nat.le_trans (ht.le id h hh) hnm⟩

theorem Sound.of_handle? {t' : HandleTable κ τ} (ht : t.Sound n) (hindex : t'.index = t.index)
    (hhandle : ∀ i, t'.handle? i = t.handle? i) : t'.Sound n := by
  refine ⟨fun h id => ?_, fun id h hh => ht.le id h (by rwa [hhandle] at hh)⟩
  rw [hhandle, ← ht.idOf?_iff, idOf?, hindex, idOf?]

theorem Sound.mapValue (ht : t.Sound n) (id : AttrId) (f : τ → τ) : (t.mapValue id f).Sound n :=
  ht.of_handle? rfl (t.handle?_mapValue id f)

theorem Sound.inj (ht : t.Sound n) {i j : AttrId} {h : κ} (hi : t.handle? i = some h)
    (hj : t.handle? j = some h) : i = j := by
  rw [← ht.idOf?_iff] at hi hj
  rw [hi] at hj
  exact Option.some.inj hj

/-- What is behind a handle is registered. -/
theorem Sound.exists_get? (ht : t.Sound n) {h : κ} {id : AttrId} (hid : t.idOf? h = some id) :
    ∃ e, t.get? id = some e := by
  obtain ⟨e, he, -⟩ := Option.map_eq_some_iff.mp ((ht.idOf?_iff h id).mp hid)
  exact ⟨e, he⟩

theorem Sound.handle?_eq_none (ht : t.Sound n) {id : AttrId} (hid : n < id.raw.toNat) :
    t.handle? id = none := by
  cases hh : t.handle? id with
  | none => rfl
  | some h =>
    have hle := ht.le id h hh
    omega

section Retire

theorem retire_of_none {id : AttrId} (he : t.get? id = none) : t.retire id = (none, t) := by
  rw [retire, he]

theorem retire_of_some (t : HandleTable κ τ) {id : AttrId} {e : Entry κ τ}
    (he : t.get? id = some e) : t.retire id = (some e, ⟨t.entries.erase id,
      if t.idOf? e.handle = some id then t.index.erase e.handle else t.index⟩) := by
  rw [retire, he]

theorem get?_retire (t : HandleTable κ τ) (id i : AttrId) :
    (t.retire id).2.get? i = if i = id then none else t.get? i := by
  cases he : t.get? id with
  | none =>
    rw [retire_of_none he]
    split
    next h => rw [h, he]
    next => rfl
  | some e =>
    rw [retire_of_some t he]
    exact t.entries.get?_erase id i

theorem handle?_retire (t : HandleTable κ τ) (id i : AttrId) :
    (t.retire id).2.handle? i = if i = id then none else t.handle? i := by
  rw [handle?, get?_retire]
  split <;> rfl

theorem Sound.idOf?_retire (ht : t.Sound n) (id : AttrId) (h : κ) (i : AttrId) :
    (t.retire id).2.idOf? h = some i ↔ i ≠ id ∧ t.idOf? h = some i := by
  cases he : t.get? id with
  | none =>
    rw [retire_of_none he]
    refine ⟨fun hi => ⟨?_, hi⟩, And.right⟩
    rintro rfl
    rw [ht.idOf?_iff, handle?, he] at hi
    cases hi
  | some e =>
    have hid : t.handle? id = some e.handle := handle?_of_get? he
    rw [retire_of_some t he, if_pos ((ht.idOf?_iff _ _).mpr hid)]
    rw [idOf?, Table.get?_erase, ← idOf?]
    by_cases hh : h = e.handle
    · simp [hh, (ht.idOf?_iff _ _).mpr hid, eq_comm]
    · rw [if_neg hh]
      refine ⟨fun hi => ⟨?_, hi⟩, And.right⟩
      rintro rfl
      rw [ht.idOf?_iff, hid] at hi
      exact hh (Option.some.inj hi).symm

theorem Sound.retire (ht : t.Sound n) (id : AttrId) : (t.retire id).2.Sound n := by
  refine ⟨fun h i => ?_, fun i h hh => ?_⟩
  · rw [ht.idOf?_retire, handle?_retire, ht.idOf?_iff]
    by_cases hi : i = id <;> simp [hi]
  · rw [handle?_retire] at hh
    split at hh
    · cases hh
    · exact ht.le i h hh

theorem Sound.foldl_retire (ht : t.Sound n) (ids : List AttrId) :
    (ids.foldl (fun t id => (t.retire id).2) t).Sound n ∧
      ∀ i, (ids.foldl (fun t id => (t.retire id).2) t).get? i =
        if i ∈ ids then none else t.get? i := by
  induction ids generalizing t with
  | nil => exact ⟨ht, fun i => rfl⟩
  | cons id ids ih =>
    obtain ⟨hsound, hget⟩ := ih (ht.retire id)
    refine ⟨hsound, fun i => ?_⟩
    rw [List.foldl_cons, hget, get?_retire]
    by_cases hi : i = id <;> simp [hi]

end Retire

section Register

/-- The table with one more handle under an identity. -/
def enter (t : HandleTable κ τ) (id : AttrId) (h : κ) (v : τ) : HandleTable κ τ :=
  ⟨t.entries.insert id ⟨h, v⟩, t.index.insert h id⟩

theorem get?_enter (t : HandleTable κ τ) (id : AttrId) (h : κ) (v : τ) (i : AttrId) :
    (t.enter id h v).get? i = if i = id then some ⟨h, v⟩ else t.get? i :=
  t.entries.get?_insert id ⟨h, v⟩ i

theorem handle?_enter (t : HandleTable κ τ) (id : AttrId) (h : κ) (v : τ) (i : AttrId) :
    (t.enter id h v).handle? i = if i = id then some h else t.handle? i := by
  rw [handle?, get?_enter]
  split <;> rfl

theorem Sound.enter (ht : t.Sound n) {id : AttrId} (hid : id.raw.toNat = n + 1) {h : κ}
    (hh : t.idOf? h = none) (v : τ) : (t.enter id h v).Sound (n + 1) := by
  have hdead : t.handle? id = none := ht.handle?_eq_none (by omega)
  refine ⟨fun h' i => ?_, fun i h' hi => ?_⟩
  · rw [idOf?, HandleTable.enter, Table.get?_insert, ← idOf?, ← HandleTable.enter, handle?_enter]
    by_cases hh' : h' = h
    · subst hh'
      have hno : t.handle? i ≠ some h' := by
        intro hi
        rw [← ht.idOf?_iff, hh] at hi
        cases hi
      by_cases hi : i = id
      · simp [hi]
      · simp [hi, hno, Ne.symm hi]
    · rw [if_neg hh', ht.idOf?_iff]
      by_cases hi : i = id
      · simp [hi, hdead, Ne.symm hh']
      · simp [hi]
  · rw [handle?_enter] at hi
    split at hi
    next hi' => exact Nat.le_of_eq (hi' ▸ hid)
    next => exact Nat.le_succ_of_le (ht.le i h' hi)

theorem register_of_some {h : κ} {id : AttrId} (hid : t.idOf? h = some id) (ids : IdSource)
    (v : τ) : t.register ids h v = (id, t.mapValue id fun _ => v, ids) := by
  simp only [register, hid, mapValue]

theorem register_of_none {h : κ} (hid : t.idOf? h = none) (ids : IdSource) (v : τ) :
    t.register ids h v = (ids.fresh, t.enter ids.fresh h v, ids.advance) := by
  simp only [register, hid, enter]

/-- How many new identities it takes to register a handle. -/
def draws (t : HandleTable κ τ) (h : κ) : Nat := if t.idOf? h = none then 1 else 0

/-- A registered handle keeps its identity, any other gets the next one. Either way just the entry
of that identity changes. -/
theorem Sound.register (ht : t.Sound n) (h : κ) (hn : n + t.draws h < UInt64.size) (v : τ) :
    ∃ id t', t.register (.after n) h v = (id, t', .after (n + t.draws h)) ∧
      t'.Sound (n + t.draws h) ∧
      (∀ i, t'.get? i = if i = id then some ⟨h, v⟩ else t.get? i) ∧
      (t.handle? id = some h ∨ n < id.raw.toNat) := by
  cases hid : t.idOf? h with
  | some id =>
    have hold : t.handle? id = some h := (ht.idOf?_iff h id).mp hid
    have hdraws : t.draws h = 0 := by simp [draws, hid]
    rw [hdraws]
    refine ⟨id, _, register_of_some hid _ v, ht.mapValue id _, fun i => ?_, .inl hold⟩
    rw [get?_mapValue]
    split
    next hi =>
      subst hi
      obtain ⟨e, he, rfl⟩ := Option.map_eq_some_iff.mp hold
      rw [he]
      rfl
    next => rfl
  | none =>
    have hdraws : t.draws h = 1 := by simp [draws, hid]
    rw [hdraws] at hn ⊢
    have hfresh := IdSource.fresh_after (n := n) (by omega)
    refine ⟨_, _, ?_, ht.enter hfresh hid v, t.get?_enter _ h v, .inr (by omega)⟩
    rw [register_of_none hid, IdSource.advance_after]

/-- What comes of registering several handles: the identities that are listed, the table and the
number of identities given out so far. -/
structure Registers (t : HandleTable κ τ) (n : Nat) (es : List (Entry κ τ)) (ids : List AttrId)
    (t' : HandleTable κ τ) (m : Nat) : Prop where
  le : n ≤ m
  le_add : m ≤ n + es.length
  sound : t'.Sound m
  get?_of_mem : ∀ i ∈ ids, ∃ e ∈ es, t'.get? i = some e ∧
    (t.handle? i = some e.handle ∨ n < i.raw.toNat)
  get?_of_notMem : ∀ i, i ∉ ids → t'.get? i = t.get? i

/-- How many new identities it takes to register several handles. -/
def drawsAll (t : HandleTable κ τ) (ids : IdSource) : List (Entry κ τ) → Nat
  | [] => 0
  | e :: rest =>
    let first := t.register ids e.handle e.value
    t.draws e.handle + first.2.1.drawsAll first.2.2 rest

theorem drawsAll_le_length (t : HandleTable κ τ) (ids : IdSource) (es : List (Entry κ τ)) :
    t.drawsAll ids es ≤ es.length := by
  induction es generalizing t ids with
  | nil => exact Nat.le_refl 0
  | cons e es ih =>
    have hrest := ih (t.register ids e.handle e.value).2.1 (t.register ids e.handle e.value).2.2
    have hfirst : t.draws e.handle ≤ 1 := by
      simp only [draws]
      split <;> omega
    simp only [drawsAll, List.length_cons]
    omega

theorem Sound.registerAll_draws (ht : t.Sound n) (es : List (Entry κ τ))
    (hn : n + t.drawsAll (.after n) es < UInt64.size) :
    ∃ ids t', t.registerAll (.after n) es = (ids, t', .after (n + t.drawsAll (.after n) es)) ∧
      t.Registers n es ids t' (n + t.drawsAll (.after n) es) := by
  induction es generalizing t n with
  | nil => exact ⟨[], t, rfl, Nat.le_refl n, Nat.le_refl n, ht, nofun, fun _ _ => rfl⟩
  | cons e es ih =>
    have hall : t.drawsAll (.after n) (e :: es) = t.draws e.handle +
        (t.register (.after n) e.handle e.value).2.1.drawsAll
          (t.register (.after n) e.handle e.value).2.2 es := rfl
    rw [hall] at hn
    obtain ⟨id, t₁, hfirst, hsound, hget, hold⟩ := ht.register e.handle (by omega) e.value
    rw [hfirst] at hall hn
    obtain ⟨ids, t', hrest, hr⟩ := ih hsound (by dsimp only at hn; omega)
    have hsum : n + t.draws e.handle + t₁.drawsAll (.after (n + t.draws e.handle)) es =
        n + t.drawsAll (.after n) (e :: es) := by
      rw [hall]
      exact Nat.add_assoc n _ _
    rw [hsum] at hrest hr
    refine ⟨id :: ids.filter (· ≠ id), t', ?_, Nat.le_add_right n _,
      Nat.add_le_add_left (t.drawsAll_le_length _ _) n, hr.sound, fun i hi => ?_, fun i hi => ?_⟩
    · simp only [HandleTable.registerAll, hfirst, hrest]
    · by_cases hids : i ∈ ids
      · obtain ⟨e', he', hi', hbefore⟩ := hr.get?_of_mem i hids
        refine ⟨e', List.mem_cons_of_mem e he', hi', ?_⟩
        rcases hbefore with hbefore | hbefore
        · rw [handle?, hget] at hbefore
          by_cases hid : i = id
          · rw [if_pos hid] at hbefore
            rw [← Option.some.inj hbefore]
            exact hid ▸ hold
          · rw [if_neg hid] at hbefore
            exact .inl hbefore
        · exact .inr (by omega)
      · have hid : i = id := by simpa [hids] using hi
        refine ⟨e, List.mem_cons_self, ?_, hid ▸ hold⟩
        rw [hr.get?_of_notMem i hids, hget, if_pos hid]
    · have hid : i ≠ id ∧ i ∉ ids := by
        rw [List.mem_cons, not_or] at hi
        refine ⟨hi.1, fun hmem => hi.2 ?_⟩
        simpa [hi.1] using hmem
      rw [hr.get?_of_notMem i hid.2, hget, if_neg hid.1]

theorem Sound.registerAll (ht : t.Sound n) (es : List (Entry κ τ))
    (hn : n + es.length < UInt64.size) :
    ∃ ids t' m, t.registerAll (.after n) es = (ids, t', .after m) ∧
      t.Registers n es ids t' m := by
  have hdraws := t.drawsAll_le_length (.after n) es
  obtain ⟨ids, t', hall, hr⟩ := ht.registerAll_draws es (by omega)
  exact ⟨ids, t', _, hall, hr⟩

end Register

end Gatt.HandleTable

end GattHub
