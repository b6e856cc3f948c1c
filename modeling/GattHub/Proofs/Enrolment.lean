import GattHub.Proofs.Pruning
import Mathlib.Data.List.Forall2

/-! What identities a list of handles gets, exactly. Each handle gets one, where it first comes up:
its own if it is registered, else the next of the source. The last value that comes with a handle
counts. -/

namespace GattHub.Gatt

section Distinct

variable {α κ : Type} [DecidableEq κ]

/-- The handles that come up, in the order in which they first do. -/
def handles (handle : α → κ) (found : List α) : List κ := (found.map handle).eraseDups

/-- What comes with a handle where it last comes up. -/
def latest? (handle : α → κ) (found : List α) (k : κ) : Option α :=
  (found.filter (handle · = k)).getLast?

theorem eraseDups_filter (p : κ → Bool) (ks : List κ) :
    (ks.filter p).eraseDups = ks.eraseDups.filter p := by
  induction hlen : ks.length using Nat.strongRecOn generalizing ks with
  | ind n ih =>
    cases ks with
    | nil => simp
    | cons k ks =>
      have hshort : (ks.filter fun x => !x == k).length < n := by
        have hle := List.length_filter_le (fun x => !x == k) ks
        rw [← hlen, List.length_cons]
        omega
      have hrest := ih _ hshort (ks.filter fun x => !x == k) rfl
      rw [List.filter_filter] at hrest
      by_cases hk : p k
      · rw [List.filter_cons_of_pos hk, List.eraseDups_cons, List.eraseDups_cons,
          List.filter_cons_of_pos hk, List.filter_filter, ← hrest]
        congr 2
        exact List.filter_congr fun x _ => Bool.and_comm _ _
      · rw [List.filter_cons_of_neg hk, List.eraseDups_cons, List.filter_cons_of_neg hk, ← hrest]
        congr 1
        refine List.filter_congr fun x _ => ?_
        by_cases hx : x = k
        · simp [hx, hk]
        · simp [hx]

theorem handles_cons (handle : α → κ) (a : α) (found : List α) :
    handles handle (a :: found) = handle a :: (handles handle found).filter (· ≠ handle a) := by
  rw [handles, List.map_cons, List.eraseDups_cons, eraseDups_filter, handles]
  congr 1
  exact List.filter_congr fun x _ => by simp [beq_eq_decide]

theorem handles_map {β : Type} {handle : α → κ} {handle' : β → κ} {f : β → α}
    (hf : ∀ b, handle (f b) = handle' b) (found : List β) :
    handles handle (found.map f) = handles handle' found := by
  simp only [handles, List.map_map, Function.comp_def, hf]

theorem mem_handles {handle : α → κ} {found : List α} {k : κ} :
    k ∈ handles handle found ↔ k ∈ found.map handle := by
  rw [handles, List.mem_eraseDups]

theorem latest?_cons (handle : α → κ) (a : α) (found : List α) (k : κ) :
    latest? handle (a :: found) k =
      (latest? handle found k).or (if handle a = k then some a else none) := by
  by_cases ha : handle a = k
  · have hfilter : (a :: found).filter (handle · = k) = a :: found.filter (handle · = k) :=
      List.filter_cons_of_pos (by simpa using ha)
    rw [latest?, hfilter, if_pos ha, latest?, List.getLast?_cons]
    cases (found.filter (handle · = k)).getLast? <;> rfl
  · have hfilter : (a :: found).filter (handle · = k) = found.filter (handle · = k) :=
      List.filter_cons_of_neg (by simpa using ha)
    rw [latest?, hfilter, if_neg ha, Option.or_none, latest?]

theorem latest?_map {β : Type} {handle : α → κ} {handle' : β → κ} {f : β → α}
    (hf : ∀ b, handle (f b) = handle' b) (found : List β) (k : κ) :
    latest? handle (found.map f) k = (latest? handle' found k).map f := by
  simp only [latest?, List.filter_map, Function.comp_def, hf, List.getLast?_map]

theorem handle_of_latest? {handle : α → κ} {found : List α} {k : κ} {a : α}
    (h : latest? handle found k = some a) : handle a = k := by
  have hmem := List.mem_of_getLast? h
  simpa using (List.mem_filter.mp hmem).2

theorem exists_latest? {handle : α → κ} {found : List α} {k : κ} (hk : k ∈ handles handle found) :
    ∃ a, latest? handle found k = some a := by
  obtain ⟨a, ha, hak⟩ := List.mem_map.mp (mem_handles.mp hk)
  have hmem : a ∈ found.filter (handle · = k) := List.mem_filter.mpr ⟨ha, by simpa using hak⟩
  exact ⟨_, List.getLast?_eq_some_getLast (List.ne_nil_of_mem hmem)⟩

end Distinct

namespace HandleTable

variable {κ τ : Type} [DecidableEq κ] {t t' : HandleTable κ τ} {n : Nat}

/-- Of the handles, those that are not registered. -/
def newcomers (t : HandleTable κ τ) (ks : List κ) : List κ := ks.filter (t.idOf? · = none)

/-- The `count` identities that come after the first `n`. -/
def following (n count : Nat) : List AttrId :=
  (List.range' (n + 1) count).map fun j => ⟨.ofNat j⟩

/-- What comes of registering entries, when `n` identities were given out before. -/
structure Enrols (t : HandleTable κ τ) (n : Nat) (es : List (Entry κ τ)) (ids : List AttrId)
    (t' : HandleTable κ τ) : Prop where
  sound : t'.Sound (n + (t.newcomers (handles Entry.handle es)).length)
  listed : List.Forall₂ (fun k i => t'.idOf? k = some i) (handles Entry.handle es) ids
  kept : ∀ k i, t.idOf? k = some i → t'.idOf? k = some i
  fresh : (t.newcomers (handles Entry.handle es)).map t'.idOf? =
    (following n (t.newcomers (handles Entry.handle es)).length).map some
  get?_of_idOf? : ∀ k i, t'.idOf? k = some i →
    t'.get? i = (latest? Entry.handle es k).or (t.get? i)

/-- Registers one more entry, as far as handles go. -/
theorem Sound.register_idOf? (ht : t.Sound n) (e : Entry κ τ)
    (hn : n + t.draws e.handle < UInt64.size) :
    ∃ id t₁, t.register (.after n) e.handle e.value = (id, t₁, .after (n + t.draws e.handle)) ∧
      id = (t.idOf? e.handle).getD ⟨.ofNat (n + 1)⟩ ∧ t₁.Sound (n + t.draws e.handle) ∧
      (∀ k, t₁.idOf? k = if k = e.handle then some id else t.idOf? k) ∧
      ∀ i, t₁.get? i = if i = id then some e else t.get? i := by
  obtain ⟨id, t₁, hr, hsound, hget, hold⟩ := ht.register e.handle hn e.value
  refine ⟨id, t₁, hr, ?_, hsound, fun k => ?_, hget⟩
  · have hfirst : (t.register (.after n) e.handle e.value).1 = id := congrArg Prod.fst hr
    rw [← hfirst]
    cases hk : t.idOf? e.handle with
    | some i => rw [register_of_some hk, Option.getD_some]
    | none => rw [register_of_none hk, Option.getD_none, IdSource.fresh, IdSource.after]
  have hid : t₁.handle? id = some e.handle := handle?_of_get? (by rw [hget, if_pos rfl])
  by_cases hk : k = e.handle
  · rw [if_pos hk, hk, hsound.idOf?_iff]
    exact hid
  rw [if_neg hk]
  have hother (i : AttrId) : t₁.handle? i = some k ↔ t.handle? i = some k := by
    by_cases hi : i = id
    · subst hi
      rw [hid]
      refine ⟨fun h => absurd (Option.some.inj h).symm hk, fun h => ?_⟩
      rcases hold with hold | hnew
      · rw [hold] at h
        exact absurd (Option.some.inj h).symm hk
      · have hle := ht.le i k h
        omega
    · rw [handle?, hget, if_neg hi, ← handle?]
  refine Option.ext fun i => ?_
  rw [hsound.idOf?_iff, ht.idOf?_iff, hother]

theorem newcomers_cons (t : HandleTable κ τ) {t₁ : HandleTable κ τ} {e : Entry κ τ} {id : AttrId}
    (hids : ∀ k, t₁.idOf? k = if k = e.handle then some id else t.idOf? k)
    (es : List (Entry κ τ)) :
    t.newcomers (handles Entry.handle (e :: es)) =
      if t.idOf? e.handle = none then e.handle :: t₁.newcomers (handles Entry.handle es)
      else t₁.newcomers (handles Entry.handle es) := by
  have hrest : ((handles Entry.handle es).filter (· ≠ e.handle)).filter (t.idOf? · = none) =
      t₁.newcomers (handles Entry.handle es) := by
    rw [List.filter_filter]
    refine List.filter_congr fun k _ => ?_
    rw [hids]
    by_cases hk : k = e.handle <;> simp [hk]
  rw [newcomers, handles_cons]
  split
  next hnone => rw [List.filter_cons_of_pos (by simpa using hnone), hrest]
  next hsome => rw [List.filter_cons_of_neg (by simpa using hsome), hrest]

theorem following_succ (n count : Nat) :
    following n (count + 1) = ⟨.ofNat (n + 1)⟩ :: following (n + 1) count := by
  simp [following, List.range'_succ]

/-- The entry is registered before the others. -/
theorem Enrols.cons {e : Entry κ τ} {es : List (Entry κ τ)} {id : AttrId} {ids : List AttrId}
    {t₁ : HandleTable κ τ} (hid : id = (t.idOf? e.handle).getD ⟨.ofNat (n + 1)⟩)
    (hids : ∀ k, t₁.idOf? k = if k = e.handle then some id else t.idOf? k)
    (hget : ∀ i, t₁.get? i = if i = id then some e else t.get? i)
    (h : t₁.Enrols (n + t.draws e.handle) es ids t') :
    t.Enrols n (e :: es) (id :: ids.filter (· ≠ id)) t' := by
  have hself : t'.idOf? e.handle = some id := h.kept _ _ (by rw [hids, if_pos rfl])
  have hiff {k : κ} {i : AttrId} (hk : t'.idOf? k = some i) : k = e.handle ↔ i = id := by
    constructor
    · rintro rfl
      rw [hself] at hk
      exact (Option.some.inj hk).symm
    · rintro rfl
      rw [h.sound.idOf?_iff] at hk hself
      rw [hself] at hk
      exact (Option.some.inj hk).symm
  have hnew := t.newcomers_cons hids es
  refine ⟨?_, ?_, fun k i hk => ?_, ?_, fun k i hk => ?_⟩
  · have hsound := h.sound
    rw [Nat.add_assoc] at hsound
    rw [hnew]
    by_cases hnone : t.idOf? e.handle = none
    · rw [if_pos hnone, List.length_cons, Nat.add_comm _ 1]
      simpa [draws, hnone] using hsound
    · simpa [draws, hnone] using hsound
  · rw [handles_cons]
    refine .cons hself (List.rel_filter (fun k i hk => ?_) h.listed)
    simp [hiff hk]
  · by_cases hke : k = e.handle
    · rw [hke] at hk ⊢
      rw [hself, hid, hk]
      rfl
    · exact h.kept k i (by rw [hids, if_neg hke, hk])
  · have hfresh := h.fresh
    rw [hnew]
    by_cases hnone : t.idOf? e.handle = none
    · have hdraws : t.draws e.handle = 1 := by simp [draws, hnone]
      rw [hdraws] at hfresh
      rw [if_pos hnone, List.map_cons, List.length_cons, following_succ, List.map_cons, hself,
        hfresh, hid, hnone]
      rfl
    · have hdraws : t.draws e.handle = 0 := by simp [draws, hnone]
      rw [hdraws] at hfresh
      rw [if_neg hnone]
      exact hfresh
  · rw [h.get?_of_idOf? k i hk, latest?_cons, hget, Option.or_assoc]
    congr 1
    by_cases hke : k = e.handle
    · rw [if_pos ((hiff hk).mp hke), if_pos hke.symm]
      rfl
    · rw [if_neg fun hi => hke ((hiff hk).mpr hi), if_neg (Ne.symm hke)]
      rfl

theorem Sound.enrols_registerAll (ht : t.Sound n) (es : List (Entry κ τ))
    (hn : n + (t.newcomers (handles Entry.handle es)).length < UInt64.size) :
    ∃ ids t', t.registerAll (.after n) es =
        (ids, t', .after (n + (t.newcomers (handles Entry.handle es)).length)) ∧
      t.Enrols n es ids t' := by
  induction es generalizing t n with
  | nil => exact ⟨[], t, rfl, ht, .nil, fun _ _ => id, rfl, fun _ _ _ => rfl⟩
  | cons e es ih =>
    have hdraws : n + t.draws e.handle < UInt64.size := by
      refine Nat.lt_of_le_of_lt (Nat.add_le_add_left ?_ n) hn
      rw [newcomers, handles_cons, draws]
      split
      next hnone => simp [hnone]
      next => exact Nat.zero_le _
    obtain ⟨id, t₁, hfirst, hid, hsound, hids, hget⟩ := ht.register_idOf? e hdraws
    have hcount : (t.newcomers (handles Entry.handle (e :: es))).length =
        t.draws e.handle + (t₁.newcomers (handles Entry.handle es)).length := by
      rw [t.newcomers_cons hids es, draws]
      split
      · rw [List.length_cons, Nat.add_comm]
      · rw [Nat.zero_add]
    obtain ⟨ids, t', hrest, h⟩ := ih hsound (by omega)
    refine ⟨id :: ids.filter (· ≠ id), t', ?_, h.cons hid hids hget⟩
    simp only [HandleTable.registerAll, hfirst, hrest, hcount, Nat.add_assoc]

end HandleTable

end GattHub.Gatt
