import GattHub.Proofs.Enrolment
import Mathlib.Logic.Function.Basic

/-! Any number of tables that draw on one source of identities, used in any order. In each table
handles and live identities go one to one. An identity comes up in one table only, later ones are
greater, and one that was taken out never comes back in any table. -/

namespace GattHub.Gatt

namespace HandleTable

variable {κ τ : Type}

theorem resolve_eq_ok {t : HandleTable κ τ} {x : AttrId} {h : κ} :
    t.resolve x = .ok h ↔ t.handle? x = some h := by
  cases hx : t.get? x <;> simp [resolve, get, handle?, hx, Except.map]

theorem resolve_eq_error {t : HandleTable κ τ} {x : AttrId} :
    t.resolve x = .error ⟨x⟩ ↔ t.handle? x = none := by
  cases hx : t.get? x <;> simp [resolve, get, handle?, hx, Except.map]

theorem handle?_clear (t : HandleTable κ τ) (x : AttrId) : t.clear.handle? x = none := rfl

theorem sound_clear [DecidableEq κ] (t : HandleTable κ τ) (n : Nat) : t.clear.Sound n :=
  sound_empty n

end HandleTable

variable {ι : Type} {κ τ : ι → Type}

/-- One use of one of the tables. -/
inductive Use (κ τ : ι → Type) where
  | register (i : ι) (handle : κ i) (value : τ i)
  | retire (i : ι) (x : AttrId)
  | clear (i : ι)

/-- Any number of tables, each with its own handles and values, and the source for all of them. -/
structure Cabinet (κ τ : ι → Type) where
  table : (i : ι) → HandleTable (κ i) (τ i)
  source : IdSource

namespace Cabinet

def empty : Cabinet κ τ := ⟨fun _ => ∅, .initial⟩

variable [DecidableEq ι]

def put (s : Cabinet κ τ) (i : ι) (t : HandleTable (κ i) (τ i)) (ids : IdSource) : Cabinet κ τ :=
  ⟨Function.update s.table i t, ids⟩

theorem table_put_self (s : Cabinet κ τ) (i : ι) (t : HandleTable (κ i) (τ i)) (ids : IdSource) :
    (s.put i t ids).table i = t := by simp only [put, Function.update_self]

theorem table_put_of_ne (s : Cabinet κ τ) {i j : ι} (h : j ≠ i) (t : HandleTable (κ i) (τ i))
    (ids : IdSource) : (s.put i t ids).table j = s.table j := by
  simp only [put, Function.update_of_ne h]

variable [∀ i, DecidableEq (κ i)]

/-- The identity that a use hands out. -/
def answer? (s : Cabinet κ τ) : Use κ τ → Option AttrId
  | .register i h v => some ((s.table i).register s.source h v).1
  | .retire .. | .clear _ => none

def act (s : Cabinet κ τ) : Use κ τ → Cabinet κ τ
  | .register i h v =>
    let r := (s.table i).register s.source h v
    s.put i r.2.1 r.2.2
  | .retire i x => s.put i ((s.table i).retire x).2 s.source
  | .clear i => s.put i (s.table i).clear s.source

def run (s : Cabinet κ τ) (us : List (Use κ τ)) : Cabinet κ τ := us.foldl act s

/-- How many new identities a use takes. -/
def draws (s : Cabinet κ τ) : Use κ τ → Nat
  | .register i h _ => (s.table i).draws h
  | .retire .. | .clear _ => 0

def drawsAll (s : Cabinet κ τ) : List (Use κ τ) → Nat
  | [] => 0
  | u :: us => s.draws u + (s.act u).drawsAll us

/-- The identities that were handed out, in order. -/
def answers (s : Cabinet κ τ) : List (Use κ τ) → List AttrId
  | [] => []
  | u :: us => (s.answer? u).toList ++ (s.act u).answers us

/-- Each identity is live in one table at most, when `n` identities were given out. -/
structure Sound (s : Cabinet κ τ) (n : Nat) : Prop where
  source_eq : s.source = .after n
  table : ∀ i, (s.table i).Sound n
  apart : ∀ {i j x h k}, (s.table i).handle? x = some h → (s.table j).handle? x = some k → i = j

/-- What registering a handle does: one entry and its handle's identity are set, and nothing else
changes in any table. -/
structure Sets (s : Cabinet κ τ) (i : ι) (h : κ i) (v : τ i) (x : AttrId) (s' : Cabinet κ τ) :
    Prop where
  get?_eq : ∀ y, (s'.table i).get? y = if y = x then some ⟨h, v⟩ else (s.table i).get? y
  idOf?_eq : ∀ k, (s'.table i).idOf? k = if k = h then some x else (s.table i).idOf? k
  others : ∀ j, j ≠ i → s'.table j = s.table j

variable {s s' : Cabinet κ τ} {n : Nat} {u : Use κ τ}

omit [DecidableEq ι] in
theorem sound_empty : (empty : Cabinet κ τ).Sound 0 :=
  ⟨rfl, fun _ => HandleTable.sound_empty 0, nofun⟩

theorem run_append (s : Cabinet κ τ) (us vs : List (Use κ τ)) :
    s.run (us ++ vs) = (s.run us).run vs := List.foldl_append

theorem drawsAll_append (s : Cabinet κ τ) (us vs : List (Use κ τ)) :
    s.drawsAll (us ++ vs) = s.drawsAll us + (s.run us).drawsAll vs := by
  induction us generalizing s with
  | nil => exact (Nat.zero_add _).symm
  | cons u us ih =>
    rw [List.cons_append, drawsAll, drawsAll, ih, Nat.add_assoc]
    rfl

/-- What is put in the place of a table keeps identities apart if each that it has was there before
or is greater than all others. -/
theorem Sound.put (hs : s.Sound n) {m : Nat} (hnm : n ≤ m) {i : ι} {t : HandleTable (κ i) (τ i)}
    (ht : t.Sound m)
    (hold : ∀ x h, t.handle? x = some h → (s.table i).handle? x = some h ∨ n < x.raw.toNat) :
    (s.put i t (.after m)).Sound m ∧
      ∀ {j x h}, ((s.put i t (.after m)).table j).handle? x = some h →
        (s.table j).handle? x = some h ∨ j = i ∧ n < x.raw.toNat := by
  have hlive {j : ι} {x : AttrId} {h : κ j}
      (hx : ((s.put i t (.after m)).table j).handle? x = some h) :
      (s.table j).handle? x = some h ∨ j = i ∧ n < x.raw.toNat := by
    by_cases hj : j = i
    · subst hj
      rw [table_put_self] at hx
      exact (hold x h hx).imp_right fun hnew => ⟨rfl, hnew⟩
    · rw [table_put_of_ne s hj] at hx
      exact .inl hx
  refine ⟨⟨rfl, fun j => ?_, fun {j j' x h k} hx hx' => ?_⟩, hlive⟩
  · by_cases hj : j = i
    · subst hj
      rwa [table_put_self]
    · rw [table_put_of_ne s hj]
      exact (hs.table j).mono hnm
  · rcases hlive hx with hx | ⟨hj, hnew⟩
    · rcases hlive hx' with hx' | ⟨-, hnew⟩
      · exact hs.apart hx hx'
      · have hle := (hs.table j).le x h hx
        omega
    · rcases hlive hx' with hx' | ⟨hj', -⟩
      · have hle := (hs.table j').le x k hx'
        omega
      · exact hj.trans hj'.symm

/-- Registering a handle hands out the identity that it has, or the next one, and sets its entry. -/
theorem Sound.register (hs : s.Sound n) (i : ι) (h : κ i) (v : τ i)
    (hn : n + (s.table i).draws h < UInt64.size) :
    ∃ x t, s.answer? (.register i h v) = some x ∧
      s.act (.register i h v) = s.put i t (.after (n + (s.table i).draws h)) ∧
      t.Sound (n + (s.table i).draws h) ∧
      s.Sets i h v x (s.act (.register i h v)) ∧
      ((s.table i).idOf? h = some x ∨ (s.table i).idOf? h = none ∧ x.raw.toNat = n + 1) := by
  obtain ⟨x, t, hr, hx, hsound, hidOf, hget⟩ := (hs.table i).register_idOf? ⟨h, v⟩ hn
  rw [← hs.source_eq] at hr
  have hact : s.act (.register i h v) = s.put i t (.after (n + (s.table i).draws h)) := by
    simp only [Cabinet.act, hr]
  refine ⟨x, t, by simp only [answer?, hr], hact, hsound, ?_, ?_⟩
  · rw [hact]
    refine ⟨fun y => ?_, fun k => ?_, fun j hj => table_put_of_ne s hj t _⟩
    · rw [table_put_self, hget]
    · rw [table_put_self, hidOf]
  · cases hold : (s.table i).idOf? h with
    | some y =>
      rw [hold] at hx
      exact .inl (congrArg some hx.symm)
    | none =>
      rw [hold] at hx
      have hdraws : (s.table i).draws h = 1 := by simp [HandleTable.draws, hold]
      rw [hdraws] at hn
      have hfresh := IdSource.fresh_after (n := n) (by omega)
      exact .inr ⟨rfl, hx ▸ hfresh⟩

/-- A use keeps identities apart, and brings none to life but new ones. -/
theorem Sound.act (hs : s.Sound n) (u : Use κ τ) (hn : n + s.draws u < UInt64.size) :
    (s.act u).Sound (n + s.draws u) ∧ ∀ {j x h}, ((s.act u).table j).handle? x = some h →
      (s.table j).handle? x = some h ∨ n < x.raw.toNat := by
  cases u with
  | register i h v =>
    obtain ⟨x, t, -, hact, hsound, hsets, hx⟩ := hs.register i h v hn
    rw [hact] at hsets ⊢
    have hold (y : AttrId) (k : κ i) (hy : t.handle? y = some k) :
        (s.table i).handle? y = some k ∨ n < y.raw.toNat := by
      have hget := hsets.get?_eq y
      rw [table_put_self] at hget
      rw [HandleTable.handle?, hget] at hy
      by_cases hyx : y = x
      · rw [if_pos hyx] at hy
        cases hy
        rcases hx with hold | ⟨-, hnew⟩
        · exact .inl (hyx ▸ ((hs.table i).idOf?_iff h x).mp hold)
        · exact .inr (by rw [hyx]; omega)
      · rw [if_neg hyx] at hy
        exact .inl hy
    obtain ⟨hput, hlive⟩ := hs.put (Nat.le_add_right n _) hsound hold
    exact ⟨hput, fun hy => (hlive hy).imp_right And.right⟩
  | retire i x =>
    simp only [Cabinet.act, hs.source_eq]
    have hold (y : AttrId) (k : κ i) (hy : ((s.table i).retire x).2.handle? y = some k) :
        (s.table i).handle? y = some k ∨ n < y.raw.toNat := by
      rw [HandleTable.handle?_retire] at hy
      split at hy
      · cases hy
      · exact .inl hy
    obtain ⟨hput, hlive⟩ := hs.put (Nat.le_refl n) ((hs.table i).retire x) hold
    exact ⟨hput, fun hy => (hlive hy).imp_right And.right⟩
  | clear i =>
    simp only [Cabinet.act, hs.source_eq]
    have hold (y : AttrId) (k : κ i) (hy : (s.table i).clear.handle? y = some k) :
        (s.table i).handle? y = some k ∨ n < y.raw.toNat := by
      rw [HandleTable.handle?_clear] at hy
      cases hy
    obtain ⟨hput, hlive⟩ := hs.put (Nat.le_refl n) (HandleTable.sound_clear (s.table i) n) hold
    exact ⟨hput, fun hy => (hlive hy).imp_right And.right⟩

/-- Uses bring no identity to life that was given out before them. -/
theorem Sound.run (hs : s.Sound n) (us : List (Use κ τ))
    (hn : n + s.drawsAll us < UInt64.size) :
    (s.run us).Sound (n + s.drawsAll us) ∧ ∀ {j x h}, ((s.run us).table j).handle? x = some h →
      x.raw.toNat ≤ n → (s.table j).handle? x = some h := by
  induction us generalizing s n with
  | nil => exact ⟨hs, fun hx _ => hx⟩
  | cons u us ih =>
    rw [drawsAll, ← Nat.add_assoc] at hn ⊢
    obtain ⟨hnext, hold⟩ := hs.act u (by omega)
    obtain ⟨hlast, hback⟩ := ih hnext hn
    refine ⟨hlast, fun {j x h} hx hle => ?_⟩
    rcases hold (hback hx (by omega)) with hx | hnew
    · exact hx
    · omega

theorem Sound.answers_le (hs : s.Sound n) (us : List (Use κ τ))
    (hn : n + s.drawsAll us < UInt64.size) :
    ∀ x ∈ s.answers us, x.raw.toNat ≤ n + s.drawsAll us := by
  induction us generalizing s n with
  | nil => exact nofun
  | cons u us ih =>
    rw [drawsAll, ← Nat.add_assoc] at hn ⊢
    obtain ⟨hnext, -⟩ := hs.act u (by omega)
    intro x hx
    rcases List.mem_append.mp hx with hx | hx
    · cases u with
      | register i h v =>
        have hfirst : n + (s.table i).draws h < UInt64.size := by
          simp only [draws] at hn
          omega
        obtain ⟨y, t, hanswer, -, -, hsets, -⟩ := hs.register i h v hfirst
        rw [hanswer] at hx
        obtain rfl : x = y := by simpa using hx
        have hlive : ((s.act (.register i h v)).table i).handle? x = some h :=
          HandleTable.handle?_of_get? (by rw [hsets.get?_eq, if_pos rfl])
        have hle := (hnext.table i).le x h hlive
        omega
      | retire | clear => cases hx
    · exact ih hnext hn x hx

theorem not_live_of_taken (hs : s.Sound n) {i : ι} {x : AttrId} {h : κ i}
    (hx : (s.table i).handle? x = some h) (hu : u = .retire i x ∨ u = .clear i) (j : ι) :
    ((s.act u).table j).handle? x = none := by
  have hother (hj : j ≠ i) : (s.table j).handle? x = none := by
    refine Option.eq_none_iff_forall_ne_some.mpr fun k hk => hj (hs.apart hk hx)
  rcases hu with rfl | rfl
  · by_cases hj : j = i
    · subst hj
      rw [act, table_put_self, HandleTable.handle?_retire, if_pos rfl]
    · rw [act, table_put_of_ne s hj, hother hj]
  · by_cases hj : j = i
    · subst hj
      rw [act, table_put_self, HandleTable.handle?_clear]
    · rw [act, table_put_of_ne s hj, hother hj]

/-- What is taken out stays out, in its own table and in all others. -/
theorem Sound.not_live_again (hs : s.Sound n) {us : List (Use κ τ)}
    (hn : n + s.drawsAll (u :: us) < UInt64.size) {i : ι} {x : AttrId} {h : κ i}
    (hx : (s.table i).handle? x = some h) (hu : u = .retire i x ∨ u = .clear i) (j : ι) :
    ((s.run (u :: us)).table j).handle? x = none := by
  rw [drawsAll, ← Nat.add_assoc] at hn
  obtain ⟨hnext, -⟩ := hs.act u (by omega)
  have hle := (hs.table i).le x h hx
  refine Option.eq_none_iff_forall_ne_some.mpr fun k hk => ?_
  -- It is no later identity, so what has it in the end had it right after it was taken out.
  have hback := (hnext.run us hn).2 hk (by omega)
  rw [not_live_of_taken hs hx hu j] at hback
  cases hback

/-- As long as identities do not run out, however the tables are used: in each table handles and
live identities go one to one. A handle that is registered keeps its identity, takes nothing from
the source and gets the new value; any other gets an identity above all that were handed out by any
table. Either way nothing else changes. An identity that was taken out of its table resolves in no
table again. -/
theorem shared_source (us : List (Use κ τ))
    (hbound : (empty : Cabinet κ τ).drawsAll us < UInt64.size) :
    (∀ i h x, ((empty.run us).table i).idOf? h = some x ↔
        ((empty.run us).table i).resolve x = .ok h) ∧
      (∀ pre i h v post, us = pre ++ .register i h v :: post →
        let s := (empty : Cabinet κ τ).run pre
        let s' := (empty : Cabinet κ τ).run (pre ++ [.register i h v])
        ∃ x, s.answer? (.register i h v) = some x ∧ s.Sets i h v x s' ∧
          (∀ y, (s.table i).idOf? h = some y → x = y ∧ s'.source = s.source) ∧
          ((s.table i).idOf? h = none → ∀ y ∈ empty.answers pre, y.raw < x.raw)) ∧
      ∀ pre u post, us = pre ++ u :: post → ∀ i x h,
        ((empty.run pre).table i).resolve x = .ok h → (u = .retire i x ∨ u = .clear i) →
        ∀ j, ((empty.run us).table j).resolve x = .error ⟨x⟩ := by
  have hsound {pre post : List (Use κ τ)} (hus : us = pre ++ post) :
      ((empty : Cabinet κ τ).run pre).Sound (empty.drawsAll pre) ∧
        empty.drawsAll pre + (empty.run pre).drawsAll post < UInt64.size := by
    rw [hus, drawsAll_append] at hbound
    have hrun := (sound_empty.run pre (by rw [Nat.zero_add]; omega)).1
    exact ⟨by rwa [Nat.zero_add] at hrun, hbound⟩
  refine ⟨fun i h x => ?_, fun pre i h v post hus => ?_, fun pre u post hus i x h hx hu j => ?_⟩
  · rw [HandleTable.resolve_eq_ok]
    exact ((hsound (List.append_nil us).symm).1.table i).idOf?_iff h x
  · intro s s'
    obtain ⟨hs, hn⟩ := hsound hus
    rw [drawsAll] at hn
    have hs' : s' = s.act (.register i h v) := run_append _ _ _
    have hfirst : empty.drawsAll pre + ((empty.run pre).table i).draws h < UInt64.size := by
      simp only [draws] at hn
      omega
    obtain ⟨x, t, hanswer, hact, -, hsets, hid⟩ := hs.register i h v hfirst
    refine ⟨x, hanswer, hs' ▸ hsets, fun y hy => ?_, fun hnone y hy => ?_⟩
    · have hdraws : (s.table i).draws h = 0 := by simp [HandleTable.draws, hy]
      refine ⟨?_, ?_⟩
      · rcases hid with hid | ⟨hid, -⟩
        · exact Option.some.inj (hid.symm.trans hy)
        · rw [hid] at hy
          cases hy
      · rw [hs', hact, hs.source_eq, hdraws]
        rfl
    · have hle := sound_empty.answers_le pre (by rw [Nat.zero_add]; omega) y hy
      rcases hid with hid | ⟨-, hnew⟩
      · rw [hid] at hnone
        cases hnone
      · rw [Nat.zero_add] at hle
        rw [UInt64.lt_iff_toNat_lt, hnew]
        exact Nat.lt_succ_of_le hle
  · obtain ⟨hs, hn⟩ := hsound hus
    rw [HandleTable.resolve_eq_ok] at hx
    rw [HandleTable.resolve_eq_error, hus, run_append]
    exact hs.not_live_again hn hx hu j

/-- A handle is registered in two tables, again in the first, taken out there and registered once
more. -/
def twoTables : List (Use (fun _ : Bool => Nat) fun _ => Nat) :=
  [.register false 7 1, .register true 7 2, .register false 7 3, .retire false ⟨1⟩,
    .register false 7 4]

theorem shared_source_twoTables :
    empty.drawsAll twoTables < UInt64.size ∧
      empty.answers twoTables = [⟨1⟩, ⟨2⟩, ⟨1⟩, ⟨3⟩] ∧
      (∀ j, ((empty.run twoTables).table j).resolve ⟨1⟩ = .error ⟨⟨1⟩⟩) ∧
      ((empty.run twoTables).table true).idOf? 7 = some ⟨2⟩ ∧
      ((empty.run twoTables).table true).resolve ⟨2⟩ = .ok 7 := by
  have hbound : empty.drawsAll twoTables < UInt64.size := by decide
  obtain ⟨hinverse, -, hdead⟩ := shared_source twoTables hbound
  have htrue : ((empty.run twoTables).table true).idOf? 7 = some ⟨2⟩ := by decide
  exact ⟨hbound, by decide, hdead (twoTables.take 3) (.retire false ⟨1⟩) [.register false 7 4] rfl
    false ⟨1⟩ 7 rfl (.inl rfl), htrue, (hinverse true 7 ⟨2⟩).mp htrue⟩

end Cabinet

end GattHub.Gatt
