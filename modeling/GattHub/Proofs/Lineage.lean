import GattHub.Proofs.Rebuilding
import Mathlib.Data.List.Induction

/-! Which identities resolve, told from the discoveries alone. An identity resolves from the
discovery that reported it until a later discovery ends that report. -/

namespace GattHub.Gatt

/-- A discovery rediscovers a scope, or a parent above it. Some discoveries were before the scope
was reported. -/
def Supersedes (before : List Discovery) (d : Discovery) : Scope → Prop
  | .services => d.scope = .services
  | .characteristics s => d.scope = .services ∨ d.scope = .characteristics s
  | .descriptors c => d.scope = .services ∨ d.scope = .descriptors c ∨
    ∃ s, d.scope = .characteristics s ∧ ∃ e ∈ before, e.scope = .characteristics s ∧ c ∈ e.reported

/-- Children that were reported for a scope are still listed there after some more discoveries. A
characteristic that is reported again starts out without descriptors. -/
def StillListed (between : List Discovery) : Scope → Prop
  | .descriptors c => ∀ e ∈ between, ¬ e.Reports .characteristics c
  | _ => True

/-- A discovery ends a report of children of a scope. -/
def Ends (before between : List Discovery) (d : Discovery) (scope : Scope) : Prop :=
  Supersedes before d scope ∧ StillListed between scope

def Reported (ds : List Discovery) (tier : Tier) (x : AttrId) : Prop :=
  ∃ d ∈ ds, d.Reports tier x

/-- A discovery ends some earlier report of the identity. -/
def EndedBy (ds : List Discovery) (d : Discovery) (tier : Tier) (x : AttrId) : Prop :=
  ∃ before e between, ds = before ++ e :: between ∧ e.Reports tier x ∧ Ends before between d e.scope

def Ended (ds : List Discovery) (tier : Tier) (x : AttrId) : Prop :=
  ∃ front d back, ds = front ++ d :: back ∧ EndedBy front d tier x

section History

/-- The two ways to split a list with one more element at its end. -/
theorem append_singleton_eq_append_cons {α : Type} {l pre post : List α} {a b : α} :
    l ++ [a] = pre ++ b :: post ↔
      pre = l ∧ b = a ∧ post = [] ∨ ∃ rest, l = pre ++ b :: rest ∧ post = rest ++ [a] := by
  constructor
  · intro h
    cases post using List.reverseRecOn with
    | nil =>
      obtain ⟨hpre, hb⟩ := List.append_inj' h rfl
      exact .inl ⟨hpre.symm, (List.singleton_inj.mp hb).symm, rfl⟩
    | append_singleton rest c =>
      rw [← List.cons_append, ← List.append_assoc] at h
      obtain ⟨hl, hc⟩ := List.append_inj' h rfl
      exact .inr ⟨rest, hl, by rw [List.singleton_inj.mp hc]⟩
  · rintro (⟨rfl, rfl, rfl⟩ | ⟨rest, rfl, rfl⟩)
    · rfl
    · simp

variable {ds : List Discovery} {d : Discovery} {tier : Tier} {x : AttrId}

theorem reported_append : Reported (ds ++ [d]) tier x ↔ Reported ds tier x ∨ d.Reports tier x := by
  simp [Reported, or_and_right, exists_or]

theorem ended_append : Ended (ds ++ [d]) tier x ↔ Ended ds tier x ∨ EndedBy ds d tier x := by
  constructor
  · rintro ⟨front, e, back, heq, he⟩
    rcases append_singleton_eq_append_cons.mp heq with ⟨rfl, rfl, -⟩ | ⟨rest, hds, -⟩
    · exact .inr he
    · exact .inl ⟨front, e, rest, hds, he⟩
  · rintro (⟨front, e, back, rfl, he⟩ | h)
    · exact ⟨front, e, back ++ [d], by simp, he⟩
    · exact ⟨ds, d, [], rfl, h⟩

theorem EndedBy.reported (h : EndedBy ds d tier x) : Reported ds tier x := by
  obtain ⟨before, e, between, rfl, he, -⟩ := h
  exact ⟨e, by simp, he⟩

theorem Ended.reported (h : Ended ds tier x) : Reported ds tier x := by
  obtain ⟨front, d, back, rfl, hd⟩ := h
  obtain ⟨e, he, hx⟩ := hd.reported
  exact ⟨e, List.mem_append_left _ he, hx⟩

theorem Discovery.scope_of_characteristics (h : d.Reports .characteristics x) :
    ∃ s, d.scope = .characteristics s := by
  obtain ⟨htier, -⟩ := h
  cases hs : d.scope with
  | characteristics s => exact ⟨s, rfl⟩
  | services | descriptors => simp [hs, Scope.tier] at htier

theorem Discovery.scope_of_descriptors (h : d.Reports .descriptors x) :
    ∃ c, d.scope = .descriptors c := by
  obtain ⟨htier, -⟩ := h
  cases hs : d.scope with
  | descriptors c => exact ⟨c, rfl⟩
  | services | characteristics => simp [hs, Scope.tier] at htier

end History

section Unshared

/-- No identity is reported by two discoveries. -/
def Unshared (ds : List Discovery) : Prop :=
  ∀ before e rest tier x, ds = before ++ e :: rest → e.Reports tier x → ¬ Reported before tier x

variable {ds before rest : List Discovery} {e : Discovery} {tier : Tier} {x : AttrId}

theorem Unshared.split_unique (h : Unshared ds) {before' rest' : List Discovery} {e' : Discovery}
    (hds : ds = before ++ e :: rest) (hds' : ds = before' ++ e' :: rest') (hx : e.Reports tier x)
    (hx' : e'.Reports tier x) : before = before' ∧ e = e' ∧ rest = rest' := by
  rcases List.append_eq_append_iff.mp (hds.symm.trans hds') with ⟨as, hb, hr⟩ | ⟨as, hb, hr⟩
  · cases as with
    | nil =>
      cases hr
      exact ⟨by simp [hb], rfl, rfl⟩
    | cons a as =>
      cases hr
      exact absurd ⟨e, by simp [hb], hx⟩ (h before' e' rest' tier x hds' hx')
  · cases as with
    | nil =>
      cases hr
      exact ⟨by simp [hb], rfl, rfl⟩
    | cons a as =>
      cases hr
      exact absurd ⟨e', by simp [hb], hx'⟩ (h before e rest tier x hds hx)

/-- Without shared identities the only report of an identity ends with the first discovery that
supersedes it. -/
theorem Unshared.ended_iff (h : Unshared ds)
    (hparent : ∀ c, e.scope = .descriptors c → Reported before .characteristics c)
    (hds : ds = before ++ e :: rest) (hx : e.Reports tier x) :
    Ended ds tier x ↔ ∃ d ∈ rest, Supersedes before d e.scope := by
  constructor
  · rintro ⟨front, d, back, hfront, before', e', between, rfl, hx', hends⟩
    rw [List.append_assoc, List.cons_append] at hfront
    obtain ⟨rfl, rfl, rfl⟩ := h.split_unique hds hfront hx hx'
    exact ⟨d, by simp, hends.1⟩
  · rintro ⟨d, hd, hsup⟩
    obtain ⟨between, back, rfl⟩ := List.append_of_mem hd
    refine ⟨before ++ e :: between, d, back, by simp [hds], before, e, between, rfl, hx, hsup, ?_⟩
    cases hscope : e.scope with
    | services | characteristics => trivial
    | descriptors c =>
      intro u hu hreports
      obtain ⟨m₁, m₂, rfl⟩ := List.append_of_mem hu
      obtain ⟨v, hv, hvc⟩ := hparent c hscope
      refine h (before ++ e :: m₁) u (m₂ ++ d :: back) _ c (by simp [hds]) hreports ⟨v, ?_, hvc⟩
      exact List.mem_append_left _ hv

end Unshared

/-- The descriptor is still listed under the characteristic for which it was reported. -/
def Lists (ds : List Discovery) (c x : AttrId) : Prop :=
  ∃ before e between, ds = before ++ e :: between ∧ e.scope = .descriptors c ∧ x ∈ e.reported ∧
    ∀ u ∈ between, ¬ u.Reports .characteristics c

theorem lists_append {ds : List Discovery} {d : Discovery} {c x : AttrId} :
    Lists (ds ++ [d]) c x ↔
      d.scope = .descriptors c ∧ x ∈ d.reported ∨
        ¬ d.Reports .characteristics c ∧ Lists ds c x := by
  constructor
  · rintro ⟨before, e, between, heq, hscope, hx, hno⟩
    rcases append_singleton_eq_append_cons.mp heq with ⟨-, rfl, -⟩ | ⟨rest, hds, rfl⟩
    · exact .inl ⟨hscope, hx⟩
    · exact .inr ⟨hno d (by simp), before, e, rest, hds, hscope, hx,
        fun v hv => hno v (List.mem_append_left _ hv)⟩
  · rintro (⟨hscope, hx⟩ | ⟨hd, before, e, between, rfl, hscope, hx, hno⟩)
    · exact ⟨ds, d, [], rfl, hscope, hx, nofun⟩
    · refine ⟨before, e, between ++ [d], by simp, hscope, hx, fun v hv => ?_⟩
      rcases List.mem_append.mp hv with hv | hv
      · exact hno v hv
      · rwa [List.mem_singleton.mp hv]

namespace Tree

variable {S C D : Type} [DecidableEq S] [DecidableEq C] [DecidableEq D] {t t' : Tree S C D}
  {ds : List Discovery} {d : Discovery} {n m : Nat}

/-- A tree tells what these discoveries found, when `n` identities were given out in all. -/
structure Faithful (t : Tree S C D) (ds : List Discovery) (n : Nat) : Prop where
  sound : t.Sound n
  mem_order : ∀ s, s ∈ t.order ↔ t.Live .services s
  live_iff : ∀ tier x, t.Live tier x ↔ Reported ds tier x ∧ ¬ Ended ds tier x
  reported_le : ∀ d ∈ ds, ∀ x ∈ d.reported, x.raw.toNat ≤ n
  characteristic_le : ∀ s, ∀ x ∈ t.characteristicsUnder s, x.raw.toNat ≤ n
  descriptor_le : ∀ c, ∀ x ∈ t.descriptorsUnder c, x.raw.toNat ≤ n
  mem_characteristicsUnder : ∀ s x, t.Live .characteristics x →
    (x ∈ t.characteristicsUnder s ↔ ∃ d ∈ ds, d.scope = .characteristics s ∧ x ∈ d.reported)
  mem_descriptorsUnder : ∀ c x, t.Live .descriptors x →
    (x ∈ t.descriptorsUnder c ↔ Lists ds c x)
  parent_reported : ∀ before e rest c, ds = before ++ e :: rest → e.scope = .descriptors c →
    Reported before .characteristics c

theorem faithful_empty (n : Nat) : (∅ : Tree S C D).Faithful [] n where
  sound := ⟨HandleTable.sound_empty n, HandleTable.sound_empty n, HandleTable.sound_empty n⟩
  mem_order := fun _ => ⟨nofun, nofun⟩
  live_iff := by
    intro tier x
    refine ⟨fun h => ?_, fun ⟨⟨_, hd, _⟩, _⟩ => by cases hd⟩
    cases tier <;> cases h
  reported_le := nofun
  characteristic_le := nofun
  descriptor_le := nofun
  mem_characteristicsUnder := nofun
  mem_descriptorsUnder := nofun
  parent_reported := fun _ _ _ _ h => by simp at h

namespace Faithful

theorem mono (h : t.Faithful ds n) (hnm : n ≤ m) : t.Faithful ds m where
  sound := ⟨h.sound.services.mono hnm, h.sound.characteristics.mono hnm,
    h.sound.descriptors.mono hnm⟩
  mem_order := h.mem_order
  live_iff := h.live_iff
  reported_le := fun d hd x hx => Nat.le_trans (h.reported_le d hd x hx) hnm
  characteristic_le := fun s x hx => Nat.le_trans (h.characteristic_le s x hx) hnm
  descriptor_le := fun c x hx => Nat.le_trans (h.descriptor_le c x hx) hnm
  mem_characteristicsUnder := h.mem_characteristicsUnder
  mem_descriptorsUnder := h.mem_descriptorsUnder
  parent_reported := h.parent_reported

theorem reported (h : t.Faithful ds n) {tier : Tier} {x : AttrId} (hx : t.Live tier x) :
    Reported ds tier x := ((h.live_iff tier x).mp hx).1

theorem exists_service (h : t.Faithful ds n) {x : AttrId} (hx : t.Live .characteristics x) :
    ∃ s ∈ t.order, x ∈ t.characteristicsUnder s := by
  obtain ⟨d, hd, hreports⟩ := h.reported hx
  obtain ⟨s, hs⟩ := Discovery.scope_of_characteristics hreports
  have hunder := (h.mem_characteristicsUnder s x hx).mpr ⟨d, hd, hs, hreports.2⟩
  exact ⟨s, (h.mem_order s).mpr (live_of_mem_characteristicsUnder hunder), hunder⟩

theorem beneath_services (h : t.Faithful ds n) (hd : d.scope = .services) {tier : Tier}
    {x : AttrId} (hx : t.Live tier x) : t.Beneath .services tier x ↔ EndedBy ds d tier x := by
  cases tier with
  | services =>
    refine iff_of_true ((h.mem_order x).mpr hx) ?_
    obtain ⟨e, he, hreports⟩ := h.reported hx
    obtain ⟨before, between, rfl⟩ := List.append_of_mem he
    have hscope : e.scope = .services := by
      cases hs : e.scope <;> simp [Discovery.Reports, hs, Scope.tier] at hreports ⊢
    exact ⟨before, e, between, rfl, hreports, by rw [hscope]; exact ⟨hd, trivial⟩⟩
  | characteristics =>
    refine iff_of_true (h.exists_service hx) ?_
    obtain ⟨e, he, hreports⟩ := h.reported hx
    obtain ⟨before, between, rfl⟩ := List.append_of_mem he
    obtain ⟨s, hs⟩ := Discovery.scope_of_characteristics hreports
    exact ⟨before, e, between, rfl, hreports, by rw [hs]; exact ⟨.inl hd, trivial⟩⟩
  | descriptors =>
    constructor
    · rintro ⟨s, -, c, -, hxc⟩
      obtain ⟨before, e, between, hds, hscope, hmem, hno⟩ := (h.mem_descriptorsUnder c x hx).mp hxc
      refine ⟨before, e, between, hds, ⟨by rw [hscope]; rfl, hmem⟩, ?_⟩
      rw [hscope]
      exact ⟨.inl hd, hno⟩
    · rintro ⟨before, e, between, hds, hreports, hends⟩
      obtain ⟨c, hc⟩ := Discovery.scope_of_descriptors hreports
      rw [hc] at hends
      have hxc := (h.mem_descriptorsUnder c x hx).mpr
        ⟨before, e, between, hds, hc, hreports.2, hends.2⟩
      obtain ⟨s, hs, hcs⟩ := h.exists_service (live_of_mem_descriptorsUnder hxc)
      exact ⟨s, hs, c, hcs, hxc⟩

theorem beneath_characteristics (h : t.Faithful ds n) {s : AttrId}
    (hd : d.scope = .characteristics s) {tier : Tier} {x : AttrId} (hx : t.Live tier x) :
    t.Beneath (.characteristics s) tier x ↔ EndedBy ds d tier x := by
  cases tier with
  | services =>
    refine ⟨False.elim, ?_⟩
    rintro ⟨before, e, between, -, hreports, hends⟩
    cases hs : e.scope <;>
      simp [hs, Ends, Supersedes, hd, Discovery.Reports, Scope.tier] at hends hreports
  | characteristics =>
    refine (h.mem_characteristicsUnder s x hx).trans ⟨?_, ?_⟩
    · rintro ⟨e, he, hscope, hmem⟩
      obtain ⟨before, between, rfl⟩ := List.append_of_mem he
      refine ⟨before, e, between, rfl, ⟨by rw [hscope]; rfl, hmem⟩, ?_⟩
      rw [hscope]
      exact ⟨.inr hd, trivial⟩
    · rintro ⟨before, e, between, rfl, hreports, hends⟩
      obtain ⟨s', hs'⟩ := Discovery.scope_of_characteristics hreports
      rw [hs', Ends, Supersedes, hd] at hends
      rcases hends.1 with hends | hends
      · cases hends
      · cases hends
        exact ⟨e, by simp, hs', hreports.2⟩
  | descriptors =>
    constructor
    · rintro ⟨c, hcs, hxc⟩
      obtain ⟨before, e, between, rfl, hscope, hmem, hno⟩ := (h.mem_descriptorsUnder c x hx).mp hxc
      obtain ⟨u, hu, huscope, huc⟩ :=
        (h.mem_characteristicsUnder s c (live_of_mem_descriptorsUnder hxc)).mp hcs
      refine ⟨before, e, between, rfl, ⟨by rw [hscope]; rfl, hmem⟩, ?_⟩
      rw [hscope]
      refine ⟨.inr (.inr ⟨s, hd, u, ?_, huscope, huc⟩), hno⟩
      -- The service reported the characteristic before the descriptors were found.
      rcases List.mem_append.mp hu with hu | hu
      · exact hu
      · rcases List.mem_cons.mp hu with rfl | hu
        · rw [hscope] at huscope
          cases huscope
        · exact absurd ⟨by rw [huscope]; rfl, huc⟩ (hno u hu)
    · rintro ⟨before, e, between, rfl, hreports, hends⟩
      obtain ⟨c, hc⟩ := Discovery.scope_of_descriptors hreports
      rw [hc, Ends, Supersedes, hd] at hends
      obtain ⟨hends, hno⟩ := hends
      have hxc := (h.mem_descriptorsUnder c x hx).mpr
        ⟨before, e, between, rfl, hc, hreports.2, hno⟩
      rcases hends with hends | hends | ⟨s', hs', u, hu, huscope, huc⟩
      · cases hends
      · cases hends
      · cases hs'
        refine ⟨c, ?_, hxc⟩
        exact (h.mem_characteristicsUnder s c (live_of_mem_descriptorsUnder hxc)).mpr
          ⟨u, List.mem_append_left _ hu, huscope, huc⟩

theorem beneath_descriptors (h : t.Faithful ds n) {c : AttrId} (hd : d.scope = .descriptors c)
    {tier : Tier} {x : AttrId} (hx : t.Live tier x) :
    t.Beneath (.descriptors c) tier x ↔ EndedBy ds d tier x := by
  cases tier with
  | services | characteristics =>
    refine ⟨False.elim, ?_⟩
    rintro ⟨before, e, between, -, hreports, hends⟩
    cases hs : e.scope <;>
      simp [hs, Ends, Supersedes, hd, Discovery.Reports, Scope.tier] at hends hreports
  | descriptors =>
    refine (h.mem_descriptorsUnder c x hx).trans ⟨?_, ?_⟩
    · rintro ⟨before, e, between, rfl, hscope, hmem, hno⟩
      refine ⟨before, e, between, rfl, ⟨by rw [hscope]; rfl, hmem⟩, ?_⟩
      rw [hscope]
      exact ⟨.inr (.inl hd), hno⟩
    · rintro ⟨before, e, between, rfl, hreports, hends⟩
      obtain ⟨c', hc'⟩ := Discovery.scope_of_descriptors hreports
      rw [hc', Ends, Supersedes, hd] at hends
      obtain ⟨hends | hends | ⟨s, hends, -⟩, hno⟩ := hends
      · cases hends
      · cases hends
        exact ⟨before, e, between, rfl, hc', hreports.2, hno⟩
      · cases hends

theorem beneath_iff (h : t.Faithful ds n) (d : Discovery) {tier : Tier} {x : AttrId}
    (hx : t.Live tier x) : t.Beneath d.scope tier x ↔ EndedBy ds d tier x := by
  cases hd : d.scope with
  | services => exact h.beneath_services hd hx
  | characteristics s => exact h.beneath_characteristics hd hx
  | descriptors c => exact h.beneath_descriptors hd hx

/-- What is reported was live and stays, or is new. -/
theorem kept_or_new (h : t.Faithful ds n) (hr : t.Rebuilds n d t' m) {tier : Tier} {x : AttrId}
    (hx : t'.Live tier x) :
    t.Live tier x ∧ ¬ EndedBy ds d tier x ∨ n < x.raw.toNat ∧ d.Reports tier x := by
  rcases (hr.live_iff tier x).mp hx with ⟨hlive, hkept⟩ | ⟨rfl, hmem⟩
  · exact .inl ⟨hlive, fun hended => hkept ((h.beneath_iff d hlive).mpr hended)⟩
  · rcases (hr.old_or_new x hmem).2 with ⟨hlive, hkept⟩ | hnew
    · exact .inl ⟨hlive, fun hended => hkept ((h.beneath_iff d hlive).mpr hended)⟩
    · exact .inr ⟨hnew, rfl, hmem⟩

theorem not_reported_of_new (h : t.Faithful ds n) {tier : Tier} {x : AttrId}
    (hx : n < x.raw.toNat) : ¬ Reported ds tier x := by
  rintro ⟨e, he, -, hmem⟩
  have hle := h.reported_le e he x hmem
  omega

theorem live_iff_append (h : t.Faithful ds n) (hr : t.Rebuilds n d t' m) (tier : Tier)
    (x : AttrId) :
    t'.Live tier x ↔ Reported (ds ++ [d]) tier x ∧ ¬ Ended (ds ++ [d]) tier x := by
  rw [reported_append, ended_append]
  constructor
  · intro hx
    rcases h.kept_or_new hr hx with ⟨hlive, hkept⟩ | ⟨hnew, hreports⟩
    · obtain ⟨hreported, hended⟩ := (h.live_iff tier x).mp hlive
      exact ⟨.inl hreported, not_or.mpr ⟨hended, hkept⟩⟩
    · have hno : ¬ Reported ds tier x := h.not_reported_of_new hnew
      exact ⟨.inr hreports, not_or.mpr ⟨fun he => hno he.reported, fun he => hno he.reported⟩⟩
  · rintro ⟨hreported | hreports, hno⟩
    · obtain ⟨hended, hkept⟩ := not_or.mp hno
      have hlive := (h.live_iff tier x).mpr ⟨hreported, hended⟩
      exact (hr.live_iff tier x).mpr (.inl ⟨hlive, fun hb => hkept ((h.beneath_iff d hlive).mp hb)⟩)
    · exact (hr.live_iff tier x).mpr (.inr hreports)

theorem mem_order_rebuilds (h : t.Faithful ds n) (hr : t.Rebuilds n d t' m) (s : AttrId) :
    s ∈ t'.order ↔ t'.Live .services s := by
  rw [hr.order_eq, hr.live_iff]
  cases hd : d.scope with
  | services =>
    rw [if_pos rfl, ← h.mem_order]
    simp [Beneath, withServices, Discovery.Reports, hd, Scope.tier]
  | characteristics s' =>
    rw [if_neg (by simp), h.mem_order]
    simp [Beneath, withCharacteristics, Discovery.Reports, hd, Scope.tier]
  | descriptors c =>
    rw [if_neg (by simp), h.mem_order]
    simp [Beneath, withDescriptors, Discovery.Reports, hd, Scope.tier]

theorem mem_characteristicsUnder_append (h : t.Faithful ds n) (hr : t.Rebuilds n d t' m)
    (s x : AttrId) (hx : t'.Live .characteristics x) :
    x ∈ t'.characteristicsUnder s ↔
      ∃ e ∈ ds ++ [d], e.scope = .characteristics s ∧ x ∈ e.reported := by
  have hsplit : (∃ e ∈ ds ++ [d], e.scope = .characteristics s ∧ x ∈ e.reported) ↔
      (∃ e ∈ ds, e.scope = .characteristics s ∧ x ∈ e.reported) ∨
        d.scope = .characteristics s ∧ x ∈ d.reported := by
    simp [or_and_right, exists_or]
  rw [hr.mem_characteristicsUnder, hsplit, or_comm]
  refine or_congr_left' fun hother => ?_
  rcases h.kept_or_new hr hx with ⟨hlive, hkept⟩ | ⟨hnew, -⟩
  · rw [← h.mem_characteristicsUnder s x hlive]
    refine ⟨fun hmem => hmem.2.2, fun hmem => ⟨fun hd => ?_, fun hd => ?_, hmem⟩⟩
    · rw [← h.beneath_iff d hlive, hd] at hkept
      exact hkept hmem
    · rw [← h.beneath_iff d hlive, hd] at hkept
      exact hkept (h.exists_service hlive)
  · refine iff_of_false (fun hmem => ?_) fun ⟨e, he, _, hmem⟩ => ?_
    · have hle := h.characteristic_le s x hmem.2.2
      omega
    · have hle := h.reported_le e he x hmem
      omega

theorem mem_descriptorsUnder_append (h : t.Faithful ds n) (hr : t.Rebuilds n d t' m)
    (c x : AttrId) (hx : t'.Live .descriptors x) :
    x ∈ t'.descriptorsUnder c ↔ Lists (ds ++ [d]) c x := by
  rw [hr.mem_descriptorsUnder, lists_append]
  refine or_congr_right ?_
  rcases h.kept_or_new hr hx with ⟨hlive, hkept⟩ | ⟨hnew, -⟩
  · rw [← h.mem_descriptorsUnder c x hlive]
    rw [← h.beneath_iff d hlive] at hkept
    refine ⟨fun hmem => ⟨hmem.2.2.1, hmem.2.2.2⟩, fun hmem => ⟨fun hd => ?_, fun hb => ?_, hmem⟩⟩
    · rw [hd] at hkept
      exact hkept hmem.2
    · exact hkept (hb.descriptor hmem.2)
  · refine iff_of_false (fun hmem => ?_) fun hmem => ?_
    · have hle := h.descriptor_le c x hmem.2.2.2
      omega
    · obtain ⟨before, e, between, rfl, -, hmem, -⟩ := hmem.2
      have hle := h.reported_le e (by simp) x hmem
      omega

theorem append (h : t.Faithful ds n) (hr : t.Rebuilds n d t' m) : t'.Faithful (ds ++ [d]) m where
  sound := hr.sound
  mem_order := h.mem_order_rebuilds hr
  live_iff := h.live_iff_append hr
  reported_le := by
    intro e he x hx
    rcases List.mem_append.mp he with he | he
    · exact Nat.le_trans (h.reported_le e he x hx) hr.le
    · rw [List.mem_singleton.mp he] at hx
      exact (hr.old_or_new x hx).1
  characteristic_le := by
    intro s x hx
    rcases (hr.mem_characteristicsUnder s x).mp hx with ⟨-, hx⟩ | ⟨-, -, hx⟩
    · exact (hr.old_or_new x hx).1
    · exact Nat.le_trans (h.characteristic_le s x hx) hr.le
  descriptor_le := by
    intro c x hx
    rcases (hr.mem_descriptorsUnder c x).mp hx with ⟨-, hx⟩ | ⟨-, -, -, hx⟩
    · exact (hr.old_or_new x hx).1
    · exact Nat.le_trans (h.descriptor_le c x hx) hr.le
  mem_characteristicsUnder := h.mem_characteristicsUnder_append hr
  mem_descriptorsUnder := h.mem_descriptorsUnder_append hr
  parent_reported := by
    intro before e rest c heq hscope
    rcases append_singleton_eq_append_cons.mp heq with ⟨rfl, rfl, -⟩ | ⟨rest', rfl, -⟩
    · exact h.reported (hr.characteristic_live c hscope)
    · exact h.parent_reported before e rest' c rfl hscope

end Faithful

end Tree

end GattHub.Gatt
