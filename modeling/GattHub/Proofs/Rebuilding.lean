import GattHub.Proofs.Pruning

/-! What a successful discovery makes of a tree. The old identities beneath the rebuilt parent go,
the reported ones come, and all other identities stay where they are. -/

namespace GattHub.Gatt

/-- The parent whose children a discovery finds. -/
inductive Scope where
  | services
  | characteristics (service : AttrId)
  | descriptors (characteristic : AttrId)
  deriving DecidableEq

def Scope.tier : Scope → Tier
  | .services => .services
  | .characteristics _ => .characteristics
  | .descriptors _ => .descriptors

/-- A successful discovery, with the identities that it reported. -/
structure Discovery where
  scope : Scope
  reported : List AttrId

def Discovery.Reports (d : Discovery) (tier : Tier) (x : AttrId) : Prop :=
  d.scope.tier = tier ∧ x ∈ d.reported

namespace HandleTable

variable {κ τ : Type} {t t₁ t₂ : HandleTable κ τ} {gone : AttrId → Prop}

theorem Without.handle? (h : t.Without gone t₁) {x : AttrId} {k : κ}
    (hx : t₁.handle? x = some k) : ¬ gone x ∧ t.handle? x = some k := by
  rcases h x with ⟨-, hnone⟩ | ⟨hkept, heq⟩
  · rw [HandleTable.handle?, hnone] at hx
    cases hx
  · refine ⟨hkept, ?_⟩
    rwa [HandleTable.handle?, heq] at hx

theorem Without.get?_of_not (h : t.Without gone t₁) {x : AttrId} (hx : ¬ gone x) :
    t₁.get? x = t.get? x := by
  rcases h x with ⟨hgone, -⟩ | ⟨-, heq⟩
  · exact absurd hgone hx
  · exact heq

theorem Without.isSome_iff (h : t.Without gone t₁) (x : AttrId) :
    (t₁.get? x).isSome ↔ (t.get? x).isSome ∧ ¬ gone x := by
  rcases h x with ⟨hgone, hnone⟩ | ⟨hkept, heq⟩
  · simp [hnone, hgone]
  · simp [heq, hkept]

variable [DecidableEq κ] {n m : Nat} {es : List (Entry κ τ)} {ids : List AttrId}

theorem Registers.isSome_iff (hr : t₁.Registers n es ids t₂ m) (h : t.Without gone t₁)
    (x : AttrId) : (t₂.get? x).isSome ↔ (t.get? x).isSome ∧ ¬ gone x ∨ x ∈ ids := by
  by_cases hx : x ∈ ids
  · obtain ⟨e, -, he, -⟩ := hr.get?_of_mem x hx
    simp [he, hx]
  · rw [hr.get?_of_notMem x hx, h.isSome_iff]
    simp [hx]

theorem Registers.old_or_new (hr : t₁.Registers n es ids t₂ m) (h : t.Without gone t₁)
    {x : AttrId} (hx : x ∈ ids) : x.raw.toNat ≤ m ∧
      ((t.get? x).isSome ∧ ¬ gone x ∨ n < x.raw.toNat) := by
  obtain ⟨e, -, he, hbefore⟩ := hr.get?_of_mem x hx
  refine ⟨hr.sound.le x e.handle (handle?_of_get? he), hbefore.imp_left fun hold => ?_⟩
  obtain ⟨hkept, hold⟩ := h.handle? hold
  obtain ⟨e', he', -⟩ := Option.map_eq_some_iff.mp hold
  exact ⟨by simp [he'], hkept⟩

theorem Registers.handle?_old (hr : t₁.Registers n es ids t₂ m) (h : t.Without gone t₁)
    {x : AttrId} (hx : x.raw.toNat ≤ n) {k : κ} (hk : t₂.handle? x = some k) :
    t.handle? x = some k := by
  by_cases hmem : x ∈ ids
  · obtain ⟨e, -, he, hbefore⟩ := hr.get?_of_mem x hmem
    rw [handle?_of_get? he] at hk
    cases hk
    rcases hbefore with hold | hnew
    · exact (h.handle? hold).2
    · omega
  · rw [HandleTable.handle?, hr.get?_of_notMem x hmem] at hk
    exact (h.handle? hk).2

end HandleTable

namespace Tree

variable {S C D : Type}

/-- The identity resolves in its tier. -/
def Live (t : Tree S C D) : Tier → AttrId → Prop
  | .services, x => (t.services.get? x).isSome
  | .characteristics, x => (t.characteristics.get? x).isSome
  | .descriptors, x => (t.descriptors.get? x).isSome

/-- What is listed beneath the parent of a scope, in any tier. -/
def Beneath (t : Tree S C D) : Scope → Tier → AttrId → Prop
  | .services => t.withServices t.order
  | .characteristics s => t.withCharacteristics (t.characteristicsUnder s)
  | .descriptors c => withDescriptors (t.descriptorsUnder c)

variable {t t' : Tree S C D} {n m : Nat}

theorem live_of_mem_characteristicsUnder {s x : AttrId} (h : x ∈ t.characteristicsUnder s) :
    t.Live .services s := by
  cases hs : t.services.get? s with
  | none => simp [characteristicsUnder, hs] at h
  | some e => simp [Live, hs]

theorem live_of_mem_descriptorsUnder {c x : AttrId} (h : x ∈ t.descriptorsUnder c) :
    t.Live .characteristics c := by
  cases hc : t.characteristics.get? c with
  | none => simp [descriptorsUnder, hc] at h
  | some e => simp [Live, hc]

theorem Beneath.descriptor {scope : Scope} {c x : AttrId} (h : t.Beneath scope .characteristics c)
    (hx : x ∈ t.descriptorsUnder c) : t.Beneath scope .descriptors x := by
  cases scope with
  | services =>
    obtain ⟨s, hs, hc⟩ := h
    exact ⟨s, hs, c, hc, hx⟩
  | characteristics s => exact ⟨c, h, hx⟩
  | descriptors => exact h.elim

variable [DecidableEq S] [DecidableEq C] [DecidableEq D]

/-- What a discovery makes of a tree when `n` identities were given out before it and `m` after. -/
structure Rebuilds (t : Tree S C D) (n : Nat) (d : Discovery) (t' : Tree S C D) (m : Nat) :
    Prop where
  le : n ≤ m
  sound : t'.Sound m
  order_eq : t'.order = if d.scope = .services then d.reported else t.order
  live_iff : ∀ tier x, t'.Live tier x ↔
    t.Live tier x ∧ ¬ t.Beneath d.scope tier x ∨ d.Reports tier x
  old_or_new : ∀ x ∈ d.reported, x.raw.toNat ≤ m ∧
    (t.Live d.scope.tier x ∧ ¬ t.Beneath d.scope d.scope.tier x ∨ n < x.raw.toNat)
  mem_characteristicsUnder : ∀ s x, x ∈ t'.characteristicsUnder s ↔
    d.scope = .characteristics s ∧ x ∈ d.reported ∨
      d.scope ≠ .characteristics s ∧ d.scope ≠ .services ∧ x ∈ t.characteristicsUnder s
  mem_descriptorsUnder : ∀ c x, x ∈ t'.descriptorsUnder c ↔
    d.scope = .descriptors c ∧ x ∈ d.reported ∨
      d.scope ≠ .descriptors c ∧ ¬ t.Beneath d.scope .characteristics c ∧
        ¬ d.Reports .characteristics c ∧ x ∈ t.descriptorsUnder c
  service_old : ∀ x h, x.raw.toNat ≤ n → t'.services.handle? x = some h →
    t.services.handle? x = some h
  service_kept : d.scope ≠ .services → ∀ x, t'.services.handle? x = t.services.handle? x
  characteristic_old : ∀ x h, x.raw.toNat ≤ n → t'.characteristics.handle? x = some h →
    t.characteristics.handle? x = some h
  characteristic_live : ∀ c, d.scope = .descriptors c → t.Live .characteristics c

theorem rebuildServices_spec (ht : t.Sound n) (hall : ∀ s, t.Live .services s → s ∈ t.order)
    (found : List (Found S)) (hn : n + found.length < UInt64.size) :
    ∃ t' m, t.rebuildServices (.after n) found = (t', .after m) ∧ m ≤ n + found.length ∧
      t.Rebuilds n ⟨.services, t'.order⟩ t' m := by
  have hbare : Sound { t with order := [] } n := ⟨ht.services, ht.characteristics, ht.descriptors⟩
  have h : Pruned { t with order := [] } n (t.Beneath .services)
      (t.order.foldl dropService { t with order := [] }) := pruned_foldl_dropService hbare t.order
  simp only [rebuildServices]
  generalize t.order.foldl dropService { t with order := [] } = bare at h
  obtain ⟨ids, ss, m, hsource, hr⟩ := h.sound.services.registerAll
    (found.map fun f => ⟨f.handle, ⟨f.uuid, []⟩⟩) (by simpa using hn)
  simp only [hsource]
  refine ⟨_, m, rfl, by simpa using hr.le_add, hr.le,
    ⟨hr.sound, h.sound.characteristics.mono hr.le, h.sound.descriptors.mono hr.le⟩, rfl, ?_, ?_, ?_,
    ?_, ?_, nofun, ?_, nofun⟩
  · intro tier x
    cases tier with
    | services =>
      exact (hr.isSome_iff h.services x).trans (or_congr_right (by simp [Discovery.Reports, Scope.tier]))
    | characteristics =>
      exact (h.characteristics.isSome_iff x).trans (by simp [Discovery.Reports, Scope.tier, Live])
    | descriptors =>
      exact (h.descriptors.isSome_iff x).trans (by simp [Discovery.Reports, Scope.tier, Live])
  · exact fun x hx => hr.old_or_new h.services hx
  · intro s x
    have hnil : characteristicsUnder { bare with order := ids, services := ss } s = [] := by
      by_cases hs : s ∈ ids
      · obtain ⟨e, he, hget, -⟩ := hr.get?_of_mem s hs
        obtain ⟨f, -, rfl⟩ := List.mem_map.mp he
        simp [characteristicsUnder, hget]
      · rcases h.services s with ⟨-, hnone⟩ | ⟨hkept, heq⟩
        · simp [characteristicsUnder, hr.get?_of_notMem s hs, hnone]
        · have hdead : t.services.get? s = none := by
            by_contra hlive
            exact hkept (hall s (Option.isSome_iff_ne_none.mpr hlive))
          simp [characteristicsUnder, hr.get?_of_notMem s hs, heq, hdead]
    simp [hnil]
  · intro c x
    exact h.mem_descriptorsUnder.trans (by simp [Discovery.Reports, Scope.tier, descriptorsUnder])
  · exact fun x k hx hk => hr.handle?_old h.services hx hk
  · exact fun x k _ hk => (h.characteristics.handle? hk).2

theorem rebuildCharacteristics_spec (ht : t.Sound n) {s : AttrId} {e : Entry S ServiceNode}
    (hs : t.services.get? s = some e) (found : List (FoundCharacteristic C))
    (hn : n + found.length < UInt64.size) :
    ∃ t' m, t.rebuildCharacteristics (.after n) s found = .ok (t', .after m) ∧
      m ≤ n + found.length ∧
      t.Rebuilds n ⟨.characteristics s, t'.characteristicsUnder s⟩ t' m := by
  have hunder : t.characteristicsUnder s = e.value.characteristics := by
    simp [characteristicsUnder, hs]
  have h : t.Pruned n (t.Beneath (.characteristics s))
      (e.value.characteristics.foldl dropCharacteristic t) := by
    rw [← hunder]
    exact pruned_foldl_dropCharacteristic ht _
  simp only [rebuildCharacteristics, HandleTable.get, hs, Except.map]
  generalize e.value.characteristics.foldl dropCharacteristic t = bare at h
  obtain ⟨ids, cs, m, hsource, hr⟩ := h.sound.characteristics.registerAll
    (found.map fun f => ⟨f.handle, ⟨f.uuid, f.properties, []⟩⟩) (by simpa using hn)
  simp only [hsource]
  have hbare (x : AttrId) : bare.services.get? x = t.services.get? x :=
    h.services.get?_of_not id
  let listed := bare.services.mapValue s fun v => { v with characteristics := ids }
  have hget (x : AttrId) : listed.get? x =
      if x = s then (t.services.get? x).map fun e => ⟨e.handle, ⟨e.value.uuid, ids⟩⟩
      else t.services.get? x := by
    rw [HandleTable.get?_mapValue, hbare]
  have hhandle (x : AttrId) : listed.handle? x = t.services.handle? x := by
    rw [HandleTable.handle?_mapValue, HandleTable.handle?, hbare, HandleTable.handle?]
  have hsound : listed.Sound m := (h.sound.services.mapValue s _).mono hr.le
  have hlisted : characteristicsUnder { bare with services := listed, characteristics := cs } s =
      ids := by
    simp [characteristicsUnder, hget, hs]
  refine ⟨{ bare with services := listed, characteristics := cs }, m, rfl,
    by simpa using hr.le_add, ?_⟩
  rw [hlisted]
  refine ⟨hr.le, ⟨hsound, hr.sound, h.sound.descriptors.mono hr.le⟩, h.order_eq, ?_, ?_, ?_, ?_,
    ?_, fun _ => hhandle, ?_, fun _ h => by cases h⟩
  · intro tier x
    cases tier with
    | services =>
      simp only [Live, hget]
      by_cases hx : x = s <;>
        simp [hx, Discovery.Reports, Scope.tier, Beneath, withCharacteristics]
    | characteristics =>
      exact (hr.isSome_iff h.characteristics x).trans
        (or_congr_right (by simp [Discovery.Reports, Scope.tier]))
    | descriptors =>
      exact (h.descriptors.isSome_iff x).trans (by simp [Discovery.Reports, Scope.tier, Live])
  · exact fun x hx => hr.old_or_new h.characteristics hx
  · intro s' x
    simp only [characteristicsUnder, hget]
    by_cases hs' : s' = s
    · simp [hs', hs]
    · simp [hs', Ne.symm hs']
  · intro c x
    by_cases hc : c ∈ ids
    · obtain ⟨e', he', hget', -⟩ := hr.get?_of_mem c hc
      obtain ⟨f, -, rfl⟩ := List.mem_map.mp he'
      simp [descriptorsUnder, hget', Discovery.Reports, Scope.tier, hc]
    · have hsame : descriptorsUnder { bare with services := listed, characteristics := cs } c =
          bare.descriptorsUnder c := by
        simp only [descriptorsUnder, hr.get?_of_notMem c hc]
      rw [hsame, h.mem_descriptorsUnder]
      simp [Discovery.Reports, hc]
  · exact fun x k _ hk => (hhandle x).symm.trans hk
  · exact fun x k hx hk => hr.handle?_old h.characteristics hx hk

theorem rebuildDescriptors_spec (ht : t.Sound n) {c : AttrId} {e : Entry C CharacteristicNode}
    (hc : t.characteristics.get? c = some e) (found : List (Found D))
    (hn : n + found.length < UInt64.size) :
    ∃ t' m, t.rebuildDescriptors (.after n) c found = .ok (t', .after m) ∧
      m ≤ n + found.length ∧
      t.Rebuilds n ⟨.descriptors c, t'.descriptorsUnder c⟩ t' m := by
  have hunder : t.descriptorsUnder c = e.value.descriptors := by simp [descriptorsUnder, hc]
  have h : t.Pruned n (t.Beneath (.descriptors c)) (t.dropDescriptors e.value.descriptors) := by
    rw [← hunder]
    exact pruned_dropDescriptors ht _
  simp only [rebuildDescriptors, HandleTable.get, hc, Except.map]
  generalize t.dropDescriptors e.value.descriptors = bare at h
  obtain ⟨ids, ds, m, hsource, hr⟩ := h.sound.descriptors.registerAll
    (found.map fun f => ⟨f.handle, f.uuid⟩) (by simpa using hn)
  simp only [hsource]
  have hservices (x : AttrId) : bare.services.get? x = t.services.get? x :=
    h.services.get?_of_not id
  have hbare (x : AttrId) : bare.characteristics.get? x = t.characteristics.get? x :=
    h.characteristics.get?_of_not id
  let listed := bare.characteristics.mapValue c fun v => { v with descriptors := ids }
  have hget (x : AttrId) : listed.get? x =
      if x = c then (t.characteristics.get? x).map fun e =>
        ⟨e.handle, ⟨e.value.uuid, e.value.properties, ids⟩⟩
      else t.characteristics.get? x := by
    rw [HandleTable.get?_mapValue, hbare]
  have hhandle (x : AttrId) : listed.handle? x = t.characteristics.handle? x := by
    rw [HandleTable.handle?_mapValue, HandleTable.handle?, hbare, HandleTable.handle?]
  have hsound : listed.Sound m := (h.sound.characteristics.mapValue c _).mono hr.le
  have hlisted : descriptorsUnder { bare with characteristics := listed, descriptors := ds } c =
      ids := by
    simp [descriptorsUnder, hget, hc]
  refine ⟨{ bare with characteristics := listed, descriptors := ds }, m, rfl,
    by simpa using hr.le_add, ?_⟩
  rw [hlisted]
  refine ⟨hr.le, ⟨h.sound.services.mono hr.le, hsound, hr.sound⟩, h.order_eq, ?_, ?_, ?_, ?_, ?_,
    fun _ x => ?_, ?_, fun c' hc' => ?_⟩
  · intro tier x
    cases tier with
    | services =>
      simp [Live, hservices, Discovery.Reports, Scope.tier, Beneath, withDescriptors]
    | characteristics =>
      simp only [Live, hget]
      by_cases hx : x = c <;> simp [hx, Discovery.Reports, Scope.tier, Beneath, withDescriptors]
    | descriptors =>
      exact (hr.isSome_iff h.descriptors x).trans
        (or_congr_right (by simp [Discovery.Reports, Scope.tier]))
  · exact fun x hx => hr.old_or_new h.descriptors hx
  · intro s x
    simp [characteristicsUnder, hservices]
  · intro c' x
    simp only [descriptorsUnder, hget]
    by_cases hc' : c' = c
    · simp [hc', hc]
    · simp [hc', Ne.symm hc', Discovery.Reports, Scope.tier, Beneath, withDescriptors]
  · intro x k _ hk
    simpa [HandleTable.handle?, hservices] using hk
  · simp [HandleTable.handle?, hservices]
  · exact fun x k _ hk => (hhandle x).symm.trans hk
  · cases hc'
    simp [Live, hc]

end Tree

end GattHub.Gatt
