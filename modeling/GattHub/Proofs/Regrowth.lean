import GattHub.Proofs.Naming

/-! What a rebuild does to the entries of a tree, and why they stay a tree. What was beneath the
rebuilt parent goes, and what was found comes in new. The parent takes the new list, and every other
entry stays as it is. -/

namespace GattHub.Gatt

/-- The parent that a list belongs to. The list of the services has none. -/
def Scope.parent? : Scope → Option (Tier × AttrId)
  | .services => none
  | .characteristics s => some (.services, s)
  | .descriptors c => some (.characteristics, c)

theorem Scope.parent?_inj {scope scope' : Scope} (h : scope.parent? = scope'.parent?) :
    scope = scope' := by
  cases scope <;> cases scope' <;> simp_all [parent?]

theorem Scope.parent?_eq_none {scope : Scope} : scope.parent? = none ↔ scope = .services := by
  cases scope <;> simp [parent?]

/-- An entry of any tier. -/
inductive Node (S C D : Type) where
  | service (entry : Entry S ServiceNode)
  | characteristic (entry : Entry C CharacteristicNode)
  | descriptor (entry : Entry D Uuid)

namespace Node

variable {S C D : Type}

def children : Node S C D → List AttrId
  | service e => e.value.characteristics
  | characteristic e => e.value.descriptors
  | descriptor _ => []

def withChildren (ids : List AttrId) : Node S C D → Node S C D
  | service e => service { e with value := { e.value with characteristics := ids } }
  | characteristic e => characteristic { e with value := { e.value with descriptors := ids } }
  | descriptor e => descriptor e

end Node

namespace HandleTable

variable {κ τ : Type} [DecidableEq κ] {t bare : HandleTable κ τ} {gone : AttrId → Prop} {n : Nat}

theorem nodup_registerAll (t : HandleTable κ τ) (ids : IdSource) (es : List (Entry κ τ)) :
    (t.registerAll ids es).1.Nodup := by
  induction es generalizing t ids with
  | nil => exact List.nodup_nil
  | cons e es ih =>
    refine List.nodup_cons.mpr ⟨fun hmem => ?_, (ih _ _).filter _⟩
    simpa using (List.mem_filter.mp hmem).2

/-- Registers what was found. If all of it was registered under identities that are gone, or was not
at all, its identities are new. -/
theorem Without.registerAll_new {α : Type} (h : t.Without gone bare) (ht : t.Sound n)
    (hb : bare.Sound n) (entry : α → Entry κ τ) (found : List α)
    (hknown : ∀ f ∈ found, ∀ x, t.idOf? (entry f).handle = some x → gone x)
    (hn : n + bare.drawsAll (.after n) (found.map entry) < UInt64.size) :
    ∃ ids t' source, bare.registerAll (.after n) (found.map entry) = (ids, t', source) ∧
      ids.Nodup ∧ (∀ x ∈ ids, n < x.raw.toNat ∧ ∃ f, t'.get? x = some (entry f)) ∧
      ∀ x, x ∉ ids → t'.get? x = bare.get? x := by
  have hnodup := bare.nodup_registerAll (.after n) (found.map entry)
  obtain ⟨ids, t', hsource, hr⟩ := hb.registerAll_draws _ hn
  rw [hsource] at hnodup
  refine ⟨ids, t', _, hsource, hnodup, fun x hx => ?_, hr.get?_of_notMem⟩
  obtain ⟨e, he, hget, hbefore⟩ := hr.get?_of_mem x hx
  obtain ⟨f, hf, rfl⟩ := List.mem_map.mp he
  refine ⟨hbefore.resolve_left fun hold => ?_, f, hget⟩
  obtain ⟨hkept, hold⟩ := h.handle? hold
  exact hkept (hknown f hf x ((ht.idOf?_iff _ _).mpr hold))

end HandleTable

namespace Tree

variable {S C D : Type} {t t' : Tree S C D} {n : Nat} {scope other : Scope} {tier : Tier}
  {x : AttrId}

def node? (t : Tree S C D) : Tier → AttrId → Option (Node S C D)
  | .services, x => (t.services.get? x).map .service
  | .characteristics, x => (t.characteristics.get? x).map .characteristic
  | .descriptors, x => (t.descriptors.get? x).map .descriptor

theorem live_iff_node? : t.Live tier x ↔ (t.node? tier x).isSome := by
  cases tier <;> simp [Live, node?]

/-- The list of a scope; empty if its parent does not resolve. -/
def listed (t : Tree S C D) : Scope → List AttrId
  | .services => t.order
  | .characteristics s => t.characteristicsUnder s
  | .descriptors c => t.descriptorsUnder c

theorem listed_of_parent (h : scope.parent? = some (tier, x)) :
    t.listed scope = (t.node? tier x).elim [] Node.children := by
  cases scope with
  | services => cases h
  | characteristics s =>
    cases h
    simp only [listed, characteristicsUnder, node?, Option.elim_map]
    rfl
  | descriptors c =>
    cases h
    simp only [listed, descriptorsUnder, node?, Option.elim_map]
    rfl

theorem live_parent (hx : x ∈ t.listed scope) {parent : Tier × AttrId}
    (h : scope.parent? = some parent) : t.Live parent.1 parent.2 := by
  cases scope with
  | services => cases h
  | characteristics s =>
    cases h
    exact live_of_mem_characteristicsUnder hx
  | descriptors c =>
    cases h
    exact live_of_mem_descriptorsUnder hx

/-- The parent of a list is beneath that of another. -/
def Within (t : Tree S C D) (scope other : Scope) : Prop :=
  ∃ parent, other.parent? = some parent ∧ t.Beneath scope parent.1 parent.2

theorem beneath_iff : t.Beneath scope tier x ↔
    ∃ other, other.tier = tier ∧ x ∈ t.listed other ∧ (other = scope ∨ t.Within scope other) := by
  constructor
  · intro h
    cases scope with
    | services =>
      cases tier with
      | services => exact ⟨.services, rfl, h, .inl rfl⟩
      | characteristics =>
        obtain ⟨s, hs, hx⟩ := h
        exact ⟨.characteristics s, rfl, hx, .inr ⟨_, rfl, hs⟩⟩
      | descriptors =>
        obtain ⟨s, hs, c, hc, hx⟩ := h
        exact ⟨.descriptors c, rfl, hx, .inr ⟨_, rfl, s, hs, hc⟩⟩
    | characteristics s =>
      cases tier with
      | services => exact h.elim
      | characteristics => exact ⟨.characteristics s, rfl, h, .inl rfl⟩
      | descriptors =>
        obtain ⟨c, hc, hx⟩ := h
        exact ⟨.descriptors c, rfl, hx, .inr ⟨_, rfl, hc⟩⟩
    | descriptors c =>
      cases tier with
      | services | characteristics => exact h.elim
      | descriptors => exact ⟨.descriptors c, rfl, h, .inl rfl⟩
  · rintro ⟨other, rfl, hx, rfl | ⟨parent, hparent, hb⟩⟩
    · cases other <;> exact hx
    · cases other with
      | services => cases hparent
      | characteristics s =>
        cases hparent
        cases scope with
        | services => exact ⟨s, hb, hx⟩
        | characteristics | descriptors => exact hb.elim
      | descriptors c =>
        cases hparent
        exact hb.descriptor hx

/-- Every list holds live attributes of its tier, each once, and every live attribute is in just one
list. -/
structure Treelike (t : Tree S C D) : Prop where
  nodup : ∀ scope, (t.listed scope).Nodup
  live : ∀ scope, ∀ x ∈ t.listed scope, t.Live scope.tier x
  owned : ∀ tier x, t.Live tier x → ∃! scope, scope.tier = tier ∧ x ∈ t.listed scope

theorem treelike_empty : (∅ : Tree S C D).Treelike := by
  have hnil (scope : Scope) : (∅ : Tree S C D).listed scope = [] := by cases scope <;> rfl
  refine ⟨fun scope => ?_, fun scope x hx => ?_, fun tier x hx => ?_⟩
  · rw [hnil]
    exact List.nodup_nil
  · rw [hnil] at hx
    cases hx
  · cases tier <;> cases hx

theorem Treelike.eq_of_mem (h : t.Treelike) (hx : x ∈ t.listed scope) (hx' : x ∈ t.listed other)
    (htier : other.tier = scope.tier) : other = scope :=
  (h.owned _ x (h.live scope x hx)).unique ⟨htier, hx'⟩ ⟨rfl, hx⟩

/-- What a list holds that is neither that of a parent nor within it is not beneath the parent. -/
theorem Treelike.not_beneath (h : t.Treelike) (hx : x ∈ t.listed other) (hne : other ≠ scope)
    (hout : ¬ t.Within scope other) : ¬ t.Beneath scope other.tier x := by
  intro hb
  obtain ⟨owner, htier, hmem, hself⟩ := beneath_iff.mp hb
  obtain rfl := h.eq_of_mem hx hmem htier
  exact hself.elim hne hout

theorem Treelike.mem_order_iff (h : t.Treelike) : x ∈ t.order ↔ t.Live .services x := by
  refine ⟨h.live .services x, fun hx => ?_⟩
  obtain ⟨scope, ⟨htier, hmem⟩, -⟩ := h.owned .services x hx
  cases scope with
  | services => exact hmem
  | characteristics | descriptors => cases htier

/-- A rebuild leaves the lists of other parents as they are, and all that is on them, except for the
parents that went with the old list. The rebuilt parent keeps all but its list. -/
structure Spares (t : Tree S C D) (scope : Scope) (t' : Tree S C D) : Prop where
  listed : ∀ other, other ≠ scope → ¬ t.Within scope other → t'.listed other = t.listed other
  node? : ∀ other, other ≠ scope → ¬ t.Within scope other → ∀ x ∈ t.listed other,
    scope.parent? ≠ some (other.tier, x) → t'.node? other.tier x = t.node? other.tier x
  parent : ∀ tier x, scope.parent? = some (tier, x) →
    t'.node? tier x = (t.node? tier x).map (·.withChildren (t'.listed scope))

/-- What a rebuild makes of every entry, when `n` identities were given out before it and these
identities are listed by it. -/
structure Regrown (t : Tree S C D) (n : Nat) (scope : Scope) (ids : List AttrId)
    (t' : Tree S C D) : Prop where
  nodup : ids.Nodup
  new : ∀ x ∈ ids, n < x.raw.toNat ∧ ∃ node, t'.node? scope.tier x = some node ∧ node.children = []
  order_eq : t'.order = if scope = .services then ids else t.order
  parent : ∀ tier x, scope.parent? = some (tier, x) →
    t.Live tier x ∧ t'.node? tier x = (t.node? tier x).map (·.withChildren ids)
  gone : ∀ tier x, t.Beneath scope tier x → ¬ (tier = scope.tier ∧ x ∈ ids) →
    t'.node? tier x = none
  kept : ∀ tier x, ¬ t.Beneath scope tier x → ¬ (tier = scope.tier ∧ x ∈ ids) →
    scope.parent? ≠ some (tier, x) → t'.node? tier x = t.node? tier x

section Regrown

variable {ids : List AttrId}

/-- What is new lists nothing. -/
theorem Regrown.children_new (h : t.Regrown n scope ids t') (hx : tier = scope.tier ∧ x ∈ ids) :
    (t'.node? tier x).elim [] Node.children = [] := by
  obtain ⟨-, node, hnode, hnil⟩ := h.new x hx.2
  rw [hx.1, hnode]
  exact hnil

theorem Regrown.listed_self (h : t.Regrown n scope ids t') : t'.listed scope = ids := by
  cases scope with
  | services => exact h.order_eq
  | characteristics s =>
    obtain ⟨hlive, hnode⟩ := h.parent .services s rfl
    obtain ⟨e, he⟩ := Option.isSome_iff_exists.mp hlive
    rw [listed_of_parent rfl, hnode]
    simp [node?, he, Node.withChildren, Node.children]
  | descriptors c =>
    obtain ⟨hlive, hnode⟩ := h.parent .characteristics c rfl
    obtain ⟨e, he⟩ := Option.isSome_iff_exists.mp hlive
    rw [listed_of_parent rfl, hnode]
    simp [node?, he, Node.withChildren, Node.children]

theorem Regrown.listed_within (h : t.Regrown n scope ids t') (hin : t.Within scope other) :
    t'.listed other = [] := by
  obtain ⟨⟨tier, x⟩, hparent, hb⟩ := hin
  rw [listed_of_parent hparent]
  by_cases hx : tier = scope.tier ∧ x ∈ ids
  · exact h.children_new hx
  · rw [h.gone tier x hb hx]
    rfl

theorem Regrown.live_iff (h : t.Regrown n scope ids t') : t'.Live tier x ↔
    t.Live tier x ∧ ¬ t.Beneath scope tier x ∨ tier = scope.tier ∧ x ∈ ids := by
  rw [live_iff_node?, live_iff_node?]
  by_cases hx : tier = scope.tier ∧ x ∈ ids
  · obtain ⟨-, node, hnode, -⟩ := h.new x hx.2
    rw [hx.1, hnode]
    simp [hx.2]
  by_cases hb : t.Beneath scope tier x
  · rw [h.gone tier x hb hx]
    simp [hx, hb]
  by_cases hparent : scope.parent? = some (tier, x)
  · rw [(h.parent tier x hparent).2, Option.isSome_map]
    simp [hx, hb]
  · rw [h.kept tier x hb hx hparent]
    simp [hx, hb]

variable [DecidableEq S] [DecidableEq C] [DecidableEq D]

theorem Sound.live_le (ht : t.Sound n) (hx : t.Live tier x) : x.raw.toNat ≤ n := by
  obtain ⟨a, ha, -⟩ := exists_names hx
  exact ht.names_le ha

theorem Regrown.not_live (h : t.Regrown n scope ids t') (ht : t.Sound n) (hx : x ∈ ids) :
    ¬ t.Live tier x := fun hlive => Nat.not_lt.mpr (ht.live_le hlive) (h.new x hx).1

theorem Regrown.listed_other (h : t.Regrown n scope ids t') (ht : t.Sound n) (hne : other ≠ scope)
    (hout : ¬ t.Within scope other) : t'.listed other = t.listed other := by
  cases hparent : other.parent? with
  | none =>
    obtain rfl := Scope.parent?_eq_none.mp hparent
    exact h.order_eq.trans (if_neg (Ne.symm hne))
  | some parent =>
    obtain ⟨tier, x⟩ := parent
    rw [listed_of_parent hparent, listed_of_parent hparent]
    by_cases hx : tier = scope.tier ∧ x ∈ ids
    · have hnone : t.node? tier x = none := by
        have hdead : ¬ t.Live tier x := h.not_live ht hx.2
        rwa [live_iff_node?, Option.not_isSome_iff_eq_none] at hdead
      rw [h.children_new hx, hnone]
      rfl
    · rw [h.kept tier x (fun hb => hout ⟨_, hparent, hb⟩) hx fun hscope =>
        hne (Scope.parent?_inj (hparent.trans hscope.symm))]

/-- What the lists hold in the end: the new list in its own place, nothing within the old one, and
the rest as before. -/
theorem Regrown.mem_listed_iff (h : t.Regrown n scope ids t') (ht : t.Sound n) :
    x ∈ t'.listed other ↔
      other = scope ∧ x ∈ ids ∨ other ≠ scope ∧ ¬ t.Within scope other ∧ x ∈ t.listed other := by
  by_cases hother : other = scope
  · subst hother
    simp [h.listed_self]
  by_cases hin : t.Within scope other
  · simp [h.listed_within hin, hother, hin]
  · simp [h.listed_other ht hother hin, hother, hin]

theorem Regrown.eq_of_mem_listed (h : t.Regrown n scope ids t') (ht : t.Sound n)
    (htree : t.Treelike) {owner : Scope} (hx : x ∈ t'.listed owner) (hx' : x ∈ t'.listed other)
    (htier : other.tier = owner.tier) : other = owner := by
  -- An identity is new on both sides, and then on the new list, or old on both sides.
  rcases (h.mem_listed_iff ht).mp hx with ⟨rfl, hnew⟩ | ⟨-, -, hold⟩
  · rcases (h.mem_listed_iff ht).mp hx' with ⟨rfl, -⟩ | ⟨-, -, hold'⟩
    · rfl
    · exact absurd (htree.live other x hold') (h.not_live ht hnew)
  · rcases (h.mem_listed_iff ht).mp hx' with ⟨-, hnew⟩ | ⟨-, -, hold'⟩
    · exact absurd (htree.live owner x hold) (h.not_live ht hnew)
    · exact htree.eq_of_mem hold hold' htier

/-- What is live in the end is on a list: the new one, or the one that it was on before. -/
theorem Regrown.exists_listed (h : t.Regrown n scope ids t') (ht : t.Sound n) (htree : t.Treelike)
    (hx : t'.Live tier x) : ∃ owner, owner.tier = tier ∧ x ∈ t'.listed owner := by
  rcases h.live_iff.mp hx with ⟨hold, hkept⟩ | ⟨rfl, hnew⟩
  · obtain ⟨owner, ⟨rfl, hmem⟩, -⟩ := htree.owned tier x hold
    have hout : owner ≠ scope ∧ ¬ t.Within scope owner := by
      rw [← not_or]
      exact fun hin => hkept (beneath_iff.mpr ⟨owner, rfl, hmem, hin⟩)
    exact ⟨owner, rfl, (h.mem_listed_iff ht).mpr (.inr ⟨hout.1, hout.2, hmem⟩)⟩
  · exact ⟨scope, rfl, (h.mem_listed_iff ht).mpr (.inl ⟨rfl, hnew⟩)⟩

theorem Regrown.treelike (h : t.Regrown n scope ids t') (ht : t.Sound n) (htree : t.Treelike) :
    t'.Treelike := by
  refine ⟨fun other => ?_, fun other x hx => ?_, fun tier x hx => ?_⟩
  · by_cases hother : other = scope
    · rw [hother, h.listed_self]
      exact h.nodup
    by_cases hin : t.Within scope other
    · rw [h.listed_within hin]
      exact List.nodup_nil
    · rw [h.listed_other ht hother hin]
      exact htree.nodup other
  · rw [h.live_iff]
    rcases (h.mem_listed_iff ht).mp hx with ⟨rfl, hnew⟩ | ⟨hother, hout, hold⟩
    · exact .inr ⟨rfl, hnew⟩
    · exact .inl ⟨htree.live other x hold, htree.not_beneath hold hother hout⟩
  · obtain ⟨owner, htier, hmem⟩ := h.exists_listed ht htree hx
    refine ⟨owner, ⟨htier, hmem⟩, fun other hother => ?_⟩
    exact h.eq_of_mem_listed ht htree hmem hother.2 (hother.1.trans htier.symm)

theorem Regrown.spares (h : t.Regrown n scope ids t') (ht : t.Sound n) (htree : t.Treelike) :
    t.Spares scope t' := by
  refine ⟨fun other hne hout => h.listed_other ht hne hout, fun other hne hout x hx hparent => ?_,
    fun tier x hparent => ?_⟩
  · refine h.kept _ x (htree.not_beneath hx hne hout) (fun hnew => ?_) hparent
    exact h.not_live ht hnew.2 (htree.live other x hx)
  · rw [h.listed_self]
    exact (h.parent tier x hparent).2

end Regrown

section Rebuild

theorem not_beneath_parent (h : scope.parent? = some (tier, x)) : ¬ t.Beneath scope tier x := by
  cases scope <;> cases h <;> exact id

variable [DecidableEq S] [DecidableEq C] [DecidableEq D] {bare : Tree S C D}
  {gone : Tier → AttrId → Prop} {ids : List AttrId}

theorem Pruned.node?_of_gone (h : t.Pruned n gone bare) (hx : gone tier x) :
    bare.node? tier x = none := by
  cases tier with
  | services => simp [node?, ((h.services x).resolve_right fun hkept => hkept.1 hx).2]
  | characteristics => simp [node?, ((h.characteristics x).resolve_right fun hkept => hkept.1 hx).2]
  | descriptors => simp [node?, ((h.descriptors x).resolve_right fun hkept => hkept.1 hx).2]

theorem Pruned.node?_of_not (h : t.Pruned n gone bare) (hx : ¬ gone tier x) :
    bare.node? tier x = t.node? tier x := by
  cases tier with
  | services => rw [node?, h.services.get?_of_not hx, node?]
  | characteristics => rw [node?, h.characteristics.get?_of_not hx, node?]
  | descriptors => rw [node?, h.descriptors.get?_of_not hx, node?]

/-- Puts the new list in place once the old one is taken out. -/
theorem Pruned.regrown (h : t.Pruned n (t.Beneath scope) bare) (hnodup : ids.Nodup)
    (hnew : ∀ x ∈ ids, n < x.raw.toNat ∧
      ∃ node, t'.node? scope.tier x = some node ∧ node.children = [])
    (horder : t'.order = if scope = .services then ids else t.order)
    (hparent : ∀ tier x, scope.parent? = some (tier, x) →
      t.Live tier x ∧ t'.node? tier x = (bare.node? tier x).map (·.withChildren ids))
    (hsame : ∀ tier x, ¬ (tier = scope.tier ∧ x ∈ ids) → scope.parent? ≠ some (tier, x) →
      t'.node? tier x = bare.node? tier x) : t.Regrown n scope ids t' := by
  refine ⟨hnodup, hnew, horder, fun tier x hx => ?_, fun tier x hb hx => ?_,
    fun tier x hb hx hno => ?_⟩
  · rw [← h.node?_of_not (not_beneath_parent hx)]
    exact hparent tier x hx
  · rw [hsame tier x hx fun hscope => not_beneath_parent hscope hb]
    exact h.node?_of_gone hb
  · rw [hsame tier x hx hno]
    exact h.node?_of_not hb

theorem regrown_rebuildServices (ht : t.Sound n) (found : List (Found S))
    (hknown : ∀ f ∈ found, ∀ x, t.services.idOf? f.handle = some x → x ∈ t.order)
    (hn : n + t.drawsServices (.after n) found < UInt64.size) :
    ∃ ids, t.Regrown n .services ids (t.rebuildServices (.after n) found).1 := by
  have hbare : Sound { t with order := [] } n := ⟨ht.services, ht.characteristics, ht.descriptors⟩
  have h : Pruned { t with order := [] } n (t.Beneath .services)
      (t.order.foldl dropService { t with order := [] }) := pruned_foldl_dropService hbare t.order
  simp only [rebuildServices, drawsServices] at hn ⊢
  generalize t.order.foldl dropService { t with order := [] } = bare at h hn ⊢
  obtain ⟨ids, ss, source, hsource, hnodup, hnew, hold⟩ := h.services.registerAll_new ht.services
    h.sound.services _ found hknown hn
  rw [hsource]
  -- The order was emptied ahead of the pruning; with the old one the bare tree is the tree, pruned.
  have hpruned : t.Pruned n (t.Beneath .services) { bare with order := t.order } :=
    ⟨rfl, ⟨h.sound.services, h.sound.characteristics, h.sound.descriptors⟩, h.services,
      h.characteristics, h.descriptors⟩
  refine ⟨ids, hpruned.regrown hnodup (fun x hx => ?_) rfl (fun tier x hparent => ?_)
    fun tier x hx _ => ?_⟩
  · obtain ⟨hlt, f, hget⟩ := hnew x hx
    exact ⟨hlt, _, congrArg (Option.map Node.service) hget, rfl⟩
  · cases hparent
  · cases tier with
    | services => exact congrArg (Option.map Node.service) (hold x fun hmem => hx ⟨rfl, hmem⟩)
    | characteristics | descriptors => rfl

theorem regrown_rebuildCharacteristics (ht : t.Sound n) {s : AttrId}
    {found : List (FoundCharacteristic C)} {built : Tree S C D × IdSource}
    (hbuilt : t.rebuildCharacteristics (.after n) s found = .ok built)
    (hknown : ∀ f ∈ found, ∀ x, t.characteristics.idOf? f.handle = some x →
      x ∈ t.characteristicsUnder s)
    (hn : n + t.drawsCharacteristics (.after n) found s < UInt64.size) :
    ∃ ids, t.Regrown n (.characteristics s) ids built.1 := by
  cases hs : t.services.get? s with
  | none => simp [rebuildCharacteristics, HandleTable.get, hs, Except.map] at hbuilt
  | some e =>
    have hunder : t.characteristicsUnder s = e.value.characteristics := by
      simp [characteristicsUnder, hs]
    have h : t.Pruned n (t.Beneath (.characteristics s))
        ((t.characteristicsUnder s).foldl dropCharacteristic t) :=
      pruned_foldl_dropCharacteristic ht _
    simp only [rebuildCharacteristics, drawsCharacteristics, HandleTable.get, hs, Except.map,
      ← hunder] at hbuilt hn
    generalize (t.characteristicsUnder s).foldl dropCharacteristic t = bare at h hbuilt hn
    obtain ⟨ids, cs, source, hsource, hnodup, hnew, hold⟩ := h.characteristics.registerAll_new
      ht.characteristics h.sound.characteristics _ found hknown hn
    rw [hsource] at hbuilt
    cases hbuilt
    have hget (x : AttrId) := bare.services.get?_mapValue s
      (fun v => { v with characteristics := ids }) x
    refine ⟨ids, h.regrown hnodup (fun x hx => ?_) h.order_eq ?_ fun tier x hx hno => ?_⟩
    · obtain ⟨hlt, f, hget⟩ := hnew x hx
      exact ⟨hlt, _, congrArg (Option.map Node.characteristic) hget, rfl⟩
    · rintro tier x ⟨⟩
      have hself := hget s
      rw [if_pos rfl] at hself
      refine ⟨by simp [Live, hs], (congrArg (Option.map Node.service) hself).trans ?_⟩
      simp only [node?, Option.map_map]
      rfl
    · cases tier with
      | services =>
        have hother := hget x
        rw [if_neg fun hxs => hno (by rw [hxs]; rfl)] at hother
        exact congrArg (Option.map Node.service) hother
      | characteristics =>
        exact congrArg (Option.map Node.characteristic) (hold x fun hmem => hx ⟨rfl, hmem⟩)
      | descriptors => rfl

theorem regrown_rebuildDescriptors (ht : t.Sound n) {c : AttrId} {found : List (Found D)}
    {built : Tree S C D × IdSource}
    (hbuilt : t.rebuildDescriptors (.after n) c found = .ok built)
    (hknown : ∀ f ∈ found, ∀ x, t.descriptors.idOf? f.handle = some x → x ∈ t.descriptorsUnder c)
    (hn : n + t.drawsDescriptors (.after n) found c < UInt64.size) :
    ∃ ids, t.Regrown n (.descriptors c) ids built.1 := by
  cases hc : t.characteristics.get? c with
  | none => simp [rebuildDescriptors, HandleTable.get, hc, Except.map] at hbuilt
  | some e =>
    have hunder : t.descriptorsUnder c = e.value.descriptors := by simp [descriptorsUnder, hc]
    have h : t.Pruned n (t.Beneath (.descriptors c)) (t.dropDescriptors (t.descriptorsUnder c)) :=
      pruned_dropDescriptors ht _
    simp only [rebuildDescriptors, drawsDescriptors, HandleTable.get, hc, Except.map,
      ← hunder] at hbuilt hn
    generalize t.dropDescriptors (t.descriptorsUnder c) = bare at h hbuilt hn
    obtain ⟨ids, ds, source, hsource, hnodup, hnew, hold⟩ := h.descriptors.registerAll_new
      ht.descriptors h.sound.descriptors _ found hknown hn
    rw [hsource] at hbuilt
    cases hbuilt
    have hget (x : AttrId) := bare.characteristics.get?_mapValue c
      (fun v => { v with descriptors := ids }) x
    refine ⟨ids, h.regrown hnodup (fun x hx => ?_) h.order_eq ?_ fun tier x hx hno => ?_⟩
    · obtain ⟨hlt, f, hget⟩ := hnew x hx
      exact ⟨hlt, _, congrArg (Option.map Node.descriptor) hget, rfl⟩
    · rintro tier x ⟨⟩
      have hself := hget c
      rw [if_pos rfl] at hself
      refine ⟨by simp [Live, hc], (congrArg (Option.map Node.characteristic) hself).trans ?_⟩
      simp only [node?, Option.map_map]
      rfl
    · cases tier with
      | services => rfl
      | characteristics =>
        have hother := hget x
        rw [if_neg fun hxc => hno (by rw [hxc]; rfl)] at hother
        exact congrArg (Option.map Node.characteristic) hother
      | descriptors =>
        exact congrArg (Option.map Node.descriptor) (hold x fun hmem => hx ⟨rfl, hmem⟩)

end Rebuild

end Tree

end GattHub.Gatt
