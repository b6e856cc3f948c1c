import GattHub.Gatt.Tree
import GattHub.Notice.Basic
import GattHub.Proofs.Registration

/-! What the rebuilding of a tier takes out of a tree: the identities that were listed beneath the
rebuilt parent, and nothing else. -/

namespace GattHub.Gatt

namespace HandleTable

variable {κ τ : Type}

/-- The table without some of its identities. -/
def Without (t : HandleTable κ τ) (gone : AttrId → Prop) (t' : HandleTable κ τ) : Prop :=
  ∀ i, gone i ∧ t'.get? i = none ∨ ¬ gone i ∧ t'.get? i = t.get? i

variable {t t' t'' : HandleTable κ τ} {gone gone' : AttrId → Prop}

theorem Without.refl (t : HandleTable κ τ) : t.Without (fun _ => False) t :=
  fun _ => .inr ⟨id, rfl⟩

theorem Without.trans (h : t.Without gone t') (h' : t'.Without gone' t'') :
    t.Without (fun i => gone i ∨ gone' i) t'' := by
  intro i
  rcases h' i with ⟨hgone', hnone⟩ | ⟨hkept', heq'⟩
  · exact .inl ⟨.inr hgone', hnone⟩
  · rcases h i with ⟨hgone, hnone⟩ | ⟨hkept, heq⟩
    · exact .inl ⟨.inl hgone, heq'.trans hnone⟩
    · exact .inr ⟨fun h => h.elim hkept hkept', heq'.trans heq⟩

theorem Without.congr (h : t.Without gone t') (hiff : ∀ i, gone i ↔ gone' i) :
    t.Without gone' t' := by
  intro i
  rw [← hiff]
  exact h i

variable [DecidableEq κ]

theorem without_retire (t : HandleTable κ τ) (id : AttrId) :
    t.Without (· = id) (t.retire id).2 := by
  intro i
  rw [get?_retire]
  by_cases hi : i = id
  · exact .inl ⟨hi, if_pos hi⟩
  · exact .inr ⟨hi, if_neg hi⟩

theorem without_foldl_retire (t : HandleTable κ τ) (ids : List AttrId) :
    t.Without (· ∈ ids) (ids.foldl (fun t id => (t.retire id).2) t) := by
  induction ids generalizing t with
  | nil => exact (Without.refl t).congr fun i => by simp
  | cons id ids ih =>
    exact ((without_retire t id).trans (ih _)).congr fun i => by rw [List.mem_cons]

end HandleTable

namespace Tree

variable {S C D : Type}

/-- The characteristics listed under a service, live or not. -/
def characteristicsUnder (t : Tree S C D) (s : AttrId) : List AttrId :=
  (t.services.get? s).elim [] fun e => e.value.characteristics

/-- The descriptors listed under a characteristic, live or not. -/
def descriptorsUnder (t : Tree S C D) (c : AttrId) : List AttrId :=
  (t.characteristics.get? c).elim [] fun e => e.value.descriptors

variable [DecidableEq S] [DecidableEq C] [DecidableEq D] {t t' t'' : Tree S C D} {n : Nat}

structure Sound (t : Tree S C D) (n : Nat) : Prop where
  services : t.services.Sound n
  characteristics : t.characteristics.Sound n
  descriptors : t.descriptors.Sound n

/-- A tree without some of its identities. -/
structure Pruned (t : Tree S C D) (n : Nat) (gone : Tier → AttrId → Prop) (t' : Tree S C D) :
    Prop where
  order_eq : t'.order = t.order
  sound : t'.Sound n
  services : t.services.Without (gone .services) t'.services
  characteristics : t.characteristics.Without (gone .characteristics) t'.characteristics
  descriptors : t.descriptors.Without (gone .descriptors) t'.descriptors

variable {gone gone' : Tier → AttrId → Prop}

theorem Pruned.refl (ht : t.Sound n) : t.Pruned n (fun _ _ => False) t :=
  ⟨rfl, ht, .refl _, .refl _, .refl _⟩

theorem Pruned.trans (h : t.Pruned n gone t') (h' : t'.Pruned n gone' t'') :
    t.Pruned n (fun tier i => gone tier i ∨ gone' tier i) t'' :=
  ⟨h'.order_eq.trans h.order_eq, h'.sound, h.services.trans h'.services,
    h.characteristics.trans h'.characteristics, h.descriptors.trans h'.descriptors⟩

theorem Pruned.congr (h : t.Pruned n gone t') (hiff : ∀ tier i, gone tier i ↔ gone' tier i) :
    t.Pruned n gone' t' :=
  ⟨h.order_eq, h.sound, h.services.congr (hiff _), h.characteristics.congr (hiff _),
    h.descriptors.congr (hiff _)⟩

theorem Pruned.mem_characteristicsUnder (h : t.Pruned n gone t') {s x : AttrId} :
    x ∈ t'.characteristicsUnder s ↔ ¬ gone .services s ∧ x ∈ t.characteristicsUnder s := by
  rcases h.services s with ⟨hgone, hnone⟩ | ⟨hkept, heq⟩
  · simp [characteristicsUnder, hnone, hgone]
  · simp [characteristicsUnder, heq, hkept]

theorem Pruned.mem_descriptorsUnder (h : t.Pruned n gone t') {c x : AttrId} :
    x ∈ t'.descriptorsUnder c ↔ ¬ gone .characteristics c ∧ x ∈ t.descriptorsUnder c := by
  rcases h.characteristics c with ⟨hgone, hnone⟩ | ⟨hkept, heq⟩
  · simp [descriptorsUnder, hnone, hgone]
  · simp [descriptorsUnder, heq, hkept]

/-- What goes with some descriptors, with some characteristics and with some services. -/
def withDescriptors (ds : List AttrId) : Tier → AttrId → Prop
  | .descriptors, x => x ∈ ds
  | _, _ => False

def withCharacteristics (t : Tree S C D) (cs : List AttrId) : Tier → AttrId → Prop
  | .services, _ => False
  | .characteristics, x => x ∈ cs
  | .descriptors, x => ∃ c ∈ cs, x ∈ t.descriptorsUnder c

def withServices (t : Tree S C D) (ss : List AttrId) : Tier → AttrId → Prop
  | .services, x => x ∈ ss
  | .characteristics, x => ∃ s ∈ ss, x ∈ t.characteristicsUnder s
  | .descriptors, x => ∃ s ∈ ss, ∃ c ∈ t.characteristicsUnder s, x ∈ t.descriptorsUnder c

theorem pruned_dropDescriptors (ht : t.Sound n) (ds : List AttrId) :
    t.Pruned n (withDescriptors ds) (t.dropDescriptors ds) :=
  ⟨rfl, ⟨ht.services, ht.characteristics, (ht.descriptors.foldl_retire ds).1⟩, .refl _, .refl _,
    t.descriptors.without_foldl_retire ds⟩

theorem pruned_dropCharacteristic (ht : t.Sound n) (c : AttrId) :
    t.Pruned n (t.withCharacteristics [c]) (t.dropCharacteristic c) := by
  cases hc : t.characteristics.get? c with
  | none =>
    have hdrop : t.dropCharacteristic c = t := by
      simp only [dropCharacteristic, HandleTable.retire_of_none hc]
    rw [hdrop]
    refine ⟨rfl, ht, .refl _, ?_, ?_⟩
    · intro i
      by_cases hi : i = c
      · exact .inl ⟨by simp [withCharacteristics, hi], hi ▸ hc⟩
      · exact .inr ⟨by simp [withCharacteristics, hi], rfl⟩
    · exact (HandleTable.Without.refl _).congr fun i => by
        simp [withCharacteristics, descriptorsUnder, hc]
  | some e =>
    have hdrop : t.dropCharacteristic c =
        { t with characteristics := (t.characteristics.retire c).2 }.dropDescriptors
          e.value.descriptors := by
      simp only [dropCharacteristic, HandleTable.retire_of_some _ hc]
    have hsound : Sound { t with characteristics := (t.characteristics.retire c).2 } n :=
      ⟨ht.services, ht.characteristics.retire c, ht.descriptors⟩
    have hpruned := pruned_dropDescriptors hsound e.value.descriptors
    rw [hdrop]
    refine ⟨rfl, hpruned.sound, .refl _, ?_, ?_⟩
    · exact (t.characteristics.without_retire c).congr fun i => by simp [withCharacteristics]
    · exact hpruned.descriptors.congr fun i => by
        simp [withCharacteristics, withDescriptors, descriptorsUnder, hc]

theorem pruned_foldl_dropCharacteristic (ht : t.Sound n) (cs : List AttrId) :
    t.Pruned n (t.withCharacteristics cs) (cs.foldl dropCharacteristic t) := by
  induction cs generalizing t with
  | nil => exact (Pruned.refl ht).congr fun tier i => by cases tier <;> simp [withCharacteristics]
  | cons c cs ih =>
    have hfirst := pruned_dropCharacteristic ht c
    refine (hfirst.trans (ih hfirst.sound)).congr fun tier i => ?_
    cases tier with
    | services => simp [withCharacteristics]
    | characteristics => simp [withCharacteristics]
    | descriptors =>
      simp only [withCharacteristics, hfirst.mem_descriptorsUnder]
      constructor
      · rintro (⟨c', hc', hi⟩ | ⟨c', hc', -, hi⟩)
        · exact ⟨c', List.mem_cons.mpr (.inl (List.mem_singleton.mp hc')), hi⟩
        · exact ⟨c', List.mem_cons_of_mem c hc', hi⟩
      · rintro ⟨c', hc', hi⟩
        by_cases hcc : c' = c
        · exact .inl ⟨c', List.mem_singleton.mpr hcc, hi⟩
        · exact .inr ⟨c', (List.mem_cons.mp hc').resolve_left hcc,
            fun h => hcc (List.mem_singleton.mp h), hi⟩

theorem pruned_dropService (ht : t.Sound n) (s : AttrId) :
    t.Pruned n (t.withServices [s]) (t.dropService s) := by
  cases hs : t.services.get? s with
  | none =>
    have hdrop : t.dropService s = t := by
      simp only [dropService, HandleTable.retire_of_none hs]
    rw [hdrop]
    refine ⟨rfl, ht, ?_, ?_, ?_⟩
    · intro i
      by_cases hi : i = s
      · exact .inl ⟨by simp [withServices, hi], hi ▸ hs⟩
      · exact .inr ⟨by simp [withServices, hi], rfl⟩
    · exact (HandleTable.Without.refl _).congr fun i => by
        simp [withServices, characteristicsUnder, hs]
    · exact (HandleTable.Without.refl _).congr fun i => by
        simp [withServices, characteristicsUnder, hs]
  | some e =>
    have hdrop : t.dropService s = e.value.characteristics.foldl dropCharacteristic
        { t with services := (t.services.retire s).2 } := by
      simp only [dropService, HandleTable.retire_of_some _ hs]
    have hsound : Sound { t with services := (t.services.retire s).2 } n :=
      ⟨ht.services.retire s, ht.characteristics, ht.descriptors⟩
    have hpruned := pruned_foldl_dropCharacteristic hsound e.value.characteristics
    have hunder : t.characteristicsUnder s = e.value.characteristics := by
      simp [characteristicsUnder, hs]
    rw [hdrop]
    refine ⟨hpruned.order_eq, hpruned.sound, ?_, ?_, ?_⟩
    · exact ((t.services.without_retire s).trans hpruned.services).congr fun i => by
        simp [withServices, withCharacteristics]
    · exact hpruned.characteristics.congr fun i => by
        simp [withServices, withCharacteristics, hunder]
    · exact hpruned.descriptors.congr fun i => by
        simp [withServices, withCharacteristics, hunder, descriptorsUnder]

theorem pruned_foldl_dropService (ht : t.Sound n) (ss : List AttrId) :
    t.Pruned n (t.withServices ss) (ss.foldl dropService t) := by
  induction ss generalizing t with
  | nil => exact (Pruned.refl ht).congr fun tier i => by cases tier <;> simp [withServices]
  | cons s ss ih =>
    have hfirst := pruned_dropService ht s
    have hself : s ∈ s :: ss := List.mem_cons_self
    have hone : s ∈ [s] := List.mem_cons_self
    refine (hfirst.trans (ih hfirst.sound)).congr fun tier i => ?_
    cases tier with
    | services => simp [withServices]
    | characteristics =>
      simp only [withServices, hfirst.mem_characteristicsUnder]
      constructor
      · rintro (⟨s', hs', hi⟩ | ⟨s', hs', -, hi⟩)
        · exact ⟨s', List.mem_singleton.mp hs' ▸ hself, hi⟩
        · exact ⟨s', List.mem_cons_of_mem s hs', hi⟩
      · rintro ⟨s', hs', hi⟩
        by_cases hss : s' ∈ [s]
        · exact .inl ⟨s', hss, hi⟩
        · exact .inr ⟨s', (List.mem_cons.mp hs').resolve_left fun h => hss (h ▸ hone), hss, hi⟩
    | descriptors =>
      simp only [withServices, hfirst.mem_characteristicsUnder, hfirst.mem_descriptorsUnder]
      constructor
      · rintro (⟨s', hs', hi⟩ | ⟨s', hs', c, ⟨-, hc⟩, -, hi⟩)
        · exact ⟨s', List.mem_singleton.mp hs' ▸ hself, hi⟩
        · exact ⟨s', List.mem_cons_of_mem s hs', c, hc, hi⟩
      · rintro ⟨s', hs', c, hc, hi⟩
        by_cases hss : s' ∈ [s]
        · exact .inl ⟨s', hss, c, hc, hi⟩
        -- A characteristic that both services list goes with the first.
        by_cases hcs : ∃ s₀ ∈ [s], c ∈ t.characteristicsUnder s₀
        · obtain ⟨s₀, hs₀, hc₀⟩ := hcs
          exact .inl ⟨s₀, hs₀, c, hc₀, hi⟩
        · exact .inr ⟨s', (List.mem_cons.mp hs').resolve_left fun h => hss (h ▸ hone), c,
            ⟨hss, hc⟩, hcs, hi⟩

end Tree

end GattHub.Gatt
