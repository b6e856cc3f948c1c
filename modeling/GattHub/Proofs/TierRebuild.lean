import GattHub.Proofs.Enrolment
import GattHub.Proofs.Naming

/-! What a rebuilt tier lists, exactly: the handles that were found, each once, with what was found
of it last. Services all get new identities; in the tiers below, a handle that is still registered
elsewhere keeps the one that it has. -/

namespace GattHub

open Gatt

variable {H : Handles}

namespace Gatt.HandleTable

variable {κ τ α β : Type} [DecidableEq κ] {t bare t' : HandleTable κ τ} {n : Nat}

/-- Of the handles, those that are not registered once the identities beneath a parent are gone. -/
def renewed (t : HandleTable κ τ) (beneath : List AttrId) (ks : List κ) : List κ :=
  ks.filter fun k => (t.idOf? k).all (· ∈ beneath)

/-- A tier after it was rebuilt. It lists a record for each handle, where that first came up, with
what came with the handle last; the identity in the record resolves to both. The handles that were
not registered any more have the identities that follow, the others those that they had. -/
structure Restocks (t : HandleTable κ τ) (n : Nat) (beneath : List AttrId) (handle : α → κ)
    (value : α → τ) (record : AttrId → α → β) (found : List α) (t' : HandleTable κ τ)
    (list : List β) : Prop where
  listed : List.Forall₂ (fun k r => ∃ i a, latest? handle found k = some a ∧ r = record i a ∧
    t'.idOf? k = some i ∧ t'.get i = .ok ⟨k, value a⟩) (handles handle found) list
  fresh : (t.renewed beneath (handles handle found)).map t'.idOf? =
    (following n (t.renewed beneath (handles handle found)).length).map some
  kept : ∀ k i, t.idOf? k = some i → i ∉ beneath → t'.idOf? k = some i

theorem idOf?_without {beneath : List AttrId} (ht : t.Sound n) (hb : bare.Sound n)
    (h : t.Without (· ∈ beneath) bare) (k : κ) (i : AttrId) :
    bare.idOf? k = some i ↔ t.idOf? k = some i ∧ i ∉ beneath := by
  rw [hb.idOf?_iff, ht.idOf?_iff]
  constructor
  · intro hi
    obtain ⟨hkept, hold⟩ := h.handle? hi
    exact ⟨hold, hkept⟩
  · rintro ⟨hold, hkept⟩
    rw [handle?, h.get?_of_not hkept]
    exact hold

theorem newcomers_without {beneath : List AttrId} (ht : t.Sound n) (hb : bare.Sound n)
    (h : t.Without (· ∈ beneath) bare) (ks : List κ) :
    bare.newcomers ks = t.renewed beneath ks := by
  refine List.filter_congr fun k _ => Bool.eq_iff_iff.mpr ?_
  have hiff := idOf?_without ht hb h k
  rw [decide_eq_true_iff, Option.eq_none_iff_forall_ne_some, Option.all_eq_true]
  constructor
  · intro hno i hi
    by_contra hkept
    exact hno i ((hiff i).mpr ⟨hi, by simpa using hkept⟩)
  · intro hgone i hi
    obtain ⟨hold, hkept⟩ := (hiff i).mp hi
    exact hkept (by simpa using hgone i hold)

omit [DecidableEq κ] in
theorem forall₂_filterMap {γ δ : Type} {R : κ → γ → Prop} {S : κ → δ → Prop} {f : γ → Option δ}
    {ks : List κ} {xs : List γ} (h : List.Forall₂ R ks xs)
    (hf : ∀ k ∈ ks, ∀ x, R k x → ∃ y, f x = some y ∧ S k y) :
    List.Forall₂ S ks (xs.filterMap f) := by
  induction h with
  | nil => exact .nil
  | cons hx _ ih =>
    obtain ⟨y, hy, hS⟩ := hf _ List.mem_cons_self _ hx
    rw [List.filterMap_cons_some hy]
    exact .cons hS (ih fun k hk => hf k (List.mem_cons_of_mem _ hk))

/-- Registering what was found in a table from which the identities beneath a parent were taken. -/
theorem Without.restocks {beneath : List AttrId} (h : t.Without (· ∈ beneath) bare)
    (ht : t.Sound n) (hb : bare.Sound n) (handle : α → κ) (value : α → τ)
    (shown : AttrId → τ → β) (found : List α)
    (hn : n + (t.renewed beneath (handles handle found)).length < UInt64.size) :
    ∃ ids t', bare.registerAll (.after n) (found.map fun a => ⟨handle a, value a⟩) =
        (ids, t', .after (n + (t.renewed beneath (handles handle found)).length)) ∧
      t.Restocks n beneath handle value (fun i a => shown i (value a)) found t'
        (ids.filterMap fun i => (t'.get? i).map fun e => shown i e.value) := by
  have hhandles : handles Entry.handle (found.map fun a => ⟨handle a, value a⟩) =
      handles handle found := handles_map (fun _ => rfl) found
  have hnew := newcomers_without ht hb h (handles handle found)
  rw [← hnew, ← hhandles] at hn
  obtain ⟨ids, t', hall, he⟩ := hb.enrols_registerAll _ hn
  have hlisted := he.listed
  have hfresh := he.fresh
  rw [hhandles] at hlisted
  rw [hhandles, hnew] at hall hfresh
  refine ⟨ids, t', hall, forall₂_filterMap hlisted fun k hk i hi => ?_, hfresh, fun k i hi hkept => ?_⟩
  · obtain ⟨a, ha⟩ := exists_latest? hk
    have hget : t'.get? i = some ⟨k, value a⟩ := by
      rw [he.get?_of_idOf? k i hi, latest?_map (fun _ => rfl) found k, ha, Option.map_some,
        Option.some_or, handle_of_latest? ha]
    exact ⟨_, by rw [hget]; rfl, i, a, ha, rfl, hi, by rw [HandleTable.get, hget]⟩
  · exact he.kept k i ((idOf?_without ht hb h k i).mpr ⟨hi, hkept⟩)

theorem Sound.renewed_eq_self {beneath : List AttrId} (ht : t.Sound n)
    (hall : ∀ i, (t.get? i).isSome → i ∈ beneath) (ks : List κ) : t.renewed beneath ks = ks := by
  refine List.filter_eq_self.mpr fun k _ => (Option.all_eq_true _ _).mpr fun i hi => ?_
  obtain ⟨e, he⟩ := ht.exists_get? hi
  simpa using hall i (Option.isSome_of_eq_some he)

end Gatt.HandleTable

namespace Gatt.Tree

variable {S C D : Type} [DecidableEq S] [DecidableEq C] [DecidableEq D] {t : Tree S C D} {n : Nat}

theorem rebuildServices_restocks (ht : t.Sound n) (hall : ∀ s, t.Live .services s → s ∈ t.order)
    (found : List (Found S)) (hn : n + (handles Found.handle found).length < UInt64.size) :
    ∃ t', t.rebuildServices (.after n) found =
        (t', .after (n + (handles Found.handle found).length)) ∧
      t.services.Restocks n t.order Found.handle (fun f => ⟨f.uuid, []⟩)
        (fun i f => (⟨i, f.uuid⟩ : Service)) found t'.services t'.serviceList := by
  have hbare : Sound { t with order := [] } n := ⟨ht.services, ht.characteristics, ht.descriptors⟩
  have h := pruned_foldl_dropService hbare t.order
  have hself := ht.services.renewed_eq_self hall (handles Found.handle found)
  simp only [rebuildServices]
  generalize t.order.foldl dropService { t with order := [] } = bare at h
  have hgone : t.services.Without (· ∈ t.order) bare.services := h.services
  rw [← hself] at hn ⊢
  obtain ⟨ids, ss, hsource, hr⟩ := hgone.restocks ht.services h.sound.services
    Found.handle (fun f => (⟨f.uuid, []⟩ : ServiceNode)) (fun i v => (⟨i, v.uuid⟩ : Service)) found hn
  simp only [hsource]
  exact ⟨_, rfl, hr⟩

theorem rebuildCharacteristics_restocks (ht : t.Sound n) {s : AttrId} (hs : t.Live .services s)
    (found : List (FoundCharacteristic C))
    (hn : n + (t.characteristics.renewed (t.characteristicsUnder s)
      (handles FoundCharacteristic.handle found)).length < UInt64.size) :
    ∃ t' list, t.rebuildCharacteristics (.after n) s found =
        .ok (t', .after (n + (t.characteristics.renewed (t.characteristicsUnder s)
          (handles FoundCharacteristic.handle found)).length)) ∧
      t'.characteristicsOf s = .ok list ∧
      t.characteristics.Restocks n (t.characteristicsUnder s) FoundCharacteristic.handle
        (fun f => ⟨f.uuid, f.properties, []⟩)
        (fun i f => (⟨i, f.uuid, f.properties⟩ : Characteristic)) found t'.characteristics list := by
  obtain ⟨e, he⟩ := Option.isSome_iff_exists.mp hs
  have hunder : t.characteristicsUnder s = e.value.characteristics := by
    simp [characteristicsUnder, he]
  have h := pruned_foldl_dropCharacteristic ht (t.characteristicsUnder s)
  have hkept := get?_service_foldl_dropCharacteristic he (t.characteristicsUnder s)
  simp only [rebuildCharacteristics, HandleTable.get, he, Except.map, ← hunder]
  generalize (t.characteristicsUnder s).foldl dropCharacteristic t = bare at h hkept
  have hgone : t.characteristics.Without (· ∈ t.characteristicsUnder s) bare.characteristics :=
    h.characteristics
  obtain ⟨ids, cs, hsource, hr⟩ := hgone.restocks ht.characteristics h.sound.characteristics
    FoundCharacteristic.handle (fun f => (⟨f.uuid, f.properties, []⟩ : CharacteristicNode))
    (fun i v => (⟨i, v.uuid, v.properties⟩ : Characteristic)) found hn
  simp only [hsource]
  refine ⟨_, _, rfl, ?_, hr⟩
  have hlisted := bare.services.get?_mapValue s (fun v => { v with characteristics := ids }) s
  rw [if_pos rfl, hkept] at hlisted
  simp only [HandleTable.mapValue] at hlisted
  simp only [characteristicsOf, HandleTable.get, hlisted, Except.map, Option.map_some,
    listCharacteristics]

theorem rebuildDescriptors_restocks (ht : t.Sound n) {c : AttrId} (hc : t.Live .characteristics c)
    (found : List (Found D))
    (hn : n + (t.descriptors.renewed (t.descriptorsUnder c)
      (handles Found.handle found)).length < UInt64.size) :
    ∃ t' list, t.rebuildDescriptors (.after n) c found =
        .ok (t', .after (n + (t.descriptors.renewed (t.descriptorsUnder c)
          (handles Found.handle found)).length)) ∧
      t'.descriptorsOf c = .ok list ∧
      t.descriptors.Restocks n (t.descriptorsUnder c) Found.handle Found.uuid
        (fun i f => (⟨i, f.uuid⟩ : Descriptor)) found t'.descriptors list := by
  obtain ⟨e, he⟩ := Option.isSome_iff_exists.mp hc
  have hunder : t.descriptorsUnder c = e.value.descriptors := by simp [descriptorsUnder, he]
  have h := pruned_dropDescriptors ht (t.descriptorsUnder c)
  have hkept := get?_characteristic_dropDescriptors he (t.descriptorsUnder c)
  simp only [rebuildDescriptors, HandleTable.get, he, Except.map, ← hunder]
  generalize t.dropDescriptors (t.descriptorsUnder c) = bare at h hkept
  have hgone : t.descriptors.Without (· ∈ t.descriptorsUnder c) bare.descriptors := h.descriptors
  obtain ⟨ids, ds, hsource, hr⟩ := hgone.restocks ht.descriptors h.sound.descriptors
    Found.handle Found.uuid (fun i v => (⟨i, v⟩ : Descriptor)) found hn
  simp only [hsource]
  refine ⟨_, _, rfl, ?_, hr⟩
  have hlisted := bare.characteristics.get?_mapValue c (fun v => { v with descriptors := ids }) c
  rw [if_pos rfl, hkept] at hlisted
  simp only [HandleTable.mapValue] at hlisted
  simp only [descriptorsOf, HandleTable.get, hlisted, Except.map, Option.map_some, listDescriptors]

omit [DecidableEq S] in
theorem rebuildCharacteristics_eq_error {ids : IdSource} {s : AttrId}
    {found : List (FoundCharacteristic C)} {u : Unresolved} :
    t.rebuildCharacteristics ids s found = .error u ↔ ¬ t.Live .services s ∧ u = ⟨s⟩ := by
  cases hs : t.services.get? s <;>
    simp [rebuildCharacteristics, HandleTable.get, hs, Except.map, Live, eq_comm]

omit [DecidableEq S] [DecidableEq C] in
theorem rebuildDescriptors_eq_error {ids : IdSource} {c : AttrId} {found : List (Found D)}
    {u : Unresolved} :
    t.rebuildDescriptors ids c found = .error u ↔ ¬ t.Live .characteristics c ∧ u = ⟨c⟩ := by
  cases hc : t.characteristics.get? c <;>
    simp [rebuildDescriptors, HandleTable.get, hc, Except.map, Live, eq_comm]

end Gatt.Tree

section Ordered

namespace Gatt.HandleTable

variable {κ τ : Type}

theorem isSome_modify (t : HandleTable κ τ) (id : AttrId) (f : Entry κ τ → Entry κ τ)
    (x : AttrId) : ((t.modify id f).get? x).isSome = (t.get? x).isSome := by
  have hget : (t.modify id f).get? x = if x = id then (t.get? x).map f else t.get? x :=
    t.entries.get?_modify id f x
  rw [hget]
  split
  · rw [Option.isSome_map]
  · rfl

variable [DecidableEq κ]

theorem isSome_registerAll (es : List (Entry κ τ)) (t : HandleTable κ τ) (ids : IdSource)
    {x : AttrId} (hx : ((t.registerAll ids es).2.1.get? x).isSome) :
    (t.get? x).isSome ∨ x ∈ (t.registerAll ids es).1 := by
  induction es generalizing t ids with
  | nil => exact .inl hx
  | cons e es ih =>
    simp only [registerAll] at hx ⊢
    by_cases hself : x = (t.register ids e.handle e.value).1
    · exact .inr (hself ▸ List.mem_cons_self)
    rcases ih _ _ hx with hfirst | hrest
    · left
      cases hid : t.idOf? e.handle with
      | some id =>
        rw [register_of_some hid] at hfirst hself
        rw [get?_mapValue, if_neg hself] at hfirst
        exact hfirst
      | none =>
        rw [register_of_none hid] at hfirst hself
        rw [get?_enter, if_neg hself] at hfirst
        exact hfirst
    · exact .inr (List.mem_cons_of_mem _ (List.mem_filter.mpr ⟨hrest, by simpa using hself⟩))

end Gatt.HandleTable

namespace Gatt.Tree

variable {S C D : Type}

/-- Every service that resolves is listed. -/
def Ordered (t : Tree S C D) : Prop := ∀ s, t.Live .services s → s ∈ t.order

variable {t t' : Tree S C D}

theorem Ordered.of_services (h : t.Ordered) (horder : t'.order = t.order)
    (hlive : ∀ s, t'.Live .services s → t.Live .services s) : t'.Ordered := by
  intro s hs
  rw [horder]
  exact h s (hlive s hs)

variable [DecidableEq D]

theorem ordered_rebuildDescriptors (h : t.Ordered) {ids ids' : IdSource} {c : AttrId}
    {found : List (Found D)} (hbuilt : t.rebuildDescriptors ids c found = .ok (t', ids')) :
    t'.Ordered := by
  simp only [rebuildDescriptors, Except.map] at hbuilt
  split at hbuilt
  · cases hbuilt
  · cases hbuilt
    exact h

variable [DecidableEq C]

theorem foldl_dropCharacteristic_order (cs : List AttrId) (t : Tree S C D) :
    (cs.foldl dropCharacteristic t).order = t.order := by
  induction cs generalizing t with
  | nil => rfl
  | cons c cs ih =>
    have hdrop : (t.dropCharacteristic c).order = t.order := by
      simp only [dropCharacteristic]
      split <;> rfl
    rw [List.foldl_cons, ih, hdrop]

theorem ordered_rebuildCharacteristics (h : t.Ordered) {ids ids' : IdSource} {s : AttrId}
    {found : List (FoundCharacteristic C)}
    (hbuilt : t.rebuildCharacteristics ids s found = .ok (t', ids')) : t'.Ordered := by
  simp only [rebuildCharacteristics, Except.map] at hbuilt
  split at hbuilt
  · cases hbuilt
  next e _ =>
    cases hbuilt
    have hservices := t.foldl_dropCharacteristic_services e.value.characteristics
    have horder := foldl_dropCharacteristic_order e.value.characteristics t
    refine h.of_services horder fun x hx => ?_
    simp only [Live, HandleTable.isSome_modify, hservices] at hx
    exact hx

variable [DecidableEq S]

theorem get?_dropService (t : Tree S C D) (s x : AttrId) :
    (t.dropService s).services.get? x = if x = s then none else t.services.get? x := by
  have hretire := t.services.get?_retire s x
  cases hs : t.services.get? s with
  | none =>
    rw [HandleTable.retire_of_none hs] at hretire
    simp only [dropService, HandleTable.retire_of_none hs]
    exact hretire
  | some e =>
    rw [HandleTable.retire_of_some _ hs] at hretire
    simp only [dropService, HandleTable.retire_of_some _ hs,
      foldl_dropCharacteristic_services]
    exact hretire

theorem get?_foldl_dropService (ss : List AttrId) (t : Tree S C D) (x : AttrId) :
    (ss.foldl dropService t).services.get? x = if x ∈ ss then none else t.services.get? x := by
  induction ss generalizing t with
  | nil => rfl
  | cons s ss ih =>
    rw [List.foldl_cons, ih, get?_dropService]
    by_cases hx : x = s <;> simp [hx]

theorem ordered_rebuildServices (h : t.Ordered) (ids : IdSource) (found : List (Found S)) :
    (t.rebuildServices ids found).1.Ordered := by
  intro s hs
  rcases HandleTable.isSome_registerAll _ _ _ hs with hold | hnew
  · rw [get?_foldl_dropService] at hold
    split at hold
    · cases hold
    next hnot => exact absurd (h s hold) hnot
  · exact hnew

end Gatt.Tree

theorem Peer.ordered_receive {q : Peer H} (h : q.tree.Ordered) (settings : Settings)
    (ids : IdSource) (report : PeerReport H) :
    (q.receive settings ids report).state.1.tree.Ordered := by
  cases report with
  | servicesDiscovered status found =>
    simp only [receive, servicesDiscovered]
    split
    · exact h
    · split
      · exact Tree.ordered_rebuildServices h ids found
      · exact h
  | characteristicsDiscovered status service found =>
    have hd := q.discovers_characteristicsDiscovered ids status service found
    generalize Effect.notices _ = ns at hd
    simp only [receive]
    generalize (q.characteristicsDiscovered ids status service found).state = s at hd ⊢
    obtain ⟨q', ids'⟩ := s
    cases hd with
    | rebuilt id rest built _ _ _ hbuilt => exact Tree.ordered_rebuildCharacteristics h hbuilt
    | unmatched | failed | stale => exact h
  | descriptorsDiscovered status characteristic found =>
    have hd := q.discovers_descriptorsDiscovered ids status characteristic found
    generalize Effect.notices _ = ns at hd
    simp only [receive]
    generalize (q.descriptorsDiscovered ids status characteristic found).state = s at hd ⊢
    obtain ⟨q', ids'⟩ := s
    cases hd with
    | rebuilt id rest built _ _ _ hbuilt => exact Tree.ordered_rebuildDescriptors h hbuilt
    | unmatched | failed | stale => exact h
  | _ =>
    rw [tree_receive rfl]
    exact h

end Ordered

namespace Run

theorem ordered (settings : Settings) (ms : List (Move H)) :
    ∀ h, (of settings ms).hub = some h → ∀ {c p q}, h.peer? c p = some q → q.tree.Ordered := by
  refine of_induction (P := fun r => ∀ h, r.hub = some h → ∀ {c p q}, h.peer? c p = some q →
    q.tree.Ordered) settings ?_ ?_ ms
  · rintro h ⟨⟩ c p q hq
    cases hq
  · intro ms h m hr ih h' ha c p q
    refine Moment.forall_peer (t := ⟨h, m⟩) (P := fun q : Peer H => q.tree.Ordered)
      ((labelled settings ms).2 h hr) (fun _ _ _ => nofun) (fun q q' action hq haccepts => ?_)
      (fun q report ns hq _ => Peer.ordered_receive hq _ _ report) (fun _ _ hq => hq)
      (fun c p q hq => ih h hr hq) ha c p q
    cases haccepts <;> exact hq

/-- As long as identities do not run out, a rebuilt tier lists what was found: a record for each
handle. All services get the identities that follow, in the order of the records; below, those whose
handles are not registered once the identities beneath the parent are gone. A rebuild fails for a
parent that does not resolve, with its identity and with nothing to put in place of the tree and the
source, and for no other. -/
theorem rebuild_exact (settings : Settings) (ms : List (Move H)) {h : Hub H}
    (hh : (of settings ms).hub = some h) {c : CentralId} {p : PeerId} {q : Peer H}
    (hq : h.peer? c p = some q) :
    let n := (of settings ms).draws
    (n < UInt64.size → h.ids = .after n) ∧
    (∀ found : List (Found H.Service),
      let ks := handles Found.handle found
      n + ks.length < UInt64.size →
        ∃ tree, q.tree.rebuildServices h.ids found = (tree, .after (n + ks.length)) ∧
          q.tree.services.renewed q.tree.order ks = ks ∧
          q.tree.services.Restocks n q.tree.order Found.handle (fun f => ⟨f.uuid, []⟩)
            (fun i f => (⟨i, f.uuid⟩ : Service)) found tree.services tree.serviceList) ∧
    (∀ (s : AttrId) (found : List (FoundCharacteristic H.Characteristic)),
      let beneath := q.tree.characteristicsUnder s
      let new := q.tree.characteristics.renewed beneath (handles FoundCharacteristic.handle found)
      (q.tree.Live .services s → n + new.length < UInt64.size →
        ∃ tree list, q.tree.rebuildCharacteristics h.ids s found =
            .ok (tree, .after (n + new.length)) ∧
          tree.characteristicsOf s = .ok list ∧
          q.tree.characteristics.Restocks n beneath FoundCharacteristic.handle
            (fun f => ⟨f.uuid, f.properties, []⟩)
            (fun i f => (⟨i, f.uuid, f.properties⟩ : Characteristic)) found tree.characteristics
            list) ∧
      ∀ u, q.tree.rebuildCharacteristics h.ids s found = .error u ↔
        ¬ q.tree.Live .services s ∧ u = ⟨s⟩) ∧
    ∀ (x : AttrId) (found : List (Found H.Descriptor)),
      let beneath := q.tree.descriptorsUnder x
      let new := q.tree.descriptors.renewed beneath (handles Found.handle found)
      (q.tree.Live .characteristics x → n + new.length < UInt64.size →
        ∃ tree list, q.tree.rebuildDescriptors h.ids x found =
            .ok (tree, .after (n + new.length)) ∧
          tree.descriptorsOf x = .ok list ∧
          q.tree.descriptors.Restocks n beneath Found.handle Found.uuid
            (fun i f => (⟨i, f.uuid⟩ : Descriptor)) found tree.descriptors list) ∧
      ∀ u, q.tree.rebuildDescriptors h.ids x found = .error u ↔
        ¬ q.tree.Live .characteristics x ∧ u = ⟨x⟩ := by
  intro n
  have hsource (hn : n < UInt64.size) : h.ids = .after n := (distinct settings ms hn h hh).ids_eq
  have hsound (hn : n < UInt64.size) : q.tree.Sound n := (distinct settings ms hn h hh).sound hq
  have hordered : q.tree.Ordered := ordered settings ms h hh hq
  refine ⟨hsource, fun found hn => ?_, fun s found => ⟨fun hs hn => ?_, fun u => ?_⟩,
    fun x found => ⟨fun hx hn => ?_, fun u => ?_⟩⟩
  · have hfew := Nat.lt_of_le_of_lt (Nat.le_add_right n _) hn
    rw [hsource hfew]
    obtain ⟨tree, hbuilt, hr⟩ := Tree.rebuildServices_restocks (hsound hfew) hordered found hn
    exact ⟨tree, hbuilt, (hsound hfew).services.renewed_eq_self hordered _, hr⟩
  · have hfew := Nat.lt_of_le_of_lt (Nat.le_add_right n _) hn
    rw [hsource hfew]
    exact Tree.rebuildCharacteristics_restocks (hsound hfew) hs found hn
  · exact Tree.rebuildCharacteristics_eq_error
  · have hfew := Nat.lt_of_le_of_lt (Nat.le_add_right n _) hn
    rw [hsource hfew]
    exact Tree.rebuildDescriptors_restocks (hsound hfew) hx found hn
  · exact Tree.rebuildDescriptors_eq_error

def metPeer : Peer .numbers := (metHub.peer? ⟨1⟩ default).getD (.new ⟨1⟩ default 0)

/-- The service that is known is found again, twice, and another one between. What is found beneath
the known service counts, and nothing is beneath a service that is not known. -/
theorem rebuild_exact_repeated :
    let found : List (Found Nat) := [⟨7, .ofNat 1⟩, ⟨9, .ofNat 2⟩, ⟨7, .ofNat 3⟩]
    (of .default metMoves).hub = some metHub ∧ metHub.peer? ⟨1⟩ default = some metPeer ∧
      (of .default metMoves).draws + (handles Found.handle found).length < UInt64.size ∧
      metPeer.tree.Live .services ⟨1⟩ ∧ ¬ metPeer.tree.Live .services ⟨2⟩ ∧
      (∃ tree, metPeer.tree.rebuildServices metHub.ids found = (tree, .after 3) ∧
        tree.serviceList = [⟨⟨2⟩, .ofNat 3⟩, ⟨⟨3⟩, .ofNat 2⟩] ∧
        [7, 9].map tree.services.idOf? = [some ⟨2⟩, some ⟨3⟩]) ∧
      (∃ tree, metPeer.tree.rebuildCharacteristics metHub.ids ⟨1⟩ [⟨4, .ofNat 5, 2⟩] =
          .ok (tree, .after 2) ∧
        tree.characteristicsOf ⟨1⟩ = .ok [⟨⟨2⟩, .ofNat 5, 2⟩]) ∧
      metPeer.tree.rebuildCharacteristics metHub.ids ⟨2⟩ [] = .error ⟨⟨2⟩⟩ := by
  intro found
  have hmet : (of .default metMoves).hub = some metHub := rfl
  have hpeer : metHub.peer? ⟨1⟩ default = some metPeer := rfl
  have hfew : (of .default metMoves).draws + (handles Found.handle found).length < UInt64.size := by
    decide
  have hlive : metPeer.tree.Live .services ⟨1⟩ := rfl
  have hdead : ¬ metPeer.tree.Live .services ⟨2⟩ := nofun
  obtain ⟨-, hservices, hcharacteristics, -⟩ := rebuild_exact .default metMoves hmet hpeer
  obtain ⟨tree, hbuilt, -, hr⟩ := hservices found hfew
  have htree : tree = (metPeer.tree.rebuildServices metHub.ids found).1 := by rw [hbuilt]
  obtain ⟨tree', list, hbuilt', -⟩ :=
    (hcharacteristics ⟨1⟩ [⟨4, .ofNat 5, 2⟩]).1 hlive (by decide)
  have htree' : .ok tree' = (metPeer.tree.rebuildCharacteristics metHub.ids ⟨1⟩
      [⟨4, .ofNat 5, 2⟩]).map Prod.fst := by
    rw [hbuilt']
    rfl
  refine ⟨hmet, hpeer, hfew, hlive, hdead, ⟨tree, hbuilt, by rw [htree]; rfl, hr.fresh⟩,
    ⟨tree', hbuilt', ?_⟩, ((hcharacteristics ⟨2⟩ []).2 _).mpr ⟨hdead, rfl⟩⟩
  rw [show tree' = _ from Except.ok.inj htree']
  rfl

end Run

end GattHub
