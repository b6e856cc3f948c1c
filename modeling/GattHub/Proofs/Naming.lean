import GattHub.Proofs.Lifetime

/-! What an identity of an attribute stands for. All identities come from one source that counts
up, so one that resolves now never stood for anything else and never will. -/

namespace GattHub

open Gatt

variable {H : Handles}

/-- An attribute as the host knows it: its tier, and its handle there. -/
inductive Gatt.Native (S C D : Type) where
  | service (handle : S)
  | characteristic (handle : C)
  | descriptor (handle : D)
  deriving DecidableEq

def Gatt.Native.tier {S C D : Type} : Native S C D → Tier
  | service _ => .services
  | characteristic _ => .characteristics
  | descriptor _ => .descriptors

namespace Gatt.HandleTable

variable {κ τ : Type} [DecidableEq κ] {t t₁ t₂ : HandleTable κ τ} {gone : AttrId → Prop}
  {n m : Nat} {es : List (Entry κ τ)} {ids : List AttrId}

theorem Registers.handle?_old_or_new (hr : t₁.Registers n es ids t₂ m) (h : t.Without gone t₁)
    {x : AttrId} {k : κ} (hk : t₂.handle? x = some k) :
    t.handle? x = some k ∨ n < x.raw.toNat := by
  rcases Nat.lt_or_ge n x.raw.toNat with hx | hx
  · exact .inr hx
  · exact .inl (hr.handle?_old h hx hk)

end Gatt.HandleTable

namespace Gatt.Tree

variable {S C D : Type}

/-- The identity resolves to this attribute. -/
def Names (t : Tree S C D) (x : AttrId) : Native S C D → Prop
  | .service k => t.services.handle? x = some k
  | .characteristic k => t.characteristics.handle? x = some k
  | .descriptor k => t.descriptors.handle? x = some k

variable {t t' : Tree S C D} {n m : Nat} {x : AttrId}

theorem not_names_empty {a : Native S C D} : ¬ (∅ : Tree S C D).Names x a := by
  cases a <;> exact nofun

theorem Names.live {a : Native S C D} (h : t.Names x a) : t.Live a.tier x := by
  cases a <;> obtain ⟨e, he, -⟩ := Option.map_eq_some_iff.mp h <;> exact Option.isSome_of_eq_some he

theorem exists_names {tier : Tier} (h : t.Live tier x) : ∃ a : Native S C D, t.Names x a ∧ a.tier = tier := by
  cases tier <;> obtain ⟨e, he⟩ := Option.isSome_iff_exists.mp h
  · exact ⟨.service e.handle, HandleTable.handle?_of_get? he, rfl⟩
  · exact ⟨.characteristic e.handle, HandleTable.handle?_of_get? he, rfl⟩
  · exact ⟨.descriptor e.handle, HandleTable.handle?_of_get? he, rfl⟩

theorem Names.eq_of_tier {a b : Native S C D} (ha : t.Names x a) (hb : t.Names x b)
    (htier : a.tier = b.tier) : a = b := by
  cases a <;> cases b <;> cases htier <;>
    exact congrArg _ (Option.some.inj (Eq.trans (Eq.symm ha) hb))

variable [DecidableEq S] [DecidableEq C] [DecidableEq D]

theorem Sound.names_le (ht : t.Sound n) {a : Native S C D} (h : t.Names x a) :
    x.raw.toNat ≤ n := by
  cases a with
  | service k => exact ht.services.le x k h
  | characteristic k => exact ht.characteristics.le x k h
  | descriptor k => exact ht.descriptors.le x k h

theorem Sound.mono (ht : t.Sound n) (hnm : n ≤ m) : t.Sound m :=
  ⟨ht.services.mono hnm, ht.characteristics.mono hnm, ht.descriptors.mono hnm⟩

/-- Every identity stands for what it stood for before, or is new in the given tier. -/
structure Renews (t : Tree S C D) (n : Nat) (tier : Tier) (t' : Tree S C D) (m : Nat) : Prop where
  sound : t'.Sound m
  names : ∀ x a, t'.Names x a → t.Names x a ∨ a.tier = tier ∧ n < x.raw.toNat

theorem Renews.refl (ht : t.Sound n) (tier : Tier) : t.Renews n tier t n :=
  ⟨ht, fun _ _ h => .inl h⟩

def drawsServices (t : Tree S C D) (ids : IdSource) (found : List (Found S)) : Nat :=
  (t.order.foldl dropService { t with order := [] }).services.drawsAll ids
    (found.map fun f => ⟨f.handle, ⟨f.uuid, []⟩⟩)

def drawsCharacteristics (t : Tree S C D) (ids : IdSource) (found : List (FoundCharacteristic C))
    (service : AttrId) : Nat :=
  ((t.characteristicsUnder service).foldl dropCharacteristic t).characteristics.drawsAll ids
    (found.map fun f => ⟨f.handle, ⟨f.uuid, f.properties, []⟩⟩)

def drawsDescriptors (t : Tree S C D) (ids : IdSource) (found : List (Found D))
    (characteristic : AttrId) : Nat :=
  (t.dropDescriptors (t.descriptorsUnder characteristic)).descriptors.drawsAll ids
    (found.map fun f => ⟨f.handle, f.uuid⟩)

theorem renews_rebuildServices (ht : t.Sound n) (found : List (Found S))
    (hn : n + t.drawsServices (.after n) found < UInt64.size) :
    ∃ t', t.rebuildServices (.after n) found =
        (t', .after (n + t.drawsServices (.after n) found)) ∧
      t.Renews n .services t' (n + t.drawsServices (.after n) found) := by
  have hbare : Sound { t with order := [] } n := ⟨ht.services, ht.characteristics, ht.descriptors⟩
  have h := pruned_foldl_dropService hbare t.order
  simp only [rebuildServices, drawsServices] at hn ⊢
  generalize t.order.foldl dropService { t with order := [] } = bare at h hn ⊢
  obtain ⟨ids, ss, hsource, hr⟩ := h.sound.services.registerAll_draws _ hn
  simp only [hsource]
  refine ⟨_, rfl, ⟨hr.sound, h.sound.characteristics.mono hr.le, h.sound.descriptors.mono hr.le⟩,
    fun x a hx => ?_⟩
  cases a with
  | service k => exact (hr.handle?_old_or_new h.services hx).imp_right fun hnew => ⟨rfl, hnew⟩
  | characteristic k => exact .inl (h.characteristics.handle? hx).2
  | descriptor k => exact .inl (h.descriptors.handle? hx).2

theorem renews_rebuildCharacteristics (ht : t.Sound n) {s : AttrId} (hs : t.Live .services s)
    (found : List (FoundCharacteristic C))
    (hn : n + t.drawsCharacteristics (.after n) found s < UInt64.size) :
    ∃ t', t.rebuildCharacteristics (.after n) s found =
        .ok (t', .after (n + t.drawsCharacteristics (.after n) found s)) ∧
      t.Renews n .characteristics t' (n + t.drawsCharacteristics (.after n) found s) := by
  obtain ⟨e, he⟩ := Option.isSome_iff_exists.mp hs
  have h := pruned_foldl_dropCharacteristic ht (t.characteristicsUnder s)
  have hunder : t.characteristicsUnder s = e.value.characteristics := by
    simp [characteristicsUnder, he]
  simp only [rebuildCharacteristics, drawsCharacteristics, HandleTable.get, he, Except.map] at hn ⊢
  rw [hunder] at h hn ⊢
  generalize e.value.characteristics.foldl dropCharacteristic t = bare at h hn ⊢
  obtain ⟨ids, cs, hsource, hr⟩ := h.sound.characteristics.registerAll_draws _ hn
  simp only [hsource]
  let listed := bare.services.mapValue s fun v => { v with characteristics := ids }
  have hsound : listed.Sound _ := (h.sound.services.mapValue s _).mono hr.le
  refine ⟨{ bare with services := listed, characteristics := cs }, rfl,
    ⟨hsound, hr.sound, h.sound.descriptors.mono hr.le⟩, fun x a hx => ?_⟩
  cases a with
  | service k =>
    have hold : bare.services.handle? x = some k :=
      (bare.services.handle?_mapValue s _ x).symm.trans hx
    exact .inl (h.services.handle? hold).2
  | characteristic k =>
    exact (hr.handle?_old_or_new h.characteristics hx).imp_right fun hnew => ⟨rfl, hnew⟩
  | descriptor k => exact .inl (h.descriptors.handle? hx).2

theorem renews_rebuildDescriptors (ht : t.Sound n) {c : AttrId} (hc : t.Live .characteristics c)
    (found : List (Found D))
    (hn : n + t.drawsDescriptors (.after n) found c < UInt64.size) :
    ∃ t', t.rebuildDescriptors (.after n) c found =
        .ok (t', .after (n + t.drawsDescriptors (.after n) found c)) ∧
      t.Renews n .descriptors t' (n + t.drawsDescriptors (.after n) found c) := by
  obtain ⟨e, he⟩ := Option.isSome_iff_exists.mp hc
  have h := pruned_dropDescriptors ht (t.descriptorsUnder c)
  have hunder : t.descriptorsUnder c = e.value.descriptors := by simp [descriptorsUnder, he]
  simp only [rebuildDescriptors, drawsDescriptors, HandleTable.get, he, Except.map] at hn ⊢
  rw [hunder] at h hn ⊢
  generalize t.dropDescriptors e.value.descriptors = bare at h hn ⊢
  obtain ⟨ids, ds, hsource, hr⟩ := h.sound.descriptors.registerAll_draws _ hn
  simp only [hsource]
  let listed := bare.characteristics.mapValue c fun v => { v with descriptors := ids }
  have hsound : listed.Sound _ := (h.sound.characteristics.mapValue c _).mono hr.le
  refine ⟨{ bare with characteristics := listed, descriptors := ds }, rfl,
    ⟨h.sound.services.mono hr.le, hsound, hr.sound⟩, fun x a hx => ?_⟩
  cases a with
  | service k => exact .inl (h.services.handle? hx).2
  | characteristic k =>
    have hold : bare.characteristics.handle? x = some k :=
      (bare.characteristics.handle?_mapValue c _ x).symm.trans hx
    exact .inl (h.characteristics.handle? hold).2
  | descriptor k =>
    exact (hr.handle?_old_or_new h.descriptors hx).imp_right fun hnew => ⟨rfl, hnew⟩

end Gatt.Tree

namespace Peer

variable {q q' : Peer H} {n : Nat}

/-- A completed discovery draws identities if it succeeds and the parent that has the handle now
is awaited. -/
def drawnFor (status : Status) (awaited : List AttrId) (current : Option AttrId)
    (draws : AttrId → Nat) : Nat :=
  (current.filter fun id => status = .ok ∧ id ∈ awaited).elim 0 draws

theorem drawnFor_eq_zero {status : Status} {awaited : List AttrId} {current : Option AttrId}
    {draws : AttrId → Nat} (h : ∀ id, current = some id → ¬ (status = .ok ∧ id ∈ awaited)) :
    drawnFor status awaited current draws = 0 := by
  cases current with
  | none => rfl
  | some id =>
    rw [drawnFor, Option.filter_some_neg (by simpa using h id rfl)]
    rfl

theorem drawnFor_of_awaited {status : Status} {awaited : List AttrId} {current : Option AttrId}
    {draws : AttrId → Nat} {id : AttrId} (hid : current = some id)
    (h : status = .ok ∧ id ∈ awaited) : drawnFor status awaited current draws = draws id := by
  rw [drawnFor, hid, Option.filter_some_pos (by simpa using h)]
  rfl

def draws (q : Peer H) (ids : IdSource) : PeerReport H → Nat
  | .servicesDiscovered status found =>
    if status = .ok ∧ .services ∈ q.pending then q.tree.drawsServices ids found else 0
  | .characteristicsDiscovered status service found =>
    drawnFor status (q.pending.filterMap Pending.service?) (q.tree.services.idOf? service)
      (q.tree.drawsCharacteristics ids found)
  | .descriptorsDiscovered status characteristic found =>
    drawnFor status (q.pending.filterMap Pending.characteristic?)
      (q.tree.characteristics.idOf? characteristic) (q.tree.drawsDescriptors ids found)
  | _ => 0

theorem renews_servicesDiscovered (ht : q.tree.Sound n) (status : Status)
    (found : List (Found H.Service))
    (hn : n + q.draws (.after n) (.servicesDiscovered status found) < UInt64.size) :
    let s := q.servicesDiscovered (.after n) status found
    let m := n + q.draws (.after n) (.servicesDiscovered status found)
    s.state.2 = .after m ∧ q.tree.Renews n .services s.state.1.tree m := by
  intro s m
  cases htake : Pending.take? (· = .services) q.pending with
  | none =>
    have hnot := Pending.take?_eq_none_iff_notMem.mp htake
    have hm : m = n := by simp [m, draws, hnot]
    have hs : s.state = (q, .after n) := by simp only [s, servicesDiscovered, htake]
    rw [hm, hs]
    exact ⟨rfl, .refl ht _⟩
  | some taken =>
    obtain ⟨op, rest⟩ := taken
    obtain ⟨-, pre, post, hqueue, -⟩ := Pending.eq_of_take?_eq_some htake
    have hmem : Pending.services ∈ q.pending := by simp [hqueue]
    by_cases hok : status = .ok
    · have hm : m = n + q.tree.drawsServices (.after n) found := by simp [m, draws, hmem, hok]
      obtain ⟨tree, hbuilt, hr⟩ := Tree.renews_rebuildServices ht found (hm ▸ hn)
      have hs : s.state = ({ q with pending := rest, tree := tree }, .after m) := by
        simp only [s, servicesDiscovered, htake, hok, if_true, hbuilt, hm]
      rw [hs]
      exact ⟨rfl, hm ▸ hr⟩
    · have hm : m = n := by simp [m, draws, hok]
      have hs : s.state = ({ q with pending := rest }, .after n) := by
        simp only [s, servicesDiscovered, htake, hok, if_false]
      rw [hm, hs]
      exact ⟨rfl, .refl ht _⟩

/-- A completed discovery renews the identities beneath its parent, whichever the tier. -/
theorem Discovers.renews {α : Type} {status : Status} {parent? : Pending → Option AttrId}
    {current : Option AttrId}
    {rebuild : AttrId →
      Except Unresolved (Tree H.Service H.Characteristic H.Descriptor × IdSource)}
    {listing : Tree H.Service H.Characteristic H.Descriptor → AttrId → List α}
    {outcome : Status → List α → PeerNotice} {ids' : IdSource} {ns : List Notice}
    {draws : AttrId → Nat} {tier : Tier}
    (h : q.Discovers (.after n) status parent? current rebuild listing outcome q' ids' ns)
    (ht : q.tree.Sound n) (hlive : ∀ id, current = some id → ∃ built, rebuild id = .ok built)
    (hrebuild : ∀ id, current = some id → n + draws id < UInt64.size →
      ∃ tree, rebuild id = .ok (tree, .after (n + draws id)) ∧
        q.tree.Renews n tier tree (n + draws id))
    (hn : n + drawnFor status (q.pending.filterMap parent?) current draws < UInt64.size) :
    let m := n + drawnFor status (q.pending.filterMap parent?) current draws
    ids' = .after m ∧ q.tree.Renews n tier q'.tree m := by
  intro m
  cases h with
  | unmatched htake =>
    have hnil := Pending.takeDiscovery?_eq_none.mp htake
    have hm : m = n := congrArg (n + ·) (drawnFor_eq_zero fun id _ hid => by
      rw [hnil] at hid
      cases hid.2)
    rw [hm]
    exact ⟨rfl, .refl ht tier⟩
  | rebuilt id rest built htake hid hok hbuilt =>
    obtain ⟨-, pre, op, post, hqueue, -, hop, -⟩ := Pending.takeDiscovery?_eq_some htake
    have hmem : id ∈ q.pending.filterMap parent? :=
      List.mem_filterMap.mpr ⟨op, by simp [hqueue], hop⟩
    have hm : m = n + draws id := congrArg (n + ·) (drawnFor_of_awaited hid ⟨hok, hmem⟩)
    obtain ⟨tree, htree, hr⟩ := hrebuild id hid (hm ▸ hn)
    rw [htree] at hbuilt
    cases hbuilt
    rw [hm]
    exact ⟨rfl, hr⟩
  | failed id rest _ _ hbad =>
    have hm : m = n := congrArg (n + ·) (drawnFor_eq_zero fun _ _ hid => hbad hid.1)
    rw [hm]
    exact ⟨rfl, .refl ht tier⟩
  | stale id rest htake herror =>
    have hne : current ≠ some id := by
      intro hid
      obtain ⟨built, hbuilt⟩ := hlive id hid
      obtain ⟨u, hu⟩ := herror hid
      rw [hbuilt] at hu
      cases hu
    have hother := ((Pending.takeDiscovery?_eq_some htake).1.resolve_left hne).1
    have hm : m = n :=
      congrArg (n + ·) (drawnFor_eq_zero fun i hi hid => hother i hi hid.2)
    rw [hm]
    exact ⟨rfl, .refl ht tier⟩

theorem renews_characteristicsDiscovered (ht : q.tree.Sound n) (status : Status)
    (service : H.Service) (found : List (FoundCharacteristic H.Characteristic))
    (hn : n + q.draws (.after n) (.characteristicsDiscovered status service found) < UInt64.size) :
    let s := q.characteristicsDiscovered (.after n) status service found
    let m := n + q.draws (.after n) (.characteristicsDiscovered status service found)
    s.state.2 = .after m ∧ q.tree.Renews n .characteristics s.state.1.tree m := by
  refine (q.discovers_characteristicsDiscovered (.after n) status service found).renews ht
    (fun s hs => ?_) (fun s hs => ?_) hn
  · obtain ⟨e, he⟩ := ht.services.exists_get? hs
    simp only [Tree.rebuildCharacteristics, HandleTable.get, he, Except.map]
    exact ⟨_, rfl⟩
  · obtain ⟨e, he⟩ := ht.services.exists_get? hs
    exact Tree.renews_rebuildCharacteristics ht (Option.isSome_of_eq_some he) found

theorem renews_descriptorsDiscovered (ht : q.tree.Sound n) (status : Status)
    (characteristic : H.Characteristic) (found : List (Found H.Descriptor))
    (hn : n + q.draws (.after n) (.descriptorsDiscovered status characteristic found) <
      UInt64.size) :
    let s := q.descriptorsDiscovered (.after n) status characteristic found
    let m := n + q.draws (.after n) (.descriptorsDiscovered status characteristic found)
    s.state.2 = .after m ∧ q.tree.Renews n .descriptors s.state.1.tree m := by
  refine (q.discovers_descriptorsDiscovered (.after n) status characteristic found).renews ht
    (fun c hc => ?_) (fun c hc => ?_) hn
  · obtain ⟨e, he⟩ := ht.characteristics.exists_get? hc
    simp only [Tree.rebuildDescriptors, HandleTable.get, he, Except.map]
    exact ⟨_, rfl⟩
  · obtain ⟨e, he⟩ := ht.characteristics.exists_get? hc
    exact Tree.renews_rebuildDescriptors ht (Option.isSome_of_eq_some he) found

/-- A report keeps all identities apart. What it gives out anew is of a single tier. -/
theorem renews_receive (ht : q.tree.Sound n) (settings : Settings) (report : PeerReport H)
    (hn : n + q.draws (.after n) report < UInt64.size) :
    let s := q.receive settings (.after n) report
    let m := n + q.draws (.after n) report
    ∃ tier, s.state.2 = .after m ∧ q.tree.Renews n tier s.state.1.tree m := by
  cases report with
  | servicesDiscovered status found => exact ⟨.services, renews_servicesDiscovered ht status found hn⟩
  | characteristicsDiscovered status service found =>
    exact ⟨.characteristics, renews_characteristicsDiscovered ht status service found hn⟩
  | descriptorsDiscovered status characteristic found =>
    exact ⟨.descriptors, renews_descriptorsDiscovered ht status characteristic found hn⟩
  | _ =>
    refine ⟨.services, rfl, ?_⟩
    rw [tree_receive rfl]
    exact .refl ht .services

end Peer

/-- The identity stands for an attribute of a peer that is tracked. -/
def Hub.Names (h : Hub H) (c : CentralId) (p : PeerId) (x : AttrId)
    (a : Native H.Service H.Characteristic H.Descriptor) : Prop :=
  ∃ q, h.peer? c p = some q ∧ q.tree.Names x a

/-- A hub in which no identity stands for two attributes, when `n` identities were given out. -/
structure Hub.Distinct (h : Hub H) (n : Nat) : Prop where
  ids_eq : h.ids = .after n
  sound : ∀ {c p q}, h.peer? c p = some q → q.tree.Sound n
  names_inj : ∀ {c c' p p' x a a'}, h.Names c p x a → h.Names c' p' x a' →
    c' = c ∧ p' = p ∧ a' = a

theorem Hub.distinct_new (settings : Settings) : (Hub.new settings : Hub H).Distinct 0 :=
  ⟨rfl, nofun, fun ⟨_, hq, _⟩ => by cases hq⟩

theorem Hub.Distinct.le {h : Hub H} {n : Nat} (hd : h.Distinct n) {c : CentralId} {p : PeerId}
    {x : AttrId} {a : Native H.Service H.Characteristic H.Descriptor} (hx : h.Names c p x a) :
    x.raw.toNat ≤ n := by
  obtain ⟨q, hq, hx⟩ := hx
  exact (hd.sound hq).names_le hx

namespace Moment

variable {t : Moment H} {n : Nat}

def draws (t : Moment H) : Nat :=
  match t.move with
  | .report c (.peer p report) => (t.before c p).elim 0 fun q => q.draws t.hub.ids report
  | _ => 0

/-- What one moment makes of what identities stand for: each stands for what it stood for, or is new
in the one tier that was discovered. -/
structure Mints (t : Moment H) (n : Nat) (h : Hub H) : Prop where
  ids_eq : h.ids = .after (n + t.draws)
  sound : ∀ {c p q}, h.peer? c p = some q → q.tree.Sound (n + t.draws)
  names : ∃ c₀ p₀ tier, ∀ {c p x a}, h.Names c p x a →
    t.hub.Names c p x a ∨ n < x.raw.toNat ∧ c = c₀ ∧ p = p₀ ∧ a.tier = tier

theorem names_of_unreported (hl : t.hub.Labelled) {h : Hub H} (ha : t.after = some h) {c : CentralId}
    {p : PeerId} {q' : Peer H} (hq' : h.peer? c p = some q')
    (hno : ∀ q report, t.move = .report c (.peer p report) → t.before c p ≠ some q) :
    q'.tree = ∅ ∨ ∃ q, t.hub.peer? c p = some q ∧ q'.tree = q.tree := by
  have hfate := t.fate hl c p
  rw [later_eq ha, hq'] at hfate
  rcases hfate.tree hno with ⟨q, hq, htree, -⟩ | ⟨-, htree⟩
  · exact .inr ⟨q, hq, htree⟩
  · exact .inl htree

theorem mints (hl : t.hub.Labelled) (hd : t.hub.Distinct n) (hn : n + t.draws < UInt64.size)
    {h : Hub H} (ha : t.after = some h) : t.Mints n h := by
  -- Only the peer that is reported to can come by new attributes; the others keep or lose theirs.
  have hother {c : CentralId} {p : PeerId} {q' : Peer H} (hq' : h.peer? c p = some q')
      (hno : ∀ q report, t.move = .report c (.peer p report) → t.before c p ≠ some q) :
      q'.tree.Sound n ∧ ∀ x a, q'.tree.Names x a → t.hub.Names c p x a := by
    rcases names_of_unreported hl ha hq' hno with hempty | ⟨q, hq, htree⟩
    · rw [hempty]
      exact ⟨(Tree.faithful_empty n).sound, fun x a hx => absurd hx Tree.not_names_empty⟩
    · rw [htree]
      exact ⟨hd.sound hq, fun x a hx => ⟨q, hq, hx⟩⟩
  rcases t.ids_after ha with ⟨c₀, p₀, q₀, report, hm, hq₀, hids⟩ | ⟨hno, hids⟩
  · have hdraws : t.draws = q₀.draws (.after n) report := by
      simp only [draws, hm, hq₀, hd.ids_eq, Option.elim_some]
    obtain ⟨tier, hsource, hr⟩ :=
      Peer.renews_receive (hd.sound hq₀) t.hub.settings report (hdraws ▸ hn)
    have hlater := (reported_spec hm hq₀).1
    rw [later_eq ha] at hlater
    rw [hd.ids_eq] at hids hlater
    rw [← hdraws] at hsource hr
    have hno {c : CentralId} {p : PeerId} (hcp : ¬ (c = c₀ ∧ p = p₀)) (q : Peer H)
        (report : PeerReport H) (hm' : t.move = .report c (.peer p report)) :
        t.before c p ≠ some q := by
      rw [hm] at hm'
      cases hm'
      exact absurd ⟨rfl, rfl⟩ hcp
    refine ⟨hids.trans hsource, fun {c p q'} hq' => ?_, c₀, p₀, tier, fun {c p x a} hx => ?_⟩
    · by_cases hcp : c = c₀ ∧ p = p₀
      · obtain ⟨rfl, rfl⟩ := hcp
        rw [hlater] at hq'
        cases hq'
        exact hr.sound
      · exact (hother hq' (hno hcp)).1.mono (Nat.le_add_right n _)
    · obtain ⟨q', hq', hx⟩ := hx
      by_cases hcp : c = c₀ ∧ p = p₀
      · obtain ⟨rfl, rfl⟩ := hcp
        rw [hlater] at hq'
        cases hq'
        rcases hr.names x a hx with hold | ⟨htier, hnew⟩
        · exact .inl ⟨q₀, hq₀, hold⟩
        · exact .inr ⟨hnew, rfl, rfl, htier⟩
      · exact .inl ((hother hq' (hno hcp)).2 x a hx)
  · have hdraws : t.draws = 0 := by
      simp only [draws]
      split
      next c p report hm => rw [hno c p report hm, Option.elim_none]
      next => rfl
    have hno' (c : CentralId) (p : PeerId) (q : Peer H) (report : PeerReport H)
        (hm : t.move = .report c (.peer p report)) : t.before c p ≠ some q := by
      rw [hno c p report hm]
      exact nofun
    rw [hd.ids_eq] at hids
    refine ⟨by rw [hids, hdraws, Nat.add_zero], fun {c p q'} hq' => ?_, default, default, .services,
      fun {c p x a} ⟨q', hq', hx⟩ => .inl ((hother hq' (hno' c p)).2 x a hx)⟩
    exact (hother hq' (hno' c p)).1.mono (Nat.le_add_right n _)

theorem Mints.distinct {h : Hub H} (he : t.Mints n h) (hd : t.hub.Distinct n) :
    h.Distinct (n + t.draws) := by
  obtain ⟨c₀, p₀, tier, hnames⟩ := he.names
  refine ⟨he.ids_eq, he.sound, fun {c c' p p' x a a'} hx hx' => ?_⟩
  -- An identity below the count is old on both sides, one above it new on both sides.
  rcases hnames hx with hold | ⟨hnew, rfl, rfl, htier⟩
  · rcases hnames hx' with hold' | ⟨hnew, -⟩
    · exact hd.names_inj hold hold'
    · have hle := hd.le hold
      omega
  · rcases hnames hx' with hold' | ⟨-, rfl, rfl, htier'⟩
    · have hle := hd.le hold'
      omega
    · obtain ⟨q, hq, hx⟩ := hx
      obtain ⟨q', hq', hx'⟩ := hx'
      rw [hq] at hq'
      cases hq'
      exact ⟨rfl, rfl, hx'.eq_of_tier hx (htier'.trans htier.symm)⟩

end Moment

theorem Peer.prepare_of_dead {q : Peer H} {action : PeerAction} {tier : Tier} {x : AttrId}
    (hx : action.attribute? = some (tier, x)) (hdead : ¬ q.tree.Live tier x) :
    q.prepare action =
      .error (if q.state = .connected then .invalidHandle x else .notConnected q.id) := by
  by_cases hup : q.state = .connected
  · rw [if_pos hup]
    exact (prepare_of_attribute hup hx).2 hdead
  · rw [if_neg hup]
    cases action <;> simp only [PeerAction.attribute?, reduceCtorEq] at hx
    all_goals simp only [prepare, whenConnected, if_neg hup]

/-- A request that names an identity which stands for nothing of the peer is turned down. The link is
looked at first. -/
theorem Hub.result_of_dead {h : Hub H} (hl : h.Labelled) {c : CentralId} {p : PeerId} {q : Peer H}
    (hq : h.peer? c p = some q) {tier : Tier} {x : AttrId} (hdead : ¬ q.tree.Live tier x) :
    (∀ answers action, action.attribute? = some (tier, x) →
      (h.request answers (.act c p action)).result =
        .error (if q.state = .connected then .invalidHandle x else .notConnected p)) ∧
    ∀ k, Request.attribute? c p (.query k) = some (tier, x) →
      h.answer k = .error (.invalidHandle x) := by
  refine ⟨fun answers action hx => ?_, fun k hx => ?_⟩
  · rw [result_act hq, Peer.perform, Peer.prepare_of_dead hx hdead, hl.peer_id hq]
    rfl
  · cases k with
    | characteristics c' p' s =>
      simp only [Request.attribute?] at hx
      split at hx
      next hcp =>
        obtain ⟨rfl, rfl⟩ := hcp
        cases hx
        exact (answer_characteristics hq _).mpr hdead
      next => cases hx
    | descriptors c' p' x' =>
      simp only [Request.attribute?] at hx
      split at hx
      next hcp =>
        obtain ⟨rfl, rfl⟩ := hcp
        cases hx
        exact (answer_descriptors hq _).mpr hdead
      next => cases hx
    | _ => cases hx

namespace Run

/-- How many identities were given out in all. -/
def draws (r : Run H) : Nat := r.past.foldr (fun t n => t.draws + n) 0

theorem draws_append (r : Run H) (us : List (Moment H)) (hub : Option (Hub H)) :
    draws ⟨r.past ++ us, hub⟩ = r.draws + draws ⟨us, hub⟩ := by
  simp only [draws, List.foldr_append]
  induction r.past with
  | nil => exact (Nat.zero_add _).symm
  | cons t ts ih => rw [List.foldr_cons, List.foldr_cons, ih, Nat.add_assoc]

theorem draws_append_singleton (r : Run H) (t : Moment H) (hub : Option (Hub H)) :
    draws ⟨r.past ++ [t], hub⟩ = r.draws + t.draws := draws_append r [t] hub

theorem draws_le_append {r r' : Run H} {us : List (Moment H)} (h : r'.past = r.past ++ us) :
    r.draws ≤ r'.draws := by
  have happend := draws_append r us r'.hub
  rw [← h] at happend
  rw [show r'.draws = r.draws + draws ⟨us, r'.hub⟩ from happend]
  exact Nat.le_add_right _ _

theorem distinct (settings : Settings) (ms : List (Move H))
    (hbound : (of settings ms).draws < UInt64.size) :
    ∀ h, (of settings ms).hub = some h → h.Distinct (of settings ms).draws := by
  revert hbound
  refine of_induction (P := fun r => r.draws < UInt64.size → ∀ h, r.hub = some h →
    h.Distinct r.draws) settings ?_ ?_ ms
  · rintro - h ⟨⟩
    exact Hub.distinct_new settings
  · intro ms h m hr ih hbound h' ha
    rw [draws_append_singleton] at hbound ⊢
    have hd := ih (Nat.lt_of_le_of_lt (Nat.le_add_right _ _) hbound) h hr
    exact (Moment.mints (t := ⟨h, m⟩) ((labelled settings ms).2 h hr) hd hbound ha).distinct hd

/-- An identity that was given out before these messages stands for nothing afterwards but what it
stood for then, and its peer was tracked all the time. -/
theorem names_of_append (settings : Settings) (ms rest : List (Move H)) :
    ∃ us, (of settings (ms ++ rest)).past = (of settings ms).past ++ us ∧
      ((of settings (ms ++ rest)).draws < UInt64.size →
        ∀ h, (of settings (ms ++ rest)).hub = some h → ∀ {c p x a}, h.Names c p x a →
          x.raw.toNat ≤ (of settings ms).draws →
          (∃ h₁, (of settings ms).hub = some h₁ ∧ h₁.Names c p x a) ∧
            ∀ t ∈ us, (t.later c p).isSome) := by
  induction rest using List.reverseRecOn with
  | nil =>
    simp only [List.append_nil]
    exact ⟨[], (List.append_nil _).symm, fun _ h hh c p x a hx _ => ⟨⟨h, hh, hx⟩, nofun⟩⟩
  | append_singleton rest m ih =>
    obtain ⟨us, hpast, ih⟩ := ih
    rw [← List.append_assoc, of_append_singleton]
    cases hr : (of settings (ms ++ rest)).hub with
    | none =>
      rw [take_none hr]
      refine ⟨us, hpast, fun _ h hh => ?_⟩
      rw [hr] at hh
      cases hh
    | some h =>
      rw [take_some hr]
      refine ⟨us ++ [⟨h, m⟩], by rw [hpast, List.append_assoc], fun hbound h' ha c p x a hx hle => ?_⟩
      rw [draws_append_singleton] at hbound
      have hprior := Nat.lt_of_le_of_lt (Nat.le_add_right _ _) hbound
      have hmints := Moment.mints (t := ⟨h, m⟩) ((labelled settings (ms ++ rest)).2 h hr)
        (distinct settings (ms ++ rest) hprior h hr) hbound ha
      have hmono := draws_le_append hpast
      obtain ⟨c₀, p₀, tier, hnames⟩ := hmints.names
      rcases hnames hx with hold | ⟨hnew, -⟩
      · obtain ⟨hfirst, htracked⟩ := ih hprior h hr hold hle
        refine ⟨hfirst, fun t ht => ?_⟩
        rcases List.mem_append.mp ht with ht | ht
        · exact htracked t ht
        · obtain ⟨q, hq, -⟩ := hx
          rw [List.mem_singleton.mp ht, Moment.later_eq ha, hq]
          rfl
      · exact absurd hnew (Nat.not_lt.mpr (Nat.le_trans hle hmono))

/-- As long as identities do not run out, one that stands for an attribute never stands for
another: whatever it resolves to later is the same attribute of the same peer, which was tracked
all the time. For every other peer and in every other tier it resolves to nothing, and requests that
name it there are turned down. -/
theorem identity_permanent (settings : Settings) (ms rest : List (Move H))
    (hbound : (of settings (ms ++ rest)).draws < UInt64.size) {h₁ h₂ : Hub H}
    (hh₁ : (of settings ms).hub = some h₁) (hh₂ : (of settings (ms ++ rest)).hub = some h₂)
    {c : CentralId} {p : PeerId} {x : AttrId}
    {a : Native H.Service H.Characteristic H.Descriptor} (hx : h₁.Names c p x a) :
    ∃ us, (of settings (ms ++ rest)).past = (of settings ms).past ++ us ∧
      (∀ c' p' a', h₂.Names c' p' x a' →
        c' = c ∧ p' = p ∧ a' = a ∧ ∀ t ∈ us, (t.later c p).isSome) ∧
      ∀ c' p' tier q', h₂.peer? c' p' = some q' →
        (c' = c → p' = p → tier = a.tier → ∃ t ∈ us, t.later c p = none) →
        ¬ q'.tree.Live tier x ∧
        (∀ answers action, action.attribute? = some (tier, x) →
          (h₂.request answers (.act c' p' action)).result =
            .error (if q'.state = .connected then .invalidHandle x else .notConnected p')) ∧
        ∀ k, Request.attribute? c' p' (.query k) = some (tier, x) →
          h₂.answer k = .error (.invalidHandle x) := by
  obtain ⟨us, hpast, hback⟩ := names_of_append settings ms rest
  have hprior := Nat.lt_of_le_of_lt (draws_le_append hpast) hbound
  have hd := distinct settings ms hprior h₁ hh₁
  have hunique : ∀ c' p' a', h₂.Names c' p' x a' →
      c' = c ∧ p' = p ∧ a' = a ∧ ∀ t ∈ us, (t.later c p).isSome := by
    intro c' p' a' hx'
    obtain ⟨⟨h, hh, hold⟩, htracked⟩ := hback hbound h₂ hh₂ hx' (hd.le hx)
    rw [hh₁] at hh
    cases hh
    obtain ⟨rfl, rfl, rfl⟩ := hd.names_inj hx hold
    exact ⟨rfl, rfl, rfl, htracked⟩
  refine ⟨us, hpast, hunique, fun c' p' tier q' hq' hother => ?_⟩
  have hdead : ¬ q'.tree.Live tier x := by
    intro hlive
    obtain ⟨a', hx', htier⟩ := Tree.exists_names hlive
    obtain ⟨rfl, rfl, rfl, htracked⟩ := hunique c' p' a' ⟨q', hq', hx'⟩
    obtain ⟨t, ht, hnone⟩ := hother rfl rfl htier.symm
    have hsome := htracked t ht
    rw [hnone] at hsome
    cases hsome
  exact ⟨hdead, Hub.result_of_dead ((labelled settings (ms ++ rest)).2 h₂ hh₂) hq' hdead⟩

def metMoves : List (Move .numbers) :=
  [.request .agreeing .allocate, .request .agreeing (.act ⟨1⟩ default .connect),
    .report ⟨1⟩ (.peer default (.connected .ok)),
    .request .agreeing (.act ⟨1⟩ default (.discoverServices [])),
    .report ⟨1⟩ (.peer default (.servicesDiscovered .ok [⟨7, default⟩]))]

/-- The peer is forgotten, and its services are discovered again. -/
def metAgainMoves : List (Move .numbers) :=
  [.report ⟨1⟩ (.peer default (.disconnected .ok)), .request .agreeing (.forget ⟨1⟩ default),
    .request .agreeing (.act ⟨1⟩ default .connect),
    .report ⟨1⟩ (.peer default (.connected .ok)),
    .request .agreeing (.act ⟨1⟩ default (.discoverServices [])),
    .report ⟨1⟩ (.peer default (.servicesDiscovered .ok [⟨7, default⟩]))]

def metHub : Hub .numbers := (of .default metMoves).hub.getD (.new .default)

def metAgainHub : Hub .numbers := (of .default (metMoves ++ metAgainMoves)).hub.getD (.new .default)

def metAgainPeer : Peer .numbers := (metAgainHub.peer? ⟨1⟩ default).getD (.new ⟨1⟩ default 0)

/-- The service is the same for the host, but the identity that it had is not valid any more. -/
theorem identity_permanent_met_again :
    (of .default (metMoves ++ metAgainMoves)).draws < UInt64.size ∧
      (of .default metMoves).hub = some metHub ∧
      (of .default (metMoves ++ metAgainMoves)).hub = some metAgainHub ∧
      metHub.Names ⟨1⟩ default ⟨1⟩ (.service 7) ∧ metAgainHub.Names ⟨1⟩ default ⟨2⟩ (.service 7) ∧
      (metAgainHub.request .agreeing (.act ⟨1⟩ default (.discoverCharacteristics ⟨1⟩ []))).result =
        .error (.invalidHandle ⟨1⟩) := by
  have hbound : (of .default (metMoves ++ metAgainMoves)).draws < UInt64.size := by decide
  have hmet : (of .default metMoves).hub = some metHub := rfl
  have hagain : (of .default (metMoves ++ metAgainMoves)).hub = some metAgainHub := rfl
  have hx : metHub.Names ⟨1⟩ default ⟨1⟩ (.service 7) := ⟨_, rfl, rfl⟩
  obtain ⟨us, hpast, -, hdead⟩ :=
    identity_permanent .default metMoves metAgainMoves hbound hmet hagain hx
  have hforgotten : ∃ t ∈ us, t.later ⟨1⟩ default = none := by
    have hus : us = (of .default (metMoves ++ metAgainMoves)).past.drop 5 := by
      rw [hpast]
      rfl
    rw [hus]
    exact ⟨_, List.mem_cons_of_mem _ List.mem_cons_self, rfl⟩
  obtain ⟨-, hact, -⟩ := hdead ⟨1⟩ default .services metAgainPeer rfl fun _ _ _ => hforgotten
  exact ⟨hbound, hmet, hagain, hx, ⟨_, rfl, rfl⟩, hact .agreeing _ rfl⟩

end Run

end GattHub
