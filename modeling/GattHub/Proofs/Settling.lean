import GattHub.Proofs.Session

/-! Which discovery of characteristics or descriptors a completion settles. A completion names the
parent by its handle; what is pending names it by an identity that may be retired by then. -/

namespace GattHub

open Gatt

variable {H : Handles}

/-- The parent whose children are discovered, by the names of the hub or by those of the host. -/
inductive Gatt.Parent (S C : Type) where
  | service (x : S)
  | characteristic (x : C)
  deriving DecidableEq

namespace Gatt.Parent

variable {S C : Type}

def tier : Parent S C → Tier
  | service _ => .services
  | characteristic _ => .characteristics

def id : Parent AttrId AttrId → AttrId
  | service x | characteristic x => x

def scope : Parent AttrId AttrId → Scope
  | service s => .characteristics s
  | characteristic c => .descriptors c

def operation : Parent AttrId AttrId → Operation
  | service _ => .characteristics
  | characteristic _ => .descriptors

theorem tier_eq_services {x : Parent S C} : x.tier = .services ↔ ∃ s, x = .service s := by
  cases x <;> simp [tier]

theorem tier_eq_characteristics {x : Parent S C} :
    x.tier = .characteristics ↔ ∃ c, x = .characteristic c := by
  cases x <;> simp [tier]

end Gatt.Parent

namespace Gatt.Tree

variable {S C D : Type} {t : Tree S C D} {x : Parent AttrId AttrId} {h : Parent S C}

/-- The handle of a parent that is live. -/
def handle? (t : Tree S C D) : Parent AttrId AttrId → Option (Parent S C)
  | .service s => (t.services.handle? s).map .service
  | .characteristic c => (t.characteristics.handle? c).map .characteristic

theorem handle?_service {s : AttrId} {k : S} :
    t.handle? (.service s) = some (.service k) ↔ t.services.handle? s = some k := by
  simp [handle?]

theorem handle?_characteristic {c : AttrId} {k : C} :
    t.handle? (.characteristic c) = some (.characteristic k) ↔
      t.characteristics.handle? c = some k := by
  simp [handle?]

theorem tier_of_handle? (hx : t.handle? x = some h) : x.tier = h.tier := by
  cases x <;> obtain ⟨k, -, rfl⟩ := Option.map_eq_some_iff.mp hx <;> rfl

theorem Sound.parent_inj [DecidableEq S] [DecidableEq C] [DecidableEq D] {n : Nat} (ht : t.Sound n)
    {y : Parent AttrId AttrId} (hx : t.handle? x = some h) (hy : t.handle? y = some h) : x = y := by
  cases h with
  | service k =>
    obtain ⟨s, rfl⟩ := Parent.tier_eq_services.mp (tier_of_handle? hx)
    obtain ⟨s', rfl⟩ := Parent.tier_eq_services.mp (tier_of_handle? hy)
    rw [ht.services.inj (handle?_service.mp hx) (handle?_service.mp hy)]
  | characteristic k =>
    obtain ⟨c, rfl⟩ := Parent.tier_eq_characteristics.mp (tier_of_handle? hx)
    obtain ⟨c', rfl⟩ := Parent.tier_eq_characteristics.mp (tier_of_handle? hy)
    rw [ht.characteristics.inj (handle?_characteristic.mp hx) (handle?_characteristic.mp hy)]

theorem isSome_handle? : (t.handle? x).isSome ↔ t.Live x.tier x.id := by
  cases x <;> simp [handle?, HandleTable.handle?, Live, Parent.tier, Parent.id]

end Gatt.Tree

def Pending.parent? : Pending → Option (Parent AttrId AttrId)
  | .characteristics s => some (.service s)
  | .descriptors c => some (.characteristic c)
  | _ => none

def PeerAction.parent? : PeerAction → Option (Parent AttrId AttrId)
  | .discoverCharacteristics s _ => some (.service s)
  | .discoverDescriptors c => some (.characteristic c)
  | _ => none

/-- The parent whose discovery a report completes. -/
def PeerReport.parent? : PeerReport H → Option (Parent H.Service H.Characteristic)
  | .characteristicsDiscovered _ service _ => some (.service service)
  | .descriptorsDiscovered _ characteristic _ => some (.characteristic characteristic)
  | _ => none

def PeerReport.status : PeerReport H → Status
  | .connected status | .disconnected status | .servicesDiscovered status _
  | .characteristicsDiscovered status _ _ | .descriptorsDiscovered status _ _
  | .characteristicRead status _ _ | .characteristicWritten status _
  | .descriptorRead status _ _ | .descriptorWritten status _
  | .notificationStateChanged status _ _ | .rssiRead status _ => status

namespace Pending

theorem parent?_eq_service {op : Pending} {s : AttrId} :
    op.parent? = some (.service s) ↔ op.service? = some s := by
  cases op <;> simp [parent?, service?]

theorem parent?_eq_characteristic {op : Pending} {c : AttrId} :
    op.parent? = some (.characteristic c) ↔ op.characteristic? = some c := by
  cases op <;> simp [parent?, characteristic?]

section TakeDiscovery

variable {parent : Pending → Option AttrId} {mk : AttrId → Parent AttrId AttrId}
  {current : Option AttrId} {queue : List Pending}

theorem mem_parents (hmk : ∀ op id, op.parent? = some (mk id) ↔ parent op = some id) {id : AttrId} :
    mk id ∈ queue.filterMap parent? ↔ id ∈ queue.filterMap parent := by
  simp [List.mem_filterMap, hmk]

theorem parents_of_takeDiscovery?_eq_none
    (hmk : ∀ op id, op.parent? = some (mk id) ↔ parent op = some id)
    (h : takeDiscovery? parent current queue = none) (id : AttrId) :
    mk id ∉ queue.filterMap parent? := by
  rw [mem_parents hmk, takeDiscovery?_eq_none.mp h]
  exact List.not_mem_nil

/-- What is taken out is the first discovery of the present identity. Without one it is the oldest
of the tier. -/
theorem parents_of_takeDiscovery?_eq_some
    (hmk : ∀ op id, op.parent? = some (mk id) ↔ parent op = some id) {id : AttrId}
    {rest : List Pending} (h : takeDiscovery? parent current queue = some (id, rest)) :
    ∃ pre post, queue.filterMap parent? = pre ++ mk id :: post ∧
      rest.filterMap parent? = pre ++ post ∧ mk id ∉ pre ∧
      (current = some id ∨ (∀ i, current = some i → mk i ∉ queue.filterMap parent?) ∧
        ∀ i, mk i ∉ pre) := by
  obtain ⟨hwhich, pre, op, post, rfl, rfl, hop, hpre⟩ := takeDiscovery?_eq_some h
  have hfirst : id ∉ pre.filterMap parent := by
    rw [List.mem_filterMap]
    rintro ⟨x, hx, hid⟩
    exact hpre x hx hid
  refine ⟨pre.filterMap parent?, post.filterMap parent?, ?_, List.filterMap_append, ?_, ?_⟩
  · rw [List.filterMap_append, List.filterMap_cons_some ((hmk op id).mpr hop)]
  · rwa [mem_parents hmk]
  · refine hwhich.imp_right fun ⟨hno, hhead⟩ => ⟨fun i hi => ?_, fun i hi => ?_⟩
    · rw [mem_parents hmk]
      exact hno i hi
    · rw [mem_parents hmk] at hi
      rw [List.filterMap_append, List.head?_append_of_ne_nil _ (List.ne_nil_of_mem hi)] at hhead
      exact hfirst (List.mem_of_mem_head? hhead)

end TakeDiscovery

end Pending

namespace Peer

variable {q q' : Peer H} {n : Nat} {ds : List Discovery}

/-- The parents whose discoveries are pending, oldest first. -/
def awaited (q : Peer H) : List (Parent AttrId AttrId) := q.pending.filterMap Pending.parent?

theorem parent?_queued (q : Peer H) (action : PeerAction) :
    (q.queued? action).bind Pending.parent? = action.parent? := by
  cases action with
  | writeCharacteristic c value noResponse =>
    simp only [queued?, PeerAction.parent?]
    split
    · rfl
    · cases q.tree.characteristics.get? c <;> rfl
  | readCharacteristic x | subscribe x | unsubscribe x =>
    simp only [queued?, PeerAction.parent?]
    cases q.tree.characteristics.get? x <;> rfl
  | readDescriptor x | writeDescriptor x =>
    simp only [queued?, PeerAction.parent?]
    cases q.tree.descriptors.get? x <;> rfl
  | _ => rfl

theorem Accepts.tree {action : PeerAction} (h : q.Accepts action q') : q'.tree = q.tree := by
  cases h <;> rfl

theorem Accepts.awaited {action : PeerAction} (h : q.Accepts action q') :
    q'.awaited = q.awaited ++ action.parent?.toList := by
  cases h with
  | connect | disconnect => exact (List.append_nil _).symm
  | operate =>
    rw [← q.parent?_queued action, Peer.awaited, List.filterMap_append]
    cases q.queued? action with
    | none => rfl
    | some op =>
      refine congrArg (q.awaited ++ ·) ?_
      cases hop : op.parent? <;> simp [hop]

theorem Accepts.connected {action : PeerAction} (h : q.Accepts action q')
    {x : Parent AttrId AttrId} (hx : action.parent? = some x) : q.state = .connected := by
  cases h with
  | connect | disconnect => cases hx
  | operate _ _ _ hs =>
    refine hs.resolve_right fun ⟨hrssi, _⟩ => ?_
    rw [hrssi] at hx
    cases hx

/-- A completion for the handle of a parent settles a pending discovery. The verdict is that of the
host just if the discovery is of the attribute behind the handle. -/
structure Settles (q q' : Peer H) (report : PeerReport H) (h : Parent H.Service H.Characteristic)
    (pre : List (Parent AttrId AttrId)) (x : Parent AttrId AttrId)
    (post : List (Parent AttrId AttrId)) (k : PeerNotice) : Prop where
  awaited : q.awaited = pre ++ x :: post
  left : q'.awaited = pre ++ post
  first : x ∉ pre
  tier_eq : x.tier = h.tier
  operation : k.operation? = some x.operation
  status : k.status = if q.tree.handle? x = some h then report.status else .stale
  discovery : (q.discovery? report k).map (·.scope) =
    if q.tree.handle? x = some h ∧ report.status = .ok then some x.scope else none
  oldest : q.tree.handle? x ≠ some h →
    (∀ y ∈ q.awaited, q.tree.handle? y ≠ some h) ∧ ∀ y ∈ pre, y.tier ≠ h.tier

section Settles

variable {report : PeerReport H} {h : Parent H.Service H.Characteristic}

/-- A completed discovery settles one that is pending in its tier, whichever the tier. -/
theorem Discovers.settles {α : Type} {ids ids' : IdSource} {status : Status}
    {parent : Pending → Option AttrId} {mk : AttrId → Parent AttrId AttrId}
    {current : Option AttrId}
    {rebuild : AttrId →
      Except Unresolved (Tree H.Service H.Characteristic H.Descriptor × IdSource)}
    {listing : Tree H.Service H.Characteristic H.Descriptor → AttrId → List α}
    {outcome : Status → List α → PeerNotice} {ns : List Notice}
    (hd : q.Discovers ids status parent current rebuild listing outcome q' ids' ns)
    (hmk : ∀ op id, op.parent? = some (mk id) ↔ parent op = some id)
    (htier : ∀ y : Parent AttrId AttrId, y.tier = h.tier ↔ ∃ i, y = mk i)
    (hcurrent : ∀ i, current = some i ↔ q.tree.handle? (mk i) = some h)
    (hrebuild : ∀ i, current = some i → ∃ built, rebuild i = .ok built)
    (hreport : report.status = status) (houtcome : ∀ i status list,
      (outcome status list).operation? = some (mk i).operation ∧ (outcome status list).status = status)
    (hok : ∀ i list, current = some i →
      (q.discovery? report (outcome .ok list)).map (·.scope) = some (mk i).scope)
    (hno : ∀ status list, status ≠ .ok → q.discovery? report (outcome status list) = none) :
    (∀ x ∈ q.awaited, x.tier ≠ h.tier) ∧ q' = q ∧ ns = [] ∨
      ∃ pre x post k, ns = [q.notice k] ∧ q.Settles q' report h pre x post k := by
  cases hd with
  | unmatched htake =>
    refine .inl ⟨fun x hx hxh => ?_, rfl, rfl⟩
    obtain ⟨i, rfl⟩ := (htier x).mp hxh
    exact Pending.parents_of_takeDiscovery?_eq_none hmk htake i hx
  | rebuilt id rest built htake hid hgood =>
    obtain ⟨pre, post, hawaited, hleft, hfirst, -⟩ :=
      Pending.parents_of_takeDiscovery?_eq_some hmk htake
    have hnamed := (hcurrent id).mp hid
    refine .inr ⟨pre, mk id, post, _, rfl, hawaited, hleft, hfirst, (htier _).mpr ⟨id, rfl⟩,
      (houtcome id _ _).1, ?_, ?_, fun hne => absurd hnamed hne⟩
    · rw [if_pos hnamed, (houtcome id _ _).2, hreport, hgood]
    · rw [if_pos ⟨hnamed, hreport.trans hgood⟩]
      exact hok id _ hid
  | failed id rest htake hid hbad =>
    obtain ⟨pre, post, hawaited, hleft, hfirst, -⟩ :=
      Pending.parents_of_takeDiscovery?_eq_some hmk htake
    have hnamed := (hcurrent id).mp hid
    refine .inr ⟨pre, mk id, post, _, rfl, hawaited, hleft, hfirst, (htier _).mpr ⟨id, rfl⟩,
      (houtcome id _ _).1, ?_, ?_, fun hne => absurd hnamed hne⟩
    · rw [if_pos hnamed, (houtcome id _ _).2, hreport]
    · rw [if_neg fun hboth => hbad (hreport.symm.trans hboth.2), hno _ _ hbad]
      rfl
  | stale id rest htake herror =>
    obtain ⟨pre, post, hawaited, hleft, hfirst, hwhich⟩ :=
      Pending.parents_of_takeDiscovery?_eq_some hmk htake
    have hid : current ≠ some id := by
      intro hid
      obtain ⟨built, hbuilt⟩ := hrebuild id hid
      obtain ⟨u, hu⟩ := herror hid
      rw [hbuilt] at hu
      cases hu
    have hunnamed : q.tree.handle? (mk id) ≠ some h := fun hnamed => hid ((hcurrent id).mpr hnamed)
    obtain ⟨hnone, holdest⟩ := hwhich.resolve_left hid
    refine .inr ⟨pre, mk id, post, _, rfl, hawaited, hleft, hfirst, (htier _).mpr ⟨id, rfl⟩,
      (houtcome id _ _).1, ?_, ?_, fun _ => ⟨fun y hy hh => ?_, fun y hy hyh => ?_⟩⟩
    · rw [if_neg hunnamed, (houtcome id _ _).2]
    · rw [if_neg fun hboth => hunnamed hboth.1, hno _ _ (by decide)]
      rfl
    · obtain ⟨i, rfl⟩ := (htier y).mp (Tree.tier_of_handle? hh)
      exact hnone i ((hcurrent i).mpr hh) hy
    · obtain ⟨i, rfl⟩ := (htier y).mp hyh
      exact holdest i hy

theorem settles_characteristicsDiscovered (ht : q.tree.Sound n) (ids : IdSource) (status : Status)
    (service : H.Service) (found : List (FoundCharacteristic H.Characteristic)) :
    let s := q.characteristicsDiscovered ids status service found
    (∀ x ∈ q.awaited, x.tier ≠ .services) ∧ s.state.1 = q ∧ Effect.notices s.effects = [] ∨
      ∃ pre x post k, Effect.notices s.effects = [q.notice k] ∧
        q.Settles s.state.1 (.characteristicsDiscovered status service found) (.service service)
          pre x post k := by
  have hhandle (i : AttrId) := ht.services.idOf?_iff service i
  refine (q.discovers_characteristicsDiscovered ids status service found).settles
    (h := .service service) (fun _ _ => Pending.parent?_eq_service)
    (fun _ => Parent.tier_eq_services) (fun i => (hhandle i).trans Tree.handle?_service.symm)
    (fun i hi => ?_) rfl (fun _ _ _ => ⟨rfl, rfl⟩) (fun i list hi => by simp [discovery?, hi, Parent.scope])
    fun status list hbad => by simp [discovery?, hbad]
  obtain ⟨e, he, -⟩ := Option.map_eq_some_iff.mp ((hhandle i).mp hi)
  simp only [Tree.rebuildCharacteristics, HandleTable.get, he, Except.map]
  exact ⟨_, rfl⟩

theorem settles_descriptorsDiscovered (ht : q.tree.Sound n) (ids : IdSource) (status : Status)
    (characteristic : H.Characteristic) (found : List (Found H.Descriptor)) :
    let s := q.descriptorsDiscovered ids status characteristic found
    (∀ x ∈ q.awaited, x.tier ≠ .characteristics) ∧ s.state.1 = q ∧ Effect.notices s.effects = [] ∨
      ∃ pre x post k, Effect.notices s.effects = [q.notice k] ∧
        q.Settles s.state.1 (.descriptorsDiscovered status characteristic found)
          (.characteristic characteristic) pre x post k := by
  have hhandle (i : AttrId) := ht.characteristics.idOf?_iff characteristic i
  refine (q.discovers_descriptorsDiscovered ids status characteristic found).settles
    (h := .characteristic characteristic) (fun _ _ => Pending.parent?_eq_characteristic)
    (fun _ => Parent.tier_eq_characteristics)
    (fun i => (hhandle i).trans Tree.handle?_characteristic.symm) (fun i hi => ?_) rfl
    (fun _ _ _ => ⟨rfl, rfl⟩) (fun i list hi => by simp [discovery?, hi, Parent.scope])
    fun status list hbad => by simp [discovery?, hbad]
  obtain ⟨e, he, -⟩ := Option.map_eq_some_iff.mp ((hhandle i).mp hi)
  simp only [Tree.rebuildDescriptors, HandleTable.get, he, Except.map]
  exact ⟨_, rfl⟩

/-- A completion for a parent settles one discovery of its tier, if any is pending. -/
theorem settles_receive (ht : q.tree.Sound n) (settings : Settings) (ids : IdSource)
    (hh : report.parent? = some h) :
    let s := q.receive settings ids report
    (∀ x ∈ q.awaited, x.tier ≠ h.tier) ∧ s.state.1 = q ∧ Effect.notices s.effects = [] ∨
      ∃ pre x post k, Effect.notices s.effects = [q.notice k] ∧
        q.Settles s.state.1 report h pre x post k := by
  cases report with
  | characteristicsDiscovered status service found =>
    cases hh
    exact settles_characteristicsDiscovered ht ids status service found
  | descriptorsDiscovered status characteristic found =>
    cases hh
    exact settles_descriptorsDiscovered ht ids status characteristic found
  | _ => cases hh

/-- Any other report leaves the pending discoveries of these tiers alone, or ends the link. -/
theorem Reaction.awaited {ns : List Notice} (hr : q.Reaction report q' ns)
    (hh : report.parent? = none) : q'.awaited = q.awaited ∨ q'.state = .disconnected := by
  cases hr with
  | ignored | established | passed | forwarded => exact .inl rfl
  | failed | lost => exact .inr rfl
  | completed pre op post _ _ _ _ hp hop =>
    have hnone : op.parent? = none := by
      cases op with
      | characteristics | descriptors =>
        -- The report that completes a discovery names the parent of its tier.
        cases report <;> cases hop
        cases hh
      | _ => rfl
    left
    simp [Peer.awaited, hp, hnone]

end Settles

end Peer

end GattHub
