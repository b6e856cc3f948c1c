import GattHub.Proofs.Locality
import GattHub.Proofs.Settling

/-! What the completion of a discovery makes known, compared with what a query is answered right after
it. A completion that failed, was cancelled or came too late makes nothing known and changes nothing. -/

namespace GattHub

open Gatt

variable {H : Handles}

namespace PeerNotice

/-- Nothing goes with the status: no list, no value and no level. -/
def Bare : PeerNotice → Prop
  | .servicesDiscovered _ services => services = []
  | .characteristicsDiscovered _ characteristics => characteristics = []
  | .descriptorsDiscovered _ descriptors => descriptors = []
  | .characteristicRead _ _ value | .descriptorRead _ _ value => value = []
  | .rssiRead _ level => level = -128
  | .connected _ | .disconnected _ | .characteristicWritten .. | .descriptorWritten ..
  | .notificationStateChanged .. => True

/-- The notice is bare unless it tells of a success, and tells of no discovery that succeeded. -/
def Inert : PeerNotice → Prop
  | .servicesDiscovered status services => status ≠ .ok ∧ services = []
  | .characteristicsDiscovered status characteristics => status ≠ .ok ∧ characteristics = []
  | .descriptorsDiscovered status descriptors => status ≠ .ok ∧ descriptors = []
  | k => k.status ≠ .ok → k.Bare

theorem Inert.bare {k : PeerNotice} (h : k.Inert) (hbad : k.status ≠ .ok) : k.Bare := by
  cases k with
  | servicesDiscovered | characteristicsDiscovered | descriptorsDiscovered => exact h.2
  | _ => exact h hbad

theorem inert_cancelled (op : Pending) : op.cancelled.Inert := by
  cases op with
  | services | characteristics | descriptors => exact ⟨by decide, rfl⟩
  | readCharacteristic | readDescriptor | rssi => exact fun _ => rfl
  | writeCharacteristic | writeDescriptor | notifyState => exact fun _ => trivial

end PeerNotice

namespace Gatt.Tree

variable {S C D : Type} [DecidableEq C] [DecidableEq D]

variable {t : Tree S C D} {ids : IdSource} {built : Tree S C D × IdSource}

theorem rebuildDescriptors_eq_ok {c : AttrId} {found : List (Found D)}
    (h : t.rebuildDescriptors ids c found = .ok built) :
    (∀ k, built.1.characteristics.idOf? k = t.characteristics.idOf? k) ∧
      ∃ l, built.1.descriptorsOf c = .ok l := by
  cases he : t.characteristics.get? c with
  | none => simp [rebuildDescriptors, HandleTable.get, he, Except.map] at h
  | some e =>
    simp only [rebuildDescriptors, HandleTable.get, he, Except.map, Except.ok.injEq] at h
    subst h
    refine ⟨fun _ => rfl, ?_⟩
    have hget : t.characteristics.entries.get? c = some e := he
    simp [descriptorsOf, HandleTable.get, HandleTable.get?, HandleTable.modify, dropDescriptors,
      Table.get?_modify, hget, Except.map]

variable [DecidableEq S]

/-- The identity that a handle of the host has now. -/
def idOf? (t : Tree S C D) : Native S C D → Option AttrId
  | .service k => t.services.idOf? k
  | .characteristic k => t.characteristics.idOf? k
  | .descriptor k => t.descriptors.idOf? k

theorem Sound.idOf?_iff {n : Nat} (ht : t.Sound n) (a : Native S C D) (x : AttrId) :
    t.idOf? a = some x ↔ t.Names x a := by
  cases a with
  | service k => exact ht.services.idOf?_iff k x
  | characteristic k => exact ht.characteristics.idOf?_iff k x
  | descriptor k => exact ht.descriptors.idOf?_iff k x

/-- The services keep their identities while one of them is rebuilt, and that one can be listed. -/
theorem rebuildCharacteristics_eq_ok {s : AttrId} {found : List (FoundCharacteristic C)}
    (h : t.rebuildCharacteristics ids s found = .ok built) :
    (∀ k, built.1.services.idOf? k = t.services.idOf? k) ∧
      ∃ l, built.1.characteristicsOf s = .ok l := by
  cases he : t.services.get? s with
  | none => simp [rebuildCharacteristics, HandleTable.get, he, Except.map] at h
  | some e =>
    simp only [rebuildCharacteristics, HandleTable.get, he, Except.map, Except.ok.injEq] at h
    subst h
    have hservices := t.foldl_dropCharacteristic_services e.value.characteristics
    refine ⟨fun k => by simp [HandleTable.idOf?, HandleTable.modify, hservices], ?_⟩
    have hget : t.services.entries.get? s = some e := he
    simp [characteristicsOf, HandleTable.get, HandleTable.get?, HandleTable.modify, hservices,
      Table.get?_modify, hget, Except.map]

end Gatt.Tree

namespace Peer

variable {q q' : Peer H} {report : PeerReport H} {ids ids' : IdSource} {ns : List Notice}

variable (q) in
/-- A discovery that the host reports a success of is made known as the tree has it now. What is
beneath a parent goes by the parent's handle in the report, and was awaited under its identity. -/
inductive Agrees :
    PeerReport H → Tree H.Service H.Characteristic H.Descriptor → PeerNotice → Prop
  | services (found : List (Found H.Service))
      (tree : Tree H.Service H.Characteristic H.Descriptor) :
      Agrees (.servicesDiscovered .ok found) tree (.servicesDiscovered .ok tree.serviceList)
  | characteristics (service : H.Service) (found : List (FoundCharacteristic H.Characteristic))
      (tree : Tree H.Service H.Characteristic H.Descriptor) (s : AttrId)
      (l : List Characteristic) :
      .characteristics s ∈ q.pending → q.tree.idOf? (.service service) = some s →
      tree.idOf? (.service service) = some s → tree.characteristicsOf s = .ok l →
      Agrees (.characteristicsDiscovered .ok service found) tree (.characteristicsDiscovered .ok l)
  | descriptors (characteristic : H.Characteristic) (found : List (Found H.Descriptor))
      (tree : Tree H.Service H.Characteristic H.Descriptor) (x : AttrId) (l : List Descriptor) :
      .descriptors x ∈ q.pending → q.tree.idOf? (.characteristic characteristic) = some x →
      tree.idOf? (.characteristic characteristic) = some x → tree.descriptorsOf x = .ok l →
      Agrees (.descriptorsDiscovered .ok characteristic found) tree (.descriptorsDiscovered .ok l)

theorem Agrees.succeeds {tree : Tree H.Service H.Characteristic H.Descriptor} {k : PeerNotice}
    (h : q.Agrees report tree k) : report.discovers = true ∧ report.status = .ok ∧
      k.status = .ok ∧ k.operation? = report.operation? := by
  cases h <;> exact ⟨rfl, rfl, rfl, rfl⟩

variable (q report ids) in
/-- What a report comes to: nothing is learned and the notices are inert, or one discovery is made
known. -/
inductive Tells :
    Tree H.Service H.Characteristic H.Descriptor → IdSource → List Notice → Prop
  | nothing (ns : List Notice) : (∀ k, q.notice k ∈ ns → k.Inert) → Tells q.tree ids ns
  | discovery (k : PeerNotice) (tree : Tree H.Service H.Characteristic H.Descriptor)
      (ids' : IdSource) : q.Agrees report tree k → Tells tree ids' [q.notice k]

theorem tells_of_tree {tree : Tree H.Service H.Characteristic H.Descriptor} (htree : tree = q.tree)
    (hinert : ∀ k, q.notice k ∈ ns → k.Inert) : q.Tells report ids tree ids ns := by
  rw [htree]
  exact .nothing ns hinert

theorem inert_of_mem_singleton {k n : PeerNotice} (hk : q.notice k ∈ [q.notice n]) (hn : n.Inert) :
    k.Inert := by
  have heq := List.mem_singleton.mp hk
  simp only [notice, Notice.peer.injEq, true_and] at heq
  rwa [heq]

theorem inert_of_mem_cancelNotices {k : PeerNotice} (hk : q.notice k ∈ q.cancelNotices) :
    k.Inert := by
  obtain ⟨op, -, hop⟩ := List.mem_map.mp hk
  simp only [notice, Notice.peer.injEq, true_and] at hop
  exact hop ▸ PeerNotice.inert_cancelled op

theorem inert_of_mem_closingNotices {k : PeerNotice} (hk : q.notice k ∈ q.closingNotices) :
    k.Inert := by
  simp only [closingNotices] at hk
  split at hk
  · cases hk
  · rcases List.mem_append.mp hk with hk | hk
    · exact inert_of_mem_cancelNotices hk
    · exact inert_of_mem_singleton hk fun _ => trivial

/-- A report about the link ends what is pending at most. -/
theorem Reaction.inert (h : q.Reaction report q' ns) (hlink : report.operation? = none)
    {k : PeerNotice} (hk : q.notice k ∈ ns) : k.Inert := by
  cases h with
  | ignored => cases hk
  | established | passed => exact inert_of_mem_singleton hk fun _ => trivial
  | failed | lost =>
    rcases List.mem_append.mp hk with hk | hk
    · exact inert_of_mem_cancelNotices hk
    · exact inert_of_mem_singleton hk fun _ => trivial
  | completed _ _ _ _ _ _ _ _ hop =>
    rw [hlink] at hop
    cases hop
  | forwarded _ _ _ _ hreport =>
    rw [hreport] at hlink
    cases hlink

theorem inert_complete {op : Pending} {n k : PeerNotice} {effect : Peer H → Peer H}
    (hk : q.notice k ∈ Effect.notices (q.complete report op n effect).effects) (hn : n.Inert) :
    k.Inert := by
  simp only [complete] at hk
  split at hk
  · cases hk
  · exact inert_of_mem_singleton hk hn

theorem inert_characteristicRead {settings : Settings} {status : Status} {uuid : Uuid}
    {value : Octets} {k : PeerNotice} (hk : q.notice k ∈
      Effect.notices (q.characteristicRead settings status uuid value).effects) : k.Inert := by
  have hn : (PeerNotice.characteristicRead status uuid (valueIfOk status value)).Inert :=
    fun hbad => if_neg hbad
  simp only [characteristicRead] at hk
  split at hk
  · exact inert_of_mem_singleton hk hn
  · split at hk
    · exact inert_of_mem_singleton hk hn
    · cases hk

theorem tells_servicesDiscovered (q : Peer H) (ids : IdSource) (status : Status)
    (found : List (Found H.Service)) :
    q.Tells (.servicesDiscovered status found) ids
      (q.servicesDiscovered ids status found).state.1.tree
      (q.servicesDiscovered ids status found).state.2
      (Effect.notices (q.servicesDiscovered ids status found).effects) := by
  simp only [servicesDiscovered]
  cases Pending.take? (· = .services) q.pending with
  | none => exact .nothing _ fun _ hk => by cases hk
  | some taken =>
    by_cases hok : status = .ok
    · subst hok
      exact .discovery _ _ _ (.services found _)
    · simp only [hok, if_false]
      exact .nothing _ fun _ hk => inert_of_mem_singleton hk ⟨hok, rfl⟩

/-- A discovery beneath a parent either rebuilds it, or its completion is inert. -/
theorem Discovers.tells {α : Type} {status : Status} {parent? : Pending → Option AttrId}
    {current : Option AttrId}
    {rebuild : AttrId →
      Except Unresolved (Tree H.Service H.Characteristic H.Descriptor × IdSource)}
    {listing : Tree H.Service H.Characteristic H.Descriptor → AttrId → List α}
    {outcome : Status → List α → PeerNotice}
    (h : q.Discovers ids status parent? current rebuild listing outcome q' ids' ns)
    (hinert : ∀ status, status ≠ .ok → (outcome status []).Inert)
    (hagrees : ∀ op id built, op ∈ q.pending → parent? op = some id → current = some id →
      status = .ok → rebuild id = .ok built →
      q.Agrees report built.1 (outcome .ok (listing built.1 id))) :
    q.Tells report ids q'.tree ids' ns := by
  cases h with
  | unmatched => exact .nothing _ fun _ hk => by cases hk
  | rebuilt id rest built htake hid hok hbuilt =>
    obtain ⟨-, pre, op, post, hpending, -, hparent, -⟩ := Pending.takeDiscovery?_eq_some htake
    have hop : op ∈ q.pending := by simp [hpending]
    exact .discovery _ _ _ (hagrees op id built hop hparent hid hok hbuilt)
  | failed id rest _ _ hbad =>
    exact .nothing _ fun _ hk => inert_of_mem_singleton hk (hinert status hbad)
  | stale id rest => exact .nothing _ fun _ hk => inert_of_mem_singleton hk (hinert _ (by decide))

theorem tells_characteristicsDiscovered (q : Peer H) (ids : IdSource) (status : Status)
    (service : H.Service) (found : List (FoundCharacteristic H.Characteristic)) :
    q.Tells (.characteristicsDiscovered status service found) ids
      (q.characteristicsDiscovered ids status service found).state.1.tree
      (q.characteristicsDiscovered ids status service found).state.2
      (Effect.notices (q.characteristicsDiscovered ids status service found).effects) := by
  refine (q.discovers_characteristicsDiscovered ids status service found).tells
    (fun _ hbad => ⟨hbad, rfl⟩) fun op s built hop hs hid hok hbuilt => ?_
  obtain ⟨hkept, l, hl⟩ := Tree.rebuildCharacteristics_eq_ok hbuilt
  rw [Pending.service?_eq_some.mp hs] at hop
  simp only [hok, hl, Except.toOption, Option.getD_some]
  exact .characteristics service found built.1 s l hop hid ((hkept service).trans hid) hl

theorem tells_descriptorsDiscovered (q : Peer H) (ids : IdSource) (status : Status)
    (characteristic : H.Characteristic) (found : List (Found H.Descriptor)) :
    q.Tells (.descriptorsDiscovered status characteristic found) ids
      (q.descriptorsDiscovered ids status characteristic found).state.1.tree
      (q.descriptorsDiscovered ids status characteristic found).state.2
      (Effect.notices (q.descriptorsDiscovered ids status characteristic found).effects) := by
  refine (q.discovers_descriptorsDiscovered ids status characteristic found).tells
    (fun _ hbad => ⟨hbad, rfl⟩) fun op x built hop hx hid hok hbuilt => ?_
  obtain ⟨hkept, l, hl⟩ := Tree.rebuildDescriptors_eq_ok hbuilt
  rw [Pending.characteristic?_eq_some.mp hx] at hop
  simp only [hok, hl, Except.toOption, Option.getD_some]
  exact .descriptors characteristic found built.1 x l hop hid ((hkept characteristic).trans hid) hl

/-- What completes no discovery is told of in inert notices. -/
theorem inert_receive (hno : report.discovers = false) {settings : Settings} {k : PeerNotice}
    (hk : q.notice k ∈ Effect.notices (q.receive settings ids report).effects) : k.Inert := by
  cases report with
  | servicesDiscovered | characteristicsDiscovered | descriptorsDiscovered => cases hno
  | connected status => exact (q.reaction_connectResult status).inert rfl hk
  | disconnected reason => exact (q.reaction_linkLost reason).inert rfl hk
  | characteristicRead status uuid value => exact inert_characteristicRead hk
  | characteristicWritten | descriptorWritten | notificationStateChanged =>
    exact inert_complete hk fun _ => trivial
  | descriptorRead | rssiRead => exact inert_complete hk fun hbad => if_neg hbad

theorem tells_receive (q : Peer H) (settings : Settings) (ids : IdSource) (report : PeerReport H) :
    q.Tells report ids (q.receive settings ids report).state.1.tree
      (q.receive settings ids report).state.2
      (Effect.notices (q.receive settings ids report).effects) := by
  cases report with
  | servicesDiscovered status found => exact q.tells_servicesDiscovered ids status found
  | characteristicsDiscovered status service found =>
    exact q.tells_characteristicsDiscovered ids status service found
  | descriptorsDiscovered status characteristic found =>
    exact q.tells_descriptorsDiscovered ids status characteristic found
  | _ => exact tells_of_tree (tree_receive rfl settings ids) fun _ hk => inert_receive rfl hk

end Peer

namespace Hub

variable {h : Hub H} {c : CentralId} {p : PeerId} {q : Peer H}

/-- The identity that a handle of a tracked peer has now. -/
def idOf? (h : Hub H) (c : CentralId) (p : PeerId)
    (a : Native H.Service H.Characteristic H.Descriptor) : Option AttrId :=
  (h.peer? c p).bind (·.tree.idOf? a)

theorem idOf?_of_peer? (hq : h.peer? c p = some q)
    (a : Native H.Service H.Characteristic H.Descriptor) : h.idOf? c p a = q.tree.idOf? a := by
  rw [idOf?, hq, Option.bind_some]

theorem Distinct.idOf?_iff {n : Nat} (hd : h.Distinct n)
    (a : Native H.Service H.Characteristic H.Descriptor) (x : AttrId) :
    h.idOf? c p a = some x ↔ h.Names c p x a := by
  rw [idOf?, Option.bind_eq_some_iff]
  exact exists_congr fun q => and_congr_right fun hq => (hd.sound hq).idOf?_iff a x

theorem answer_services (hq : h.peer? c p = some q) :
    h.answer (.services c p) = .ok (.services q.tree.serviceList) := by
  simp [answer, peer_of_peer? hq, Except.map]

theorem answer_of_characteristicsOf (hq : h.peer? c p = some q) {s : AttrId}
    {l : List Characteristic} (hl : q.tree.characteristicsOf s = .ok l) :
    h.answer (.characteristics c p s) = .ok (.characteristics l) := by
  simp [answer, peer_of_peer? hq, Except.bind, hl, answer.listed]

theorem answer_of_descriptorsOf (hq : h.peer? c p = some q) {x : AttrId} {l : List Descriptor}
    (hl : q.tree.descriptorsOf x = .ok l) :
    h.answer (.descriptors c p x) = .ok (.descriptors l) := by
  simp [answer, peer_of_peer? hq, Except.bind, hl, answer.listed]

end Hub

namespace Moment

variable {t : Moment H} {c : CentralId} {p : PeerId} {k : PeerNotice}

/-- The manager is closed, by a request or together with the hub. -/
def Dismisses (t : Moment H) (c : CentralId) : Prop :=
  ∃ answers, t.move = .request answers (.destroy c) ∨ t.move = .shutdown answers

/-- No identity is given out, and every tracked peer keeps its tree unless its manager is closed. -/
structure Keeps (t : Moment H) : Prop where
  ids : ∀ h, t.after = some h → h.ids = t.hub.ids
  trees : ∀ c p, (t.later c p).map (·.tree) = (t.before c p).map (·.tree) ∨
    t.later c p = none ∧ t.Dismisses c

theorem keeps_of_dismisses (h : t.Dismisses c) : t.Keeps := by
  obtain ⟨hub, m⟩ := t
  obtain ⟨answers, rfl | rfl⟩ := h
  · refine ⟨fun h ha => ids_of_request rfl ha, fun c' p' => ?_⟩
    have hlater : (Moment.mk hub (.request answers (.destroy c))).later c' p' =
        (hub.destroy answers c).state.peer? c' p' := rfl
    by_cases hc : c' = c
    · refine .inr ⟨?_, answers, .inl (by rw [hc])⟩
      rw [hlater, hc, Hub.destroy, Hub.destroyIn, Hub.central]
      cases hm : hub.centrals.get? c with
      | none => simp [Hub.peer?, hm]
      | some m => simp [Hub.peer?, Table.get?_erase]
    · left
      rw [hlater, Hub.peer?, Hub.destroy, Hub.get?_destroyIn _ _ _ hc]
      rfl
  · refine ⟨fun h ha => ?_, fun c' p' => .inr ⟨rfl, answers, .inr rfl⟩⟩
    cases ha

section Reported

variable {report : PeerReport H} {q : Peer H}

theorem tells_of_report (hm : t.move = .report c (.peer p report)) (hq : t.before c p = some q) :
    ∃ h q', t.after = some h ∧ h.peer? c p = some q' ∧
      q.Tells report t.hub.ids q'.tree h.ids t.notices := by
  obtain ⟨h, ha⟩ : ∃ h, t.after = some h := by simp [after, step, hm]
  obtain ⟨hlater, hns⟩ := reported_spec hm hq
  rw [later_eq ha] at hlater
  refine ⟨h, _, ha, hlater, ?_⟩
  have hids : h.ids = (q.receive t.hub.settings t.hub.ids report).state.2 := by
    rcases t.ids_after ha with ⟨c', p', q₁, report', hm', hq', hids⟩ | ⟨hno, -⟩
    · rw [hm] at hm'
      cases hm'
      rw [hq] at hq'
      cases hq'
      exact hids
    · rw [hno c p report hm] at hq
      cases hq
  rw [hns, hids]
  exact q.tells_receive t.hub.settings t.hub.ids report

theorem keeps_of_report (hl : t.hub.Labelled) (hm : t.move = .report c (.peer p report))
    (hq : t.before c p = some q) {h : Hub H} {q' : Peer H} (ha : t.after = some h)
    (hq' : h.peer? c p = some q') (hids : h.ids = t.hub.ids) (htree : q'.tree = q.tree) :
    t.Keeps := by
  refine ⟨fun h' ha' => ?_, fun c' p' => .inl ?_⟩
  · rw [ha] at ha'
    cases ha'
    exact hids
  by_cases hcp : c' = c ∧ some p = some p'
  · obtain ⟨rfl, hp⟩ := hcp
    cases hp
    rw [later_eq ha, hq', hq, Option.map_some, Option.map_some, htree]
  · -- All other peers are out of the report's reach.
    have hconfined : t.hub.Confined c (some p) h t.effects := by
      obtain ⟨hub, m⟩ := t
      cases hm
      cases ha
      exact Hub.confined_receive hl rfl
    rw [later_eq ha, hconfined.peers c' p' hcp]
    rfl

/-- A report about a tracked peer keeps everything and is told of in inert notices, or its only
notice makes a discovery known. -/
theorem report_cases (hl : t.hub.Labelled) (hm : t.move = .report c (.peer p report))
    (hq : t.before c p = some q) :
    ((∀ k, .peer c p k ∈ t.notices → k.Inert) ∧ t.Keeps) ∨
      ∃ k h q', t.after = some h ∧ h.peer? c p = some q' ∧ t.notices = [.peer c p k] ∧
        q.Agrees report q'.tree k := by
  obtain ⟨h, q', ha, hq', htells⟩ := tells_of_report hm hq
  have hself (k : PeerNotice) : q.notice k = .peer c p k := by
    rw [Peer.notice, hl.peer_central hq, hl.peer_id hq]
  have hkeeps := keeps_of_report hl hm hq ha hq'
  -- `Tells` is told apart by what tree, source and notices are, so these have to be variables.
  generalize htree : q'.tree = tree at htells hkeeps
  generalize h.ids = ids at htells hkeeps
  generalize hns : t.notices = ns at htells
  cases htells with
  | nothing _ hinert => exact .inl ⟨fun k hk => hinert k ((hself k).symm ▸ hk), hkeeps rfl rfl⟩
  | discovery k _ _ hagrees =>
    exact .inr ⟨k, h, q', ha, hq', by rw [hself], htree ▸ hagrees⟩

end Reported

/-- A notice about a peer is inert and goes with a moment that keeps everything, or it is the only
one and makes a discovery known. -/
theorem notice_cases (hl : t.hub.Labelled) (hk : .peer c p k ∈ t.notices) :
    (k.Inert ∧ t.Keeps) ∨
      ∃ report q h q', t.move = .report c (.peer p report) ∧ t.before c p = some q ∧
        t.after = some h ∧ h.peer? c p = some q' ∧ t.notices = [.peer c p k] ∧
        q.Agrees report q'.tree k := by
  generalize hbefore : t.before c p = x
  have hfate := t.fate hl c p
  rw [hbefore] at hfate
  generalize t.later c p = y at hfate
  cases hfate with
  | kept _ hns | tracked _ hns | observed _ _ _ _ hns => exact absurd hk (hns k)
  | accepted _ _ _ _ _ hns | forgotten _ _ hns | replaced _ _ _ hns =>
    rw [hns] at hk
    cases hk
  | closed q answers pre post hend hns hpre hpost =>
    have hclosing : .peer c p k ∈ q.closingNotices := by
      rw [hns] at hk
      simpa [hpre k, hpost k] using hk
    have hself : Notice.peer c p k = q.notice k := by
      rw [Peer.notice, hl.peer_central hbefore, hl.peer_id hbefore]
    exact .inl ⟨Peer.inert_of_mem_closingNotices (hself ▸ hclosing),
      keeps_of_dismisses ⟨answers, hend⟩⟩
  | reported q _ report hm =>
    rcases report_cases hl hm hbefore with ⟨hinert, hkeeps⟩ | ⟨n, h, q', ha, hq', hns, hagrees⟩
    · exact .inl ⟨hinert k hk, hkeeps⟩
    · rw [hns] at hk
      cases List.mem_singleton.mp hk
      exact .inr ⟨report, q, h, q', hm, rfl, ha, hq', hns, hagrees⟩

/-- The tree of a peer that stays tracked changes only with a discovery that is made known. -/
theorem agrees_of_tree_ne (hl : t.hub.Labelled) {q q' : Peer H} (hq : t.before c p = some q)
    (hq' : t.later c p = some q') (hne : q'.tree ≠ q.tree) :
    ∃ report k, t.move = .report c (.peer p report) ∧ t.notices = [.peer c p k] ∧
      q.Agrees report q'.tree k := by
  by_cases hreport : ∃ report, t.move = .report c (.peer p report)
  · obtain ⟨report, hm⟩ := hreport
    rcases report_cases hl hm hq with ⟨-, hkeeps⟩ | ⟨k, h, q₁, ha, hq₁, hns, hagrees⟩
    · rcases hkeeps.trees c p with htree | ⟨hnone, -⟩
      · rw [hq', hq] at htree
        exact absurd (Option.some.inj htree) hne
      · rw [hq'] at hnone
        cases hnone
    · rw [later_eq ha, hq₁] at hq'
      cases hq'
      exact ⟨report, k, hm, hns, hagrees⟩
  · have hfate := t.fate hl c p
    rw [hq'] at hfate
    rcases hfate.tree fun _ report hm => absurd ⟨report, hm⟩ hreport with
      ⟨q₁, hq₁, htree, -⟩ | ⟨hnone, -⟩
    · rw [hq] at hq₁
      cases hq₁
      exact absurd htree hne
    · rw [hq] at hnone
      cases hnone

end Moment

namespace Run

theorem exists_after_of_past_eq (settings : Settings) (ms : List (Move H)) {ts us : List (Moment H)}
    {t : Moment H} (h : (of settings ms).past = ts ++ t :: us) :
    ∃ ms', (of settings ms').past = ts ++ [t] ∧ (of settings ms').hub = t.after := by
  obtain ⟨ms', hpast, hhub⟩ := exists_of_past_eq settings ms h
  refine ⟨ms' ++ [t.move], ?_⟩
  rw [of_append_singleton, take_some hhub, hpast]
  exact ⟨rfl, rfl⟩

/-- As long as identities do not run out, those of the hub after a moment are distinct. -/
theorem distinct_after (settings : Settings) (ms : List (Move H))
    (hbound : (of settings ms).draws < UInt64.size) {t : Moment H} (ht : t ∈ (of settings ms).past)
    {h : Hub H} (ha : t.after = some h) : ∃ n, h.Distinct n := by
  obtain ⟨ts, us, hpast⟩ := List.append_of_mem ht
  obtain ⟨ms', hpast', hhub⟩ := exists_after_of_past_eq settings ms hpast
  have hsplit : (of settings ms).past = (of settings ms').past ++ us := by
    rw [hpast, hpast', List.append_assoc, List.singleton_append]
  have hprior := Nat.lt_of_le_of_lt (draws_le_append hsplit) hbound
  exact ⟨_, distinct settings ms' hprior h (hhub.trans ha)⟩

/-- A discovery that succeeded makes known the very list that a query is answered right after it. For
what is beneath a parent that is the query that names the parent by the identity its handle has, and
a discovery of that parent was pending. With any other status nothing is made known, and the moment
gives out no identity and changes no tree. The tree of a peer changes with no other message than the
successful completion of a discovery. As long as identities do not run out, the one that a handle has
resolves to what the handle stands for. -/
theorem discovery_agrees_with_tree (settings : Settings) (ms : List (Move H)) {t : Moment H}
    (ht : t ∈ (of settings ms).past) (c : CentralId) (p : PeerId) :
    (∀ services, .peer c p (.servicesDiscovered .ok services) ∈ t.notices →
      ∃ h, t.after = some h ∧ h.answer (.services c p) = .ok (.services services)) ∧
    (∀ characteristics,
      .peer c p (.characteristicsDiscovered .ok characteristics) ∈ t.notices →
      ∃ service found q s h,
        t.move = .report c (.peer p (.characteristicsDiscovered .ok service found)) ∧
        t.hub.peer? c p = some q ∧ .characteristics s ∈ q.pending ∧
        t.hub.idOf? c p (.service service) = some s ∧ t.after = some h ∧
        h.idOf? c p (.service service) = some s ∧
        h.answer (.characteristics c p s) = .ok (.characteristics characteristics)) ∧
    (∀ descriptors, .peer c p (.descriptorsDiscovered .ok descriptors) ∈ t.notices →
      ∃ characteristic found q x h,
        t.move = .report c (.peer p (.descriptorsDiscovered .ok characteristic found)) ∧
        t.hub.peer? c p = some q ∧ .descriptors x ∈ q.pending ∧
        t.hub.idOf? c p (.characteristic characteristic) = some x ∧ t.after = some h ∧
        h.idOf? c p (.characteristic characteristic) = some x ∧
        h.answer (.descriptors c p x) = .ok (.descriptors descriptors)) ∧
    (∀ k, .peer c p k ∈ t.notices → k.status ≠ .ok → k.Bare ∧ t.Keeps) ∧
    (∀ q q', t.before c p = some q → t.later c p = some q' → q'.tree ≠ q.tree →
      ∃ report k, t.move = .report c (.peer p report) ∧ report.discovers = true ∧
        report.status = .ok ∧ t.notices = [.peer c p k] ∧ k.status = .ok ∧
        k.operation? = report.operation?) ∧
    ((of settings ms).draws < UInt64.size → ∀ h a x, t.after = some h →
      (h.idOf? c p a = some x ↔ h.Names c p x a)) := by
  have hl := (labelled settings ms).1 t ht
  refine ⟨fun services hk => ?_, fun characteristics hk => ?_, fun descriptors hk => ?_,
    fun k hk hbad => ?_, fun q q' hq hq' hne => ?_, fun hbound h a x ha => ?_⟩
  · obtain ⟨report, q, h, q', -, -, ha, hq', -, hagrees⟩ :=
      (Moment.notice_cases hl hk).resolve_left fun hkept => hkept.1.1 rfl
    generalize htree : q'.tree = tree at hagrees
    cases hagrees
    exact ⟨h, ha, htree ▸ Hub.answer_services hq'⟩
  · obtain ⟨report, q, h, q', hm, hq, ha, hq', -, hagrees⟩ :=
      (Moment.notice_cases hl hk).resolve_left fun hkept => hkept.1.1 rfl
    generalize htree : q'.tree = tree at hagrees
    cases hagrees with
    | characteristics service found _ s _ hpending hbefore hafter hlist =>
      rw [← htree, ← Hub.idOf?_of_peer? hq'] at hafter
      rw [← Hub.idOf?_of_peer? hq] at hbefore
      rw [← htree] at hlist
      exact ⟨service, found, q, s, h, hm, hq, hpending, hbefore, ha, hafter,
        Hub.answer_of_characteristicsOf hq' hlist⟩
  · obtain ⟨report, q, h, q', hm, hq, ha, hq', -, hagrees⟩ :=
      (Moment.notice_cases hl hk).resolve_left fun hkept => hkept.1.1 rfl
    generalize htree : q'.tree = tree at hagrees
    cases hagrees with
    | descriptors characteristic found _ x _ hpending hbefore hafter hlist =>
      rw [← htree, ← Hub.idOf?_of_peer? hq'] at hafter
      rw [← Hub.idOf?_of_peer? hq] at hbefore
      rw [← htree] at hlist
      exact ⟨characteristic, found, q, x, h, hm, hq, hpending, hbefore, ha, hafter,
        Hub.answer_of_descriptorsOf hq' hlist⟩
  · rcases Moment.notice_cases hl hk with
      ⟨hinert, hkeeps⟩ | ⟨report, q, h, q', -, -, -, -, -, hagrees⟩
    · exact ⟨hinert.bare hbad, hkeeps⟩
    · exact absurd hagrees.succeeds.2.2.1 hbad
  · obtain ⟨report, k, hm, hns, hagrees⟩ := Moment.agrees_of_tree_ne hl hq hq' hne
    obtain ⟨hdiscovers, hstatus, hok, hop⟩ := hagrees.succeeds
    exact ⟨report, k, hm, hdiscovers, hstatus, hns, hok, hop⟩
  · obtain ⟨n, hd⟩ := distinct_after settings ms hbound ht ha
    exact hd.idOf?_iff a x

/-- A service is reported with two characteristics, one of them twice with different properties. -/
def twiceListedMoves : List (Move .numbers) :=
  [.request .agreeing .allocate, .request .agreeing (.act ⟨1⟩ default .connect),
    .report ⟨1⟩ (.peer default (.connected .ok)),
    .request .agreeing (.act ⟨1⟩ default (.discoverServices [])),
    .report ⟨1⟩ (.peer default (.servicesDiscovered .ok [⟨1, default⟩, ⟨2, default⟩])),
    .request .agreeing (.act ⟨1⟩ default (.discoverCharacteristics ⟨2⟩ []))]

def twiceListedMoment : Moment .numbers where
  hub := (of .default twiceListedMoves).hub.getD (.new .default)
  move := .report ⟨1⟩ (.peer default
    (.characteristicsDiscovered .ok 2 [⟨10, default, 2⟩, ⟨11, default, 2⟩, ⟨10, default, 8⟩]))

/-- The repeated characteristic is listed once, at its first place with its last properties, and a
query is answered the same. -/
theorem discovery_agrees_with_tree_twiceListed :
    twiceListedMoment ∈ (of .default (twiceListedMoves ++ [twiceListedMoment.move])).past ∧
      twiceListedMoment.notices = [.peer ⟨1⟩ default
        (.characteristicsDiscovered .ok [⟨⟨3⟩, default, 8⟩, ⟨⟨4⟩, default, 2⟩])] ∧
      ∃ h, twiceListedMoment.after = some h ∧ h.Names ⟨1⟩ default ⟨2⟩ (.service 2) ∧
        h.answer (.characteristics ⟨1⟩ default ⟨2⟩) =
          .ok (.characteristics [⟨⟨3⟩, default, 8⟩, ⟨⟨4⟩, default, 2⟩]) := by
  have hpast : (of .default (twiceListedMoves ++ [twiceListedMoment.move])).past =
      (of .default twiceListedMoves).past ++ [twiceListedMoment] := rfl
  have ht : twiceListedMoment ∈
      (of .default (twiceListedMoves ++ [twiceListedMoment.move])).past := by simp [hpast]
  have hns : twiceListedMoment.notices = [.peer ⟨1⟩ default
      (.characteristicsDiscovered .ok [⟨⟨3⟩, default, 8⟩, ⟨⟨4⟩, default, 2⟩])] := by decide
  obtain ⟨-, hlisted, -, -, -, hnames⟩ := discovery_agrees_with_tree .default
    (twiceListedMoves ++ [twiceListedMoment.move]) ht ⟨1⟩ default
  obtain ⟨service, found, q, s, h, hm, -, -, hbefore, ha, hafter, hanswer⟩ :=
    hlisted _ (hns ▸ List.mem_singleton_self _)
  cases hm
  have hs : twiceListedMoment.hub.idOf? ⟨1⟩ default (.service (2 : Nat)) = some ⟨2⟩ := by decide
  obtain rfl : (⟨2⟩ : AttrId) = s := Option.some.inj (hs.symm.trans hbefore)
  exact ⟨ht, hns, h, ha, (hnames (by decide) h _ _ ha).mp hafter, hanswer⟩

end Run

end GattHub
