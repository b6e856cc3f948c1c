import GattHub.Proofs.Invariants
import GattHub.Proofs.Lineage
import Mathlib.Data.List.DropRight

/-! The discoveries of a peer while it is tracked. They alone make its tree what it is, and they
draw on one source of identities that all peers share. -/

namespace GattHub

variable {H : Handles}

/-- The identifiers of the attributes that a report lists. -/
def PeerReport.found : PeerReport H → List Uuid
  | .servicesDiscovered _ found => found.map (·.uuid)
  | .characteristicsDiscovered _ _ found => found.map (·.uuid)
  | .descriptorsDiscovered _ _ found => found.map (·.uuid)
  | _ => []

/-- Whether a report completes a discovery. -/
def PeerReport.discovers : PeerReport H → Bool
  | .servicesDiscovered .. | .characteristicsDiscovered .. | .descriptorsDiscovered .. => true
  | _ => false

/-- The discovery that a notice makes known, if it succeeded. The parent is the attribute whose
handle the host named in its report. -/
def Peer.discovery? (q : Peer H) : PeerReport H → PeerNotice → Option Gatt.Discovery
  | .servicesDiscovered _ _, .servicesDiscovered status services =>
    if status = .ok then some ⟨.services, services.map (·.id)⟩ else none
  | .characteristicsDiscovered _ service _, .characteristicsDiscovered status characteristics =>
    if status = .ok then (q.tree.services.idOf? service).map fun s =>
      ⟨.characteristics s, characteristics.map (·.id)⟩
    else none
  | .descriptorsDiscovered _ characteristic _, .descriptorsDiscovered status descriptors =>
    if status = .ok then (q.tree.characteristics.idOf? characteristic).map fun c =>
      ⟨.descriptors c, descriptors.map (·.id)⟩
    else none
  | _, _ => none

namespace Gatt.Tree

variable {S C D : Type} {t : Tree S C D}

theorem map_id_filterMap {α β : Type} {f : α → Option β} {g : β → α} {l : List α}
    (h : ∀ a ∈ l, ∃ b, f a = some b ∧ g b = a) : (l.filterMap f).map g = l := by
  induction l with
  | nil => rfl
  | cons a l ih =>
    obtain ⟨b, hb, hg⟩ := h a List.mem_cons_self
    rw [List.filterMap_cons_some hb, List.map_cons, hg,
      ih fun x hx => h x (List.mem_cons_of_mem a hx)]

theorem map_id_serviceList (h : ∀ s ∈ t.order, t.Live .services s) :
    t.serviceList.map (·.id) = t.order := by
  refine map_id_filterMap fun s hs => ?_
  obtain ⟨e, he⟩ := Option.isSome_iff_exists.mp (h s hs)
  exact ⟨_, by rw [he]; rfl, rfl⟩

theorem map_id_characteristicsOf {s : AttrId}
    (h : ∀ x ∈ t.characteristicsUnder s, t.Live .characteristics x) :
    ((t.characteristicsOf s).toOption.getD []).map (·.id) = t.characteristicsUnder s := by
  cases hs : t.services.get? s with
  | none => simp [characteristicsOf, characteristicsUnder, HandleTable.get, hs, Except.map,
      Except.toOption]
  | some e =>
    simp only [characteristicsUnder, hs, Option.elim_some] at h ⊢
    simp only [characteristicsOf, HandleTable.get, hs, Except.map, Except.toOption,
      Option.getD_some]
    refine map_id_filterMap fun x hx => ?_
    obtain ⟨e', he'⟩ := Option.isSome_iff_exists.mp (h x hx)
    exact ⟨_, by rw [he']; rfl, rfl⟩

theorem map_id_descriptorsOf {c : AttrId}
    (h : ∀ x ∈ t.descriptorsUnder c, t.Live .descriptors x) :
    ((t.descriptorsOf c).toOption.getD []).map (·.id) = t.descriptorsUnder c := by
  cases hc : t.characteristics.get? c with
  | none => simp [descriptorsOf, descriptorsUnder, HandleTable.get, hc, Except.map,
      Except.toOption]
  | some e =>
    simp only [descriptorsUnder, hc, Option.elim_some] at h ⊢
    simp only [descriptorsOf, HandleTable.get, hc, Except.map, Except.toOption, Option.getD_some]
    refine map_id_filterMap fun x hx => ?_
    obtain ⟨e', he'⟩ := Option.isSome_iff_exists.mp (h x hx)
    exact ⟨_, by rw [he']; rfl, rfl⟩

end Gatt.Tree

namespace Peer

open Gatt

/-- What a report teaches about the attributes, when `n` identities were given out before it: the
tree, the source and the notices after it. -/
inductive Learns (q : Peer H) (n : Nat) (report : PeerReport H) :
    Tree H.Service H.Characteristic H.Descriptor → IdSource → List Notice → Prop
  | nothing (ns : List Notice) : (∀ k, ns = [q.notice k] → q.discovery? report k = none) →
      Learns q n report q.tree (.after n) ns
  | discovery (k : PeerNotice) (d : Discovery)
      (tree : Tree H.Service H.Characteristic H.Descriptor) (m : Nat) :
      q.discovery? report k = some d → q.tree.Rebuilds n d tree m →
      m ≤ n + report.found.length → Learns q n report tree (.after m) [q.notice k]

variable {q : Peer H} {n : Nat} {ds : List Discovery}

theorem learns_of_tree {report : PeerReport H} {tree : Tree H.Service H.Characteristic H.Descriptor}
    (htree : tree = q.tree) (hno : ∀ k, q.discovery? report k = none) (ns : List Notice) :
    Learns q n report tree (.after n) ns := by
  rw [htree]
  exact .nothing ns fun k _ => hno k

theorem notice_inj {k k' : PeerNotice} (h : [q.notice k] = [q.notice k']) : k = k' := by
  simpa [notice] using h

theorem connectResult_tree (status : Status) : (q.connectResult status).state.tree = q.tree := by
  simp only [connectResult]
  split
  · split <;> rfl
  · rfl
  · rfl
  · rfl

theorem linkLost_tree (reason : Status) : (q.linkLost reason).state.tree = q.tree := by
  simp only [linkLost]
  split <;> rfl

theorem complete_tree (report : PeerReport H) (op : Pending) (k : PeerNotice)
    {effect : Peer H → Peer H} (heffect : ∀ q, (effect q).tree = q.tree) :
    (q.complete report op k effect).state.tree = q.tree := by
  simp only [complete]
  split
  · rfl
  · exact heffect _

theorem characteristicRead_tree (settings : Settings) (status : Status) (uuid : Uuid)
    (value : Octets) : (q.characteristicRead settings status uuid value).state.tree = q.tree := by
  simp only [characteristicRead]
  split
  · rfl
  · split <;> rfl

theorem learns_servicesDiscovered (h : q.tree.Faithful ds n) (status : Status)
    (found : List (Found H.Service)) (hn : n + found.length < UInt64.size) :
    Learns q n (.servicesDiscovered status found)
      (q.servicesDiscovered (.after n) status found).state.1.tree
      (q.servicesDiscovered (.after n) status found).state.2
      (Effect.notices (q.servicesDiscovered (.after n) status found).effects) := by
  simp only [servicesDiscovered]
  cases Pending.take? (· = .services) q.pending with
  | none => exact .nothing _ fun _ h => by cases h
  | some taken =>
    by_cases hok : status = .ok
    · obtain ⟨tree, m, hbuilt, hm, hr⟩ :=
        Tree.rebuildServices_spec h.sound (fun s => (h.mem_order s).mpr) found hn
      have hlisted : tree.serviceList.map (·.id) = tree.order :=
        Tree.map_id_serviceList fun s hs => (hr.live_iff _ s).mpr (.inr ⟨rfl, hs⟩)
      simp only [hok, if_true, hbuilt]
      exact .discovery _ _ tree m (by simp [discovery?, hlisted]) hr (by simpa [PeerReport.found])
    · simp only [hok, if_false]
      refine .nothing _ fun k hk => ?_
      rw [← notice_inj hk]
      simp [discovery?, hok]

/-- A completed discovery teaches what the rebuilt tree lists, whichever the tier. -/
theorem Discovers.learns {α : Type} {status : Status}
    {parent? : Pending → Option AttrId} {current : Option AttrId}
    {rebuild : AttrId →
      Except Unresolved (Tree H.Service H.Characteristic H.Descriptor × IdSource)}
    {listing : Tree H.Service H.Characteristic H.Descriptor → AttrId → List α}
    {outcome : Status → List α → PeerNotice} {q' : Peer H} {ids' : IdSource} {ns : List Notice}
    {report : PeerReport H}
    (h : q.Discovers (.after n) status parent? current rebuild listing outcome q' ids' ns)
    (ident : α → AttrId) (scope : AttrId → Scope)
    (hrebuild : ∀ id, current = some id → ∃ tree m, rebuild id = .ok (tree, .after m) ∧
      m ≤ n + report.found.length ∧
      q.tree.Rebuilds n ⟨scope id, (listing tree id).map ident⟩ tree m)
    (hok : ∀ id list, current = some id →
      q.discovery? report (outcome .ok list) = some ⟨scope id, list.map ident⟩)
    (hno : ∀ status list, status ≠ .ok → q.discovery? report (outcome status list) = none) :
    q.Learns n report q'.tree ids' ns := by
  cases h with
  | unmatched => exact .nothing _ fun _ h => by cases h
  | rebuilt id rest built _ hid _ hbuilt =>
    obtain ⟨tree, m, htree, hm, hr⟩ := hrebuild id hid
    rw [htree] at hbuilt
    cases hbuilt
    exact .discovery _ _ tree m (hok id _ hid) hr hm
  | failed id rest _ _ hbad =>
    refine .nothing _ fun k hk => ?_
    rw [← notice_inj hk]
    exact hno _ _ hbad
  | stale id rest =>
    refine .nothing _ fun k hk => ?_
    rw [← notice_inj hk]
    exact hno _ _ (by decide)

theorem learns_characteristicsDiscovered (h : q.tree.Sound n) (status : Status)
    (service : H.Service) (found : List (FoundCharacteristic H.Characteristic))
    (hn : n + found.length < UInt64.size) :
    Learns q n (.characteristicsDiscovered status service found)
      (q.characteristicsDiscovered (.after n) status service found).state.1.tree
      (q.characteristicsDiscovered (.after n) status service found).state.2
      (Effect.notices (q.characteristicsDiscovered (.after n) status service found).effects) := by
  refine (q.discovers_characteristicsDiscovered (.after n) status service found).learns (·.id)
    .characteristics (fun s hs => ?_) (fun s list hs => by simp [discovery?, hs])
    fun status list hbad => by simp [discovery?, hbad]
  obtain ⟨e, he⟩ := h.services.exists_get? hs
  obtain ⟨tree, m, hbuilt, hm, hr⟩ := Tree.rebuildCharacteristics_spec h he found hn
  refine ⟨tree, m, hbuilt, by simpa [PeerReport.found], ?_⟩
  rwa [Tree.map_id_characteristicsOf fun x hx => (hr.live_iff _ x).mpr (.inr ⟨rfl, hx⟩)]

theorem learns_descriptorsDiscovered (h : q.tree.Sound n) (status : Status)
    (characteristic : H.Characteristic) (found : List (Found H.Descriptor))
    (hn : n + found.length < UInt64.size) :
    Learns q n (.descriptorsDiscovered status characteristic found)
      (q.descriptorsDiscovered (.after n) status characteristic found).state.1.tree
      (q.descriptorsDiscovered (.after n) status characteristic found).state.2
      (Effect.notices (q.descriptorsDiscovered (.after n) status characteristic found).effects) := by
  refine (q.discovers_descriptorsDiscovered (.after n) status characteristic found).learns (·.id)
    .descriptors (fun c hc => ?_) (fun c list hc => by simp [discovery?, hc])
    fun status list hbad => by simp [discovery?, hbad]
  obtain ⟨e, he⟩ := h.characteristics.exists_get? hc
  obtain ⟨tree, m, hbuilt, hm, hr⟩ := Tree.rebuildDescriptors_spec h he found hn
  refine ⟨tree, m, hbuilt, by simpa [PeerReport.found], ?_⟩
  rwa [Tree.map_id_descriptorsOf fun x hx => (hr.live_iff _ x).mpr (.inr ⟨rfl, hx⟩)]

/-- Nothing but a completed discovery changes the tree. -/
theorem tree_receive {report : PeerReport H} (h : report.discovers = false) (settings : Settings)
    (ids : IdSource) : (q.receive settings ids report).state.1.tree = q.tree := by
  cases report with
  | servicesDiscovered | characteristicsDiscovered | descriptorsDiscovered => cases h
  | connected status => exact connectResult_tree status
  | disconnected reason => exact linkLost_tree reason
  | characteristicRead status uuid value => exact characteristicRead_tree settings status uuid value
  | characteristicWritten status uuid => exact complete_tree _ _ _ fun _ => rfl
  | descriptorRead status uuid value => exact complete_tree _ _ _ fun _ => rfl
  | descriptorWritten status uuid => exact complete_tree _ _ _ fun _ => rfl
  | notificationStateChanged status uuid enabled =>
    refine complete_tree _ _ _ fun q => ?_
    split <;> rfl
  | rssiRead status rssi =>
    refine complete_tree _ _ _ fun q => ?_
    split
    · obtain ⟨level, hlevel⟩ := q.observe_eq rssi
      rw [hlevel]
    · rfl

theorem learns_receive (h : q.tree.Faithful ds n) (settings : Settings) (report : PeerReport H)
    (hn : n + report.found.length < UInt64.size) :
    Learns q n report (q.receive settings (.after n) report).state.1.tree
      (q.receive settings (.after n) report).state.2
      (Effect.notices (q.receive settings (.after n) report).effects) := by
  cases report with
  | servicesDiscovered status found =>
    exact learns_servicesDiscovered h status found (by simpa [PeerReport.found] using hn)
  | characteristicsDiscovered status service found =>
    exact learns_characteristicsDiscovered h.sound status service found
      (by simpa [PeerReport.found] using hn)
  | descriptorsDiscovered status characteristic found =>
    exact learns_descriptorsDiscovered h.sound status characteristic found
      (by simpa [PeerReport.found] using hn)
  | _ => exact learns_of_tree (tree_receive rfl settings _) (fun _ => rfl) _

end Peer

namespace Moment

variable {t : Moment H} {c : CentralId} {p : PeerId}

/-- The discovery that the moment brings to a peer, if it announces one. -/
def discovery? (t : Moment H) (c : CentralId) (p : PeerId) : Option Gatt.Discovery :=
  match t.move, t.before c p, t.notices with
  | .report _ (.peer _ report), some q, [.peer c' p' k] =>
    if c' = c ∧ p' = p then q.discovery? report k else none
  | _, _, _ => none

/-- The identifiers of the attributes that the host lists in the moment. -/
def found (t : Moment H) : List Uuid :=
  match t.move with
  | .report _ (.peer _ report) => report.found
  | _ => []

theorem discovery?_eq_some {d : Gatt.Discovery} (h : t.discovery? c p = some d) :
    ∃ c' p' report q k, t.move = .report c' (.peer p' report) ∧ t.before c p = some q ∧
      t.notices = [.peer c p k] ∧ q.discovery? report k = some d := by
  simp only [discovery?] at h
  split at h
  next hm hq hns =>
    split at h
    next hcp =>
      obtain ⟨rfl, rfl⟩ := hcp
      exact ⟨_, _, _, _, _, hm, hq, hns, h⟩
    next => cases h
  next => cases h

theorem discovery?_of_silent (h : Silent c p t.notices) : t.discovery? c p = none := by
  refine Option.eq_none_iff_forall_ne_some.mpr fun d hd => ?_
  obtain ⟨-, -, -, -, k, -, -, hns, -⟩ := discovery?_eq_some hd
  exact h k (by simp [hns])

theorem discovery?_of_none (h : t.before c p = none) : t.discovery? c p = none := by
  refine Option.eq_none_iff_forall_ne_some.mpr fun d hd => ?_
  obtain ⟨-, -, -, q, -, -, hq, -⟩ := discovery?_eq_some hd
  rw [h] at hq
  cases hq

theorem ids_of_request {answers : Answers H} {r : Request PeerId} (hm : t.move = .request answers r)
    {h : Hub H} (ha : t.after = some h) : h.ids = t.hub.ids := by
  obtain ⟨h₀, m⟩ := t
  cases hm
  cases ha
  have hwith {α : Type} (c : CentralId) (f : Central H → Response H (Central H) α) :
      (h₀.withCentral c f).state.ids = h₀.ids := by
    rcases h₀.withCentral_cases c f with ⟨-, hs, -⟩ | ⟨m, -, hs, -⟩ <;> rw [hs]
  cases r with
  | allocate =>
    simp only [Hub.request, Hub.reply, Hub.allocate]
    split <;> rfl
  | destroy c =>
    simp only [Hub.request, Hub.reply, Hub.destroy, Hub.destroyIn]
    split <;> rfl
  | scan c allowDuplicates => exact hwith c _
  | stopScan c => exact hwith c _
  | forget c p => exact (congrArg Hub.ids (Hub.noting_spec c p _).1).trans (hwith c _)
  | act c p action => exact (congrArg Hub.ids (Hub.noting_spec c p _).1).trans (hwith c _)
  | attMtu c p => exact hwith c _
  | query q => rfl

theorem ids_after (t : Moment H) {h : Hub H} (ha : t.after = some h) :
    (∃ c p q report, t.move = .report c (.peer p report) ∧ t.before c p = some q ∧
        h.ids = (q.receive t.hub.settings t.hub.ids report).state.2) ∨
      (∀ c p report, t.move = .report c (.peer p report) → t.before c p = none) ∧
        h.ids = t.hub.ids := by
  obtain ⟨h₀, m⟩ := t
  cases m with
  | shutdown answers => cases ha
  | request answers r =>
    refine .inr ⟨?_, ids_of_request rfl ha⟩
    rintro _ _ _ ⟨⟩
  | report c r =>
    cases ha
    simp only [Hub.receive]
    cases hm : h₀.centrals.get? c with
    | none =>
      refine .inr ⟨?_, rfl⟩
      rintro _ p report ⟨⟩
      simp [before, Hub.peer?, hm]
    | some m =>
      cases r with
      | stateChanged on message =>
        refine .inr ⟨?_, rfl⟩
        rintro _ _ _ ⟨⟩
      | advertised record =>
        refine .inr ⟨?_, by simp only [Central.receive, Central.advertised]⟩
        rintro _ _ _ ⟨⟩
      | peer p report =>
        cases hq : m.peers.get? p with
        | none =>
          refine .inr ⟨?_, by simp [Central.receive, Central.peerReported, hq]⟩
          rintro _ _ report ⟨⟩
          simp [before, Hub.peer?, hm, hq]
        | some q =>
          exact .inl ⟨c, p, q, report, rfl, Hub.peer?_eq_some.mpr ⟨m, hm, hq⟩,
            by simp [Central.receive, Central.peerReported, hq]⟩

end Moment

/-- A hub whose trees tell what was discovered of each peer while it is tracked, when `n`
identities were given out in all. -/
structure Hub.Learned (h : Hub H) (ds : CentralId → PeerId → List Gatt.Discovery) (n : Nat) :
    Prop where
  ids_eq : h.ids = .after n
  faithful : ∀ {c p q}, h.peer? c p = some q → q.tree.Faithful (ds c p) n
  untracked : ∀ {c p}, h.peer? c p = none → ds c p = []

theorem Hub.learned_new (settings : Settings) : (Hub.new settings : Hub H).Learned (fun _ _ => []) 0 :=
  ⟨rfl, nofun, fun _ => rfl⟩

namespace Moment

variable {t : Moment H} {ds : CentralId → PeerId → List Gatt.Discovery} {n : Nat}

theorem Fate.tree {c : CentralId} {p : PeerId} {x : Option (Peer H)} {q' : Peer H}
    (h : t.Fate c p x (some q')) (hno : ∀ q report, t.move = .report c (.peer p report) → x ≠ some q) :
    (∃ q, x = some q ∧ q'.tree = q.tree ∧ Silent c p t.notices) ∨ x = none ∧ q'.tree = ∅ := by
  cases h with
  | kept _ hns => exact .inl ⟨q', rfl, rfl, hns⟩
  | tracked native => exact .inr ⟨rfl, rfl⟩
  | accepted _ q _ action hq hns _ haccepts =>
    have htree : q'.tree = q.tree := by cases haccepts <;> rfl
    rcases hq with rfl | ⟨rfl, native, rfl⟩
    · exact .inl ⟨q, rfl, htree, hns ▸ .nil c p⟩
    · exact .inr ⟨rfl, htree⟩
  | reported q _ report hm => exact absurd rfl (hno q report hm)
  | observed q record _ _ hns =>
    obtain ⟨rssi, hrssi⟩ := q.observe_eq record.rssi
    exact .inl ⟨q, rfl, by rw [hrssi], hns⟩

theorem discovery?_of_report {c : CentralId} {p : PeerId} {report : PeerReport H} {q : Peer H}
    (hl : t.hub.Labelled) (hm : t.move = .report c (.peer p report)) (hq : t.before c p = some q)
    {k : PeerNotice} (hns : t.notices = [q.notice k]) : t.discovery? c p = q.discovery? report k := by
  simp only [discovery?, hm, hq, hns, Peer.notice, hl.peer_central hq, hl.peer_id hq, and_self,
    if_true]

theorem faithful_reported (hl : t.hub.Labelled) (h : t.hub.Learned ds n)
    (hn : n + t.found.length < UInt64.size) {c : CentralId} {p : PeerId} {report : PeerReport H}
    {q : Peer H} (hm : t.move = .report c (.peer p report)) (hq : t.before c p = some q) :
    ∃ m, n ≤ m ∧ m ≤ n + t.found.length ∧
      (q.receive t.hub.settings t.hub.ids report).state.2 = .after m ∧
      (q.receive t.hub.settings t.hub.ids report).state.1.tree.Faithful
        (ds c p ++ (t.discovery? c p).toList) m := by
  have hfound : t.found = report.found := by simp [found, hm]
  rw [hfound] at hn ⊢
  have hfaithful := h.faithful hq
  have hlearns := Peer.learns_receive hfaithful t.hub.settings report hn
  rw [← h.ids_eq, ← (reported_spec hm hq).2] at hlearns
  generalize (q.receive t.hub.settings t.hub.ids report).state.1.tree = tree at hlearns ⊢
  generalize (q.receive t.hub.settings t.hub.ids report).state.2 = ids at hlearns ⊢
  generalize hns' : t.notices = ns at hlearns
  cases hlearns with
  | nothing _ hno =>
    refine ⟨n, Nat.le_refl n, Nat.le_add_right n _, rfl, ?_⟩
    have hnone : t.discovery? c p = none := by
      refine Option.eq_none_iff_forall_ne_some.mpr fun d hd => ?_
      obtain ⟨_, _, report', q', k, hm', hq', hns, hd⟩ := discovery?_eq_some hd
      rw [hm] at hm'
      cases hm'
      rw [hq] at hq'
      cases hq'
      have hnotice : ns = [q.notice k] := by
        rw [← hns', hns, Peer.notice, hl.peer_central hq, hl.peer_id hq]
      rw [hno k hnotice] at hd
      cases hd
    rw [hnone, Option.toList_none, List.append_nil]
    exact hfaithful
  | discovery k d _ m hd hr hle =>
    refine ⟨m, hr.le, hle, rfl, ?_⟩
    rw [discovery?_of_report hl hm hq hns', hd]
    exact hfaithful.append hr

theorem faithful_kept (h : t.hub.Learned ds n) {c : CentralId} {p : PeerId} {q' : Peer H}
    (hfate : t.Fate c p (t.before c p) (some q'))
    (hno : ∀ q report, t.move = .report c (.peer p report) → t.before c p ≠ some q) :
    q'.tree.Faithful (ds c p ++ (t.discovery? c p).toList) n := by
  rcases hfate.tree hno with ⟨q, hq, htree, hns⟩ | ⟨hnone, htree⟩
  · rw [discovery?_of_silent hns, Option.toList_none, List.append_nil, htree]
    exact h.faithful hq
  · rw [discovery?_of_none hnone, h.untracked hnone, htree]
    exact Gatt.Tree.faithful_empty n

/-- A moment keeps a hub learned. It draws no more identities than the host lists attributes. -/
theorem learned (hl : t.hub.Labelled) (h : t.hub.Learned ds n)
    (hn : n + t.found.length < UInt64.size) {h' : Hub H} (ha : t.after = some h') :
    ∃ m, n ≤ m ∧ m ≤ n + t.found.length ∧ h'.Learned (fun c p =>
      if (h'.peer? c p).isSome then ds c p ++ (t.discovery? c p).toList else []) m := by
  have hfate {c : CentralId} {p : PeerId} {q' : Peer H} (hq' : h'.peer? c p = some q') :
      t.Fate c p (t.before c p) (some q') := by
    rw [← hq', ← later_eq ha]
    exact t.fate hl c p
  rcases t.ids_after ha with ⟨c₀, p₀, q₀, report, hm, hq₀, hids⟩ | ⟨hno, hids⟩
  · obtain ⟨m, hnm, hle, hsource, hfaithful⟩ := faithful_reported hl h hn hm hq₀
    refine ⟨m, hnm, hle, hids.trans hsource, fun {c p q'} hq' => ?_, fun hq' => by simp [hq']⟩
    rw [if_pos (by rw [hq']; rfl)]
    by_cases hcp : c = c₀ ∧ p = p₀
    · obtain ⟨rfl, rfl⟩ := hcp
      have hlater := (reported_spec hm hq₀).1
      rw [later_eq ha, hq'] at hlater
      cases hlater
      exact hfaithful
    · refine (faithful_kept h (hfate hq') fun q report' hm' => ?_).mono hnm
      rw [hm] at hm'
      cases hm'
      exact absurd ⟨rfl, rfl⟩ hcp
  · refine ⟨n, Nat.le_refl n, Nat.le_add_right n _, hids.trans h.ids_eq, fun {c p q'} hq' => ?_,
      fun hq' => by simp [hq']⟩
    rw [if_pos (by rw [hq']; rfl)]
    refine faithful_kept h (hfate hq') fun q report hm hq => ?_
    rw [hno c p report hm] at hq
    cases hq

end Moment

namespace Run

/-- The discoveries of a peer since it was last untracked, oldest first. -/
def discoveries (r : Run H) (c : CentralId) (p : PeerId) : List Gatt.Discovery :=
  (r.past.rtakeWhile fun t => (t.later c p).isSome).filterMap (·.discovery? c p)

/-- The identifiers of all attributes that the host ever listed. -/
def found (r : Run H) : List Uuid := r.past.flatMap Moment.found

theorem discoveries_append_singleton (r : Run H) (t : Moment H) (hub : Option (Hub H)) (c : CentralId)
    (p : PeerId) : discoveries ⟨r.past ++ [t], hub⟩ c p =
      if (t.later c p).isSome then r.discoveries c p ++ (t.discovery? c p).toList else [] := by
  simp only [discoveries, List.rtakeWhile_concat]
  split
  · rw [List.filterMap_append]
    cases hd : t.discovery? c p <;> simp [hd]
  · rfl

theorem found_append_singleton (r : Run H) (t : Moment H) (hub : Option (Hub H)) :
    found ⟨r.past ++ [t], hub⟩ = r.found ++ t.found := by
  simp [found]

/-- As long as the host lists fewer attributes than there are identities, the trees of a run tell
what was discovered. -/
theorem learned (settings : Settings) (ms : List (Move H))
    (hbound : (of settings ms).found.length < UInt64.size) :
    ∀ h, (of settings ms).hub = some h →
      ∃ n ≤ (of settings ms).found.length, h.Learned (of settings ms).discoveries n := by
  revert hbound
  refine of_induction (P := fun r => r.found.length < UInt64.size → ∀ h, r.hub = some h →
    ∃ n ≤ r.found.length, h.Learned r.discoveries n) settings ?_ ?_ ms
  · rintro - h ⟨⟩
    exact ⟨0, Nat.le_refl 0, Hub.learned_new settings⟩
  · intro ms h m hr ih hbound h' ha
    rw [found_append_singleton, List.length_append] at hbound ⊢
    obtain ⟨n, hn, hlearned⟩ := ih (by omega) h hr
    obtain ⟨k, -, hk, hnext⟩ := Moment.learned (t := ⟨h, m⟩) ((labelled settings ms).2 h hr)
      hlearned (by omega) ha
    refine ⟨k, by omega, ?_⟩
    convert hnext using 1
    funext c p
    rw [discoveries_append_singleton, Moment.later_eq ha]

end Run

end GattHub
