import GattHub.Proofs.Regrowth

/-! The attributes of a peer are a tree, as long as the host reports no attribute beneath a parent
while it is registered beneath another. -/

namespace GattHub

open Gatt

variable {H : Handles}

namespace Gatt.Tree

variable {S C D : Type} {t : Tree S C D}

/-- The lists of a tree: that of the services, and those of the parents that resolve. -/
def scopes (t : Tree S C D) : List Scope :=
  .services :: (t.services.entries.keys.map .characteristics ++
    t.characteristics.entries.keys.map .descriptors)

theorem mem_scopes {scope : Scope} {x : AttrId} (hx : x ∈ t.listed scope) : scope ∈ t.scopes := by
  cases scope with
  | services => exact List.mem_cons_self
  | characteristics s =>
    have hs : s ∈ t.services.entries.keys :=
      Table.mem_keys_iff.mpr (live_of_mem_characteristicsUnder hx)
    simp [scopes, hs]
  | descriptors c =>
    have hc : c ∈ t.characteristics.entries.keys :=
      Table.mem_keys_iff.mpr (live_of_mem_descriptorsUnder hx)
    simp [scopes, hc]

end Gatt.Tree

namespace PeerReport

variable (tree : Tree H.Service H.Characteristic H.Descriptor)

/-- The list that a discovery is about, if its parent is registered. -/
def scope? : PeerReport H → Option Scope
  | servicesDiscovered _ _ => some .services
  | characteristicsDiscovered _ service _ => (tree.services.idOf? service).map .characteristics
  | descriptorsDiscovered _ characteristic _ =>
    (tree.characteristics.idOf? characteristic).map .descriptors
  | _ => none

/-- The identities under which reported attributes are registered. -/
def known : PeerReport H → List AttrId
  | servicesDiscovered _ found => found.filterMap (tree.services.idOf? ·.handle)
  | characteristicsDiscovered _ _ found => found.filterMap (tree.characteristics.idOf? ·.handle)
  | descriptorsDiscovered _ _ found => found.filterMap (tree.descriptors.idOf? ·.handle)
  | _ => []

end PeerReport

namespace Peer

variable {q q' : Peer H} {report : PeerReport H} {n : Nat}

/-- No attribute that is reported for a parent is registered under another one. -/
def Apart (q : Peer H) (report : PeerReport H) : Prop :=
  ∀ scope ∈ report.scope? q.tree, ∀ x ∈ report.known q.tree, ∀ other ∈ q.tree.scopes,
    other.tier = scope.tier → x ∈ q.tree.listed other → other = scope

instance (q : Peer H) (report : PeerReport H) : Decidable (q.Apart report) :=
  inferInstanceAs (Decidable (∀ scope ∈ report.scope? q.tree, ∀ x ∈ report.known q.tree,
    ∀ other ∈ q.tree.scopes, other.tier = scope.tier → x ∈ q.tree.listed other → other = scope))

theorem live_of_mem_known (ht : q.tree.Sound n) {scope : Scope}
    (hscope : report.scope? q.tree = some scope) {x : AttrId} (hx : x ∈ report.known q.tree) :
    q.tree.Live scope.tier x := by
  cases report with
  | servicesDiscovered status found =>
    cases hscope
    obtain ⟨f, -, hid⟩ := List.mem_filterMap.mp hx
    obtain ⟨e, he⟩ := ht.services.exists_get? hid
    exact Option.isSome_of_eq_some he
  | characteristicsDiscovered status service found =>
    obtain ⟨s, -, rfl⟩ := Option.map_eq_some_iff.mp hscope
    obtain ⟨f, -, hid⟩ := List.mem_filterMap.mp hx
    obtain ⟨e, he⟩ := ht.characteristics.exists_get? hid
    exact Option.isSome_of_eq_some he
  | descriptorsDiscovered status characteristic found =>
    obtain ⟨c, -, rfl⟩ := Option.map_eq_some_iff.mp hscope
    obtain ⟨f, -, hid⟩ := List.mem_filterMap.mp hx
    obtain ⟨e, he⟩ := ht.descriptors.exists_get? hid
    exact Option.isSome_of_eq_some he
  | _ => cases hscope

/-- What is found again was on the list that is rebuilt. -/
theorem Apart.mem_listed (h : q.Apart report) (ht : q.tree.Sound n) (htree : q.tree.Treelike)
    {scope : Scope} (hscope : report.scope? q.tree = some scope) :
    ∀ x ∈ report.known q.tree, x ∈ q.tree.listed scope := by
  intro x hx
  obtain ⟨owner, ⟨htier, hmem⟩, -⟩ := htree.owned _ x (live_of_mem_known ht hscope hx)
  obtain rfl := h scope hscope x hx owner (Tree.mem_scopes hmem) htier hmem
  exact hmem

/-- A completed discovery leaves the tree as it is, or rebuilds what is beneath its parent. -/
theorem Discovers.tree_cases {α : Type} {ids ids' : IdSource} {status : Status}
    {parent? : Pending → Option AttrId} {current : Option AttrId}
    {rebuild : AttrId →
      Except Unresolved (Tree H.Service H.Characteristic H.Descriptor × IdSource)}
    {listing : Tree H.Service H.Characteristic H.Descriptor → AttrId → List α}
    {outcome : Status → List α → PeerNotice} {ns : List Notice}
    (h : q.Discovers ids status parent? current rebuild listing outcome q' ids' ns) :
    q'.tree = q.tree ∨ ∃ id built, current = some id ∧ rebuild id = .ok built ∧
      q'.tree = built.1 ∧ ∀ draws, drawnFor status (q.pending.filterMap parent?) current draws =
        draws id := by
  cases h with
  | unmatched | failed | stale => exact .inl rfl
  | rebuilt id rest built htake hid hok hbuilt =>
    obtain ⟨-, pre, op, post, hqueue, -, hop, -⟩ := Pending.takeDiscovery?_eq_some htake
    have hmem : id ∈ q.pending.filterMap parent? :=
      List.mem_filterMap.mpr ⟨op, by simp [hqueue], hop⟩
    exact .inr ⟨id, built, hid, hbuilt, rfl, fun draws => drawnFor_of_awaited hid ⟨hok, hmem⟩⟩

theorem tree_servicesDiscovered (q : Peer H) (ids : IdSource) (status : Status)
    (found : List (Found H.Service)) :
    let tree := (q.servicesDiscovered ids status found).state.1.tree
    tree = q.tree ∨ tree = (q.tree.rebuildServices ids found).1 ∧
      q.draws ids (.servicesDiscovered status found) = q.tree.drawsServices ids found := by
  simp only [servicesDiscovered]
  cases htake : Pending.take? (· = .services) q.pending with
  | none => exact .inl rfl
  | some taken =>
    obtain ⟨op, rest⟩ := taken
    obtain ⟨-, pre, post, hqueue, -⟩ := Pending.eq_of_take?_eq_some htake
    by_cases hok : status = .ok
    · simp [draws, hok, hqueue]
    · simp [hok]

theorem regrown_receive (ht : q.tree.Sound n) (htree : q.tree.Treelike) (hapart : q.Apart report)
    (hn : n + q.draws (.after n) report < UInt64.size) (settings : Settings) :
    let tree := (q.receive settings (.after n) report).state.1.tree
    tree = q.tree ∨
      ∃ scope ids, report.scope? q.tree = some scope ∧ q.tree.Regrown n scope ids tree := by
  have hknown {scope : Scope} (hscope : report.scope? q.tree = some scope) :=
    hapart.mem_listed ht htree hscope
  cases report with
  | servicesDiscovered status found =>
    refine (q.tree_servicesDiscovered (.after n) status found).imp_right ?_
    rintro ⟨htree, hdraws⟩
    rw [hdraws] at hn
    obtain ⟨ids, hr⟩ := Tree.regrown_rebuildServices ht found (fun f hf x hid =>
      hknown rfl x (List.mem_filterMap.mpr ⟨f, hf, hid⟩)) hn
    exact ⟨.services, ids, rfl, htree ▸ hr⟩
  | characteristicsDiscovered status service found =>
    have h := q.discovers_characteristicsDiscovered (.after n) status service found
    refine h.tree_cases.imp_right ?_
    rintro ⟨s, built, hs, hbuilt, htree, hdraws⟩
    rw [draws, hdraws] at hn
    have hscope := congrArg (Option.map Scope.characteristics) hs
    obtain ⟨ids, hr⟩ := Tree.regrown_rebuildCharacteristics ht hbuilt (fun f hf x hid =>
      hknown hscope x (List.mem_filterMap.mpr ⟨f, hf, hid⟩)) hn
    exact ⟨.characteristics s, ids, hscope, htree ▸ hr⟩
  | descriptorsDiscovered status characteristic found =>
    have h := q.discovers_descriptorsDiscovered (.after n) status characteristic found
    refine h.tree_cases.imp_right ?_
    rintro ⟨c, built, hc, hbuilt, htree, hdraws⟩
    rw [draws, hdraws] at hn
    have hscope := congrArg (Option.map Scope.descriptors) hc
    obtain ⟨ids, hr⟩ := Tree.regrown_rebuildDescriptors ht hbuilt (fun f hf x hid =>
      hknown hscope x (List.mem_filterMap.mpr ⟨f, hf, hid⟩)) hn
    exact ⟨.descriptors c, ids, hscope, htree ▸ hr⟩
  | _ => exact .inl (tree_receive rfl settings _)

theorem treelike_receive (ht : q.tree.Sound n) (htree : q.tree.Treelike) (hapart : q.Apart report)
    (hn : n + q.draws (.after n) report < UInt64.size) (settings : Settings) :
    (q.receive settings (.after n) report).state.1.tree.Treelike := by
  rcases regrown_receive ht htree hapart hn settings with hsame | ⟨scope, ids, -, hr⟩
  · rw [hsame]
    exact htree
  · exact hr.treelike ht htree

end Peer

namespace Moment

variable {t : Moment H} {c : CentralId} {p : PeerId}

/-- What the host reports of the peer in the moment. -/
def report? (t : Moment H) (c : CentralId) (p : PeerId) : Option (PeerReport H) :=
  match t.move with
  | .report c' (.peer p' report) => if c' = c ∧ p' = p then some report else none
  | _ => none

theorem report?_eq_some {report : PeerReport H} :
    t.report? c p = some report ↔ t.move = .report c (.peer p report) := by
  obtain ⟨h, m⟩ := t
  cases m with
  | report c' r => cases r <;> simp [report?, and_assoc]
  | request | shutdown => simp [report?]

/-- The host reports no attribute of the peer for a parent that is registered under another. -/
def Apart (t : Moment H) (c : CentralId) (p : PeerId) : Prop :=
  ∀ q ∈ t.before c p, ∀ report ∈ t.report? c p, q.Apart report

instance (t : Moment H) (c : CentralId) (p : PeerId) : Decidable (t.Apart c p) :=
  inferInstanceAs (Decidable (∀ q ∈ t.before c p, ∀ report ∈ t.report? c p, q.Apart report))

theorem treelike {n : Nat} (hl : t.hub.Labelled) (hd : t.hub.Distinct n)
    (hn : n + t.draws < UInt64.size) (htree : ∀ q, t.before c p = some q → q.tree.Treelike)
    (hapart : t.Apart c p) {h : Hub H} (ha : t.after = some h) :
    ∀ q', h.peer? c p = some q' → q'.tree.Treelike := by
  intro q' hq'
  by_cases hreport : ∃ q report, t.move = .report c (.peer p report) ∧ t.before c p = some q
  · obtain ⟨q, report, hm, hq⟩ := hreport
    have hdraws : t.draws = q.draws (.after n) report := by
      simp only [draws, hm, hq, hd.ids_eq, Option.elim_some]
    have hlater := (reported_spec hm hq).1
    rw [later_eq ha, hq', hd.ids_eq] at hlater
    cases hlater
    exact Peer.treelike_receive (hd.sound hq) (htree q hq)
      (hapart q hq report (report?_eq_some.mpr hm)) (hdraws ▸ hn) _
  · rcases names_of_unreported hl ha hq' fun q report hm hq => hreport ⟨q, report, hm, hq⟩ with
      hempty | ⟨q, hq, hsame⟩
    · rw [hempty]
      exact Tree.treelike_empty
    · rw [hsame]
      exact htree q hq

end Moment

namespace Run

/-- The moments since a peer was last untracked. -/
def tenure (r : Run H) (c : CentralId) (p : PeerId) : List (Moment H) :=
  r.past.rtakeWhile fun t => (t.later c p).isSome

theorem tenure_append_singleton (r : Run H) {t : Moment H} {c : CentralId} {p : PeerId}
    (ht : (t.later c p).isSome) (hub : Option (Hub H)) :
    tenure ⟨r.past ++ [t], hub⟩ c p = r.tenure c p ++ [t] :=
  List.rtakeWhile_concat_pos _ _ _ ht

theorem treelike (settings : Settings) (ms : List (Move H))
    (hbound : (of settings ms).draws < UInt64.size) :
    ∀ h, (of settings ms).hub = some h → ∀ c p q, h.peer? c p = some q →
      (∀ t ∈ (of settings ms).tenure c p, t.Apart c p) → q.tree.Treelike := by
  revert hbound
  refine of_induction (P := fun r => r.draws < UInt64.size → ∀ h, r.hub = some h →
    ∀ c p q, h.peer? c p = some q → (∀ t ∈ r.tenure c p, t.Apart c p) → q.tree.Treelike) settings
    ?_ ?_ ms
  · rintro - h ⟨⟩ c p q hq
    cases hq
  · intro ms h m hr ih hbound h' ha c p q' hq' hapart
    have hlater : ((Moment.mk h m).later c p).isSome := by
      rw [Moment.later_eq ha, hq']
      rfl
    rw [draws_append_singleton] at hbound
    rw [tenure_append_singleton _ hlater] at hapart
    have hfew := Nat.lt_of_le_of_lt (Nat.le_add_right _ _) hbound
    refine Moment.treelike ((labelled settings ms).2 h hr) (distinct settings ms hfew h hr) hbound
      (fun q hq => ?_) (hapart _ (List.mem_append_right _ List.mem_cons_self)) ha q' hq'
    exact ih hfew h hr c p q hq fun t ht => hapart t (List.mem_append_left _ ht)

/-- As long as identities do not run out, and the host reported no attribute for a parent while it
was registered under another, the attributes of a tracked peer are a tree. No listing skips an entry.
Whatever the next report rebuilds, it spares what belongs to other parents. -/
theorem attribute_tree (settings : Settings) (ms : List (Move H))
    (hbound : (of settings ms).draws < UInt64.size) {h : Hub H} (hh : (of settings ms).hub = some h)
    {c : CentralId} {p : PeerId} {q : Peer H} (hq : h.peer? c p = some q)
    (hapart : ∀ t ∈ (of settings ms).tenure c p, t.Apart c p) :
    q.tree.Treelike ∧ (∀ s, s ∈ q.tree.order ↔ q.tree.Live .services s) ∧
      (∀ scope, q.tree.listed scope ≠ [] → ∀ parent, scope.parent? = some parent →
        q.tree.Live parent.1 parent.2) ∧
      q.tree.serviceList.map (·.id) = q.tree.order ∧
      (∀ s list, q.tree.characteristicsOf s = .ok list →
        list.map (·.id) = q.tree.characteristicsUnder s) ∧
      (∀ x list, q.tree.descriptorsOf x = .ok list → list.map (·.id) = q.tree.descriptorsUnder x) ∧
      ∀ report, q.Apart report → (of settings ms).draws + q.draws h.ids report < UInt64.size →
        let tree := (q.receive h.settings h.ids report).state.1.tree
        tree.Treelike ∧ (tree = q.tree ∨
          ∃ scope, report.scope? q.tree = some scope ∧ q.tree.Spares scope tree) := by
  have hd := distinct settings ms hbound h hh
  have hsound := hd.sound hq
  have htree := treelike settings ms hbound h hh c p q hq hapart
  refine ⟨htree, fun s => htree.mem_order_iff, fun scope hne parent hparent => ?_,
    Tree.map_id_serviceList (htree.live .services), fun s list hlist => ?_, fun x list hlist => ?_,
    fun report hreport hn => ?_⟩
  · obtain ⟨x, hx⟩ := List.exists_mem_of_ne_nil _ hne
    exact Tree.live_parent hx hparent
  · have hids := Tree.map_id_characteristicsOf (htree.live (.characteristics s))
    rw [hlist] at hids
    exact hids
  · have hids := Tree.map_id_descriptorsOf (htree.live (.descriptors x))
    rw [hlist] at hids
    exact hids
  · rw [hd.ids_eq] at hn ⊢
    refine ⟨Peer.treelike_receive hsound htree hreport hn _, ?_⟩
    refine (Peer.regrown_receive hsound htree hreport hn h.settings).imp_right ?_
    rintro ⟨scope, ids, hscope, hr⟩
    exact ⟨scope, hscope, hr.spares hsound htree⟩

/-- Two services; both have characteristics, of which each has a descriptor. The first service is
discovered again: one of its characteristics is still there, the report names it twice. -/
def treeMoves : List (Move .numbers) :=
  [.request .agreeing .allocate, .request .agreeing (.act ⟨1⟩ default .connect),
    .report ⟨1⟩ (.peer default (.connected .ok)),
    .request .agreeing (.act ⟨1⟩ default (.discoverServices [])),
    .report ⟨1⟩ (.peer default (.servicesDiscovered .ok [⟨1, default⟩, ⟨2, default⟩])),
    .request .agreeing (.act ⟨1⟩ default (.discoverCharacteristics ⟨1⟩ [])),
    .report ⟨1⟩ (.peer default
      (.characteristicsDiscovered .ok 1 [⟨10, default, 2⟩, ⟨11, default, 2⟩])),
    .request .agreeing (.act ⟨1⟩ default (.discoverCharacteristics ⟨2⟩ [])),
    .report ⟨1⟩ (.peer default (.characteristicsDiscovered .ok 2 [⟨12, default, 2⟩])),
    .request .agreeing (.act ⟨1⟩ default (.discoverDescriptors ⟨3⟩)),
    .report ⟨1⟩ (.peer default (.descriptorsDiscovered .ok 10 [⟨20, default⟩])),
    .request .agreeing (.act ⟨1⟩ default (.discoverDescriptors ⟨5⟩)),
    .report ⟨1⟩ (.peer default (.descriptorsDiscovered .ok 12 [⟨21, default⟩])),
    .request .agreeing (.act ⟨1⟩ default (.discoverCharacteristics ⟨1⟩ [])),
    .report ⟨1⟩ (.peer default
      (.characteristicsDiscovered .ok 1 [⟨11, default, 2⟩, ⟨13, default, 2⟩, ⟨11, default, 2⟩])),
    .request .agreeing (.act ⟨1⟩ default (.discoverCharacteristics ⟨1⟩ []))]

def treeHub : Hub .numbers := (of .default treeMoves).hub.getD (.new .default)

def treePeer : Peer .numbers := (treeHub.peer? ⟨1⟩ default).getD (.new ⟨1⟩ default 0)

/-- The descriptor that was beneath the first service is gone. Once that service is found empty, the
second one still has its characteristic, and this its descriptor. -/
theorem attribute_tree_rediscovered :
    let report : PeerReport .numbers := .characteristicsDiscovered .ok 1 []
    let tree := (treePeer.receive treeHub.settings treeHub.ids report).state.1.tree
    (of .default treeMoves).draws < UInt64.size ∧ (of .default treeMoves).hub = some treeHub ∧
      treeHub.peer? ⟨1⟩ default = some treePeer ∧
      (∀ t ∈ (of .default treeMoves).tenure ⟨1⟩ default, t.Apart ⟨1⟩ default) ∧
      treePeer.tree.Treelike ∧ treePeer.tree.order = [⟨1⟩, ⟨2⟩] ∧
      treePeer.tree.characteristicsUnder ⟨1⟩ = [⟨8⟩, ⟨9⟩] ∧
      ¬ treePeer.tree.Live .descriptors ⟨6⟩ ∧
      tree.characteristicsUnder ⟨1⟩ = [] ∧ tree.characteristicsUnder ⟨2⟩ = [⟨5⟩] ∧
      tree.descriptorsUnder ⟨5⟩ = [⟨7⟩] ∧ treePeer.tree.Spares (.characteristics ⟨1⟩) tree := by
  intro report tree
  have hbound : (of .default treeMoves).draws < UInt64.size := by decide
  have hapart : ∀ t ∈ (of .default treeMoves).tenure ⟨1⟩ default, t.Apart ⟨1⟩ default := by decide
  obtain ⟨htree, -, -, -, -, -, hnext⟩ := attribute_tree .default treeMoves hbound
    (h := treeHub) rfl (c := ⟨1⟩) (p := default) (q := treePeer) rfl hapart
  obtain ⟨-, hsame | ⟨scope, hscope, hspares⟩⟩ := hnext report (by decide) (by decide)
  · have hlists := congrArg (Tree.characteristicsUnder · ⟨1⟩) hsame
    exact absurd hlists (by decide)
  · cases hscope
    exact ⟨hbound, rfl, rfl, hapart, htree, by decide, by decide, nofun, by decide, by decide,
      by decide, hspares⟩

end Run

end GattHub
