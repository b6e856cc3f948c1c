import GattHub.Proofs.Settling
import GattHub.Proofs.Lifetime
import Mathlib.Data.List.Perm.Subperm

/-! What the host still owes on a link, compared with what is pending there. As long as every
completion is owed, the two go together parent by parent. -/

namespace GattHub

open Gatt

variable {H : Handles}

namespace Gatt.Tree

variable {S C D : Type} {t t' : Tree S C D} {n m : Nat}

/-- No old parent comes to life. Either all old services die, or none changes. -/
structure Wanes (t : Tree S C D) (n : Nat) (t' : Tree S C D) : Prop where
  handle? : ∀ x k, x.id.raw.toNat ≤ n → t'.handle? x = some k → t.handle? x = some k
  services : (∀ x : Parent AttrId AttrId, x.tier = .services → x.id.raw.toNat ≤ n →
      t'.handle? x = none) ∨
    ∀ x : Parent AttrId AttrId, x.tier = .services → t'.handle? x = t.handle? x

theorem wanes_refl (t : Tree S C D) (n : Nat) : t.Wanes n t := ⟨fun _ _ _ h => h, .inr fun _ _ => rfl⟩

theorem Rebuilds.wanes [DecidableEq S] [DecidableEq C] [DecidableEq D] {d : Discovery}
    (h : t.Rebuilds n d t' m) (hall : ∀ s, t.Live .services s → s ∈ t.order) : t.Wanes n t' := by
  refine ⟨fun x k hx hk => ?_, ?_⟩
  · cases x with
    | service s =>
      obtain ⟨k, hs, rfl⟩ := Option.map_eq_some_iff.mp hk
      exact handle?_service.mpr (h.service_old s k hx hs)
    | characteristic c =>
      obtain ⟨k, hc, rfl⟩ := Option.map_eq_some_iff.mp hk
      exact handle?_characteristic.mpr (h.characteristic_old c k hx hc)
  · by_cases hd : d.scope = .services
    · refine .inl fun x hx hle => ?_
      obtain ⟨s, rfl⟩ := Parent.tier_eq_services.mp hx
      by_contra hne
      have hlive : t'.Live .services s := isSome_handle?.mp (Option.isSome_iff_ne_none.mpr hne)
      -- What was reported anew is live under a new identity, or was never listed.
      have hbeneath (hl : t.Live .services s) : t.Beneath d.scope .services s := by
        rw [hd]
        exact hall s hl
      rcases (h.live_iff _ s).mp hlive with ⟨hl, hno⟩ | ⟨-, hs⟩
      · exact hno (hbeneath hl)
      · rcases (h.old_or_new s hs).2 with ⟨hl, hno⟩ | hnew
        · rw [hd, Scope.tier] at hl hno
          exact hno (hd ▸ hbeneath hl)
        · exact absurd hle (Nat.not_le.mpr hnew)
    · refine .inr fun x hx => ?_
      obtain ⟨s, rfl⟩ := Parent.tier_eq_services.mp hx
      rw [handle?, h.service_kept hd]
      rfl

/-- What is awaited goes together with what the host owes: as many discoveries in each tier, and
the handles of the live parents among those that are owed. The retired services come first. -/
structure Owes (t : Tree S C D) (awaited : List (Parent AttrId AttrId)) (owed : List (Parent S C)) :
    Prop where
  tiers : (awaited.map Parent.tier).Perm (owed.map Parent.tier)
  handles : (awaited.filterMap t.handle?).Subperm owed
  ordered : awaited.Pairwise fun x y => x.tier = .services → y.tier = .services →
    (t.handle? x).isSome → (t.handle? y).isSome

namespace Owes

variable {awaited pre post : List (Parent AttrId AttrId)} {owed : List (Parent S C)}
  {x : Parent AttrId AttrId} {h : Parent S C}

theorem nil (t : Tree S C D) : t.Owes [] [] := ⟨.refl _, .refl _, .nil⟩

theorem call (ho : t.Owes awaited owed) (hx : t.handle? x = some h) :
    t.Owes (awaited ++ [x]) (owed ++ [h]) := by
  refine ⟨?_, ?_, List.pairwise_append.mpr ⟨ho.ordered, List.pairwise_singleton _ _, ?_⟩⟩
  · simpa [tier_of_handle? hx] using ho.tiers.append_right [h.tier]
  · rw [List.filterMap_append, List.filterMap_cons_some hx, List.filterMap_nil]
    exact (List.subperm_append_right _).mpr ho.handles
  · intro y _ z hz _ _ _
    rw [List.mem_singleton.mp hz, hx]
    rfl

theorem filterMap_sublist {f g : Parent AttrId AttrId → Option (Parent S C)}
    {l : List (Parent AttrId AttrId)} (h : ∀ x ∈ l, ∀ k, g x = some k → f x = some k) :
    (l.filterMap g).Sublist (l.filterMap f) := by
  induction l with
  | nil => exact .slnil
  | cons a l ih =>
    have hrest := ih fun x hx => h x (List.mem_cons_of_mem a hx)
    cases hg : g a with
    | none =>
      rw [List.filterMap_cons_none hg]
      exact hrest.trans ((List.sublist_cons_self a l).filterMap f)
    | some k =>
      rw [List.filterMap_cons_some hg, List.filterMap_cons_some (h a List.mem_cons_self k hg)]
      exact hrest.cons_cons k

theorem wane (ho : t.Owes awaited owed) (hw : t.Wanes n t')
    (hold : ∀ x ∈ awaited, x.id.raw.toNat ≤ n) : t'.Owes awaited owed := by
  refine ⟨ho.tiers, ?_, ?_⟩
  · exact (filterMap_sublist fun x hx k => hw.handle? x k (hold x hx)).subperm.trans ho.handles
  · rcases hw.services with hdead | hsame
    · refine List.Pairwise.imp_of_mem (fun {x y} hx _ _ hxs _ hlive => ?_) ho.ordered
      rw [hdead x hxs (hold x hx)] at hlive
      cases hlive
    · refine ho.ordered.imp fun {x y} hxy hx hy => ?_
      rw [hsame x hx, hsame y hy]
      exact hxy hx hy

variable [DecidableEq S] [DecidableEq C]

/-- A call is answered and a discovery is settled. Its parent is the one behind the handle, or no
other live one is. -/
theorem answer (ho : t.Owes (pre ++ x :: post) owed) (hmem : h ∈ owed) (hx : x.tier = h.tier)
    (hwhich : t.handle? x = some h ∨ ∀ y ∈ pre ++ x :: post, t.handle? y ≠ some h) :
    t.Owes (pre ++ post) (owed.erase h) := by
  have howed := List.perm_cons_erase hmem
  have hmiddle : (pre ++ x :: post).Perm (x :: (pre ++ post)) := List.perm_middle
  refine ⟨?_, ?_, ho.ordered.sublist (List.Sublist.append_left (List.sublist_cons_self x post) pre)⟩
  · have htiers := ((hmiddle.map _).symm.trans ho.tiers).trans (howed.map _)
    rw [List.map_cons, List.map_cons, hx] at htiers
    exact htiers.cons_inv
  · have hhandles := ((hmiddle.filterMap t.handle?).subperm_right.mp ho.handles).trans howed.subperm
    rcases hwhich with hnamed | hno
    · rw [List.filterMap_cons_some hnamed] at hhandles
      exact (List.subperm_cons h).mp hhandles
    · have hleft : h ∉ (pre ++ post).filterMap t.handle? := by
        rw [List.mem_filterMap]
        rintro ⟨y, hy, hh⟩
        exact hno y (hmiddle.mem_iff.mpr (List.mem_cons_of_mem x hy)) hh
      have hsub : ((pre ++ post).filterMap t.handle?).Subperm owed :=
        ((List.Sublist.append_left (List.sublist_cons_self x post) pre).filterMap _).subperm.trans
          ho.handles
      rw [← List.erase_of_not_mem hleft]
      exact hsub.erase h

/-- A completion that is owed, but names no live awaited parent, tells of one that was retired. -/
theorem exists_retired (ho : t.Owes awaited owed) (hmem : h ∈ owed)
    (hno : ∀ y ∈ awaited, t.handle? y ≠ some h) :
    ∃ y ∈ awaited, y.tier = h.tier ∧ t.handle? y = none := by
  by_contra hall
  push Not at hall
  have hlive : (awaited.filterMap t.handle?).countP (·.tier = h.tier) =
      awaited.countP (·.tier = h.tier) := by
    rw [List.countP_filterMap]
    refine List.countP_congr fun y hy => ?_
    cases hk : t.handle? y with
    | none =>
      have hne : y.tier ≠ h.tier := fun hy' => hall y hy hy' hk
      simp [hne]
    | some k => simp [tier_of_handle? hk]
  have hleft : h ∉ awaited.filterMap t.handle? := by
    rw [List.mem_filterMap]
    rintro ⟨y, hy, hh⟩
    exact hno y hy hh
  have hle := (ho.handles.erase h).countP_le fun k => k.tier = h.tier
  rw [List.erase_of_not_mem hleft, hlive] at hle
  have htiers := ho.tiers.countP_eq fun tier => tier = h.tier
  have howed := (List.perm_cons_erase hmem).countP_eq fun k => k.tier = h.tier
  simp only [List.countP_map, Function.comp_def] at htiers
  simp only [List.countP_cons, decide_true, if_true] at howed
  omega

end Owes

end Gatt.Tree

namespace Peer

variable {q : Peer H} {n : Nat} {report : PeerReport H}

theorem Learns.wanes {ds : List Discovery} (hf : q.tree.Faithful ds n)
    {tree : Tree H.Service H.Characteristic H.Descriptor} {ids : IdSource} {ns : List Notice}
    (h : q.Learns n report tree ids ns) : q.tree.Wanes n tree := by
  cases h with
  | nothing => exact q.tree.wanes_refl n
  | discovery k d _ m _ hr => exact hr.wanes fun s => (hf.mem_order s).mpr

theorem Learns.rebuilds {tree : Tree H.Service H.Characteristic H.Descriptor} {ids : IdSource}
    {k : PeerNotice} (h : q.Learns n report tree ids [q.notice k]) :
    (q.discovery? report k = none → tree = q.tree) ∧
      ∀ d, q.discovery? report k = some d → ∃ m, q.tree.Rebuilds n d tree m := by
  generalize hns : [q.notice k] = ns at h
  cases h with
  | nothing _ hno =>
    refine ⟨fun _ => rfl, fun d hd => ?_⟩
    rw [hno k hns.symm] at hd
    cases hd
  | discovery k' d _ m hd hr =>
    cases notice_inj hns
    refine ⟨fun hnone => ?_, fun d' hd' => ?_⟩
    · rw [hnone] at hd
      cases hd
    · rw [hd] at hd'
      cases hd'
      exact ⟨m, hr⟩

/-- What is awaited of a peer is matched by what the host owes, and was once reported. -/
structure Matched (q : Peer H) (owed : List (Parent H.Service H.Characteristic))
    (ds : List Discovery) : Prop where
  owes : q.tree.Owes q.awaited owed
  known : ∀ x ∈ q.awaited, Reported ds x.tier x.id

theorem Matched.congr {q' : Peer H} {owed : List (Parent H.Service H.Characteristic)}
    {ds : List Discovery} (h : q.Matched owed ds) (htree : q'.tree = q.tree)
    (hawaited : q'.awaited = q.awaited) : q'.Matched owed ds := by
  refine ⟨?_, fun x hx => h.known x (hawaited ▸ hx)⟩
  rw [htree, hawaited]
  exact h.owes

theorem Matched.settle {q' : Peer H} {owed : List (Parent H.Service H.Characteristic)}
    {ds : List Discovery} {h : Parent H.Service H.Characteristic}
    {pre post : List (Parent AttrId AttrId)} {x : Parent AttrId AttrId} {k : PeerNotice}
    (hm : q.Matched owed ds) (hs : q.Settles q' report h pre x post k) (hmem : h ∈ owed)
    (hwanes : q.tree.Wanes n q'.tree) (hold : ∀ x ∈ q.awaited, x.id.raw.toNat ≤ n) :
    q'.Matched (owed.erase h) ds := by
  have hleft (y : Parent AttrId AttrId) (hy : y ∈ pre ++ post) : y ∈ q.awaited := by
    rw [hs.awaited]
    exact (List.Sublist.append_left (List.sublist_cons_self x post) pre).subset hy
  have hwhich : q.tree.handle? x = some h ∨
      ∀ y ∈ pre ++ x :: post, q.tree.handle? y ≠ some h := by
    by_cases hnamed : q.tree.handle? x = some h
    · exact .inl hnamed
    · right
      rw [← hs.awaited]
      exact (hs.oldest hnamed).1
  have howes := hm.owes
  rw [hs.awaited] at howes
  have hanswer := howes.answer hmem hs.tier_eq hwhich
  refine ⟨?_, fun y hy => ?_⟩
  · rw [hs.left]
    exact hanswer.wane hwanes fun y hy => hold y (hleft y hy)
  · rw [hs.left] at hy
    exact hm.known y (hleft y hy)

theorem Matched.notMem {owed : List (Parent H.Service H.Characteristic)} {ds : List Discovery}
    {h : Parent H.Service H.Characteristic} (hm : q.Matched owed ds)
    (hnone : ∀ x ∈ q.awaited, x.tier ≠ h.tier) : h ∉ owed := by
  intro hmem
  have htier := hm.owes.tiers.mem_iff.mpr (List.mem_map_of_mem hmem)
  obtain ⟨x, hx, hxh⟩ := List.mem_map.mp htier
  exact hnone x hx hxh

theorem Matched.mono {owed : List (Parent H.Service H.Characteristic)} {ds : List Discovery}
    (h : q.Matched owed ds) (ds' : List Discovery) : q.Matched owed (ds ++ ds') := by
  refine ⟨h.owes, fun x hx => ?_⟩
  obtain ⟨d, hd, hxd⟩ := h.known x hx
  exact ⟨d, List.mem_append_left ds' hd, hxd⟩

end Peer

namespace Moment

variable {t : Moment H} {c : CentralId} {p : PeerId}

/-- The parent, by its handle, of a discovery that the host is asked for. -/
def called? (t : Moment H) (c : CentralId) (p : PeerId) :
    Option (Parent H.Service H.Characteristic) :=
  (t.accepted? c p).bind fun action => (t.before c p).bind fun q =>
    action.parent?.bind q.tree.handle?

/-- The parent, by its handle, of a discovery that the host completes. -/
def answered? (t : Moment H) (c : CentralId) (p : PeerId) :
    Option (Parent H.Service H.Characteristic) :=
  match t.move with
  | .report c' (.peer p' report) => if c' = c ∧ p' = p then report.parent? else none
  | _ => none

/-- The calls of a link that are still to be answered. Nothing is owed once the link is down. -/
def owes (t : Moment H) (c : CentralId) (p : PeerId)
    (owed : List (Parent H.Service H.Characteristic)) : List (Parent H.Service H.Characteristic) :=
  match t.later c p with
  | none => []
  | some q =>
    if q.state = .disconnected then []
    else match t.answered? c p with
      | some h => owed.erase h
      | none => owed ++ (t.called? c p).toList

/-- A completion that arrives while a discovery of its tier is pending is owed. -/
def Due (t : Moment H) (c : CentralId) (p : PeerId)
    (owed : List (Parent H.Service H.Characteristic)) : Prop :=
  ∀ h ∈ t.answered? c p, ∀ q ∈ t.before c p, (∃ x ∈ q.awaited, x.tier = h.tier) → h ∈ owed

instance (owed : List (Parent H.Service H.Characteristic)) : Decidable (t.Due c p owed) :=
  inferInstanceAs (Decidable (∀ h ∈ t.answered? c p, ∀ q ∈ t.before c p,
    (∃ x ∈ q.awaited, x.tier = h.tier) → h ∈ owed))

theorem owes_of_none (h : t.later c p = none) (owed : List (Parent H.Service H.Characteristic)) :
    t.owes c p owed = [] := by
  rw [owes, h]

theorem owes_of_disconnected {q' : Peer H} (h : t.later c p = some q')
    (hdown : q'.state = .disconnected) (owed : List (Parent H.Service H.Characteristic)) :
    t.owes c p owed = [] := by
  rw [owes, h]
  exact if_pos hdown

theorem owes_of_some {q' : Peer H} (h : t.later c p = some q') (hup : q'.state ≠ .disconnected)
    (owed : List (Parent H.Service H.Characteristic)) :
    t.owes c p owed = match t.answered? c p with
      | some h => owed.erase h
      | none => owed ++ (t.called? c p).toList := by
  rw [owes, h]
  exact if_neg hup

theorem answered?_of_report {report : PeerReport H} (hm : t.move = .report c (.peer p report)) :
    t.answered? c p = report.parent? := by
  simp [answered?, hm]

theorem answered?_eq_none {q : Peer H} (hq : t.before c p = some q)
    (hno : ∀ q report, t.move = .report c (.peer p report) → t.before c p ≠ some q) :
    t.answered? c p = none := by
  simp only [answered?]
  split
  next hm =>
    split
    next hcp =>
      obtain ⟨rfl, rfl⟩ := hcp
      exact absurd hq (hno q _ hm)
    next => rfl
  next => rfl

theorem called?_of_report {c' : CentralId} {r : Report H} (hm : t.move = .report c' r) :
    t.called? c p = none := by
  rw [called?, accepted?_eq_none_of_report hm]
  rfl

theorem live_of_accepted {q : Peer H} {action : PeerAction} {x : Parent AttrId AttrId}
    (hq : t.before c p = some q) (hup : q.state = .connected)
    (haccepted : t.accepted? c p = some action) (hx : action.parent? = some x) :
    q.tree.Live x.tier x.id := by
  have hattribute : action.attribute? = some (x.tier, x.id) := by
    cases action <;> cases hx <;> rfl
  simp only [accepted?] at haccepted
  split at haccepted
  next answers c' p' action' hm =>
    split at haccepted
    next hok =>
      obtain ⟨rfl, rfl, hok⟩ := hok
      cases haccepted
      rw [Hub.result_act hq] at hok
      by_contra hdead
      rw [(Peer.result_perform answers hup hattribute).mpr hdead] at hok
      cases hok
    next => cases haccepted
  next => cases haccepted

section Matched

variable {ds : CentralId → PeerId → List Discovery} {n : Nat}
  {owed : List (Parent H.Service H.Characteristic)} {q q' : Peer H}

theorem matched_reported {report : PeerReport H} (hl : t.hub.Learned ds n)
    (hn : n + t.found.length < UInt64.size) (hm : t.move = .report c (.peer p report))
    (hq : t.before c p = some q) (hmatched : q.Matched owed (ds c p)) (hdue : t.Due c p owed)
    (hq' : t.later c p = some q') (hup : q'.state ≠ .disconnected) :
    q'.Matched (t.owes c p owed) (ds c p) := by
  have hf := hl.faithful hq
  have hold (x : Parent AttrId AttrId) (hx : x ∈ q.awaited) : x.id.raw.toNat ≤ n := by
    obtain ⟨d, hd, -, hxd⟩ := hmatched.known x hx
    exact hf.reported_le d hd x.id hxd
  have hfound : t.found = report.found := by simp [found, hm]
  have hlearns := Peer.learns_receive hf t.hub.settings report (hfound ▸ hn)
  rw [← hl.ids_eq] at hlearns
  have hwanes := hlearns.wanes hf
  have hlater := (reported_spec hm hq).1
  rw [hq', Option.some.injEq] at hlater
  rw [← hlater] at hwanes
  rw [owes_of_some hq' hup, answered?_of_report hm, called?_of_report hm]
  cases hparent : report.parent? with
  | none =>
    have hawaited : q'.awaited = q.awaited := by
      have hreaction := q.reaction_receive t.hub.settings t.hub.ids report
      rw [← hlater] at hreaction
      exact (hreaction.awaited hparent).resolve_right hup
    simp only [Option.toList_none, List.append_nil]
    refine ⟨?_, fun x hx => hmatched.known x (hawaited ▸ hx)⟩
    rw [hawaited]
    exact hmatched.owes.wane hwanes hold
  | some h =>
    have hsettles := Peer.settles_receive hf.sound t.hub.settings t.hub.ids hparent
    dsimp only at hsettles
    rw [← hlater] at hsettles
    rcases hsettles with ⟨hnone, rfl, -⟩ | ⟨pre, x, post, k, -, hsettles⟩
    · simp only [List.erase_of_not_mem (hmatched.notMem hnone)]
      exact hmatched
    · have hmem : h ∈ owed := by
        refine hdue h (by rw [answered?_of_report hm, hparent]; rfl) q hq ⟨x, ?_, hsettles.tier_eq⟩
        simp [hsettles.awaited]
      exact hmatched.settle hsettles hmem hwanes hold

theorem answered?_of_accepted {action : PeerAction} (hacc : t.accepted? c p = some action) :
    t.answered? c p = none := by
  simp only [answered?]
  split
  next hm =>
    rw [accepted?_eq_none_of_report hm] at hacc
    cases hacc
  next => rfl

theorem matched_accepted (hl : t.hub.Learned ds n) {action : PeerAction}
    (hq : t.before c p = some q) (hmatched : q.Matched owed (ds c p))
    (hacc : t.accepted? c p = some action) (haccepts : q.Accepts action q') :
    q'.Matched (owed ++ (t.called? c p).toList) (ds c p) := by
  have hcalled : t.called? c p = action.parent?.bind q.tree.handle? := by
    rw [called?, hacc, hq]
    rfl
  have hawaited := haccepts.awaited
  rw [hcalled]
  cases hp : action.parent? with
  | none =>
    rw [hp, Option.toList_none, List.append_nil] at hawaited
    simpa using hmatched.congr haccepts.tree hawaited
  | some x =>
    have hlive := live_of_accepted hq (haccepts.connected hp) hacc hp
    obtain ⟨k, hk⟩ := Option.isSome_iff_exists.mp (Tree.isSome_handle?.mpr hlive)
    have howes := hmatched.owes.call hk
    simp only [hp, Option.toList_some] at hawaited
    simp only [Option.bind_some, hk, Option.toList_some]
    refine ⟨by rwa [hawaited, haccepts.tree], fun y hy => ?_⟩
    rw [hawaited] at hy
    rcases List.mem_append.mp hy with hy | hy
    · exact hmatched.known y hy
    · rw [List.mem_singleton.mp hy]
      exact (hl.faithful hq).reported hlive

/-- A peer to which nothing is reported owes what it owed, and what it is newly asked for. -/
theorem matched_kept (hl : t.hub.Learned ds n) (hlabelled : t.hub.Labelled)
    (hmatched : ∀ q, t.before c p = some q → q.Matched owed (ds c p))
    (hnone : t.before c p = none → owed = [])
    (hno : ∀ q report, t.move = .report c (.peer p report) → t.before c p ≠ some q)
    (hq' : t.later c p = some q') (hup : q'.state ≠ .disconnected) :
    q'.Matched (t.owes c p owed) (ds c p) := by
  have hfate := t.fate hlabelled c p
  rw [owes_of_some hq' hup]
  generalize hx : t.before c p = x at hfate
  rw [hq'] at hfate
  cases hfate with
  | kept _ _ hacc =>
    rw [answered?_eq_none hx hno, called?, hacc]
    simpa using hmatched q' hx
  | tracked => exact absurd rfl hup
  | accepted _ q _ action hq _ hacc haccepts =>
    rw [answered?_of_accepted hacc]
    rcases hq with rfl | ⟨rfl, native, rfl⟩
    · exact matched_accepted hl hx (hmatched q hx) hacc haccepts
    · -- A peer that is new awaits nothing, and nothing is owed for it.
      have hcalled : t.called? c p = none := by
        rw [called?, hx]
        cases t.accepted? c p <;> rfl
      cases haccepts.of_new
      have hnil : q'.awaited = [] := haccepts.awaited
      simp only [hcalled, hnone hx, Option.toList_none, List.append_nil]
      exact ⟨hnil ▸ Tree.Owes.nil _, fun y hy => by simp [hnil] at hy⟩
  | reported q _ report hm => exact absurd hx (hno q report hm)
  | observed q record hm =>
    obtain ⟨rssi, hrssi⟩ := q.observe_eq record.rssi
    rw [answered?_eq_none hx hno, called?_of_report hm]
    simp only [Option.toList_none, List.append_nil, hrssi]
    exact (hmatched q hx).congr rfl rfl

theorem matched (hl : t.hub.Learned ds n) (hlabelled : t.hub.Labelled) (hc : t.hub.Consistent)
    (hn : n + t.found.length < UInt64.size)
    (hmatched : ∀ q, t.before c p = some q → q.Matched owed (ds c p))
    (hnone : t.before c p = none → owed = []) (hdue : t.Due c p owed) {h : Hub H}
    (ha : t.after = some h) (hq' : h.peer? c p = some q') :
    q'.Matched (t.owes c p owed) (ds c p) := by
  have hlater : t.later c p = some q' := by rw [later_eq ha, hq']
  by_cases hdown : q'.state = .disconnected
  · have hnil : q'.awaited = [] := by
      rw [Peer.awaited, ((consistent hlabelled hc ha c p q' hq').disconnected hdown).1]
      rfl
    rw [owes_of_disconnected hlater hdown]
    exact ⟨hnil ▸ Tree.Owes.nil _, fun x hx => by simp [hnil] at hx⟩
  · by_cases hreported : ∃ q report, t.move = .report c (.peer p report) ∧ t.before c p = some q
    · obtain ⟨q, report, hm, hq⟩ := hreported
      exact matched_reported hl hn hm hq (hmatched q hq) hdue hlater hdown
    · exact matched_kept hl hlabelled hmatched hnone
        (fun q report hm hq => hreported ⟨q, report, hm, hq⟩) hlater hdown

end Matched

end Moment

/-- The calls that the host has still to answer after these moments. -/
def owed (c : CentralId) (p : PeerId) (past : List (Moment H)) :
    List (Parent H.Service H.Characteristic) := past.foldl (fun owed t => t.owes c p owed) []

/-- Whenever something of its tier is pending, a completion answers a call of the present link
that was not answered before. -/
def Prompt (c : CentralId) (p : PeerId) (past : List (Moment H)) : Prop :=
  ∀ i, (h : i < past.length) → past[i].Due c p (owed c p (past.take i))

instance (c : CentralId) (p : PeerId) (past : List (Moment H)) : Decidable (Prompt c p past) :=
  inferInstanceAs (Decidable (∀ i, (h : i < past.length) →
    past[i].Due c p (owed c p (past.take i))))

section Prompt

variable {c : CentralId} {p : PeerId} {ts us : List (Moment H)} {t : Moment H}

theorem owed_append_singleton : owed c p (ts ++ [t]) = t.owes c p (owed c p ts) := by
  simp [owed]

theorem Prompt.of_append (h : Prompt c p (ts ++ us)) : Prompt c p ts := by
  intro i hi
  have hdue := h i (by simp; omega)
  rwa [List.getElem_append_left hi, List.take_append_of_le_length (Nat.le_of_lt hi)] at hdue

theorem Prompt.due (h : Prompt c p (ts ++ t :: us)) : t.Due c p (owed c p ts) := by
  have hdue := h ts.length (by simp)
  rwa [List.getElem_of_append rfl rfl, List.take_left] at hdue

end Prompt

namespace Run

/-- As long as the host is prompt, what is pending is matched by what it owes. -/
theorem matched (settings : Settings) (ms : List (Move H)) (c : CentralId) (p : PeerId)
    (hbound : (of settings ms).found.length < UInt64.size)
    (hprompt : Prompt c p (of settings ms).past) :
    ∀ h, (of settings ms).hub = some h →
      (h.peer? c p = none → owed c p (of settings ms).past = []) ∧
      ∀ q, h.peer? c p = some q →
        q.Matched (owed c p (of settings ms).past) ((of settings ms).discoveries c p) := by
  revert hbound hprompt
  refine of_induction (P := fun r => r.found.length < UInt64.size → Prompt c p r.past →
    ∀ h, r.hub = some h → (h.peer? c p = none → owed c p r.past = []) ∧
      ∀ q, h.peer? c p = some q → q.Matched (owed c p r.past) (r.discoveries c p))
    settings ?_ ?_ ms
  · rintro - - h ⟨⟩
    exact ⟨fun _ => rfl, nofun⟩
  · intro ms h m hr ih hbound hprompt h' ha
    rw [found_append_singleton, List.length_append] at hbound
    obtain ⟨n, hn, hlearned⟩ := learned settings ms (by omega) h hr
    obtain ⟨hnone, hmatched⟩ := ih (by omega) hprompt.of_append h hr
    rw [discoveries_append_singleton]
    simp only [owed_append_singleton]
    refine ⟨fun hq' => Moment.owes_of_none ((Moment.later_eq ha c p).trans hq') _, fun q' hq' => ?_⟩
    have hstep := Moment.matched (t := ⟨h, m⟩) hlearned ((labelled settings ms).2 h hr)
      ((consistent settings ms).2 h hr) (by omega) hmatched hnone hprompt.due ha hq'
    rw [Moment.later_eq ha, hq']
    simp only [Option.isSome_some, if_true]
    exact hstep.mono _

end Run

end GattHub
