import GattHub.Proofs.Link
import GattHub.Proofs.Owing

/-! Whether the discoveries of one tier are told in the order in which they were asked for. A
completion goes to the present identity of its handle, so it may overtake the discovery of an
identity that was retired. Until that happens on a link, the order is kept. -/

namespace GattHub

open Gatt

variable {H : Handles}

namespace Gatt.Parent

variable {S C : Type} {tier : Tier} {l l' : List (Parent S C)} {x h : Parent S C}

def within (tier : Tier) (l : List (Parent S C)) : List (Parent S C) := l.filter (·.tier = tier)

theorem mem_within : x ∈ within tier l ↔ x ∈ l ∧ x.tier = tier := by
  simp [within]

theorem within_append : within tier (l ++ l') = within tier l ++ within tier l' :=
  List.filter_append l l'

theorem within_cons_of_eq (hx : x.tier = tier) : within tier (x :: l) = x :: within tier l :=
  List.filter_cons_of_pos (by simpa using hx)

theorem within_cons_of_ne (hx : x.tier ≠ tier) : within tier (x :: l) = within tier l :=
  List.filter_cons_of_neg (by simpa using hx)

theorem within_erase [DecidableEq S] [DecidableEq C] :
    within tier (l.erase h) = (within tier l).erase h :=
  List.erase_filter.symm

end Gatt.Parent

open Parent

/-- The tier of the parent whose discovery a notice tells of. -/
def PeerNotice.parentTier? : PeerNotice → Option Tier
  | .characteristicsDiscovered .. => some .services
  | .descriptorsDiscovered .. => some .characteristics
  | _ => none

def Notice.tells (c : CentralId) (p : PeerId) (tier : Tier) : Notice → Bool
  | .peer c' p' k => c' = c ∧ p' = p ∧ k.parentTier? = some tier
  | _ => false

theorem Notice.eq_of_tells {c : CentralId} {p : PeerId} {tier : Tier} (n : Notice)
    (h : n.tells c p tier = true) : ∃ k, n = .peer c p k := by
  cases n with
  | peer c' p' k =>
    obtain ⟨rfl, rfl, -⟩ : c' = c ∧ p' = p ∧ k.parentTier? = some tier := by simpa [tells] using h
    exact ⟨k, rfl⟩
  | _ => cases h

theorem PeerNotice.parentTier?_of_operation {k : PeerNotice} {x : Parent AttrId AttrId}
    (h : k.operation? = some x.operation) : k.parentTier? = some x.tier := by
  cases x <;> cases k <;> first | rfl | cases h

instance (x : Option (Peer H)) : Decidable (Engaged x) :=
  decidable_of_iff (x.any (·.state ≠ .disconnected) = true) (by cases x <;> simp [Engaged])

namespace Peer

variable {q q' : Peer H} {n : Nat} {tier : Tier} {ds : List Discovery}
  {owed owed' : List (Parent H.Service H.Characteristic)} {asked : List (Parent AttrId AttrId)}
  {told : Nat}

/-- The parent was once reported, and is behind this handle or retired. -/
def Pairs (q : Peer H) (ds : List Discovery) (x : Parent AttrId AttrId)
    (h : Parent H.Service H.Characteristic) : Prop :=
  Reported ds x.tier x.id ∧ ∀ k, q.tree.handle? x = some k → k = h

/-- What is pending in a tier is what was asked for there and not told yet, in order. It goes one by
one with what the host owes. -/
structure InOrder (q : Peer H) (tier : Tier) (owed : List (Parent H.Service H.Characteristic))
    (asked : List (Parent AttrId AttrId)) (told : Nat) (ds : List Discovery) : Prop where
  told_le : told ≤ asked.length
  queue : within tier q.awaited = asked.drop told
  paired : List.Forall₂ (q.Pairs ds) (within tier q.awaited) (within tier owed)

/-- The completion for a handle finds the discovery of its present identity behind that of another. -/
def Overtakes (q : Peer H) (h : Parent H.Service H.Characteristic) : Prop :=
  ∃ y ∈ within h.tier q.awaited, q.tree.handle? y = some h ∧
    (within h.tier q.awaited).head? ≠ some y

instance (q : Peer H) (h : Parent H.Service H.Characteristic) : Decidable (q.Overtakes h) :=
  inferInstanceAs (Decidable (∃ y ∈ within h.tier q.awaited, q.tree.handle? y = some h ∧
    (within h.tier q.awaited).head? ≠ some y))

/-- A notice is the outcome of the discovery below a parent: that of the host, with what it listed,
if the parent is live, and else that it is stale. -/
structure Concludes (q q' : Peer H) (report : PeerReport H) (k : PeerNotice)
    (x : Parent AttrId AttrId) : Prop where
  live : q.tree.Live x.tier x.id → k.status = report.status ∧
    (report.status = .ok → ∃ n d m, d.scope = x.scope ∧ q.discovery? report k = some d ∧
      q.tree.Rebuilds n d q'.tree m)
  retired : ¬ q.tree.Live x.tier x.id → k.status = .stale ∧ q'.tree = q.tree

theorem inOrder_nil (hnil : q.awaited = []) (ds : List Discovery) : q.InOrder tier [] [] 0 ds := by
  refine ⟨Nat.le_refl 0, by rw [hnil]; rfl, ?_⟩
  rw [hnil]
  exact .nil

theorem Pairs.wane {x : Parent AttrId AttrId} {h : Parent H.Service H.Characteristic}
    (hx : q.Pairs ds x h) (hf : q.tree.Faithful ds n) (hwanes : q.tree.Wanes n q'.tree) :
    q'.Pairs ds x h := by
  obtain ⟨⟨d, hd, hreports⟩, hnamed⟩ := hx
  have hold := hf.reported_le d hd x.id hreports.2
  exact ⟨⟨d, hd, hreports⟩, fun k hk => hnamed k (hwanes.handle? x k hold hk)⟩

theorem InOrder.mono (h : q.InOrder tier owed asked told ds) (ds' : List Discovery) :
    q.InOrder tier owed asked told (ds ++ ds') := by
  refine ⟨h.told_le, h.queue, h.paired.imp fun x k hx => ?_⟩
  obtain ⟨⟨d, hd, hreports⟩, hnamed⟩ := hx
  exact ⟨⟨d, List.mem_append_left ds' hd, hreports⟩, hnamed⟩

theorem InOrder.carry (h : q.InOrder tier owed asked told ds) (hf : q.tree.Faithful ds n)
    (hwanes : q.tree.Wanes n q'.tree) (hawaited : within tier q'.awaited = within tier q.awaited)
    (howed : within tier owed' = within tier owed) : q'.InOrder tier owed' asked told ds := by
  refine ⟨h.told_le, hawaited.trans h.queue, ?_⟩
  rw [hawaited, howed]
  exact h.paired.imp fun _ _ hx => hx.wane hf hwanes

theorem InOrder.call (h : q.InOrder tier owed asked told ds) (hf : q.tree.Faithful ds n)
    {x : Parent AttrId AttrId} {k : Parent H.Service H.Characteristic}
    (hx : q.tree.handle? x = some k) (htree : q'.tree = q.tree)
    (hawaited : q'.awaited = q.awaited ++ [x]) :
    q'.InOrder tier (owed ++ [k]) (asked ++ within tier [x]) told ds := by
  have hle : told ≤ (asked ++ within tier [x]).length := by
    rw [List.length_append]
    exact Nat.le_add_right_of_le h.told_le
  refine ⟨hle, ?_, ?_⟩
  · rw [hawaited, within_append, h.queue, List.drop_append_of_le_length h.told_le]
  · have hwanes : q.tree.Wanes n q'.tree := htree ▸ q.tree.wanes_refl n
    have hkept := h.paired.imp fun _ _ hx => hx.wane hf hwanes
    rw [hawaited, within_append, within_append]
    refine List.rel_append hkept ?_
    by_cases hxt : x.tier = tier
    · have hkt : k.tier = tier := (Tree.tier_of_handle? hx).symm.trans hxt
      rw [within_cons_of_eq hxt, within_cons_of_eq hkt]
      refine .cons ⟨hf.reported (Tree.isSome_handle?.mp (Option.isSome_of_eq_some hx)), ?_⟩ .nil
      intro k' hk'
      rw [htree, hx] at hk'
      exact (Option.some.inj hk').symm
    · have hkt : k.tier ≠ tier := fun hkt => hxt ((Tree.tier_of_handle? hx).trans hkt)
      rw [within_cons_of_ne hxt, within_cons_of_ne hkt]
      exact .nil

/-- The oldest discovery that is pending is the next one to tell of. -/
theorem InOrder.next (hi : q.InOrder tier owed asked told ds)
    {h : Parent H.Service H.Characteristic} (hturn : (within tier owed).head? = some h) :
    ∃ x rest later, within tier q.awaited = x :: rest ∧ within tier owed = h :: later ∧
      asked[told]? = some x ∧ rest = asked.drop (told + 1) ∧
      (∀ k, q.tree.handle? x = some k → k = h) ∧
      List.Forall₂ (q.Pairs ds) rest later := by
  obtain ⟨later, hlater⟩ := List.head?_eq_some_iff.mp hturn
  have hpaired := hi.paired
  rw [hlater] at hpaired
  obtain ⟨x, rest, ⟨-, hx⟩, hrest, hawaited⟩ := List.forall₂_cons_right_iff.mp hpaired
  have hdrop : asked.drop told = x :: rest := hi.queue.symm.trans hawaited
  refine ⟨x, rest, later, hawaited, hlater, ?_, ?_, hx, hrest⟩
  · rw [← List.head?_drop, hdrop]
    rfl
  · rw [← List.tail_drop, hdrop]
    rfl

/-- A completion in turn settles the oldest discovery that is pending, or overtakes it. -/
theorem Settles.oldest_or_overtakes {report : PeerReport H} {h : Parent H.Service H.Characteristic}
    {pre post rest : List (Parent AttrId AttrId)} {x y : Parent AttrId AttrId} {k : PeerNotice}
    (hs : q.Settles q' report h pre y post k) (ht : q.tree.Sound n)
    (hawaited : within h.tier q.awaited = x :: rest)
    (hx : ∀ k, q.tree.handle? x = some k → k = h) :
    ¬ q.Overtakes h ∧ y = x ∧ within h.tier q'.awaited = rest ∨
      q.Overtakes h ∧ y ≠ x ∧ q.tree.handle? y = some h ∧ q.tree.handle? x = none := by
  have hsplit : within h.tier pre ++ y :: within h.tier post = x :: rest := by
    rw [← within_cons_of_eq hs.tier_eq, ← within_append, ← hs.awaited, hawaited]
  have hy : y ∈ within h.tier q.awaited :=
    mem_within.mpr ⟨by rw [hs.awaited]; simp, hs.tier_eq⟩
  have hlast (hnil : within h.tier pre = []) : y = x ∧ within h.tier q'.awaited = rest := by
    rw [hnil, List.nil_append, List.cons.injEq] at hsplit
    refine ⟨hsplit.1, ?_⟩
    rw [hs.left, within_append, hnil]
    exact hsplit.2
  -- The settled discovery is the one of the present identity of the handle, or else the oldest.
  by_cases hnamed : q.tree.handle? y = some h
  · by_cases hyx : y = x
    · have hnil : within h.tier pre = [] := by
        cases hpre : within h.tier pre with
        | nil => rfl
        | cons z zs =>
          rw [hpre, List.cons_append, List.cons.injEq] at hsplit
          have hz : z ∈ pre := (mem_within.mp (hpre ▸ List.mem_cons_self)).1
          exact absurd (hsplit.1.trans hyx.symm ▸ hz) hs.first
      refine .inl ⟨?_, hlast hnil⟩
      rintro ⟨z, -, hz, hne⟩
      rw [hawaited, ht.parent_inj hz hnamed, hyx] at hne
      exact hne rfl
    · refine .inr ⟨⟨y, hy, hnamed, ?_⟩, hyx, hnamed, ?_⟩
      · rw [hawaited]
        exact fun heq => hyx (Option.some.inj heq).symm
      · refine Option.eq_none_iff_forall_ne_some.mpr fun k hk => hyx ?_
        exact ht.parent_inj hnamed (hk.trans (congrArg some (hx k hk)))
  · obtain ⟨hnone, holdest⟩ := hs.oldest hnamed
    have hnil : within h.tier pre = [] := by
      rw [within, List.filter_eq_nil_iff]
      intro z hz
      simpa using holdest z hz
    refine .inl ⟨?_, hlast hnil⟩
    rintro ⟨z, hz, hzh, -⟩
    exact hnone z (mem_within.mp hz).1 hzh

theorem Settles.concludes {report : PeerReport H} {h : Parent H.Service H.Characteristic}
    {pre post : List (Parent AttrId AttrId)} {x : Parent AttrId AttrId} {k : PeerNotice}
    {ids : IdSource} (hs : q.Settles q' report h pre x post k)
    (hx : ∀ k, q.tree.handle? x = some k → k = h)
    (hlearns : q.Learns n report q'.tree ids [q.notice k]) : q.Concludes q' report k x := by
  obtain ⟨hsame, hrebuilt⟩ := hlearns.rebuilds
  have hstatus := hs.status
  have hdiscovery := hs.discovery
  refine ⟨fun hlive => ?_, fun hdead => ?_⟩
  · obtain ⟨k', hk'⟩ := Option.isSome_iff_exists.mp (Tree.isSome_handle?.mpr hlive)
    have hnamed : q.tree.handle? x = some h := hx k' hk' ▸ hk'
    rw [if_pos hnamed] at hstatus
    refine ⟨hstatus, fun hok => ?_⟩
    rw [if_pos ⟨hnamed, hok⟩] at hdiscovery
    obtain ⟨d, hd, hscope⟩ := Option.map_eq_some_iff.mp hdiscovery
    obtain ⟨m, hr⟩ := hrebuilt d hd
    exact ⟨n, d, m, hscope, hd, hr⟩
  · have hunnamed : q.tree.handle? x ≠ some h := fun hnamed =>
      hdead (Tree.isSome_handle?.mp (Option.isSome_of_eq_some hnamed))
    rw [if_neg hunnamed] at hstatus
    rw [if_neg fun hnamed => hunnamed hnamed.1, Option.map_eq_none_iff] at hdiscovery
    exact ⟨hstatus, hsame hdiscovery⟩

end Peer

namespace Moment

variable {t : Moment H} {c : CentralId} {p : PeerId} {tier : Tier}

def asks? (t : Moment H) (c : CentralId) (p : PeerId) : Option (Parent AttrId AttrId) :=
  (t.accepted? c p).bind PeerAction.parent?

def tells (t : Moment H) (c : CentralId) (p : PeerId) (tier : Tier) : Nat :=
  t.notices.countP (Notice.tells c p tier)

/-- A completion that arrives while discoveries of its tier are pending answers the oldest call
there that is owed. -/
def InTurn (t : Moment H) (c : CentralId) (p : PeerId) (tier : Tier)
    (owed : List (Parent H.Service H.Characteristic)) : Prop :=
  ∀ h ∈ t.answered? c p, h.tier = tier → ∀ q ∈ t.before c p, within tier q.awaited ≠ [] →
    (within tier owed).head? = some h

instance (owed : List (Parent H.Service H.Characteristic)) : Decidable (t.InTurn c p tier owed) :=
  inferInstanceAs (Decidable (∀ h ∈ t.answered? c p, h.tier = tier → ∀ q ∈ t.before c p,
    within tier q.awaited ≠ [] → (within tier owed).head? = some h))

def Overtakes (t : Moment H) (c : CentralId) (p : PeerId) (tier : Tier) : Prop :=
  ∃ h ∈ t.answered? c p, h.tier = tier ∧ ∃ q ∈ t.before c p, q.Overtakes h

instance : Decidable (t.Overtakes c p tier) :=
  inferInstanceAs (Decidable (∃ h ∈ t.answered? c p, h.tier = tier ∧
    ∃ q ∈ t.before c p, q.Overtakes h))

theorem overtakes_iff {report : PeerReport H} {q : Peer H} {h : Parent H.Service H.Characteristic}
    (hm : t.move = .report c (.peer p report)) (hq : t.before c p = some q)
    (hh : report.parent? = some h) : t.Overtakes c p h.tier ↔ q.Overtakes h := by
  simp [Overtakes, answered?_of_report hm, hh, hq]

theorem tells_of_silent (h : Silent c p t.notices) : t.tells c p tier = 0 :=
  h.countP_eq_zero Notice.eq_of_tells

theorem asks?_of_report {c' : CentralId} {r : Report H} (hm : t.move = .report c' r) :
    t.asks? c p = none := by
  rw [asks?, accepted?_eq_none_of_report hm]
  rfl

theorem tells_reported {q q' : Peer H} {report : PeerReport H}
    (hreaction : q.Reaction report q' t.notices) (hparent : report.parent? = none)
    (hup : q'.state ≠ .disconnected) : t.tells c p tier = 0 := by
  rw [tells]
  generalize t.notices = ns at hreaction
  cases hreaction with
  | ignored | established | passed | forwarded => simp [Notice.tells, Peer.notice, PeerNotice.parentTier?]
  | failed | lost => exact absurd rfl hup
  | completed _ op _ n _ _ _ _ hop hn =>
    have hnone : n.parentTier? = none := by
      cases op <;> cases report <;> cases hop <;> cases hparent <;> cases n <;> first | rfl | cases hn
    simp [Notice.tells, Peer.notice, hnone]

section InOrder

variable {ds : CentralId → PeerId → List Discovery} {n told : Nat}
  {owed : List (Parent H.Service H.Characteristic)} {asked : List (Parent AttrId AttrId)}
  {q q' : Peer H}

theorem inOrder_completed {report : PeerReport H} {h : Parent H.Service H.Characteristic}
    (hlabelled : t.hub.Labelled) (hf : q.tree.Faithful (ds c p) n)
    (hm : t.move = .report c (.peer p report)) (hq : t.before c p = some q)
    (hq' : t.later c p = some q') (hparent : report.parent? = some h)
    (hwanes : q.tree.Wanes n q'.tree) (hi : q.InOrder tier owed asked told (ds c p))
    (hturn : t.InTurn c p tier owed) (hno : ¬ t.Overtakes c p tier) :
    q'.InOrder tier (owed.erase h) asked (told + t.tells c p tier) (ds c p) := by
  obtain ⟨hlater, hnotices⟩ := reported_spec hm hq
  rw [hq', Option.some.injEq] at hlater
  have hsettles := Peer.settles_receive hf.sound t.hub.settings t.hub.ids hparent
  dsimp only at hsettles
  rw [← hlater, ← hnotices] at hsettles
  rcases hsettles with ⟨hnone, rfl, hns⟩ | ⟨pre, y, post, k, hns, hsettles⟩
  · -- The completion is dropped, and no call of its tier was owed.
    have htells : t.tells c p tier = 0 := by simp [tells, hns]
    have howed : within tier (owed.erase h) = within tier owed := by
      rw [within_erase]
      refine List.erase_of_not_mem fun hmem => ?_
      have htier := (mem_within.mp hmem).2
      have hnil : within tier q'.awaited = [] := by
        rw [within, List.filter_eq_nil_iff]
        intro x hx
        simpa [← htier] using hnone x hx
      have hpaired := hi.paired
      rw [hnil, List.forall₂_nil_left_iff] at hpaired
      rw [hpaired] at hmem
      cases hmem
    rw [htells]
    exact hi.carry hf hwanes rfl howed
  · have hparent' := PeerNotice.parentTier?_of_operation hsettles.operation
    rw [hsettles.tier_eq] at hparent'
    have htells : t.tells c p tier = if h.tier = tier then 1 else 0 := by
      simp [tells, hns, Notice.tells, Peer.notice, hlabelled.peer_central hq,
        hlabelled.peer_id hq, hparent']
    by_cases htier : h.tier = tier
    · subst htier
      rw [htells, if_pos rfl]
      have hpending : within h.tier q.awaited ≠ [] :=
        List.ne_nil_of_mem (mem_within.mpr ⟨by rw [hsettles.awaited]; simp, hsettles.tier_eq⟩)
      have hhead := hturn h (by rw [answered?_of_report hm, hparent]; rfl) rfl q hq hpending
      obtain ⟨x, rest, later, hawaited, howed, hx, hrest, hxh, hpaired⟩ := hi.next hhead
      rw [overtakes_iff hm hq hparent] at hno
      obtain ⟨-, -, hleft⟩ :=
        (hsettles.oldest_or_overtakes hf.sound hawaited hxh).resolve_right fun hover => hno hover.1
      have hlt : told < asked.length := (List.getElem?_eq_some_iff.mp hx).1
      refine ⟨hlt, hleft.trans hrest, ?_⟩
      rw [hleft, within_erase, howed, List.erase_cons_head]
      exact hpaired.imp fun _ _ hx => hx.wane hf hwanes
    · have hy : y.tier ≠ tier := fun heq => htier (hsettles.tier_eq.symm.trans heq)
      have hawaited : within tier q'.awaited = within tier q.awaited := by
        rw [hsettles.left, hsettles.awaited, within_append, within_append, within_cons_of_ne hy]
      have howed : within tier (owed.erase h) = within tier owed := by
        rw [within_erase]
        exact List.erase_of_not_mem fun hmem => htier (mem_within.mp hmem).2
      rw [htells, if_neg htier]
      exact hi.carry hf hwanes hawaited howed

theorem inOrder_reported {report : PeerReport H} (hlabelled : t.hub.Labelled)
    (hl : t.hub.Learned ds n) (hn : n + t.found.length < UInt64.size)
    (hm : t.move = .report c (.peer p report)) (hq : t.before c p = some q)
    (hi : q.InOrder tier owed asked told (ds c p)) (hturn : t.InTurn c p tier owed)
    (hno : ¬ t.Overtakes c p tier) (hq' : t.later c p = some q') (hup : q'.state ≠ .disconnected) :
    q'.InOrder tier (t.owes c p owed) asked (told + t.tells c p tier) (ds c p) := by
  have hf := hl.faithful hq
  have hfound : t.found = report.found := by simp [found, hm]
  have hwanes := (Peer.learns_receive hf t.hub.settings report (hfound ▸ hn)).wanes hf
  obtain ⟨hlater, hnotices⟩ := reported_spec hm hq
  rw [hq', Option.some.injEq] at hlater
  rw [← hl.ids_eq, ← hlater] at hwanes
  rw [owes_of_some hq' hup, answered?_of_report hm, called?_of_report hm]
  cases hparent : report.parent? with
  | none =>
    have hreaction := q.reaction_receive t.hub.settings t.hub.ids report
    rw [← hlater, ← hnotices] at hreaction
    have hawaited : q'.awaited = q.awaited := (hreaction.awaited hparent).resolve_right hup
    rw [tells_reported hreaction hparent hup]
    simp only [Option.toList_none, List.append_nil, Nat.add_zero]
    exact hi.carry hf hwanes (by rw [hawaited]) rfl
  | some h => exact inOrder_completed hlabelled hf hm hq hq' hparent hwanes hi hturn hno

theorem inOrder_accepted {action : PeerAction} (hl : t.hub.Learned ds n)
    (hq : t.before c p = some q) (hi : q.InOrder tier owed asked told (ds c p))
    (hacc : t.accepted? c p = some action) (haccepts : q.Accepts action q') :
    q'.InOrder tier (owed ++ (t.called? c p).toList)
      (asked ++ within tier (t.asks? c p).toList) told (ds c p) := by
  have hf := hl.faithful hq
  have hasks : t.asks? c p = action.parent? := by simp [asks?, hacc]
  have hcalled : t.called? c p = action.parent?.bind q.tree.handle? := by simp [called?, hacc, hq]
  have hawaited := haccepts.awaited
  rw [hasks, hcalled]
  cases hp : action.parent? with
  | none =>
    rw [hp, Option.toList_none, List.append_nil] at hawaited
    simp only [Option.bind_none, Option.toList_none, List.append_nil]
    have hwanes : q.tree.Wanes n q'.tree := haccepts.tree ▸ q.tree.wanes_refl n
    rw [show within tier ([] : List (Parent AttrId AttrId)) = [] from rfl, List.append_nil]
    exact hi.carry hf hwanes (by rw [hawaited]) rfl
  | some x =>
    have hlive := live_of_accepted hq (haccepts.connected hp) hacc hp
    obtain ⟨k, hk⟩ := Option.isSome_iff_exists.mp (Tree.isSome_handle?.mpr hlive)
    rw [hp, Option.toList_some] at hawaited
    rw [Option.bind_some, hk, Option.toList_some, Option.toList_some]
    exact hi.call hf hk haccepts.tree hawaited

theorem inOrder_unreported (hlabelled : t.hub.Labelled) (hl : t.hub.Learned ds n)
    (hq : t.before c p = some q) (hi : q.InOrder tier owed asked told (ds c p))
    (hno : ∀ report, t.move ≠ .report c (.peer p report)) (hq' : t.later c p = some q')
    (hup : q'.state ≠ .disconnected) :
    q'.InOrder tier (t.owes c p owed) (asked ++ within tier (t.asks? c p).toList)
      (told + t.tells c p tier) (ds c p) := by
  have hfate := t.fate hlabelled c p
  have hanswered := answered?_eq_none hq fun _ report hm _ => hno report hm
  rw [owes_of_some hq' hup, hanswered]
  rw [hq, hq'] at hfate
  dsimp only
  cases hfate with
  | kept _ hns hacc =>
    have hasks : t.asks? c p = none := by simp [asks?, hacc]
    have hcalled : t.called? c p = none := by simp [called?, hacc]
    simpa [tells_of_silent hns, hasks, hcalled, within] using hi
  | accepted _ q₀ _ action hq₀ hns hacc haccepts =>
    rcases hq₀ with hq₀ | ⟨hnone, -⟩
    · cases hq₀
      rw [tells_of_silent (hns ▸ .nil c p), Nat.add_zero]
      exact inOrder_accepted hl hq hi hacc haccepts
    · cases hnone
  | reported _ _ report hm => exact absurd hm (hno report)
  | observed _ record hm _ hns =>
    obtain ⟨rssi, hrssi⟩ := q.observe_eq record.rssi
    have hcarry : ({ q with rssi := rssi } : Peer H).InOrder tier owed asked told (ds c p) :=
      hi.carry (hl.faithful hq) (q.tree.wanes_refl n) rfl rfl
    rw [tells_of_silent hns, asks?_of_report hm, called?_of_report hm, hrssi]
    simpa [within] using hcarry

end InOrder

end Moment

/-- The parents whose discoveries were asked for in a tier, in order. -/
def asked (c : CentralId) (p : PeerId) (tier : Tier) (ts : List (Moment H)) :
    List (Parent AttrId AttrId) := within tier (ts.filterMap (·.asks? c p))

/-- How many discoveries were told in a tier. -/
def told (c : CentralId) (p : PeerId) (tier : Tier) (ts : List (Moment H)) : Nat :=
  (ts.flatMap Moment.notices).countP (Notice.tells c p tier)

/-- In this tier the host answers the calls of a link in the order in which they were made. -/
def InTurn (c : CentralId) (p : PeerId) (tier : Tier) (past : List (Moment H)) : Prop :=
  ∀ i, (h : i < past.length) → past[i].InTurn c p tier (owed c p (past.take i))

instance (c : CentralId) (p : PeerId) (tier : Tier) (past : List (Moment H)) :
    Decidable (InTurn c p tier past) :=
  inferInstanceAs (Decidable (∀ i, (h : i < past.length) →
    past[i].InTurn c p tier (owed c p (past.take i))))

section InTurn

variable {c : CentralId} {p : PeerId} {tier : Tier} {ts us : List (Moment H)} {t : Moment H}

theorem InTurn.of_append (h : InTurn c p tier (ts ++ us)) : InTurn c p tier ts := by
  intro i hi
  have hturn := h i (by simp; omega)
  rwa [List.getElem_append_left hi, List.take_append_of_le_length (Nat.le_of_lt hi)] at hturn

theorem InTurn.inTurn (h : InTurn c p tier (ts ++ t :: us)) :
    t.InTurn c p tier (owed c p ts) := by
  have hturn := h ts.length (by simp)
  rwa [List.getElem_of_append rfl rfl, List.take_left] at hturn

theorem asked_append_singleton :
    asked c p tier (ts ++ [t]) = asked c p tier ts ++ within tier (t.asks? c p).toList := by
  rw [asked, List.filterMap_append, within_append]
  cases h : t.asks? c p <;> simp [asked, h]

theorem told_append_singleton : told c p tier (ts ++ [t]) = told c p tier ts + t.tells c p tier := by
  simp [told, Moment.tells]

end InTurn

namespace Run

variable (settings : Settings) (ms : List (Move H)) (c : CentralId) (p : PeerId)

theorem owed_of_not_engaged (h : ¬ Engaged ((of settings ms).hub.bind (·.peer? c p))) :
    owed c p (of settings ms).past = [] := by
  revert h
  refine of_induction (P := fun r => ¬ Engaged (r.hub.bind (·.peer? c p)) → owed c p r.past = [])
    settings (fun _ => rfl) ?_ ms
  intro ms h m hr _ hdown
  have hlater : ¬ Engaged ((Moment.mk h m).later c p) := hdown
  rw [owed_append_singleton]
  cases hq : (Moment.mk h m).later c p with
  | none => exact Moment.owes_of_none hq _
  | some q =>
    rw [hq, Peer.engaged_some, not_not] at hlater
    exact Moment.owes_of_disconnected hq hlater _

/-- On a link on which no completion overtook a discovery, what is pending is what was asked for and
not told yet. -/
theorem inOrder (tier : Tier) (hbound : (of settings ms).found.length < UInt64.size)
    (hturn : InTurn c p tier (of settings ms).past) {ts link : List (Moment H)}
    (hpast : (of settings ms).past = ts ++ link) (hlink : Link c p link)
    (hno : ∀ u ∈ link, ¬ u.Overtakes c p tier) {q : Peer H}
    (hq : (of settings ms).hub.bind (·.peer? c p) = some q) :
    q.InOrder tier (owed c p (of settings ms).past) (asked c p tier link) (told c p tier link)
      ((of settings ms).discoveries c p) := by
  revert hbound hturn ts link q
  refine of_induction (P := fun r => r.found.length < UInt64.size → InTurn c p tier r.past →
    ∀ {ts link}, r.past = ts ++ link → Link c p link → (∀ u ∈ link, ¬ u.Overtakes c p tier) →
      ∀ {q}, r.hub.bind (·.peer? c p) = some q →
        q.InOrder tier (owed c p r.past) (asked c p tier link) (told c p tier link)
          (r.discoveries c p)) settings ?_ ?_ ms
  · intro _ _ ts link hpast hlink
    obtain ⟨t, us, rfl, -⟩ := hlink.opened
    simp [start] at hpast
  · intro ms h m hr ih hbound hturn ts link hpast hlink hno q' hq'
    rw [found_append_singleton, List.length_append] at hbound
    have hlater : (Moment.mk h m).later c p = some q' := hq'
    have hup : q'.state ≠ .disconnected := by
      have hengaged := Linked.engaged_last ⟨ts, link, hpast, hlink⟩
      rwa [hlater, Peer.engaged_some] at hengaged
    have hlabelled := (labelled settings ms).2 h hr
    have hconsistent := (consistent settings ms).2 h hr
    have hfate := Moment.fate ⟨h, m⟩ hlabelled c p
    rw [owed_append_singleton, discoveries_append_singleton, hlater]
    simp only [Option.isSome_some, if_true]
    cases link using List.reverseRecOn with
    | nil =>
      obtain ⟨t, us, heq, -⟩ := hlink.opened
      cases heq
    | append_singleton link t =>
      rw [← List.append_assoc] at hpast
      obtain ⟨hprior, ht⟩ := List.append_inj' hpast rfl
      cases ht
      refine Peer.InOrder.mono ?_ _
      rw [asked_append_singleton, told_append_singleton]
      -- The moment opens the link, or it is one more on a link that is up.
      rcases hlink.of_append_singleton with ⟨hconnect, rfl⟩ | hlink
      · obtain ⟨hdown, hns⟩ := (hlater ▸ hfate).of_connect hconnect
        have hnil : q'.awaited = [] := by
          rw [Peer.awaited, hfate.pending_of_connect (hconsistent c p) hconnect hlater]
          rfl
        have howed : owed c p (of settings ms).past = [] :=
          owed_of_not_engaged settings ms c p (by rw [hr]; exact hdown)
        have hasks : (Moment.mk h m).asks? c p = none := by
          rw [Moment.asks?, hconnect]
          rfl
        have hcalled : (Moment.mk h m).called? c p = none := by
          rw [Moment.called?, hconnect]
          cases (Moment.mk h m).before c p <;> rfl
        rw [Moment.owes_of_some hlater hup, Moment.answered?_of_accepted hconnect, howed, hcalled,
          hasks, Moment.tells, hns]
        exact Peer.inOrder_nil hnil _
      · obtain ⟨n, hn, hlearned⟩ := learned settings ms (by omega) h hr
        have hbefore := (linked_iff settings ms c p).mp ⟨ts, link, hprior, hlink⟩
        rw [hr] at hbefore
        obtain ⟨q, hq, -⟩ : Engaged ((Moment.mk h m).before c p) := hbefore
        have hi := ih (by omega) hturn.of_append hprior hlink
          (fun u hu => hno u (List.mem_append_left _ hu)) (by rw [hr]; exact hq)
        have hnow := hno ⟨h, m⟩ (by simp)
        by_cases hreport : ∃ report, m = .report c (.peer p report)
        · obtain ⟨report, rfl⟩ := hreport
          rw [Moment.asks?_of_report rfl]
          simpa [within] using Moment.inOrder_reported hlabelled hlearned (by omega) rfl hq hi
            hturn.inTurn hnow hlater hup
        · exact Moment.inOrder_unreported hlabelled hlearned hq hi
            (fun report hm => hreport ⟨report, hm⟩) hlater hup

/-- On a link on which no completion overtook a discovery and whose calls the host answers in turn,
what is pending in a tier is what was asked for and not told yet, in order. A completion then tells
the outcome of the next discovery in that order, unless the parent of that one was retired and what
its handle stands for now is awaited behind it: then it tells the outcome of that one. -/
theorem discovery_order {tier : Tier} (hbound : (of settings ms).found.length < UInt64.size)
    (hturn : InTurn c p tier (of settings ms).past) {ts link us : List (Moment H)} {t : Moment H}
    (hpast : (of settings ms).past = ts ++ link ++ t :: us) (hlink : Link c p link)
    (hfirst : ∀ u ∈ link, ¬ u.Overtakes c p tier) {report : PeerReport H}
    (hm : t.move = .report c (.peer p report)) {h : Parent H.Service H.Characteristic}
    (hh : report.parent? = some h) (htier : h.tier = tier) {q : Peer H}
    (hq : t.before c p = some q) :
    within tier q.awaited = (asked c p tier link).drop (told c p tier link) ∧
      (within tier q.awaited ≠ [] → ∃ x k q', (asked c p tier link)[told c p tier link]? = some x ∧
        t.later c p = some q' ∧ t.notices = [.peer c p k] ∧ k.parentTier? = some tier ∧
        (¬ t.Overtakes c p tier → q.Concludes q' report k x) ∧
        (t.Overtakes c p tier → ¬ q.tree.Live x.tier x.id ∧ ∃ y ∈ within tier q.awaited, y ≠ x ∧
          q.tree.handle? y = some h ∧ q.Concludes q' report k y)) := by
  obtain ⟨ms', hpast', hhub⟩ := exists_of_past_eq settings ms hpast
  have hfound : (of settings ms).found.length =
      (of settings ms').found.length + (t.found.length + (us.flatMap Moment.found).length) := by
    simp [found, hpast, hpast', Nat.add_assoc]
  obtain ⟨n, hn, hlearned⟩ := learned settings ms' (by omega) t.hub hhub
  have hlabelled := (labelled settings ms').2 t.hub hhub
  have hf := hlearned.faithful hq
  rw [hpast] at hturn
  have hi := inOrder settings ms' c p tier (by omega) (hpast' ▸ hturn.of_append) hpast' hlink
    hfirst (by rw [hhub]; exact hq)
  refine ⟨hi.queue, fun hpending => ?_⟩
  subst htier
  have hhead := hturn.inTurn h (by rw [Moment.answered?_of_report hm, hh]; rfl) rfl q hq hpending
  rw [← hpast'] at hhead
  obtain ⟨x, rest, -, hawaited, -, hx, -, hxh, -⟩ := hi.next hhead
  have hlearns := Peer.learns_receive hf t.hub.settings report (by
    have hreport : t.found = report.found := by simp [Moment.found, hm]
    rw [← hreport]
    omega)
  obtain ⟨hlater, hnotices⟩ := Moment.reported_spec hm hq
  rcases Peer.settles_receive hf.sound t.hub.settings t.hub.ids hh with
    ⟨hnone, -⟩ | ⟨pre, y, post, k, hns, hsettles⟩
  · obtain ⟨hmem, htier⟩ : x ∈ q.awaited ∧ x.tier = h.tier := mem_within.mp (by simp [hawaited])
    exact absurd htier (hnone x hmem)
  rw [← hlearned.ids_eq, hns] at hlearns
  have htold : t.notices = [.peer c p k] := by
    rw [hnotices, hns, Peer.notice, hlabelled.peer_central hq, hlabelled.peer_id hq]
  have hkind : k.parentTier? = some h.tier := by
    rw [PeerNotice.parentTier?_of_operation hsettles.operation, hsettles.tier_eq]
  have hover := Moment.overtakes_iff hm hq hh
  refine ⟨x, k, _, hx, hlater, htold, hkind, ?_⟩
  rcases hsettles.oldest_or_overtakes hf.sound hawaited hxh with
    ⟨hno, rfl, -⟩ | ⟨hyes, hne, hnamed, hretired⟩
  · exact ⟨fun _ => hsettles.concludes hxh hlearns, fun h => absurd (hover.mp h) hno⟩
  · refine ⟨fun h => absurd (hover.mpr hyes) h, fun _ => ⟨fun hlive => ?_, y, ?_, hne, hnamed, ?_⟩⟩
    · have hsome := Tree.isSome_handle?.mpr hlive
      rw [hretired] at hsome
      cases hsome
    · exact mem_within.mpr ⟨by rw [hsettles.awaited]; simp, hsettles.tier_eq⟩
    · exact hsettles.concludes (fun k hk => Option.some.inj (hk.symm.trans hnamed)) hlearns

/-- The services are discovered again while the characteristics of one are being discovered, and then
its characteristics are asked for under its new identity. -/
def overtakenMoves : List (Move .numbers) :=
  [.request .agreeing .allocate, .request .agreeing (.act ⟨1⟩ default .connect),
    .report ⟨1⟩ (.peer default (.connected .ok)),
    .request .agreeing (.act ⟨1⟩ default (.discoverServices [])),
    .report ⟨1⟩ (.peer default (.servicesDiscovered .ok [⟨1, default⟩])),
    .request .agreeing (.act ⟨1⟩ default (.discoverCharacteristics ⟨1⟩ [])),
    .request .agreeing (.act ⟨1⟩ default (.discoverServices [])),
    .report ⟨1⟩ (.peer default (.servicesDiscovered .ok [⟨1, default⟩])),
    .request .agreeing (.act ⟨1⟩ default (.discoverCharacteristics ⟨2⟩ []))]

def overtakingMoment : Moment .numbers where
  hub := (of .default overtakenMoves).hub.getD (.new .default)
  move := .report ⟨1⟩ (.peer default (.characteristicsDiscovered .ok 1 [⟨10, default, 2⟩]))

def overtakenPeer : Peer .numbers :=
  (overtakingMoment.before ⟨1⟩ default).getD (.new ⟨1⟩ default 0)

/-- The host answers in turn, and yet the answer to the discovery of the retired identity is told as a
success, which is the outcome of the other. -/
theorem discovery_order_overtaken :
    let ms := overtakenMoves ++ [overtakingMoment.move]
    let link := (of .default overtakenMoves).past.drop 1
    (of .default ms).found.length < UInt64.size ∧
      InTurn ⟨1⟩ default .services (of .default ms).past ∧
      (of .default ms).past =
        (of .default overtakenMoves).past.take 1 ++ link ++ [overtakingMoment] ∧
      Link ⟨1⟩ default link ∧ (∀ u ∈ link, ¬ u.Overtakes ⟨1⟩ default .services) ∧
      overtakingMoment.before ⟨1⟩ default = some overtakenPeer ∧
      told ⟨1⟩ default .services link = 0 ∧
      ∃ x k, (asked ⟨1⟩ default .services link)[0]? = some x ∧
        ¬ overtakenPeer.tree.Live x.tier x.id ∧
        overtakingMoment.notices = [.peer ⟨1⟩ default k] ∧ k.status = .ok := by
  intro ms link
  have hbound : (of .default ms).found.length < UInt64.size := by decide
  have hturn : InTurn ⟨1⟩ default .services (of .default ms).past := by decide
  have hpast : (of .default ms).past =
      (of .default overtakenMoves).past.take 1 ++ link ++ [overtakingMoment] := rfl
  have hlink : Link ⟨1⟩ default link := ⟨⟨_, _, rfl, rfl⟩, by decide⟩
  have hfirst : ∀ u ∈ link, ¬ u.Overtakes ⟨1⟩ default .services := by decide
  have hovertakes : overtakingMoment.Overtakes ⟨1⟩ default .services := by decide
  obtain ⟨-, hnext⟩ := discovery_order .default ms ⟨1⟩ default hbound hturn hpast hlink hfirst rfl
    (h := .service 1) rfl rfl (q := overtakenPeer) rfl
  obtain ⟨x, k, q', hx, -, hns, -, -, hover⟩ := hnext (by decide)
  obtain ⟨hretired, y, -, -, hy, hconcludes⟩ := hover hovertakes
  have hylive := Tree.isSome_handle?.mp (Option.isSome_of_eq_some hy)
  exact ⟨hbound, hturn, hpast, hlink, hfirst, rfl, by decide, x, k, hx, hretired, hns,
    (hconcludes.live hylive).1⟩

end Run

end GattHub
