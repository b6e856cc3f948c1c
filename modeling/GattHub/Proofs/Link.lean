import GattHub.Proofs.Invariants

/-! The shape of a link, from the accepted connect to the moment that ends it. Outside a link the
hub says nothing of a peer; the end of a link cancels what is pending and is then announced. -/

namespace GattHub

variable {H : Handles}

/-- The peer is tracked, and its link is up or on its way up or down. -/
def Engaged (x : Option (Peer H)) : Prop := ∃ q, x = some q ∧ q.state ≠ .disconnected

/-- The moments of a link so far: a connect was accepted, and since then the peer was never
disconnected. -/
structure Link (c : CentralId) (p : PeerId) (link : List (Moment H)) : Prop where
  opened : ∃ t us, link = t :: us ∧ t.accepted? c p = some .connect
  engaged : ∀ t ∈ link, Engaged (t.later c p)

/-- A link is open after these moments. -/
def Linked (c : CentralId) (p : PeerId) (past : List (Moment H)) : Prop :=
  ∃ ts link, past = ts ++ link ∧ Link c p link

/-- How a moment closes the link of a peer. The outcomes cancel what is pending, in order, and the
closing notice follows at once. -/
structure Moment.Closes (t : Moment H) (c : CentralId) (p : PeerId) (q : Peer H)
    (outcomes : List PeerNotice) (closing : PeerNotice) : Prop where
  notices : ∃ pre post, t.notices =
    pre ++ outcomes.map (.peer c p) ++ [.peer c p closing] ++ post ∧ Silent c p pre ∧ Silent c p post
  cancelled : List.Forall₂ (fun op n => n.status = .cancelled ∧ n.operation? = some op.operation)
    q.pending outcomes
  closing : (∃ status, t.move = .report c (.peer p (.connected status)) ∧ status ≠ .ok ∧
      q.state = .connecting ∧ closing = .connected status) ∨
    (∀ status, t.move ≠ .report c (.peer p (.connected status))) ∧
      ∃ reason, closing = .disconnected reason

section Link

variable {c : CentralId} {p : PeerId} {link : List (Moment H)} {t : Moment H}

theorem Link.of_append_singleton (h : Link c p (link ++ [t])) :
    t.accepted? c p = some .connect ∧ link = [] ∨ Link c p link := by
  obtain ⟨t₀, us, heq, ht₀⟩ := h.opened
  cases link with
  | nil =>
    cases heq
    exact .inl ⟨ht₀, rfl⟩
  | cons u us' =>
    cases heq
    exact .inr ⟨⟨_, _, rfl, ht₀⟩, fun v hv => h.engaged v (List.mem_append_left _ hv)⟩

theorem Link.append (h : Link c p link) {us : List (Moment H)}
    (hus : ∀ t ∈ us, Engaged (t.later c p)) : Link c p (link ++ us) := by
  obtain ⟨t₀, vs, rfl, ht₀⟩ := h.opened
  refine ⟨⟨t₀, vs ++ us, rfl, ht₀⟩, fun u hu => ?_⟩
  rcases List.mem_append.mp hu with hu | hu
  · exact h.engaged u hu
  · exact hus u hu

theorem Link.append_singleton (h : Link c p link) (ht : Engaged (t.later c p)) :
    Link c p (link ++ [t]) := h.append fun u hu => by rwa [List.mem_singleton.mp hu]

theorem Link.singleton (h : t.accepted? c p = some .connect) (ht : Engaged (t.later c p)) :
    Link c p [t] := ⟨⟨t, [], rfl, h⟩, fun u hu => by rwa [List.mem_singleton.mp hu]⟩

theorem not_linked_nil : ¬ Linked c p ([] : List (Moment H)) := by
  rintro ⟨ts, link, heq, hlink⟩
  obtain ⟨t, us, rfl, -⟩ := hlink.opened
  simp at heq

theorem Linked.engaged_last {past : List (Moment H)} (h : Linked c p (past ++ [t])) :
    Engaged (t.later c p) := by
  obtain ⟨ts, link, heq, hlink⟩ := h
  obtain ⟨u, us, rfl, -⟩ := hlink.opened
  refine hlink.engaged t ?_
  have hlast := congrArg List.getLast? heq
  rw [List.getLast?_append_of_ne_nil _ (by simp), List.getLast?_singleton,
    List.getLast?_append_of_ne_nil _ (by simp)] at hlast
  exact List.mem_of_getLast? hlast.symm

end Link

namespace Peer

theorem engaged_some {q : Peer H} : Engaged (some q) ↔ q.state ≠ .disconnected := by
  simp [Engaged]

theorem Accepts.engaged {q q' : Peer H} {action : PeerAction} (h : q.Accepts action q') :
    q'.state ≠ .disconnected := by
  cases h with
  | connect | disconnect => simp
  | operate _ _ _ hs =>
    rcases hs with hs | ⟨-, hs⟩
    · simp [hs]
    · exact hs

theorem forall₂_cancelled (ops : List Pending) :
    List.Forall₂ (fun op n => n.status = .cancelled ∧ n.operation? = some op.operation) ops
      (ops.map Pending.cancelled) := by
  rw [List.forall₂_map_right_iff]
  exact List.forall₂_same.mpr fun op _ => ⟨op.status_cancelled, op.operation?_cancelled⟩

theorem cancelNotices_eq {q : Peer H} {c : CentralId} {p : PeerId} (hc : q.central = c)
    (hp : q.id = p) : q.cancelNotices = (q.pending.map Pending.cancelled).map (.peer c p) := by
  simp [cancelNotices, notice, hc, hp, Function.comp_def]

theorem disconnected_notMem_cancelNotices {q : Peer H} {c : CentralId} {p : PeerId}
    {reason : Status} : Notice.peer c p (.disconnected reason) ∉ q.cancelNotices := by
  intro h
  obtain ⟨op, -, heq⟩ := List.mem_map.mp h
  cases op <;> cases heq

theorem Reaction.nil_of_disconnected {q q' : Peer H} {report : PeerReport H} {ns : List Notice}
    (h : q.Reaction report q' ns) (hq : q.Consistent) (hdown : q.state = .disconnected) :
    ns = [] := by
  cases h with
  | ignored => rfl
  | established _ hs | failed _ _ _ hs | passed _ _ hs =>
    rw [hs] at hdown
    cases hdown
  | lost _ _ hs => exact absurd hdown hs
  | completed _ _ _ _ _ _ _ hp =>
    rw [(hq.disconnected hdown).1] at hp
    simp at hp
  | forwarded _ _ _ _ _ _ hf => simp [forwards, hdown] at hf

theorem Reaction.closes {q q' : Peer H} {report : PeerReport H} {t : Moment H} {c : CentralId}
    {p : PeerId} (h : q.Reaction report q' t.notices) (hm : t.move = .report c (.peer p report))
    (hc : q.central = c) (hp : q.id = p) (hup : q.state ≠ .disconnected)
    (hdown : q'.state = .disconnected) :
    ∃ closing, t.Closes c p q (q.pending.map Pending.cancelled) closing := by
  have hnotice (n : PeerNotice) : q.notice n = .peer c p n := by rw [notice, hc, hp]
  generalize hns : t.notices = ns at h
  cases h with
  | ignored | passed | completed | forwarded => exact absurd hdown hup
  | established => cases hdown
  | failed status hreport hbad hs =>
    rw [cancelNotices_eq hc hp, hnotice] at hns
    exact ⟨_, ⟨[], [], by simpa using hns, .nil c p, .nil c p⟩, forall₂_cancelled _,
      .inl ⟨status, hreport ▸ hm, hbad, hs, rfl⟩⟩
  | lost reason hreport =>
    rw [cancelNotices_eq hc hp, hnotice] at hns
    refine ⟨_, ⟨[], [], by simpa using hns, .nil c p, .nil c p⟩, forall₂_cancelled _,
      .inr ⟨fun status hmove => ?_, reason, rfl⟩⟩
    rw [hm, hreport] at hmove
    cases hmove

theorem Reaction.of_disconnected {q q' : Peer H} {report : PeerReport H} {ns : List Notice}
    (h : q.Reaction report q' ns) {c : CentralId} {p : PeerId} {reason : Status}
    (hn : Notice.peer c p (.disconnected reason) ∈ ns) :
    q.state ≠ .disconnected ∧ q'.state = .disconnected := by
  cases h with
  | ignored => cases hn
  | established | passed | forwarded => simp [notice] at hn
  | failed =>
    rcases List.mem_append.mp hn with hn | hn
    · exact absurd hn disconnected_notMem_cancelNotices
    · simp [notice] at hn
  | lost _ _ hup => exact ⟨hup, rfl⟩
  | completed _ _ _ n _ _ _ _ _ hop =>
    simp only [notice, List.mem_singleton, Notice.peer.injEq] at hn
    rw [← hn.2.2] at hop
    cases hop

end Peer

namespace Moment

variable {t : Moment H} {c : CentralId} {p : PeerId} {x y : Option (Peer H)}

/-- A peer comes to be engaged by nothing but an accepted connect. -/
theorem Fate.engaged (h : t.Fate c p x y) (hy : Engaged y) :
    Engaged x ∨ t.accepted? c p = some .connect := by
  cases h with
  | kept => exact .inl hy
  | tracked native => exact absurd rfl (Peer.engaged_some.mp hy)
  | accepted _ q q' action hq _ hacc haccepts =>
    cases haccepts with
    | connect => exact .inr hacc
    | disconnect hs =>
      rcases hq with rfl | ⟨-, native, rfl⟩
      · exact .inl (Peer.engaged_some.mpr (by rcases hs with hs | hs <;> simp [hs]))
      · rcases hs with hs | hs <;> cases hs
    | operate _ _ _ hs =>
      rw [Peer.engaged_some] at hy
      rcases hq with rfl | ⟨-, native, rfl⟩
      · exact .inl (Peer.engaged_some.mpr hy)
      · exact absurd rfl hy
  | reported q q' report _ _ hreaction =>
    refine .inl (Peer.engaged_some.mpr fun hdown => Peer.engaged_some.mp hy ?_)
    generalize t.notices = ns at hreaction
    cases hreaction with
    | ignored | passed | completed | forwarded => exact hdown
    | established _ hs =>
      rw [hs] at hdown
      cases hdown
    | failed | lost => rfl
  | observed q record =>
    obtain ⟨rssi, hrssi⟩ := q.observe_eq record.rssi
    rw [hrssi, Peer.engaged_some] at hy
    exact .inl (Peer.engaged_some.mpr hy)
  | forgotten | closed | replaced =>
    obtain ⟨q, hq, -⟩ := hy
    cases hq

/-- A connect is accepted only while there is no link, and tells nothing. -/
theorem Fate.of_connect {x : Option (Peer H)} {q' : Peer H} (h : t.Fate c p x (some q'))
    (hconnect : t.accepted? c p = some .connect) : ¬ Engaged x ∧ t.notices = [] := by
  cases h with
  | kept _ _ hacc | tracked _ _ hacc =>
    rw [hacc] at hconnect
    cases hconnect
  | accepted _ q _ action hq hns hacc haccepts =>
    rw [hacc] at hconnect
    cases hconnect
    refine ⟨fun ⟨q₀, hx, hup⟩ => ?_, hns⟩
    rcases hq with rfl | ⟨rfl, -⟩
    · cases hx
      cases haccepts with
      | connect hdown => exact hup hdown
      | operate _ hno => exact hno rfl
    · cases hx
  | reported _ _ _ hm | observed _ _ hm =>
    rw [accepted?_eq_none_of_report hm] at hconnect
    cases hconnect

theorem Fate.silent_of_not_engaged (h : t.Fate c p x y)
    (hconsistent : ∀ q, x = some q → q.Consistent) (hx : ¬ Engaged x) : Silent c p t.notices := by
  have hdown (q : Peer H) (hq : x = some q) : q.state = .disconnected := by
    by_contra hup
    exact hx ⟨q, hq, hup⟩
  cases h with
  | kept _ hns | tracked _ hns | observed _ _ _ _ hns => exact hns
  | accepted _ _ _ _ _ hns | forgotten _ _ hns | replaced _ _ _ hns => exact hns ▸ .nil c p
  | reported q _ _ _ _ hreaction =>
    rw [hreaction.nil_of_disconnected (hconsistent q rfl) (hdown q rfl)]
    exact .nil c p
  | closed q _ pre post _ hns hpre hpost =>
    rw [hns, Peer.closingNotices, if_pos (hdown q rfl), List.append_nil]
    exact hpre.append hpost

theorem Fate.closes (h : t.Fate c p x y)
    (hlabel : ∀ q, x = some q → q.central = c ∧ q.id = p)
    (hfree : t.allocates = true → t.hub.next = c → x = none) (hx : Engaged x) (hy : ¬ Engaged y) :
    ∃ q outcomes closing, x = some q ∧ t.Closes c p q outcomes closing := by
  obtain ⟨q, rfl, hup⟩ := hx
  obtain ⟨hc, hp⟩ := hlabel q rfl
  cases h with
  | kept => exact absurd ⟨q, rfl, hup⟩ hy
  | accepted _ _ _ _ _ _ _ haccepts => exact absurd (Peer.engaged_some.mpr haccepts.engaged) hy
  | reported _ q' report hm _ hreaction =>
    rw [Peer.engaged_some, not_not] at hy
    obtain ⟨closing, hcloses⟩ := hreaction.closes hm hc hp hup hy
    exact ⟨q, _, closing, rfl, hcloses⟩
  | observed _ record =>
    obtain ⟨rssi, hrssi⟩ := q.observe_eq record.rssi
    rw [hrssi] at hy
    exact absurd ⟨_, rfl, hup⟩ hy
  | forgotten _ hdown => exact absurd hdown hup
  | closed _ answers pre post hm hns hpre hpost =>
    rw [Peer.closingNotices, if_neg hup, Peer.cancelNotices_eq hc hp, Peer.notice, hc, hp] at hns
    refine ⟨q, _, _, rfl, ⟨pre, post, by simpa using hns, hpre, hpost⟩, Peer.forall₂_cancelled _,
      .inr ⟨fun status hmove => ?_, .cancelled, rfl⟩⟩
    rcases hm with hm | hm <;> rw [hm] at hmove <;> cases hmove
  | replaced _ hyes hnext => cases hfree hyes hnext

theorem Fate.of_disconnected (h : t.Fate c p x y) {reason : Status}
    (hn : .peer c p (.disconnected reason) ∈ t.notices) : Engaged x ∧ ¬ Engaged y := by
  cases h with
  | kept _ hns | tracked _ hns | observed _ _ _ _ hns => exact absurd hn (hns _)
  | accepted _ _ _ _ _ hns | forgotten _ _ hns | replaced _ _ _ hns =>
    rw [hns] at hn
    cases hn
  | reported q q' report _ _ hreaction =>
    obtain ⟨hup, hdown⟩ := hreaction.of_disconnected hn
    exact ⟨Peer.engaged_some.mpr hup, fun hy => Peer.engaged_some.mp hy hdown⟩
  | closed q _ pre post _ hns hpre hpost =>
    refine ⟨Peer.engaged_some.mpr fun hdown => ?_, by simp [Engaged]⟩
    rw [hns, Peer.closingNotices, if_pos hdown, List.append_nil] at hn
    exact hpre.append hpost _ hn

/-- What is pending is part of what was pending before, with what a request adds. -/
theorem Fate.pending_sublist (h : t.Fate c p x y) (hx : t.before c p = x) {q' : Peer H}
    (hy : y = some q') :
    q'.pending.Sublist ((x.elim [] Peer.pending) ++ (t.queued? c p).toList) := by
  subst hy
  cases h with
  | kept => exact List.sublist_append_left _ _
  | tracked => exact List.nil_sublist _
  | accepted _ q _ action hq _ hacc haccepts =>
    rcases hq with rfl | ⟨rfl, native, rfl⟩
    · cases haccepts with
      | connect | disconnect => exact List.sublist_append_left _ _
      | operate => simp [queued?, hacc, hx]
    · cases haccepts.of_new
      cases haccepts with
      | connect => exact List.nil_sublist _
      | operate _ hno => exact absurd rfl hno
  | reported q _ report _ _ hreaction =>
    refine List.Sublist.trans ?_ (List.sublist_append_left _ _)
    generalize t.notices = ns at hreaction
    cases hreaction with
    | ignored | established | passed | forwarded => exact .refl _
    | failed | lost => exact List.nil_sublist _
    | completed pre op post _ _ _ _ hp =>
      simp only [Option.elim_some, hp]
      exact List.Sublist.append_left (List.sublist_cons_self op post) pre
  | observed q record =>
    obtain ⟨rssi, hrssi⟩ := q.observe_eq record.rssi
    rw [hrssi]
    exact List.sublist_append_left _ _

theorem Fate.pending_of_connect (h : t.Fate c p x y)
    (hconsistent : ∀ q, x = some q → q.Consistent) (hconnect : t.accepted? c p = some .connect)
    {q' : Peer H} (hy : y = some q') : q'.pending = [] := by
  subst hy
  cases h with
  | kept _ _ hacc | tracked _ _ hacc =>
    rw [hacc] at hconnect
    cases hconnect
  | accepted _ q _ action hq _ hacc haccepts =>
    rw [hacc] at hconnect
    cases hconnect
    cases haccepts with
    | connect hdown =>
      rcases hq with rfl | ⟨-, native, rfl⟩
      · exact ((hconsistent q rfl).disconnected hdown).1
      · rfl
    | operate _ hno => exact absurd rfl hno
  | reported _ _ _ hm | observed _ _ hm =>
    rw [accepted?_eq_none_of_report hm] at hconnect
    cases hconnect

end Moment

namespace Run

variable (settings : Settings) (ms : List (Move H)) (c : CentralId) (p : PeerId)

/-- A link is open just if the peer is engaged. -/
theorem linked_iff :
    Linked c p (of settings ms).past ↔ Engaged ((of settings ms).hub.bind (·.peer? c p)) := by
  refine of_induction (P := fun r => Linked c p r.past ↔ Engaged (r.hub.bind (·.peer? c p)))
    settings ?_ ?_ ms
  · exact ⟨fun h => absurd h not_linked_nil, fun ⟨q, hq, _⟩ => by cases hq⟩
  · intro ms h m hr ih
    refine ⟨Linked.engaged_last, fun (hlater : Engaged ((Moment.mk h m).later c p)) => ?_⟩
    have hfate := Moment.fate ⟨h, m⟩ ((labelled settings ms).2 h hr) c p
    rcases hfate.engaged hlater with hbefore | hconnect
    · rw [hr] at ih
      obtain ⟨ts, link, hpast, hlink⟩ := ih.mpr hbefore
      exact ⟨ts, link ++ [⟨h, m⟩], by rw [hpast, List.append_assoc], hlink.append_singleton hlater⟩
    · exact ⟨(of settings ms).past, [⟨h, m⟩], rfl, .singleton hconnect hlater⟩

/-- What is pending on a link was accepted on that link, in that order. -/
theorem pending_sublist_queued {ts link : List (Moment H)} {q : Peer H}
    (hpast : (of settings ms).past = ts ++ link) (hlink : Link c p link)
    (hq : (of settings ms).hub.bind (·.peer? c p) = some q) :
    q.pending.Sublist (link.filterMap (·.queued? c p)) := by
  revert ts link q
  refine of_induction (P := fun r => ∀ {ts link q}, r.past = ts ++ link → Link c p link →
    r.hub.bind (·.peer? c p) = some q → q.pending.Sublist (link.filterMap (·.queued? c p)))
    settings ?_ ?_ ms
  · intro ts link q hpast hlink
    obtain ⟨t, us, rfl, -⟩ := hlink.opened
    simp [start] at hpast
  · intro ms h m hr ih ts link q' hpast hlink hq'
    have hfate := Moment.fate ⟨h, m⟩ ((labelled settings ms).2 h hr) c p
    have hsub := hfate.pending_sublist rfl hq'
    cases link using List.reverseRecOn with
    | nil =>
      obtain ⟨t, us, heq, -⟩ := hlink.opened
      cases heq
    | append_singleton link t =>
      rw [← List.append_assoc] at hpast
      obtain ⟨hprior, ht⟩ := List.append_inj' hpast rfl
      cases ht
      rcases hlink.of_append_singleton with ⟨hconnect, rfl⟩ | hlink
      · rw [hfate.pending_of_connect ((consistent settings ms).2 h hr c p) hconnect hq']
        exact List.nil_sublist _
      · have hbefore : (((Moment.mk h m).before c p).elim [] Peer.pending).Sublist
            (link.filterMap (·.queued? c p)) := by
          cases hq : (Moment.mk h m).before c p with
          | none => exact List.nil_sublist _
          | some q => exact ih hprior hlink (by rw [hr]; exact hq)
        have hadded : [Moment.mk h m].filterMap (·.queued? c p) =
            ((Moment.mk h m).queued? c p).toList := by
          cases hop : (Moment.mk h m).queued? c p <;> simp [hop]
        rw [List.filterMap_append, hadded]
        exact hsub.trans (hbefore.append (.refl _))

/-- Whatever the host reports, and in whatever order: outside a link nothing is made known of the
peer but advertisements; the moment that ends a link cancels what is pending, in the order in
which it was accepted, and closes the link at once; no other moment makes a disconnect known. -/
theorem link_shape (hbound : (of settings ms).allocations ≤ UInt64.size) {ts us : List (Moment H)}
    {t : Moment H} (hpast : (of settings ms).past = ts ++ t :: us) :
    (¬ Linked c p ts → Silent c p t.notices) ∧
      (∀ ts₀ link, ts = ts₀ ++ link → Link c p link → ¬ Linked c p (ts ++ [t]) →
        ∃ q outcomes closing, t.before c p = some q ∧
          q.pending.Sublist (link.filterMap (·.queued? c p)) ∧ t.Closes c p q outcomes closing) ∧
      (∀ reason, .peer c p (.disconnected reason) ∈ t.notices →
        Linked c p ts ∧ ¬ Linked c p (ts ++ [t])) := by
  obtain ⟨ms', rfl, hr⟩ := exists_of_past_eq settings ms hpast
  have hl := (labelled settings ms').2 t.hub hr
  have hc := (consistent settings ms').2 t.hub hr
  have hfate := t.fate hl c p
  have hbefore : Linked c p (of settings ms').past ↔ Engaged (t.before c p) := by
    rw [linked_iff, hr]
    rfl
  have hlater : Linked c p ((of settings ms').past ++ [t]) ↔ Engaged (t.later c p) := by
    have hnext : of settings (ms' ++ [t.move]) = ⟨(of settings ms').past ++ [t], t.after⟩ := by
      rw [of_append_singleton, take_some hr]
    have hiff := linked_iff settings (ms' ++ [t.move]) c p
    rw [hnext] at hiff
    exact hiff
  have hfree (hyes : t.allocates = true) (hnext : t.hub.next = c) : t.before c p = none := by
    have hnumbered := numbered settings ms' t.hub hr
    have hcount : (of settings ms').allocations < UInt64.size := by
      have hsum : ((of settings ms').past ++ t :: us).countP Moment.allocates =
          (of settings ms').past.countP Moment.allocates + (t :: us).countP Moment.allocates :=
        List.countP_append
      rw [List.countP_cons_of_pos hyes] at hsum
      simp only [allocations, hpast] at hbound ⊢
      omega
    rw [Moment.before, Hub.peer?, ← hnext, hnumbered.get?_next hcount]
    rfl
  refine ⟨fun hdown => ?_, fun ts₀ link hts hlink hdown => ?_, fun reason hn => ?_⟩
  · exact hfate.silent_of_not_engaged (hc c p) fun hup => hdown (hbefore.mpr hup)
  · have hup : Engaged (t.before c p) := hbefore.mp ⟨ts₀, link, hts, hlink⟩
    obtain ⟨q, outcomes, closing, hq, hcloses⟩ := hfate.closes
      (fun q hq => ⟨hl.peer_central hq, hl.peer_id hq⟩) hfree hup fun h => hdown (hlater.mpr h)
    refine ⟨q, outcomes, closing, hq, ?_, hcloses⟩
    exact pending_sublist_queued settings ms' c p hts hlink (by rw [hr]; exact hq)
  · rw [hbefore, hlater]
    exact hfate.of_disconnected hn

/-- A peer is connected and its signal level is asked for twice. -/
def openMoves : List (Move .numbers) :=
  [.request .agreeing .allocate, .request .agreeing (.act ⟨1⟩ default .connect),
    .request .agreeing (.act ⟨1⟩ default .readRssi), .report ⟨1⟩ (.peer default (.connected .ok)),
    .request .agreeing (.act ⟨1⟩ default .readRssi)]

def lost : Moment .numbers :=
  ⟨(of .default openMoves).hub.getD (.new .default), .report ⟨1⟩ (.peer default (.disconnected .ok))⟩

theorem link_shape_lost :
    let ms := openMoves ++ [lost.move]
    let ts := (of .default openMoves).past
    (of .default ms).allocations ≤ UInt64.size ∧ (of .default ms).past = ts ++ [lost] ∧
      lost.notices = [.peer ⟨1⟩ default (.rssiRead .cancelled .unknown),
        .peer ⟨1⟩ default (.rssiRead .cancelled .unknown),
        .peer ⟨1⟩ default (.disconnected .ok)] ∧
      Linked ⟨1⟩ default ts ∧ ¬ Linked ⟨1⟩ default (ts ++ [lost]) :=
  ⟨by decide, rfl, by decide,
    (link_shape .default (openMoves ++ [lost.move]) ⟨1⟩ default (by decide) rfl).2.2 .ok (by decide)⟩

end Run

end GattHub
