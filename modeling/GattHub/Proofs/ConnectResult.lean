import GattHub.Proofs.Link

/-! How often the result of a connect is made known. A result that reaches a peer on its way up
settles the connect. One that reaches a peer on its way down is passed on, however often. -/

namespace GattHub

variable {H : Handles}

def Notice.connects (c : CentralId) (p : PeerId) : Notice → Bool
  | .peer c' p' (.connected _) => c' = c ∧ p' = p
  | _ => false

/-- Whether the link of a peer is on its way up. -/
def Rising (x : Option (Peer H)) : Bool := x.any (·.state = .connecting)

theorem Notice.eq_of_connects {c : CentralId} {p : PeerId} (n : Notice)
    (h : n.connects c p = true) : ∃ k, n = .peer c p k := by
  simp only [connects] at h
  split at h
  next c' p' status =>
    obtain ⟨rfl, rfl⟩ : c' = c ∧ p' = p := by simpa using h
    exact ⟨_, rfl⟩
  next => cases h

namespace Peer

theorem countP_connects_cancelNotices (q : Peer H) (c : CentralId) (p : PeerId) :
    q.cancelNotices.countP (Notice.connects c p) = 0 := by
  rw [List.countP_eq_zero]
  intro n hn
  obtain ⟨op, -, rfl⟩ := List.mem_map.mp hn
  cases op <;> simp [notice, Pending.cancelled, Notice.connects]

theorem countP_connects_closingNotices (q : Peer H) (c : CentralId) (p : PeerId) :
    q.closingNotices.countP (Notice.connects c p) = 0 := by
  simp only [closingNotices]
  split
  · rfl
  · rw [List.countP_append, countP_connects_cancelNotices]
    rfl

theorem countP_connects_connectResult (q : Peer H) (status : Status) :
    (Effect.notices (q.connectResult status).effects).countP (Notice.connects q.central q.id) =
      if q.state = .connecting ∨ q.state = .disconnecting then 1 else 0 := by
  have hown : (q.notice (.connected status)).connects q.central q.id = true := by
    simp [notice, Notice.connects]
  simp only [connectResult]
  cases hs : q.state with
  | connecting =>
    by_cases hok : status = .ok
    · simp [hok ▸ hown, hok]
    · simp [hok, hown, notices_cancellations, countP_connects_cancelNotices]
  | disconnecting => simp [hown]
  | connected | disconnected => simp

theorem connectResult_ne_connecting (q : Peer H) (status : Status) :
    (q.connectResult status).state.state ≠ .connecting := by
  simp only [connectResult]
  cases hs : q.state with
  | connecting => by_cases hok : status = .ok <;> simp [hok, unlinked]
  | _ => simp [hs]

theorem Reaction.countP_connects {q q' : Peer H} {report : PeerReport H} {ns : List Notice}
    (h : q.Reaction report q' ns) (hno : ∀ status, report ≠ .connected status) (c : CentralId)
    (p : PeerId) : ns.countP (Notice.connects c p) = 0 := by
  cases h with
  | ignored => rfl
  | established hreport | failed _ hreport | passed _ hreport => exact absurd hreport (hno _)
  | lost =>
    rw [List.countP_append, countP_connects_cancelNotices]
    rfl
  | completed _ op _ n _ _ _ _ _ hn =>
    cases n <;> first | rfl | cases hn
  | forwarded => rfl

theorem Reaction.connecting {q q' : Peer H} {report : PeerReport H} {ns : List Notice}
    (h : q.Reaction report q' ns) (hs : q'.state = .connecting) : q.state = .connecting := by
  cases h with
  | ignored | passed | completed | forwarded => exact hs
  | established | failed | lost => cases hs

theorem Accepts.connecting {q q' : Peer H} {action : PeerAction} (h : q.Accepts action q')
    (hno : action ≠ .connect) (hs : q'.state = .connecting) : q.state = .connecting := by
  cases h with
  | connect => exact absurd rfl hno
  | disconnect => cases hs
  | operate => exact hs

end Peer

namespace Moment

variable {t : Moment H} {c : CentralId} {p : PeerId}

/-- Whether the host reports the result of a connect while the link of the peer is in this state. -/
def connectedIn (t : Moment H) (c : CentralId) (p : PeerId) (s : LinkState) : Bool :=
  match t.move, t.before c p with
  | .report c' (.peer p' (.connected _)), some q => c' = c ∧ p' = p ∧ q.state = s
  | _, _ => false

def results (t : Moment H) (c : CentralId) (p : PeerId) : Nat :=
  t.notices.countP (Notice.connects c p)

theorem connectedIn_of_report {status : Status} {q : Peer H}
    (hm : t.move = .report c (.peer p (.connected status))) (hq : t.before c p = some q)
    (s : LinkState) : t.connectedIn c p s = decide (q.state = s) := by
  simp [connectedIn, hm, hq]

theorem connectedIn_eq_false
    (h : ∀ status q, t.move = .report c (.peer p (.connected status)) → t.before c p ≠ some q)
    (s : LinkState) : t.connectedIn c p s = false := by
  simp only [connectedIn]
  split
  next c' p' status q hm hq =>
    refine decide_eq_false ?_
    rintro ⟨rfl, rfl, -⟩
    exact h status q hm hq
  next => rfl

theorem results_of_unreported (hl : t.hub.Labelled)
    (hno : ∀ status q, t.move = .report c (.peer p (.connected status)) → t.before c p ≠ some q) :
    t.results c p = 0 := by
  have hfate := t.fate hl c p
  rw [results]
  generalize hx : t.before c p = x at hfate
  generalize t.later c p = y at hfate
  cases hfate with
  | kept _ hns | tracked _ hns | observed _ _ _ _ hns => exact hns.countP_eq_zero Notice.eq_of_connects
  | accepted _ _ _ _ _ hns | forgotten _ _ hns | replaced _ _ _ hns => rw [hns, List.countP_nil]
  | reported q _ report hm _ hreaction =>
    refine hreaction.countP_connects (fun status hreport => ?_) c p
    exact hno status q (hreport ▸ hm) hx
  | closed q _ pre post _ hns hpre hpost =>
    rw [hns, List.countP_append, List.countP_append, Peer.countP_connects_closingNotices,
      hpre.countP_eq_zero Notice.eq_of_connects, hpost.countP_eq_zero Notice.eq_of_connects]

/-- A result is made known just when it reaches a peer whose link is on its way up or down. -/
theorem results_eq (hl : t.hub.Labelled) (c : CentralId) (p : PeerId) :
    t.results c p =
      (if t.connectedIn c p .connecting then 1 else 0) +
        if t.connectedIn c p .disconnecting then 1 else 0 := by
  by_cases hr : ∃ status q,
      t.move = .report c (.peer p (.connected status)) ∧ t.before c p = some q
  · obtain ⟨status, q, hm, hq⟩ := hr
    have hcount := q.countP_connects_connectResult status
    rw [hl.peer_central hq, hl.peer_id hq] at hcount
    rw [results, (reported_spec hm hq).2, connectedIn_of_report hm hq, connectedIn_of_report hm hq]
    refine hcount.trans ?_
    cases q.state <;> rfl
  · have hno (status : Status) (q : Peer H)
        (hm : t.move = .report c (.peer p (.connected status))) : t.before c p ≠ some q :=
      fun hq => hr ⟨status, q, hm, hq⟩
    rw [results_of_unreported hl hno, connectedIn_eq_false hno, connectedIn_eq_false hno]
    rfl

theorem rising_of_unreported (hl : t.hub.Labelled) (hno : t.accepted? c p ≠ some .connect)
    (h : Rising (t.later c p)) : Rising (t.before c p) := by
  have hfate := t.fate hl c p
  generalize t.before c p = x at hfate ⊢
  generalize t.later c p = y at hfate h
  cases hfate with
  | kept => exact h
  | tracked => cases h
  | accepted _ q q' action hq _ hacc haccepts =>
    have haction : action ≠ .connect := fun heq => hno (heq ▸ hacc)
    have hs := haccepts.connecting haction (by simpa [Rising] using h)
    rcases hq with rfl | ⟨-, native, rfl⟩
    · simpa [Rising] using hs
    · cases hs
  | reported q q' report _ _ hreaction =>
    have hs := hreaction.connecting (by simpa [Rising] using h)
    simpa [Rising] using hs
  | observed q record =>
    obtain ⟨rssi, hrssi⟩ := q.observe_eq record.rssi
    rwa [hrssi] at h
  | forgotten | closed | replaced => cases h

/-- A result that settles a connect takes the link out of its way up, and nothing but an accepted
connect brings it there. -/
theorem settled_add_rising (hl : t.hub.Labelled) (hno : t.accepted? c p ≠ some .connect) :
    (if t.connectedIn c p .connecting then 1 else 0) + (if Rising (t.later c p) then 1 else 0) ≤
      if Rising (t.before c p) then 1 else 0 := by
  by_cases hr : ∃ status q,
      t.move = .report c (.peer p (.connected status)) ∧ t.before c p = some q
  · obtain ⟨status, q, hm, hq⟩ := hr
    have hlater : Rising (t.later c p) = false := by
      rw [(reported_spec hm hq).1]
      exact decide_eq_false (q.connectResult_ne_connecting status)
    rw [connectedIn_of_report hm hq, hlater, hq]
    exact Nat.le_refl _
  · have hidle : t.connectedIn c p .connecting = false :=
      connectedIn_eq_false (fun status q hm hq => hr ⟨status, q, hm, hq⟩) _
    have hrising := rising_of_unreported hl hno
    rw [hidle]
    cases hlater : Rising (t.later c p) with
    | false => exact Nat.zero_le _
    | true => rw [hrising hlater]; exact Nat.le_refl _

theorem connectedIn_of_accepted {action : PeerAction} (hacc : t.accepted? c p = some action)
    (s : LinkState) : t.connectedIn c p s = false := by
  refine connectedIn_eq_false (fun status q hm _ => ?_) s
  rw [accepted?_eq_none_of_report hm] at hacc
  cases hacc

end Moment

namespace Run

variable (settings : Settings) (ms : List (Move H)) (c : CentralId) (p : PeerId)

/-- From one accepted connect to the next, at most one result settles a connect. -/
theorem settled_add_rising {ts us : List (Moment H)} (hpast : (of settings ms).past = ts ++ us)
    (hno : ∀ t ∈ us.tail, t.accepted? c p ≠ some .connect) :
    us.countP (·.connectedIn c p .connecting) +
      (if Rising ((of settings ms).hub.bind (·.peer? c p)) then 1 else 0) ≤ 1 := by
  revert ts us
  refine of_induction (P := fun r => ∀ {ts us}, r.past = ts ++ us →
    (∀ t ∈ us.tail, t.accepted? c p ≠ some .connect) →
      us.countP (·.connectedIn c p .connecting) +
        (if Rising (r.hub.bind (·.peer? c p)) then 1 else 0) ≤ 1) settings ?_ ?_ ms
  · intro ts us hpast _
    have hnil : us = [] := (List.append_eq_nil_iff.mp hpast.symm).2
    rw [hnil]
    exact Nat.zero_le 1
  · intro ms h m hr ih ts us hpast hno
    change us.countP (·.connectedIn c p .connecting) +
      (if Rising ((Moment.mk h m).later c p) then 1 else 0) ≤ 1
    have hlater : (if Rising ((Moment.mk h m).later c p) then 1 else 0) ≤ 1 := by
      split <;> omega
    cases us using List.reverseRecOn with
    | nil => simpa using hlater
    | append_singleton us t =>
      rw [← List.append_assoc] at hpast
      obtain ⟨hprior, ht⟩ := List.append_inj' hpast rfl
      cases ht
      rw [List.countP_append, List.countP_singleton]
      by_cases hconnect : (Moment.mk h m).accepted? c p = some .connect
      · -- Only the first moment may be an accepted connect, and no result arrives in it.
        have hnil : us = [] := by
          cases us with
          | nil => rfl
          | cons u us => exact absurd hconnect (hno _ (by simp))
        rw [hnil, List.countP_nil, Moment.connectedIn_of_accepted hconnect]
        simpa using hlater
      · have hstep := Moment.settled_add_rising (t := ⟨h, m⟩) ((labelled settings ms).2 h hr) hconnect
        have hbefore := ih hprior fun t ht => hno t (by
          cases us with
          | nil => cases ht
          | cons u us => exact List.mem_append_left _ ht)
        rw [hr] at hbefore
        rw [Nat.add_assoc]
        exact Nat.le_trans (Nat.add_le_add_left hstep _) hbefore

theorem results_eq_zero {ts us : List (Moment H)} (hpast : (of settings ms).past = ts ++ us)
    (hno : ∀ t ∈ ts, t.accepted? c p ≠ some .connect) : ∀ t ∈ ts, t.results c p = 0 := by
  intro t ht
  obtain ⟨pre, post, rfl⟩ := List.append_of_mem ht
  rw [List.append_assoc, List.cons_append] at hpast
  obtain ⟨ms', hpast', hhub⟩ := exists_of_past_eq settings ms hpast
  -- A link is opened by an accepted connect only, and a peer without a link is told nothing.
  have hdown : ¬ Engaged (t.before c p) := by
    intro hup
    have hlinked : Linked c p pre := by
      rw [← hpast', linked_iff, hhub]
      exact hup
    obtain ⟨ts₀, link, rfl, hlink⟩ := hlinked
    obtain ⟨u, us', rfl, hconnect⟩ := hlink.opened
    exact hno u (by simp) hconnect
  have hsilent := (t.fate ((labelled settings ms').2 t.hub hhub) c p).silent_of_not_engaged
    ((consistent settings ms').2 t.hub hhub c p) hdown
  exact hsilent.countP_eq_zero Notice.eq_of_connects

/-- Before the first accepted connect no result is made known. From one accepted connect to the
next, at most one result settles the connect; beyond that one is made known each time that the
host reports a result while the link is on its way down. -/
theorem connect_results {ts us vs : List (Moment H)}
    (hpast : (of settings ms).past = ts ++ us ++ vs) :
    ((∀ t ∈ ts, t.accepted? c p ≠ some .connect) →
      (ts.flatMap Moment.notices).countP (Notice.connects c p) = 0) ∧
    ((∀ t ∈ us.tail, t.accepted? c p ≠ some .connect) →
      (us.flatMap Moment.notices).countP (Notice.connects c p) =
          us.countP (·.connectedIn c p .connecting) +
            us.countP (·.connectedIn c p .disconnecting) ∧
        us.countP (·.connectedIn c p .connecting) ≤ 1) := by
  have hcount (l : List (Moment H)) : (l.flatMap Moment.notices).countP (Notice.connects c p) =
      (l.map (·.results c p)).sum := List.countP_flatMap
  refine ⟨fun hno => ?_, fun hno => ⟨?_, ?_⟩⟩
  · rw [List.append_assoc] at hpast
    have hzero := results_eq_zero settings ms c p hpast hno
    rw [hcount, List.map_congr_left hzero]
    simp
  · have hlabelled : ∀ t ∈ us, t.hub.Labelled := fun t ht =>
      (labelled settings ms).1 t (by simp [hpast, ht])
    rw [hcount]
    clear hpast hno
    induction us with
    | nil => rfl
    | cons t us ih =>
      have hrest := ih fun u hu => hlabelled u (List.mem_cons_of_mem t hu)
      have hfirst := t.results_eq (hlabelled t List.mem_cons_self) c p
      rw [List.map_cons, List.sum_cons, List.countP_cons, List.countP_cons, hrest, hfirst]
      omega
  · cases vs with
    | nil =>
      rw [List.append_nil] at hpast
      exact Nat.le_of_add_right_le (settled_add_rising settings ms c p hpast hno)
    | cons v vs =>
      obtain ⟨ms', hpast', -⟩ := exists_of_past_eq settings ms hpast
      exact Nat.le_of_add_right_le (settled_add_rising settings ms' c p hpast' hno)

/-- A connect is given up once it is settled, and the host reports its result again. -/
def repeatedMoves : List (Move .numbers) :=
  [.request .agreeing .allocate, .request .agreeing (.act ⟨1⟩ default .connect),
    .report ⟨1⟩ (.peer default (.connected .ok)),
    .request .agreeing (.act ⟨1⟩ default .disconnect),
    .report ⟨1⟩ (.peer default (.connected .ok))]

theorem connect_results_repeated :
    let past := (of .default repeatedMoves).past
    past = past.take 1 ++ past.drop 1 ++ [] ∧
      (past.drop 1).map (·.accepted? ⟨1⟩ default) =
        [some .connect, none, some .disconnect, none] ∧
      ((past.drop 1).flatMap Moment.notices).countP (Notice.connects ⟨1⟩ default) = 2 := by
  intro past
  have hsplit : past = past.take 1 ++ past.drop 1 ++ [] := rfl
  obtain ⟨hsum, -⟩ := (connect_results .default repeatedMoves ⟨1⟩ default hsplit).2 (by decide)
  refine ⟨hsplit, by decide, hsum.trans (by decide)⟩

end Run

end GattHub
