import GattHub.Proofs.Invariants

/-! Every accepted operation has exactly one outcome: none is lost and none is completed twice,
whichever way its link, its peer or its manager comes to an end. -/

namespace GattHub

variable {H : Handles}

/-- Whether a notice is the outcome of such an operation of the peer. -/
def Notice.completes (c : CentralId) (p : PeerId) (k : Operation) : Notice → Bool
  | .peer c' p' n => c' = c ∧ p' = p ∧ n.operation? = some k
  | _ => false

/-- How many such operations await their outcome, if the peer is tracked at all. -/
def Operation.awaited (k : Operation) (x : Option (Peer H)) : Nat :=
  (x.elim [] Peer.pending).countP (·.operation = k)

namespace Moment

/-- Whether the host reports a value of the peer that no read awaits. What is announced then is a
forwarded notification. -/
def unasked (t : Moment H) (c : CentralId) (p : PeerId) : Bool :=
  match t.move, t.before c p with
  | .report c' (.peer p' (.characteristicRead _ uuid _)), some q =>
    c' = c ∧ p' = p ∧ .readCharacteristic uuid ∉ q.pending
  | _, _ => false

/-- What is announced, but for forwarded notifications of the peer. -/
def outcomes (t : Moment H) (c : CentralId) (p : PeerId) : List Notice :=
  if t.unasked c p then [] else t.notices

end Moment

namespace Run

/-- How many such operations of the peer were accepted. -/
def accepted (r : Run H) (c : CentralId) (p : PeerId) (k : Operation) : Nat :=
  r.past.countP fun t => (t.queued? c p).map Pending.operation = some k

def completed (r : Run H) (c : CentralId) (p : PeerId) (k : Operation) : Nat :=
  (r.past.flatMap (·.outcomes c p)).countP (Notice.completes c p k)

def awaited (r : Run H) (c : CentralId) (p : PeerId) (k : Operation) : Nat :=
  k.awaited (r.hub.bind (·.peer? c p))

end Run

theorem Silent.countP_completes {c : CentralId} {p : PeerId} {ns : List Notice}
    (h : Silent c p ns) (k : Operation) : ns.countP (Notice.completes c p k) = 0 := by
  rw [List.countP_eq_zero]
  intro n hn
  cases n with
  | peer c' p' n =>
    simp only [Notice.completes, decide_eq_true_eq]
    rintro ⟨rfl, rfl, -⟩
    exact h n hn
  | _ => simp [Notice.completes]

namespace Peer

theorem completes_notice (q : Peer H) (n : PeerNotice) (k : Operation) :
    (q.notice n).completes q.central q.id k = decide (n.operation? = some k) := by
  simp [notice, Notice.completes]

theorem countP_cancelNotices (q : Peer H) (k : Operation) :
    q.cancelNotices.countP (Notice.completes q.central q.id k) =
      q.pending.countP (·.operation = k) := by
  simp [cancelNotices, List.countP_map, Function.comp_def, completes_notice,
    Pending.operation?_cancelled]

theorem countP_closingNotices {q : Peer H} (hq : q.Consistent) (k : Operation) :
    q.closingNotices.countP (Notice.completes q.central q.id k) =
      q.pending.countP (·.operation = k) := by
  simp only [closingNotices]
  split
  next hs => simp [(hq.disconnected hs).1]
  next => simp [List.countP_append, countP_cancelNotices, completes_notice, PeerNotice.operation?]

end Peer

namespace Moment

variable {t : Moment H} {c : CentralId} {p : PeerId}

theorem countP_outcomes_of_silent (h : Silent c p t.notices) (k : Operation) :
    (t.outcomes c p).countP (Notice.completes c p k) = 0 := by
  simp only [outcomes]
  split
  · rfl
  · exact h.countP_completes k

theorem awaited_accepts {q q' : Peer H} {action : PeerAction} (h : q.Accepts action q')
    (k : Operation) :
    k.awaited (some q') =
      k.awaited (some q) + if (q.queued? action).map Pending.operation = some k then 1 else 0 := by
  cases h with
  | connect | disconnect => simp [Operation.awaited, Peer.queued?]
  | operate =>
    cases hop : q.queued? action with
    | none => simp [Operation.awaited]
    | some op => simp [Operation.awaited, List.countP_append, List.countP_singleton]

theorem unasked_of_request {answers : Answers H} {r : Request PeerId}
    (hm : t.move = .request answers r) : t.unasked c p = false := by
  simp [unasked, hm]

theorem unasked_of_shutdown {answers : Answers H} (hm : t.move = .shutdown answers) :
    t.unasked c p = false := by
  simp [unasked, hm]

theorem unasked_of_report {q : Peer H} {report : PeerReport H}
    (hm : t.move = .report c (.peer p report)) (hq : t.before c p = some q) :
    t.unasked c p = true ↔
      ∃ status uuid value, report = .characteristicRead status uuid value ∧
        .readCharacteristic uuid ∉ q.pending := by
  cases report <;> simp [unasked, hm, hq]

theorem awaited_reported {q q' : Peer H} {report : PeerReport H}
    (hm : t.move = .report c (.peer p report)) (hq : t.before c p = some q)
    (hlabel : q.central = c ∧ q.id = p) (h : q.Reaction report q' t.notices) (k : Operation) :
    k.awaited (some q) = (t.outcomes c p).countP (Notice.completes c p k) + k.awaited (some q') := by
  have hunasked := t.unasked_of_report hm hq
  obtain ⟨rfl, rfl⟩ := hlabel
  generalize hns : t.notices = ns at h
  cases h with
  | ignored => simp [outcomes, hns]
  | established => simp [outcomes, hns, Peer.completes_notice, PeerNotice.operation?,
      Operation.awaited]
  | failed status hreport =>
    have hno : t.unasked q.central q.id = false := by simp [← Bool.not_eq_true, hunasked, hreport]
    simp [outcomes, hno, hns, Peer.countP_cancelNotices, Peer.completes_notice,
      PeerNotice.operation?, Operation.awaited, Peer.unlinked]
  | passed => simp [outcomes, hns, Peer.completes_notice, PeerNotice.operation?]
  | lost reason hreport =>
    have hno : t.unasked q.central q.id = false := by simp [← Bool.not_eq_true, hunasked, hreport]
    simp [outcomes, hno, hns, Peer.countP_cancelNotices, Peer.completes_notice,
      PeerNotice.operation?, Operation.awaited, Peer.unlinked]
  | completed pre op post n rssi tree subscriptions hpending hreport hn =>
    have hno : t.unasked q.central q.id = false := by
      rw [← Bool.not_eq_true, hunasked]
      rintro ⟨status, uuid, value, rfl, hnot⟩
      have hop : op = .readCharacteristic uuid := by
        cases op <;> simp_all [PeerReport.operation?, Pending.operation]
      exact hnot (by simp [hpending, hop])
    simp only [outcomes, hno, hns, Operation.awaited, hpending, Option.elim_some,
      List.countP_append, List.countP_cons, List.countP_nil, Peer.completes_notice, hn,
      Option.some.injEq, Bool.false_eq_true, if_false, decide_eq_true_eq]
    omega
  | forwarded settings status uuid value hreport hnot =>
    have hyes : t.unasked q.central q.id = true := hunasked.mpr ⟨status, uuid, value, hreport, hnot⟩
    simp [outcomes, hyes]

/-- In every moment, what is awaited of a peer and what is newly accepted goes into what is
completed and what is awaited from then on. -/
theorem awaited_add_queued (hl : t.hub.Labelled) (hc : t.hub.Consistent)
    (hfree : t.allocates = true → t.hub.centrals.get? t.hub.next = none) (c : CentralId)
    (p : PeerId) (k : Operation) :
    k.awaited (t.before c p) + (if (t.queued? c p).map Pending.operation = some k then 1 else 0) =
      (t.outcomes c p).countP (Notice.completes c p k) + k.awaited (t.later c p) := by
  have hfate := t.fate hl c p
  generalize hx : t.before c p = x at hfate
  generalize t.later c p = y at hfate
  cases hfate with
  | kept _ hns hacc | tracked native hns hacc =>
    simp [countP_outcomes_of_silent hns, queued?_of_none hacc, Operation.awaited, Peer.new]
  | accepted _ q q' action hq hns hacc haccepts =>
    rw [countP_outcomes_of_silent (hns ▸ .nil c p), awaited_accepts haccepts]
    rcases hq with rfl | ⟨rfl, native, rfl⟩
    · simp [queued?, hacc, hx]
    · rw [haccepts.of_new]
      simp [queued?, hacc, hx, Operation.awaited, Peer.new, Peer.queued?]
  | reported q q' report hm _ hreaction =>
    have hlabel : q.central = c ∧ q.id = p := ⟨hl.peer_central hx, hl.peer_id hx⟩
    rw [queued?_of_none (accepted?_eq_none_of_report hm)]
    simpa using awaited_reported hm hx hlabel hreaction k
  | observed q record hm _ hns =>
    obtain ⟨rssi, hrssi⟩ := q.observe_eq record.rssi
    rw [countP_outcomes_of_silent hns, queued?_of_none (accepted?_eq_none_of_report hm), hrssi]
    simp [Operation.awaited]
  | forgotten q hdown hns hacc =>
    rw [countP_outcomes_of_silent (hns ▸ .nil c p), queued?_of_none hacc]
    simp [Operation.awaited, ((hc c p q hx).disconnected hdown).1]
  | closed q answers pre post hm hns hpre hpost =>
    have hlabel : q.central = c ∧ q.id = p := ⟨hl.peer_central hx, hl.peer_id hx⟩
    have hacc : t.accepted? c p = none := by rcases hm with hm | hm <;> simp [accepted?, hm]
    have hno : t.unasked c p = false := by
      rcases hm with hm | hm
      · exact unasked_of_request hm
      · exact unasked_of_shutdown hm
    have hcount := Peer.countP_closingNotices (hc c p q hx) k
    rw [hlabel.1, hlabel.2] at hcount
    simp [outcomes, hno, hns, List.countP_append, hpre.countP_completes, hpost.countP_completes,
      hcount, queued?_of_none hacc, Operation.awaited]
  | replaced q hyes hnext =>
    have hnone : t.before c p = none := by
      simp [before, Hub.peer?, ← hnext, hfree hyes]
    rw [hnone] at hx
    cases hx

end Moment

/-- The accepted operations of a peer are those that were completed and those that are pending.
Identities have 64 bits: they tell managers apart as long as no more were opened than that. -/
theorem Run.accepted_eq_completed_add_awaited (settings : Settings) (ms : List (Move H))
    (hbound : (of settings ms).allocations ≤ UInt64.size) (c : CentralId) (p : PeerId)
    (k : Operation) :
    (of settings ms).accepted c p k =
      (of settings ms).completed c p k + (of settings ms).awaited c p k := by
  revert hbound
  refine of_induction (P := fun r => r.allocations ≤ UInt64.size →
    r.accepted c p k = r.completed c p k + r.awaited c p k) settings (fun _ => rfl) ?_ ms
  intro ms h m hr ih hbound
  simp only [allocations, List.countP_append, List.countP_singleton] at hbound
  have hnumbered := numbered settings ms h hr
  have hbalance := Moment.awaited_add_queued (t := ⟨h, m⟩) ((labelled settings ms).2 h hr)
    ((consistent settings ms).2 h hr)
    (fun hyes => hnumbered.get?_next (by simp [hyes, allocations] at hbound ⊢; omega)) c p k
  have hbefore := ih (by simp only [allocations]; omega)
  simp only [awaited, hr] at hbefore
  simp only [accepted, completed, awaited, List.countP_append, List.countP_singleton,
    List.flatMap_append, List.flatMap_singleton, decide_eq_true_eq] at hbefore hbalance ⊢
  simp only [Moment.before, Moment.later, Option.bind_some] at hbefore hbalance
  omega

/-- A signal level is asked for in vain, then twice over a link that is lost after one answer, then
once more while the next link is being set up. -/
def levelMoves : List (Move .numbers) :=
  [.request .agreeing .allocate, .request .agreeing (.act ⟨1⟩ default .readRssi),
    .request .agreeing (.act ⟨1⟩ default .connect), .report ⟨1⟩ (.peer default (.connected .ok)),
    .request .agreeing (.act ⟨1⟩ default .readRssi),
    .request .agreeing (.act ⟨1⟩ default .readRssi),
    .report ⟨1⟩ (.peer default (.rssiRead .ok .unknown)),
    .report ⟨1⟩ (.peer default (.disconnected .ok)),
    .request .agreeing (.act ⟨1⟩ default .connect), .request .agreeing (.act ⟨1⟩ default .readRssi)]

theorem Run.accepted_levelMoves :
    (of .default levelMoves).allocations ≤ UInt64.size ∧
      (of .default levelMoves).accepted ⟨1⟩ default .rssi = 3 ∧
      (of .default levelMoves).completed ⟨1⟩ default .rssi = 2 ∧
      (of .default levelMoves).accepted ⟨1⟩ default .rssi =
        (of .default levelMoves).completed ⟨1⟩ default .rssi +
          (of .default levelMoves).awaited ⟨1⟩ default .rssi :=
  ⟨by decide, by decide, by decide,
    accepted_eq_completed_add_awaited .default levelMoves (by decide) ⟨1⟩ default .rssi⟩

end GattHub
