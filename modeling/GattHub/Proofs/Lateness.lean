import GattHub.Proofs.Link
import GattHub.Proofs.Quiescence

/-! What comes of a completion that arrives after its link has ended. It carries nothing that tells
the link, so the hub takes it for an operation of the same kind on the present link, if one is
pending there. Otherwise it is dropped, unless it is a value that is passed on. -/

namespace GattHub

variable {H : Handles}

namespace Peer

variable {q q' : Peer H} {report : PeerReport H} {k : Operation}

/-- What is announced of a report that nothing awaits. -/
def forwarded (settings : Settings) (q : Peer H) : PeerReport H → List PeerNotice
  | .characteristicRead status uuid value =>
    if q.forwards settings status uuid then
      [.characteristicRead status uuid (valueIfOk status value)]
    else []
  | _ => []

theorem receive_unawaited (settings : Settings) (ids : IdSource)
    (hreport : report.operation? = some k) (hno : ∀ op ∈ q.pending, op.operation ≠ k) :
    (q.receive settings ids report).state.1 = q ∧
      Effect.notices (q.receive settings ids report).effects =
        (q.forwarded settings report).map q.notice := by
  by_cases hread : ∃ status uuid value, report = .characteristicRead status uuid value
  · obtain ⟨status, uuid, value, rfl⟩ := hread
    have htake : Pending.take? (· = .readCharacteristic uuid) q.pending = none :=
      Pending.take?_eq_none_iff_notMem.mpr fun hmem => hno _ hmem (Option.some.inj hreport)
    simp only [receive, characteristicRead, htake, forwarded]
    split <;> exact ⟨rfl, rfl⟩
  · have hforwarded : q.forwarded settings report = [] := by
      cases report with
      | characteristicRead status uuid value => exact absurd ⟨_, _, _, rfl⟩ hread
      | _ => rfl
    have hreaction := q.reaction_receive settings ids report
    rw [hforwarded]
    generalize hq' : (q.receive settings ids report).state.1 = q' at hreaction ⊢
    generalize Effect.notices (q.receive settings ids report).effects = ns at hreaction ⊢
    cases hreaction with
    | ignored => exact ⟨rfl, rfl⟩
    | established heq | failed _ heq | passed _ heq | lost _ heq =>
      rw [heq] at hreport
      cases hreport
    | completed pre op post _ _ _ _ hp hop =>
      exact absurd (Option.some.inj (hop.symm.trans hreport)) (hno op (by simp [hp]))
    | forwarded _ status uuid value heq => exact absurd ⟨_, _, _, heq⟩ hread

/-- A report for which an operation of its kind is pending completes one of them. -/
theorem receive_awaited (settings : Settings) (ids : IdSource)
    (hreport : report.operation? = some k) {x : Pending} (hx : x ∈ q.pending)
    (hk : x.operation = k) :
    ∃ pre op post n, q.pending = pre ++ op :: post ∧ op.operation = k ∧ n.operation? = some k ∧
      (q.receive settings ids report).state.1.pending = pre ++ post ∧
      Effect.notices (q.receive settings ids report).effects = [q.notice n] := by
  have hns := notices_receive_ne_nil settings ids hreport hx hk
  have hreaction := q.reaction_receive settings ids report
  generalize (q.receive settings ids report).state.1 = q' at hreaction ⊢
  generalize Effect.notices (q.receive settings ids report).effects = ns at hreaction hns ⊢
  cases hreaction with
  | ignored => exact absurd rfl hns
  | established heq | failed _ heq | passed _ heq | lost _ heq =>
    rw [heq] at hreport
    cases hreport
  | completed pre op post n _ _ _ hp hop hn =>
    have hopk : op.operation = k := Option.some.inj (hop.symm.trans hreport)
    exact ⟨pre, op, post, n, hp, hopk, hopk ▸ hn, rfl, rfl⟩
  | forwarded _ status uuid value heq hnot =>
    rw [heq] at hreport
    cases hreport
    have hread : .readCharacteristic uuid = x := Pending.eq_of_operation hk.symm rfl rfl
    exact absurd (hread ▸ hx) hnot

end Peer

namespace Moment

variable {t : Moment H} {c : CentralId} {p : PeerId} {k : Operation}

/-- Fewer operations of a kind are awaited only after a report of that kind or at the end of the
link. -/
theorem Fate.awaited_le {x y : Option (Peer H)} (h : t.Fate c p x y)
    (hno : ∀ report, t.move = .report c (.peer p report) → report.operation? ≠ some k)
    (hy : Engaged y) : k.awaited x ≤ k.awaited y := by
  cases h with
  | kept => exact Nat.le_refl _
  | tracked => exact Nat.zero_le _
  | accepted _ q q' action hq _ _ haccepts =>
    rw [awaited_accepts haccepts]
    rcases hq with rfl | ⟨rfl, -⟩
    · exact Nat.le_add_right _ _
    · exact Nat.zero_le _
  | reported q q' report hm _ hreaction =>
    have hkind := hno report hm
    generalize t.notices = ns at hreaction
    cases hreaction with
    | ignored | established | passed | forwarded => exact Nat.le_refl _
    | failed | lost => exact absurd rfl (Peer.engaged_some.mp hy)
    | completed pre op post _ _ _ _ hp hop =>
      have hne : op.operation ≠ k := fun heq => hkind (hop.trans (congrArg some heq))
      simp [Operation.awaited, hp, List.countP_append, hne]
  | observed q record =>
    obtain ⟨rssi, hrssi⟩ := q.observe_eq record.rssi
    rw [hrssi]
    exact Nat.le_refl _
  | forgotten | closed | replaced =>
    obtain ⟨q, hq, -⟩ := hy
    cases hq

theorem notices_of_untracked {report : PeerReport H} (hm : t.move = .report c (.peer p report))
    (hq : t.before c p = none) : t.notices = [] ∧ t.later c p = none := by
  obtain ⟨h, m⟩ := t
  cases hm
  cases hget : h.centrals.get? c with
  | none =>
    have hreceive : h.receive c (.peer p report) = ⟨h, [.log (.misrouted c (.peer p report))]⟩ := by
      simp [Hub.receive, hget]
    simp [notices, effects, later, after, step, hreceive, Hub.peer?, hget]
  | some m =>
    have hpeer : m.peers.get? p = none := (Hub.peer?_of_get? hget p).symm.trans hq
    simp [notices, effects, later, after, step, Hub.receive, hget, Central.receive,
      Central.peerReported, hpeer, Hub.peer?, Table.get?_insert]

end Moment

namespace Run

variable (settings : Settings) (ms : List (Move H)) {c : CentralId} {p : PeerId}

/-- What is pending was accepted since the peer was last without a link. -/
theorem pending_sublist_since {ts us : List (Moment H)} {t : Moment H} {q : Peer H}
    (hpast : (of settings ms).past = ts ++ t :: us) (hend : ¬ Engaged (t.later c p))
    (hq : (of settings ms).hub.bind (·.peer? c p) = some q) :
    q.pending.Sublist (us.filterMap (·.queued? c p)) := by
  revert ts us t q
  refine of_induction (P := fun r => ∀ {ts us t q}, r.past = ts ++ t :: us →
    ¬ Engaged (t.later c p) → r.hub.bind (·.peer? c p) = some q →
      q.pending.Sublist (us.filterMap (·.queued? c p)))
    settings ?_ ?_ ms
  · intro ts us t q hpast
    simp [start] at hpast
  · intro ms h m hr ih ts us t q' hpast hend hq'
    cases us using List.reverseRecOn with
    | nil =>
      obtain ⟨-, ht⟩ := List.append_inj' hpast rfl
      cases ht
      have hdown : q'.state = .disconnected := by
        by_contra hup
        exact hend ⟨q', hq', hup⟩
      obtain ⟨h', ha, hpeer⟩ := Option.bind_eq_some_iff.mp hq'
      have hconsistent := Moment.consistent (t := ⟨h, m⟩) ((labelled settings ms).2 h hr)
        ((consistent settings ms).2 h hr) ha
      rw [((hconsistent c p q' hpeer).disconnected hdown).1]
      exact List.nil_sublist _
    | append_singleton us u =>
      rw [← List.cons_append, ← List.append_assoc] at hpast
      obtain ⟨hprior, hu⟩ := List.append_inj' hpast rfl
      cases hu
      have hfate := Moment.fate ⟨h, m⟩ ((labelled settings ms).2 h hr) c p
      have hbefore : (((Moment.mk h m).before c p).elim [] Peer.pending).Sublist
          (us.filterMap (·.queued? c p)) := by
        cases hq : (Moment.mk h m).before c p with
        | none => exact List.nil_sublist _
        | some q => exact ih hprior hend (by rw [hr]; exact hq)
      have hadded : [Moment.mk h m].filterMap (·.queued? c p) =
          ((Moment.mk h m).queued? c p).toList := by
        cases hop : (Moment.mk h m).queued? c p <;> simp [hop]
      rw [List.filterMap_append, hadded]
      exact (hfate.pending_sublist rfl hq').trans (hbefore.append (.refl _))

/-- Once a link has ended, an operation that was pending on it has been cancelled, and what is
pending later was accepted since. A completion of it that still arrives is told to nobody if no
operation of its kind is pending then, or passed on as a notified value; otherwise it completes one
of those, and there is no telling whose completion it is. Nothing else but the end of a link takes
an operation away. -/
theorem late_completion (hbound : (of settings ms).allocations ≤ UInt64.size)
    {ts us vs : List (Moment H)} {t₀ t : Moment H} {q₀ : Peer H} {op : Pending}
    {report : PeerReport H} (hpast : (of settings ms).past = ts ++ t₀ :: us ++ t :: vs)
    (hq₀ : t₀.before c p = some q₀) (hop : op ∈ q₀.pending) (hend : ¬ Engaged (t₀.later c p))
    (hm : t.move = .report c (.peer p report)) (hreport : report.operation? = some op.operation) :
    (∃ n, .peer c p n ∈ t₀.notices ∧ n.status = .cancelled ∧ n.operation? = some op.operation) ∧
    (t.before c p = none → t.notices = [] ∧ t.later c p = none) ∧
    (∀ q, t.before c p = some q → q.pending.Sublist (us.filterMap (·.queued? c p)) ∧
      ((∀ x ∈ q.pending, x.operation ≠ op.operation) →
        t.later c p = some q ∧
          t.notices = (q.forwarded t.hub.settings report).map (.peer c p)) ∧
      ((∃ x ∈ q.pending, x.operation = op.operation) →
        ∃ pre x post n q', q.pending = pre ++ x :: post ∧ x.operation = op.operation ∧
          n.operation? = some op.operation ∧ t.later c p = some q' ∧ q'.pending = pre ++ post ∧
          t.notices = [.peer c p n])) ∧
    ∀ pre v post k, (of settings ms).past = pre ++ v :: post →
      k.awaited (v.later c p) < k.awaited (v.before c p) →
      (∃ report, v.move = .report c (.peer p report) ∧ report.operation? = some k) ∨
        ¬ Engaged (v.later c p) := by
  have hpast₀ : (of settings ms).past = ts ++ t₀ :: (us ++ t :: vs) := by rw [hpast]; simp
  refine ⟨?_, Moment.notices_of_untracked hm, fun q hq => ?_, fun pre v post k hv hlt => ?_⟩
  · obtain ⟨ms₀, -, hr⟩ := exists_of_past_eq settings ms hpast₀
    have hl := (labelled settings ms₀).2 t₀.hub hr
    have hup : Engaged (t₀.before c p) := by
      refine ⟨q₀, hq₀, fun hdown => ?_⟩
      rw [(((consistent settings ms₀).2 t₀.hub hr c p q₀ hq₀).disconnected hdown).1] at hop
      cases hop
    have hfree := free_of_past_eq settings ms hbound hpast₀
    obtain ⟨q, outcomes, closing, hq, hcloses⟩ := (t₀.fate hl c p).closes
      (fun q hq => ⟨hl.peer_central hq, hl.peer_id hq⟩)
      (fun hyes hnext => by simp [Moment.before, Hub.peer?, ← hnext, hfree hyes]) hup hend
    cases hq₀.symm.trans hq
    obtain ⟨i, hi⟩ := List.get_of_mem hop
    have hlen : (i : Nat) < outcomes.length := hcloses.cancelled.length_eq ▸ i.isLt
    obtain ⟨pre, post, hns, -⟩ := hcloses.notices
    refine ⟨outcomes[(i : Nat)], ?_, ?_⟩
    · rw [hns]
      simp
    · have hpair := hcloses.cancelled.get i.isLt hlen
      rwa [hi] at hpair
  · obtain ⟨ms', hpast', hr⟩ := exists_of_past_eq settings ms hpast
    have hl := (labelled settings ms').2 t.hub hr
    have hnotice (n : PeerNotice) : q.notice n = .peer c p n := by
      rw [Peer.notice, hl.peer_central hq, hl.peer_id hq]
    obtain ⟨hlater, hnotices⟩ := t.reported_spec hm hq
    refine ⟨pending_sublist_since settings ms' hpast' hend (by rw [hr]; exact hq),
      fun hno => ?_, ?_⟩
    · obtain ⟨hstate, hns⟩ := q.receive_unawaited t.hub.settings t.hub.ids hreport hno
      rw [hlater, hstate, hnotices, hns]
      exact ⟨rfl, List.map_congr_left fun n _ => hnotice n⟩
    · rintro ⟨x, hx, hk⟩
      obtain ⟨pre, x', post, n, hp, hk', hn, hstate, hns⟩ :=
        q.receive_awaited t.hub.settings t.hub.ids hreport hx hk
      exact ⟨pre, x', post, n, _, hp, hk', hn, hlater, hstate, by rw [hnotices, hns, hnotice]⟩
  · obtain ⟨ms', -, hr⟩ := exists_of_past_eq settings ms hv
    have hfate := v.fate ((labelled settings ms').2 v.hub hr) c p
    by_contra hnone
    rw [not_or, not_not] at hnone
    exact Nat.not_le.mpr hlt
      (hfate.awaited_le (fun r hr hk => hnone.1 ⟨r, hr, hk⟩) hnone.2)

/-- A peer is connected and its signal level is asked for. -/
def levelAsked : List (Move .numbers) :=
  [.request .agreeing (.act ⟨1⟩ default .connect), .report ⟨1⟩ (.peer default (.connected .ok)),
    .request .agreeing (.act ⟨1⟩ default .readRssi)]

def askedTwice : List (Move .numbers) :=
  .request .agreeing .allocate :: levelAsked ++ .report ⟨1⟩ (.peer default (.disconnected .ok)) ::
    levelAsked

def linkEnd : Moment .numbers :=
  ⟨(of .default (askedTwice.take 4)).hub.getD (.new .default),
    .report ⟨1⟩ (.peer default (.disconnected .ok))⟩

def lateLevel : Moment .numbers :=
  ⟨(of .default askedTwice).hub.getD (.new .default),
    .report ⟨1⟩ (.peer default (.rssiRead .ok (-40)))⟩

/-- The peer before a moment, or else an unknown one. -/
def peerAt (t : Moment .numbers) : Peer .numbers := (t.before ⟨1⟩ default).getD (.new ⟨1⟩ default 0)

/-- The level of the first link completes the read of the second. -/
theorem late_completion_mistaken :
    let us := (of .default askedTwice).past.drop 5
    let q := peerAt lateLevel
    (of .default (askedTwice ++ [lateLevel.move])).past =
        (of .default (askedTwice.take 4)).past ++ linkEnd :: us ++ [lateLevel] ∧
      Pending.rssi ∈ (peerAt linkEnd).pending ∧ ¬ Engaged (linkEnd.later ⟨1⟩ default) ∧
      us.filterMap (·.queued? ⟨1⟩ default) = [.rssi] ∧
      lateLevel.notices = [.peer ⟨1⟩ default (.rssiRead .ok (-40))] ∧
      ∃ pre x post n q', q.pending = pre ++ x :: post ∧ x.operation = .rssi ∧
        n.operation? = some .rssi ∧ lateLevel.later ⟨1⟩ default = some q' ∧
        q'.pending = pre ++ post ∧ lateLevel.notices = [.peer ⟨1⟩ default n] := by
  have hend : ¬ Engaged (linkEnd.later ⟨1⟩ default) := by
    rintro ⟨q, hq, hup⟩
    cases hq
    exact hup rfl
  have hpast : (of .default (askedTwice ++ [lateLevel.move])).past =
      (of .default (askedTwice.take 4)).past ++ linkEnd :: (of .default askedTwice).past.drop 5 ++
        [lateLevel] := rfl
  have hq : linkEnd.before ⟨1⟩ default = some (peerAt linkEnd) := rfl
  have hop : Pending.rssi ∈ (peerAt linkEnd).pending := by decide
  have hlate := late_completion .default (askedTwice ++ [lateLevel.move]) (by decide) hpast hq hop
    hend rfl rfl
  exact ⟨hpast, hop, hend, by decide, by decide,
    (hlate.2.2.1 (peerAt lateLevel) rfl).2.2 ⟨.rssi, by decide, rfl⟩⟩

end Run

end GattHub
