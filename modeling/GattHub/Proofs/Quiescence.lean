import GattHub.Proofs.ConnectResult
import GattHub.Proofs.Outcome
import Mathlib.Data.List.Perm.Subperm

/-! What is left open once the host has answered its calls. Every report of a kind closes a call
of that kind, if any is open at all; so what is open is bounded by the calls that are unanswered. -/

namespace GattHub

variable {H : Handles}

/-- What is awaited of the host once it has taken a call. -/
inductive Awaited where
  | connectResult
  | linkEnd
  | outcome (k : Operation)
  deriving DecidableEq

/-- What a report answers. Which parent a completed discovery names does not matter. -/
def PeerReport.answers? : PeerReport H → Option Awaited
  | .connected _ => some .connectResult
  | .disconnected _ => some .linkEnd
  | report => report.operation?.map .outcome

/-- How many calls of a kind the peer is waiting for. -/
def Awaited.open : Awaited → Peer H → Nat
  | .connectResult, q => if q.state = .connecting then 1 else 0
  | .linkEnd, q => if q.state = .disconnecting then 1 else 0
  | .outcome k, q => q.pending.countP (·.operation = k)

def Awaited.openFor (e : Awaited) (x : Option (Peer H)) : Nat := x.elim 0 e.open

theorem PeerReport.answers?_eq_outcome {report : PeerReport H} {k : Operation} :
    report.answers? = some (.outcome k) ↔ report.operation? = some k := by
  cases report <;> simp [answers?, operation?]

/-- Any operation but a discovery of children is told by its outcome. -/
theorem Pending.eq_of_operation {op op' : Pending} (h : op'.operation = op.operation)
    (hservice : op'.service? = none) (hcharacteristic : op'.characteristic? = none) : op' = op := by
  cases op' with
  | characteristics => cases hservice
  | descriptors => cases hcharacteristic
  | _ => cases op with cases h | _ => rfl

namespace Peer

variable {q q' : Peer H} {report : PeerReport H} {k : Operation}

theorem notices_complete_ne_nil {op : Pending} (hop : op ∈ q.pending) (n : PeerNotice)
    (effect : Peer H → Peer H) : Effect.notices (q.complete report op n effect).effects ≠ [] := by
  simp only [complete]
  split
  next hnone => exact absurd hop (Pending.take?_eq_none_iff_notMem.mp hnone)
  next => simp

theorem Discovers.notices_ne_nil {α : Type} {ids ids' : IdSource} {status : Status}
    {parent? : Pending → Option AttrId} {current : Option AttrId}
    {rebuild : AttrId →
      Except Gatt.Unresolved (Gatt.Tree H.Service H.Characteristic H.Descriptor × IdSource)}
    {listing : Gatt.Tree H.Service H.Characteristic H.Descriptor → AttrId → List α}
    {outcome : Status → List α → PeerNotice} {ns : List Notice}
    (h : q.Discovers ids status parent? current rebuild listing outcome q' ids' ns) {op : Pending}
    {id : AttrId} (hop : op ∈ q.pending) (hid : parent? op = some id) : ns ≠ [] := by
  cases h with
  | unmatched htake =>
    have hmem : id ∈ q.pending.filterMap parent? := List.mem_filterMap.mpr ⟨op, hop, hid⟩
    rw [Pending.takeDiscovery?_eq_none.mp htake] at hmem
    cases hmem
  | rebuilt | failed | stale => exact List.cons_ne_nil _ _

/-- A completion is not dropped as long as an operation of its kind is pending. -/
theorem notices_receive_ne_nil (settings : Settings) (ids : IdSource)
    (hreport : report.operation? = some k) {op : Pending} (hop : op ∈ q.pending)
    (hk : op.operation = k) : Effect.notices (q.receive settings ids report).effects ≠ [] := by
  have htold : report.operation? = some op.operation := hreport.trans (congrArg some hk.symm)
  have hmem (x : Pending) (hx : report.operation? = some x.operation)
      (hservice : x.service? = none) (hcharacteristic : x.characteristic? = none) : x ∈ q.pending :=
    Pending.eq_of_operation (Option.some.inj (hx.symm.trans htold)) hservice hcharacteristic ▸ hop
  cases report with
  | connected | disconnected => cases hreport
  | servicesDiscovered status found =>
    simp only [receive, servicesDiscovered]
    split
    next hnone =>
      exact absurd (hmem .services rfl rfl rfl) (Pending.take?_eq_none_iff_notMem.mp hnone)
    next => split <;> simp
  | characteristicsDiscovered status service found =>
    obtain ⟨id, hid⟩ : ∃ id, op.service? = some id := by
      cases op with
      | characteristics id => exact ⟨id, rfl⟩
      | _ => cases htold
    exact (q.discovers_characteristicsDiscovered ids status service found).notices_ne_nil hop hid
  | descriptorsDiscovered status characteristic found =>
    obtain ⟨id, hid⟩ : ∃ id, op.characteristic? = some id := by
      cases op with
      | descriptors id => exact ⟨id, rfl⟩
      | _ => cases htold
    exact (q.discovers_descriptorsDiscovered ids status characteristic found).notices_ne_nil hop hid
  | characteristicRead status uuid value =>
    simp only [receive, characteristicRead]
    split
    next => simp
    next hnone =>
      exact absurd (hmem (.readCharacteristic uuid) rfl rfl rfl)
        (Pending.take?_eq_none_iff_notMem.mp hnone)
  | characteristicWritten status uuid | descriptorRead status uuid value
  | descriptorWritten status uuid | notificationStateChanged status uuid enabled
  | rssiRead status rssi => exact notices_complete_ne_nil (hmem _ rfl rfl rfl) _ _

theorem Reaction.open_of_completed {ns : List Notice} (h : q.Reaction report q' ns) (hns : ns ≠ [])
    (hreport : report.operation? = some k) {op : Pending} (hop : op ∈ q.pending)
    (hk : op.operation = k) :
    q'.pending.countP (·.operation = k) + 1 = q.pending.countP (·.operation = k) := by
  cases h with
  | ignored => exact absurd rfl hns
  | established heq | failed _ heq | passed _ heq | lost _ heq =>
    rw [heq] at hreport
    cases hreport
  | completed pre op' post _ _ _ _ hp hop' =>
    have hk' : op'.operation = k := Option.some.inj (hop'.symm.trans hreport)
    simp [hp, List.countP_append, hk']
    omega
  | forwarded _ status uuid value heq hnot =>
    rw [heq] at hreport
    cases hreport
    have hread : .readCharacteristic uuid = op := Pending.eq_of_operation hk.symm rfl rfl
    rw [hread] at hnot
    exact absurd hop hnot

theorem Reaction.pending_sublist {ns : List Notice} (h : q.Reaction report q' ns) :
    q'.pending.Sublist q.pending := by
  cases h with
  | ignored | established | passed | forwarded => exact .refl _
  | failed | lost => exact List.nil_sublist _
  | completed pre op post _ _ _ _ hp =>
    rw [hp]
    exact List.Sublist.append_left (List.sublist_cons_self op post) pre

theorem Reaction.disconnecting {ns : List Notice} (h : q.Reaction report q' ns)
    (hs : q'.state = .disconnecting) : q.state = .disconnecting := by
  cases h with
  | ignored | passed | completed | forwarded => exact hs
  | established | failed | lost => cases hs

theorem linkLost_state (q : Peer H) (reason : Status) :
    (q.linkLost reason).state.state = .disconnected := by
  simp only [linkLost]
  split
  next hs => exact hs
  next => rfl

/-- A report leaves nothing of its kind open, or closes one. Of no kind does it open any. -/
theorem open_receive (q : Peer H) (settings : Settings) (ids : IdSource) (report : PeerReport H)
    (e : Awaited) :
    let q' := (q.receive settings ids report).state.1
    e.open q' = 0 ∨ e.open q' + (if report.answers? = some e then 1 else 0) ≤ e.open q := by
  intro q'
  have hreaction := q.reaction_receive settings ids report
  cases e with
  | connectResult =>
    simp only [Awaited.open]
    by_cases hs : q'.state = .connecting
    · have hno : report.answers? ≠ some .connectResult := by
        cases report with
        | connected status => exact absurd hs (q.connectResult_ne_connecting status)
        | _ => simp [PeerReport.answers?, PeerReport.operation?]
      rw [if_pos hs, if_pos (hreaction.connecting hs), if_neg hno]
      exact .inr (Nat.le_refl 1)
    · exact .inl (if_neg hs)
  | linkEnd =>
    simp only [Awaited.open]
    by_cases hs : q'.state = .disconnecting
    · have hno : report.answers? ≠ some .linkEnd := by
        cases report with
        | disconnected reason =>
          have hdown : q'.state = .disconnected := q.linkLost_state reason
          rw [hs] at hdown
          cases hdown
        | _ => simp [PeerReport.answers?, PeerReport.operation?]
      rw [if_pos hs, if_pos (hreaction.disconnecting hs), if_neg hno]
      exact .inr (Nat.le_refl 1)
    · exact .inl (if_neg hs)
  | outcome k =>
    simp only [Awaited.open]
    by_cases hk : report.operation? = some k
    · by_cases hop : ∃ op ∈ q.pending, op.operation = k
      · obtain ⟨op, hop, hopk⟩ := hop
        have hns := notices_receive_ne_nil settings ids hk hop hopk
        have hclosed := hreaction.open_of_completed hns hk hop hopk
        right
        rw [if_pos (PeerReport.answers?_eq_outcome.mpr hk)]
        exact Nat.le_of_eq hclosed
      · left
        rw [List.countP_eq_zero]
        intro op hmem hopk
        exact hop ⟨op, hreaction.pending_sublist.subset hmem, by simpa using hopk⟩
    · right
      rw [if_neg fun h => hk (PeerReport.answers?_eq_outcome.mp h)]
      exact hreaction.pending_sublist.countP_le

def awaits? (q : Peer H) : PeerAction → Option Awaited
  | .connect => some .connectResult
  | .disconnect => some .linkEnd
  | action => (q.queued? action).map fun op => .outcome op.operation

theorem Accepts.open_le {action : PeerAction} (h : q.Accepts action q') (e : Awaited) :
    e.open q' ≤ e.open q + if q.awaits? action = some e then 1 else 0 := by
  cases h with
  | connect hs => cases e <;> simp [Awaited.open, awaits?, hs]
  | disconnect => cases e <;> simp [Awaited.open, awaits?]
  | operate _ hconnect hdisconnect =>
    have hawaits : q.awaits? action = (q.queued? action).map fun op => .outcome op.operation := by
      cases action with
      | connect => exact absurd rfl hconnect
      | disconnect => exact absurd rfl hdisconnect
      | _ => rfl
    rw [hawaits]
    cases e with
    | connectResult | linkEnd => exact Nat.le_add_right _ _
    | outcome k =>
      cases hop : q.queued? action with
      | none => simp [Awaited.open]
      | some op => simp [Awaited.open, List.countP_append, List.countP_singleton]

theorem open_new (c : CentralId) (p : PeerId) (native : H.Peer) (e : Awaited) :
    e.open (.new c p native : Peer H) = 0 := by
  cases e <;> rfl

end Peer

namespace Moment

variable {t : Moment H} {c : CentralId} {p : PeerId}

/-- What the host is to answer once it has taken the call that is made in the moment. A peer that is
not tracked yet can only be connected. -/
def awaits? (t : Moment H) (c : CentralId) (p : PeerId) : Option Awaited :=
  (t.accepted? c p).bind fun action =>
    (t.before c p).elim (if action = .connect then some .connectResult else none) (·.awaits? action)

def answers? (t : Moment H) (c : CentralId) (p : PeerId) : Option Awaited :=
  match t.move with
  | .report c' (.peer p' report) => if c' = c ∧ p' = p then report.answers? else none
  | _ => none

theorem answers?_of_report {report : PeerReport H} (hm : t.move = .report c (.peer p report)) :
    t.answers? c p = report.answers? := by
  simp [answers?, hm]

theorem answers?_eq_none (hno : ∀ report, t.move ≠ .report c (.peer p report)) :
    t.answers? c p = none := by
  simp only [answers?]
  split
  next c' p' report hm =>
    refine if_neg ?_
    rintro ⟨rfl, rfl⟩
    exact hno report hm
  next => rfl

theorem open_accepted {q q' : Peer H} {action : PeerAction} {x : Option (Peer H)}
    (hx : t.before c p = x) (hq : x = some q ∨ x = none ∧ ∃ native, q = .new c p native)
    (hacc : t.accepted? c p = some action) (haccepts : q.Accepts action q') (e : Awaited) :
    e.openFor (some q') ≤ e.openFor x + if t.awaits? c p = some e then 1 else 0 := by
  have hopen := haccepts.open_le e
  rcases hq with rfl | ⟨rfl, native, rfl⟩
  · have hawaits : t.awaits? c p = q.awaits? action := by simp [awaits?, hacc, hx]
    rw [hawaits]
    exact hopen
  · have hconnect := haccepts.of_new
    have hawaits : t.awaits? c p = some .connectResult := by simp [awaits?, hacc, hx, hconnect]
    rw [Peer.open_new, hconnect] at hopen
    rw [hawaits]
    exact hopen

/-- A moment leaves nothing of a kind open, or what it opens and what it closes make up the
difference. -/
theorem open_step (hl : t.hub.Labelled) (c : CentralId) (p : PeerId) (e : Awaited) :
    e.openFor (t.later c p) = 0 ∨
      e.openFor (t.later c p) + (if t.answers? c p = some e then 1 else 0) ≤
        e.openFor (t.before c p) + if t.awaits? c p = some e then 1 else 0 := by
  have hfate := t.fate hl c p
  by_cases hr : ∃ report q, t.move = .report c (.peer p report) ∧ t.before c p = some q
  · obtain ⟨report, q, hm, hq⟩ := hr
    -- A report may close what it does not answer, as the end of a link does, but opens nothing.
    rw [(reported_spec hm hq).1, hq, answers?_of_report hm]
    exact (q.open_receive t.hub.settings t.hub.ids report e).imp_right (Nat.le_add_right_of_le ·)
  generalize hx : t.before c p = x at hfate
  generalize t.later c p = y at hfate
  have hanswers (q : Peer H) (hq : x = some q) : t.answers? c p = none :=
    answers?_eq_none fun report hm => hr ⟨report, q, hm, hx.trans hq⟩
  cases hfate with
  | kept =>
    cases x with
    | none => exact .inl rfl
    | some q =>
      rw [hanswers q rfl]
      exact .inr (Nat.le_add_right _ _)
  | tracked native => exact .inl (Peer.open_new c p native e)
  | accepted _ q q' action hq _ hacc haccepts =>
    have hnone : t.answers? c p = none := answers?_eq_none fun report hm => by
      rw [accepted?_eq_none_of_report hm] at hacc
      cases hacc
    rw [hnone]
    exact .inr (open_accepted hx hq hacc haccepts e)
  | reported q _ report hm => exact absurd ⟨report, q, hm, hx⟩ hr
  | observed q record =>
    obtain ⟨rssi, hrssi⟩ := q.observe_eq record.rssi
    have hsame : e.openFor (some (q.observe record.rssi)) = e.openFor (some q) := by
      rw [hrssi]
      cases e <;> rfl
    rw [hanswers q rfl, hsame]
    exact .inr (Nat.le_add_right _ _)
  | forgotten | closed | replaced => exact .inl rfl

end Moment

/-- Each call to be answered has an answer of its own, which came later. -/
structure Answered (c : CentralId) (p : PeerId) (past : List (Moment H)) (answer : Nat → Nat) :
    Prop where
  later : ∀ i, (hi : i < past.length) → ∀ e ∈ past[i].awaits? c p, i < answer i ∧
    ∃ h : answer i < past.length, past[answer i].answers? c p = some e
  distinct : ∀ i, (hi : i < past.length) → ∀ j, (hj : j < past.length) →
    (past[i].awaits? c p).isSome → (past[j].awaits? c p).isSome → answer i = answer j → i = j

namespace Answered

variable {c : CentralId} {p : PeerId} {answer : Nat → Nat} {ts us : List (Moment H)}

/-- From any moment on, as many answers came as calls were made. -/
theorem countP_le (h : Answered c p (ts ++ us) answer) (e : Awaited) :
    us.countP (·.awaits? c p = some e) ≤ us.countP (·.answers? c p = some e) := by
  let calls := us.findIdxs (·.awaits? c p = some e) ts.length
  let answers := us.findIdxs (·.answers? c p = some e) ts.length
  have hcall : ∀ i ∈ calls, ts.length ≤ i ∧ ∃ hi : i < (ts ++ us).length,
      (ts ++ us)[i].awaits? c p = some e := by
    intro i hi
    obtain ⟨hle, hlt, hi⟩ := List.mem_findIdxs_iff_getElem_sub_pos.mp hi
    refine ⟨hle, by rw [List.length_append]; omega, ?_⟩
    rw [List.getElem_append_right hle]
    simpa using hi
  -- The answers of the calls are different moments, and all of them come after the cut.
  have hnodup : (calls.map answer).Nodup := by
    refine List.nodup_findIdxs.map_on fun i hi j hj hij => ?_
    obtain ⟨-, hilt, hiawaits⟩ := hcall i hi
    obtain ⟨-, hjlt, hjawaits⟩ := hcall j hj
    exact h.distinct i hilt j hjlt (by rw [hiawaits]; rfl) (by rw [hjawaits]; rfl) hij
  have hsubset : calls.map answer ⊆ answers := by
    intro k hk
    obtain ⟨i, hi, rfl⟩ := List.mem_map.mp hk
    obtain ⟨hle, hlt, hawaits⟩ := hcall i hi
    obtain ⟨hlater, hbound, hanswers⟩ := h.later i hlt e hawaits
    rw [List.length_append] at hbound
    rw [List.getElem_append_right (by omega)] at hanswers
    exact List.mem_findIdxs_iff_getElem_sub_pos.mpr ⟨by omega, by omega, by simpa using hanswers⟩
  have hlength := (hnodup.subperm hsubset).length_le
  simpa [calls, answers] using hlength

end Answered

namespace Run

variable (settings : Settings) (ms : List (Move H)) (c : CentralId) (p : PeerId)

/-- Since a kind of call was last closed altogether, the calls that were made are more than the
answers by what is open. -/
theorem open_add_answers (e : Awaited) : ∃ ts us, (of settings ms).past = ts ++ us ∧
    e.openFor ((of settings ms).hub.bind (·.peer? c p)) + us.countP (·.answers? c p = some e) ≤
      us.countP (·.awaits? c p = some e) := by
  refine of_induction (P := fun r => ∃ ts us, r.past = ts ++ us ∧
    e.openFor (r.hub.bind (·.peer? c p)) + us.countP (·.answers? c p = some e) ≤
      us.countP (·.awaits? c p = some e)) settings ⟨[], [], rfl, Nat.le_refl 0⟩ ?_ ms
  rintro ms h m hr ⟨ts, us, hpast, hopen⟩
  have hstep := Moment.open_step (t := ⟨h, m⟩) ((labelled settings ms).2 h hr) c p e
  change ∃ ts us, _ ∧ e.openFor ((Moment.mk h m).later c p) + _ ≤ _
  rw [hr] at hopen
  -- Where nothing is left open the count starts anew: earlier answers may have been too many.
  rcases hstep with hclosed | hle
  · refine ⟨_, [], (List.append_nil _).symm, ?_⟩
    rw [hclosed]
    exact Nat.le_refl 0
  · refine ⟨ts, us ++ [⟨h, m⟩], by rw [hpast, List.append_assoc], ?_⟩
    have hbefore : e.openFor ((Moment.mk h m).before c p) + us.countP (·.answers? c p = some e) ≤
        us.countP (·.awaits? c p = some e) := hopen
    simp only [List.countP_append, List.countP_singleton, decide_eq_true_eq]
    omega

/-- Once the host has answered all its calls to a peer, whenever and among whatever else, nothing
is pending and the link is either up or down. -/
theorem quiescent {answer : Nat → Nat} (hanswered : Answered c p (of settings ms).past answer)
    {h : Hub H} (hh : (of settings ms).hub = some h) {q : Peer H} (hq : h.peer? c p = some q) :
    q.pending = [] ∧ (q.state = .connected ∨ q.state = .disconnected) := by
  have hclosed (e : Awaited) : e.open q = 0 := by
    obtain ⟨ts, us, hpast, hopen⟩ := open_add_answers settings ms c p e
    have hanswers := (hpast ▸ hanswered).countP_le e
    rw [hh, Option.bind_some, hq] at hopen
    have hle : e.open q + us.countP (·.answers? c p = some e) ≤
        us.countP (·.awaits? c p = some e) := hopen
    omega
  refine ⟨List.eq_nil_iff_forall_not_mem.mpr fun op hop => ?_, ?_⟩
  · have hnone := List.countP_eq_zero.mp (hclosed (.outcome op.operation)) op hop
    simp at hnone
  · have hup := hclosed .connectResult
    have hdown := hclosed .linkEnd
    cases hs : q.state with
    | connected => exact .inl rfl
    | disconnected => exact .inr rfl
    | connecting | disconnecting => simp [Awaited.open, hs] at hup hdown

/-- A signal level is asked for twice before it is told, and again while the link is given up. -/
def settledMoves : List (Move .numbers) :=
  [.request .agreeing .allocate, .request .agreeing (.act ⟨1⟩ default .connect),
    .request .agreeing (.act ⟨1⟩ default .readRssi),
    .request .agreeing (.act ⟨1⟩ default .readRssi),
    .report ⟨1⟩ (.peer default (.rssiRead .ok .unknown)),
    .report ⟨1⟩ (.peer default (.connected .ok)),
    .request .agreeing (.act ⟨1⟩ default .disconnect),
    .request .agreeing (.act ⟨1⟩ default .readRssi),
    .report ⟨1⟩ (.peer default (.disconnected .ok)),
    .report ⟨1⟩ (.peer default (.rssiRead .ok .unknown)),
    .report ⟨1⟩ (.peer default (.rssiRead .ok .unknown))]

def settledHub : Hub .numbers := (of .default settledMoves).hub.getD (.new .default)

def settledPeer : Peer .numbers := (settledHub.peer? ⟨1⟩ default).getD (.new ⟨1⟩ default 0)

theorem quiescent_settled :
    let answer := fun i => [0, 5, 4, 9, 0, 0, 8, 10].getD i 0
    Answered ⟨1⟩ default (of .default settledMoves).past answer ∧
      (of .default settledMoves).hub = some settledHub ∧
      settledHub.peer? ⟨1⟩ default = some settledPeer ∧ settledPeer.pending = [] ∧
      settledPeer.state = .disconnected := by
  intro answer
  have hanswered : Answered ⟨1⟩ default (of .default settledMoves).past answer :=
    ⟨by decide, by decide⟩
  obtain ⟨hpending, -⟩ := quiescent .default settledMoves ⟨1⟩ default hanswered
    (h := settledHub) rfl (q := settledPeer) rfl
  exact ⟨hanswered, rfl, rfl, hpending, by decide⟩

end Run

end GattHub
