import GattHub.Proofs.Session

/-! The last known signal level of a peer. Advertisements and completed reads are all that tells a
level; the last one told since the peer came to be tracked is the one that is known. -/

namespace GattHub

variable {H : Handles}

namespace Peer

variable {q : Peer H}

/-- The level that a report tells of the peer: that of a read that succeeded, if one is awaited. -/
def level? (q : Peer H) : PeerReport H → Option Level
  | .rssiRead status level =>
    if status = .ok ∧ level ≠ .unknown ∧ Pending.rssi ∈ q.pending then some level else none
  | _ => none

theorem observe_rssi (q : Peer H) (level : Level) :
    (q.observe level).rssi = (if level = .unknown then none else some level).or q.rssi := by
  simp only [observe]
  split <;> rfl

theorem connectResult_rssi (status : Status) : (q.connectResult status).state.rssi = q.rssi := by
  simp only [connectResult]
  split
  · split <;> rfl
  · rfl
  · rfl
  · rfl

theorem linkLost_rssi (reason : Status) : (q.linkLost reason).state.rssi = q.rssi := by
  simp only [linkLost]
  split <;> rfl

theorem complete_rssi (report : PeerReport H) (op : Pending) (k : PeerNotice)
    {effect : Peer H → Peer H} (heffect : ∀ q, (effect q).rssi = q.rssi) :
    (q.complete report op k effect).state.rssi = q.rssi := by
  simp only [complete]
  split
  · rfl
  · exact heffect _

theorem characteristicRead_rssi (settings : Settings) (status : Status) (uuid : Uuid)
    (value : Octets) : (q.characteristicRead settings status uuid value).state.rssi = q.rssi := by
  simp only [characteristicRead]
  split
  · rfl
  · split <;> rfl

theorem servicesDiscovered_rssi (ids : IdSource) (status : Status)
    (found : List (Gatt.Found H.Service)) :
    (q.servicesDiscovered ids status found).state.1.rssi = q.rssi := by
  simp only [servicesDiscovered]
  split
  · rfl
  · split <;> rfl

theorem Discovers.rssi {α : Type} {ids ids' : IdSource} {status : Status}
    {parent? : Pending → Option AttrId} {current : Option AttrId}
    {rebuild : AttrId →
      Except Gatt.Unresolved (Gatt.Tree H.Service H.Characteristic H.Descriptor × IdSource)}
    {listing : Gatt.Tree H.Service H.Characteristic H.Descriptor → AttrId → List α}
    {outcome : Status → List α → PeerNotice} {q' : Peer H} {ns : List Notice}
    (h : q.Discovers ids status parent? current rebuild listing outcome q' ids' ns) :
    q'.rssi = q.rssi := by
  cases h <;> rfl

theorem rssiRead_rssi (settings : Settings) (ids : IdSource) (status : Status) (level : Level) :
    (q.receive settings ids (.rssiRead status level)).state.1.rssi =
      (q.level? (.rssiRead status level)).or q.rssi := by
  simp only [receive, complete, level?]
  cases htake : Pending.take? (· = .rssi) q.pending with
  | none =>
    have hnot : Pending.rssi ∉ q.pending := Pending.take?_eq_none_iff_notMem.mp htake
    simp [unmatched, hnot]
  | some taken =>
    obtain ⟨op, rest⟩ := taken
    obtain ⟨-, pre, post, hqueue, -⟩ := Pending.eq_of_take?_eq_some htake
    have hmem : Pending.rssi ∈ q.pending := by simp [hqueue]
    by_cases hok : status = .ok
    · by_cases hlevel : level = .unknown <;> simp [hok, hlevel, hmem, observe]
    · simp [hok]

/-- Nothing but a read that is awaited and succeeds tells a peer its level. -/
theorem receive_rssi (q : Peer H) (settings : Settings) (ids : IdSource) (report : PeerReport H) :
    (q.receive settings ids report).state.1.rssi = (q.level? report).or q.rssi := by
  cases report with
  | rssiRead status level => exact rssiRead_rssi settings ids status level
  | connected status => exact connectResult_rssi status
  | disconnected reason => exact linkLost_rssi reason
  | servicesDiscovered status found => exact servicesDiscovered_rssi ids status found
  | characteristicsDiscovered status service found =>
    exact (q.discovers_characteristicsDiscovered ids status service found).rssi
  | descriptorsDiscovered status characteristic found =>
    exact (q.discovers_descriptorsDiscovered ids status characteristic found).rssi
  | characteristicRead status uuid value => exact characteristicRead_rssi settings status uuid value
  | characteristicWritten status uuid => exact complete_rssi _ _ _ fun _ => rfl
  | descriptorRead status uuid value => exact complete_rssi _ _ _ fun _ => rfl
  | descriptorWritten status uuid => exact complete_rssi _ _ _ fun _ => rfl
  | notificationStateChanged status uuid enabled =>
    refine complete_rssi _ _ _ fun q => ?_
    split <;> rfl

end Peer

namespace Moment

variable {t : Moment H} {c : CentralId} {p : PeerId}

/-- The level that the moment tells of a peer: that of an advertisement, whether or not it is passed
on, or that of a read that the peer awaits. -/
def level? (t : Moment H) (c : CentralId) (p : PeerId) : Option Level :=
  match t.move with
  | .report c' (.advertised record) =>
    if c' = c ∧ record.peer = p ∧ record.rssi ≠ .unknown then some record.rssi else none
  | .report c' (.peer p' report) =>
    if c' = c ∧ p' = p then (t.before c p).bind (·.level? report) else none
  | _ => none

theorem later_advertised {record : Advertisement}
    (hm : t.move = .report c (.advertised record)) :
    t.later c record.peer = (t.before c record.peer).map (·.observe record.rssi) := by
  obtain ⟨h, m⟩ := t
  cases hm
  cases hm : h.centrals.get? c with
  | none => simp [later, before, after, step, Hub.receive, Hub.peer?, hm]
  | some m =>
    have hpeers : (m.receive h.settings h.ids (.advertised record)).state.1.peers =
        m.peers.modify record.peer (·.observe record.rssi) := by
      simp only [Central.receive, Central.advertised]
      split
      · rfl
      · split <;> rfl
    simp [later, before, after, step, Hub.receive, Hub.peer?, hm, Table.get?_insert, hpeers,
      Table.get?_modify]

theorem level?_eq_none
    (hadvertised : ∀ record, t.move = .report c (.advertised record) → record.peer ≠ p)
    (hreport : ∀ report, t.move = .report c (.peer p report) → t.before c p = none) :
    t.level? c p = none := by
  simp only [level?]
  split
  next c' record hm =>
    refine if_neg ?_
    rintro ⟨rfl, hp, -⟩
    exact hadvertised record hm hp
  next c' p' report hm =>
    split
    next hcp =>
      obtain ⟨rfl, rfl⟩ := hcp
      rw [hreport report hm]
      rfl
    next => rfl
  next => rfl

/-- A moment leaves a peer the level that it tells, else the one that was known. A peer that comes
to be tracked starts out without one. -/
theorem rssi_later (hl : t.hub.Labelled) {q' : Peer H} (hq' : t.later c p = some q') :
    q'.rssi = (t.level? c p).or ((t.before c p).bind (·.rssi)) := by
  by_cases hadvertised : ∃ record, t.move = .report c (.advertised record) ∧ record.peer = p
  · obtain ⟨record, hm, rfl⟩ := hadvertised
    rw [later_advertised hm] at hq'
    obtain ⟨q, hq, rfl⟩ := Option.map_eq_some_iff.mp hq'
    rw [q.observe_rssi, hq]
    by_cases hlevel : record.rssi = .unknown <;> simp [level?, hm, hlevel]
  by_cases hreport : ∃ report q, t.move = .report c (.peer p report) ∧ t.before c p = some q
  · obtain ⟨report, q, hm, hq⟩ := hreport
    rw [(reported_spec hm hq).1] at hq'
    cases hq'
    rw [q.receive_rssi]
    simp [level?, hm, hq]
  -- Whatever else happens to the peer tells it no level.
  have hnone : t.level? c p = none := by
    refine level?_eq_none (fun record hm hp => hadvertised ⟨record, hm, hp⟩) fun report hm => ?_
    exact Option.eq_none_iff_forall_ne_some.mpr fun q hq => hreport ⟨report, q, hm, hq⟩
  have hfate := t.fate hl c p
  rw [hnone, Option.none_or]
  rw [hq'] at hfate
  generalize t.before c p = x at hfate hreport
  cases hfate with
  | kept => rfl
  | tracked native => rfl
  | accepted _ q _ action hq _ _ haccepts =>
    have hsame : q'.rssi = q.rssi := by cases haccepts <;> rfl
    rcases hq with rfl | ⟨rfl, native, rfl⟩
    · exact hsame
    · exact hsame
  | reported q _ report hm => exact absurd ⟨report, q, hm, rfl⟩ hreport
  | observed q record hm hp => exact absurd ⟨record, hm, hp⟩ hadvertised

end Moment

namespace Run

/-- The levels that were told of a peer since it came to be tracked, oldest first. -/
def levels (r : Run H) (c : CentralId) (p : PeerId) : List Level :=
  (r.past.rtakeWhile fun t => (t.later c p).isSome).filterMap (·.level? c p)

theorem levels_append_singleton (r : Run H) (t : Moment H) (hub : Option (Hub H)) (c : CentralId)
    (p : PeerId) : levels ⟨r.past ++ [t], hub⟩ c p =
      if (t.later c p).isSome then r.levels c p ++ (t.level? c p).toList else [] := by
  simp only [levels, List.rtakeWhile_concat]
  split
  · rw [List.filterMap_append]
    cases ht : t.level? c p <;> simp [ht]
  · rfl

theorem getLast?_append_toList {α : Type} (l : List α) (x : Option α) :
    (l ++ x.toList).getLast? = x.or l.getLast? := by
  cases x <;> simp

/-- What is known of any peer, tracked or not, is the last level told of it. -/
theorem bind_rssi (settings : Settings) (ms : List (Move H)) :
    ∀ h, (of settings ms).hub = some h → ∀ c p,
      (h.peer? c p).bind (·.rssi) = ((of settings ms).levels c p).getLast? := by
  refine of_induction (P := fun r => ∀ h, r.hub = some h → ∀ c p,
    (h.peer? c p).bind (·.rssi) = (r.levels c p).getLast?) settings ?_ ?_ ms
  · rintro h ⟨⟩ c p
    rfl
  · intro ms h m hr ih h' ha c p
    have hl : h.Labelled := (labelled settings ms).2 h hr
    have hlater : (Moment.mk h m).later c p = h'.peer? c p := Moment.later_eq ha c p
    rw [levels_append_singleton, hlater]
    cases hq' : h'.peer? c p with
    | none => rfl
    | some q' =>
      have hstep := Moment.rssi_later (t := ⟨h, m⟩) hl (hlater.trans hq')
      have hprior : ((Moment.mk h m).before c p).bind (·.rssi) = _ := ih h hr c p
      rw [Option.bind_some, Option.isSome_some, if_pos rfl, getLast?_append_toList, hstep, hprior]

/-- The level that is known of a tracked peer is the last one told since it came to be tracked, by an
advertisement or by a read, whatever happened to its link and to the scan. There is none before the
first is told, and a moment that tells none leaves what is known. -/
theorem rssi_last_told (settings : Settings) (ms : List (Move H)) {h : Hub H}
    (hh : (of settings ms).hub = some h) {c : CentralId} {p : PeerId} {q : Peer H}
    (hq : h.peer? c p = some q) :
    q.rssi = ((of settings ms).levels c p).getLast? ∧
      h.answer (.rssi c p) = .ok (.rssi ((of settings ms).levels c p).getLast?) ∧
      ∀ t ∈ (of settings ms).past, ∀ q', t.later c p = some q' →
        q'.rssi = (t.level? c p).or ((t.before c p).bind (·.rssi)) := by
  have hlast : q.rssi = ((of settings ms).levels c p).getLast? := by
    have hbind := bind_rssi settings ms h hh c p
    rwa [hq] at hbind
  refine ⟨hlast, ?_, fun t ht q' hq' => Moment.rssi_later ((labelled settings ms).1 t ht) hq'⟩
  obtain ⟨m, hm, hpeer⟩ := Hub.peer?_eq_some.mp hq
  simp only [Hub.answer, Hub.peer, Hub.central, hm, Central.peer, hpeer, Except.bind, Except.map,
    Peer.info, hlast]

def seen (level : Level) : Advertisement := ⟨default, level, none, .unknown, false, none, [], []⟩

/-- The peer advertises without a scan, its level is read, and the link comes and goes. A level that
nobody reads or that is not known does not count. -/
def tellingMoves : List (Move .numbers) :=
  [.request .agreeing .allocate, .request .agreeing (.act ⟨1⟩ default .connect),
    .report ⟨1⟩ (.advertised (seen (-60))), .report ⟨1⟩ (.peer default (.connected .ok)),
    .request .agreeing (.act ⟨1⟩ default .readRssi),
    .report ⟨1⟩ (.peer default (.rssiRead .ok (-50))),
    .report ⟨1⟩ (.peer default (.rssiRead .ok (-40))),
    .report ⟨1⟩ (.advertised (seen .unknown)), .report ⟨1⟩ (.peer default (.disconnected .ok))]

def tellingHub : Hub .numbers := (of .default tellingMoves).hub.getD (.new .default)

def tellingPeer : Peer .numbers := (tellingHub.peer? ⟨1⟩ default).getD (.new ⟨1⟩ default 0)

theorem rssi_last_told_read :
    (of .default tellingMoves).hub = some tellingHub ∧
      tellingHub.peer? ⟨1⟩ default = some tellingPeer ∧
      (of .default tellingMoves).levels ⟨1⟩ default = [-60, -50] ∧
      tellingHub.answer (.rssi ⟨1⟩ default) = .ok (.rssi (some (-50))) := by
  have hhub : (of .default tellingMoves).hub = some tellingHub := rfl
  have hpeer : tellingHub.peer? ⟨1⟩ default = some tellingPeer := rfl
  have hlevels : (of .default tellingMoves).levels ⟨1⟩ default = [-60, -50] := by decide
  obtain ⟨-, hanswer, -⟩ := rssi_last_told .default tellingMoves hhub hpeer
  rw [hlevels] at hanswer
  exact ⟨hhub, hpeer, hlevels, hanswer⟩

end Run

end GattHub
