import GattHub.Proofs.Invariants

/-! The effects that concern the scan of a manager: the calls that open or close its side of the
host or switch its scan, and the advertisements that are passed on. What peers do is none of it. -/

namespace GattHub

variable {H : Handles}

/-- Whether a call opens or closes a manager's side of the host, or switches its scan. -/
def HostCall.shapesScan : HostCall H → Bool
  | .openCentral | .scan _ | .stopScan | .close => true
  | .lookup _ | .peer .. => false

/-- The record of an advertisement that is passed on for this manager. -/
def Notice.record? (c : CentralId) : Notice → Option Advertisement
  | .discovered c' record => if c' = c then some record else none
  | _ => none

namespace Effect

/-- The calls of one manager that open or close its side of the host, or switch its scan. -/
def scanCalls (c : CentralId) (es : List (Effect H)) : List (HostCall H) :=
  (calls es).filterMap fun e => if e.1 = c ∧ e.2.shapesScan then some e.2 else none

def records (c : CentralId) (es : List (Effect H)) : List Advertisement :=
  (notices es).filterMap (Notice.record? c)

/-- Whether an effect is a call for a scan, or passes an advertisement on. -/
def isOfScan : Effect H → Bool
  | call _ k _ => k.shapesScan
  | notice (.discovered ..) => true
  | notice _ | log _ => false

@[simp] theorem calls_nil : calls ([] : List (Effect H)) = [] := rfl

@[simp] theorem calls_append (es es' : List (Effect H)) :
    calls (es ++ es') = calls es ++ calls es' := List.filterMap_append

@[simp] theorem calls_call (c : CentralId) (k : HostCall H) (r : Option Refusal)
    (es : List (Effect H)) : calls (.call c k r :: es) = (c, k) :: calls es := rfl

@[simp] theorem calls_notice (n : Notice) (es : List (Effect H)) :
    calls (.notice n :: es) = calls es := rfl

@[simp] theorem calls_log (l : LogEntry H) (es : List (Effect H)) :
    calls (.log l :: es) = calls es := rfl

@[simp] theorem scanCalls_nil (c : CentralId) : scanCalls c ([] : List (Effect H)) = [] := rfl

@[simp] theorem scanCalls_call (c c' : CentralId) (k : HostCall H) (r : Option Refusal)
    (es : List (Effect H)) : scanCalls c (.call c' k r :: es) =
      if c' = c ∧ k.shapesScan then k :: scanCalls c es else scanCalls c es := by
  by_cases h : c' = c ∧ k.shapesScan = true <;> simp [scanCalls, h]

@[simp] theorem scanCalls_notice (c : CentralId) (n : Notice) (es : List (Effect H)) :
    scanCalls c (.notice n :: es) = scanCalls c es := rfl

@[simp] theorem scanCalls_log (c : CentralId) (l : LogEntry H) (es : List (Effect H)) :
    scanCalls c (.log l :: es) = scanCalls c es := rfl

theorem scanCalls_append (c : CentralId) (es es' : List (Effect H)) :
    scanCalls c (es ++ es') = scanCalls c es ++ scanCalls c es' := by
  simp [scanCalls]

theorem scanCalls_flatMap {α : Type} (c : CentralId) (l : List α) (f : α → List (Effect H)) :
    scanCalls c (l.flatMap f) = l.flatMap fun a => scanCalls c (f a) := by
  induction l with
  | nil => rfl
  | cons a l ih => rw [List.flatMap_cons, scanCalls_append, ih, List.flatMap_cons]

theorem scanCalls_eq_nil {es : List (Effect H)} (h : ∀ e ∈ es, e.isOfScan = false) (c : CentralId) :
    scanCalls c es = [] := by
  rw [scanCalls, List.filterMap_eq_nil_iff]
  rintro ⟨c', k⟩ hk
  obtain ⟨e, he, hcall⟩ := List.mem_filterMap.mp hk
  cases e with
  | call c'' k' r =>
    cases hcall
    have hno : k.shapesScan = false := h _ he
    simp [hno]
  | notice | log => cases hcall

theorem records_eq_nil {es : List (Effect H)} (h : ∀ e ∈ es, e.isOfScan = false) (c : CentralId) :
    records c es = [] := by
  rw [records, List.filterMap_eq_nil_iff]
  intro n hn
  obtain ⟨e, he, hnotice⟩ := List.mem_filterMap.mp hn
  cases e with
  | notice n' =>
    cases hnotice
    cases n with
    | discovered => cases h _ he
    | _ => rfl
  | call | log => cases hnotice

end Effect

namespace Peer

theorem isOfScan_perform (answers : Answers H) (q : Peer H) (action : PeerAction) :
    ∀ e ∈ (q.perform answers action).effects, e.isOfScan = false := by
  simp only [perform]
  split
  · exact fun _ h => absurd h List.not_mem_nil
  · split <;> simp [Effect.isOfScan, HostCall.shapesScan]

theorem isOfScan_attMtu (answers : Answers H) (q : Peer H) :
    ∀ e ∈ (q.attMtu answers).effects, e.isOfScan = false := by
  simp only [attMtu]
  split
  · exact fun _ h => absurd h List.not_mem_nil
  · split <;> simp [Effect.isOfScan, HostCall.shapesScan]

theorem isOfScan_cancellations (q : Peer H) : ∀ e ∈ q.cancellations, e.isOfScan = false := by
  intro e he
  obtain ⟨op, -, he⟩ := List.mem_flatMap.mp he
  rcases List.mem_pair.mp he with rfl | rfl <;> rfl

theorem isOfScan_linkLost (q : Peer H) (reason : Status) :
    ∀ e ∈ (q.linkLost reason).effects, e.isOfScan = false := by
  intro e he
  simp only [linkLost] at he
  split at he
  · rw [List.mem_singleton.mp he]
    rfl
  · rcases List.mem_append.mp he with he | he
    · exact q.isOfScan_cancellations e he
    · rcases List.mem_pair.mp he with rfl | rfl <;> rfl

theorem isOfScan_teardown (answers : Answers H) (q : Peer H) :
    ∀ e ∈ (q.teardown answers).effects, e.isOfScan = false := by
  have hlost := q.isOfScan_linkLost .cancelled
  have hrefusal (r : Option Refusal) :
      ∀ e ∈ r.toList.map fun r => (.log (.cancelRefused q.id r) : Effect H),
        e.isOfScan = false := by
    cases r <;> simp [Effect.isOfScan]
  simp only [teardown]
  cases q.state with
  | disconnected => exact fun _ h => absurd h List.not_mem_nil
  | disconnecting => exact hlost
  | connecting | connected =>
    intro e he
    rcases List.mem_append.mp he with he | he
    · rcases List.mem_cons.mp he with rfl | he
      · rfl
      · exact hrefusal _ e he
    · exact hlost e he

theorem calls_complete (q : Peer H) (report : PeerReport H) (op : Pending) (n : PeerNotice)
    (effect : Peer H → Peer H) : Effect.calls (q.complete report op n effect).effects = [] := by
  simp only [complete]
  split <;> rfl

/-- A report makes no call. -/
theorem calls_receive (settings : Settings) (ids : IdSource) (q : Peer H)
    (report : PeerReport H) : Effect.calls (q.receive settings ids report).effects = [] := by
  have hcancel : Effect.calls q.cancellations = [] := by
    rw [cancellations]
    induction q.pending with
    | nil => rfl
    | cons op ops ih => simpa using ih
  cases report with
  | connected status =>
    simp only [receive, connectResult]
    split
    · split <;> simp [hcancel]
    all_goals rfl
  | disconnected reason =>
    simp only [receive, linkLost]
    split <;> simp [hcancel]
  | servicesDiscovered status found =>
    simp only [receive, servicesDiscovered]
    split
    · rfl
    · split <;> rfl
  | characteristicsDiscovered status service found =>
    simp only [receive, characteristicsDiscovered]
    split
    · rfl
    · split_ifs
      · split <;> rfl
      all_goals rfl
  | descriptorsDiscovered status characteristic found =>
    simp only [receive, descriptorsDiscovered]
    split
    · rfl
    · split_ifs
      · split <;> rfl
      all_goals rfl
  | characteristicRead status uuid value =>
    simp only [receive, characteristicRead]
    split
    · rfl
    · split <;> rfl
  | characteristicWritten | descriptorRead | descriptorWritten | notificationStateChanged
  | rssiRead => exact q.calls_complete _ _ _ _

end Peer

namespace Central

theorem isOfScan_track (answers : Answers H) (m : Central H) (p : PeerId) :
    ∀ e ∈ (m.track answers p).effects, e.isOfScan = false := by
  simp only [track]
  split
  · exact fun _ h => absurd h List.not_mem_nil
  · split <;> simp [call, Effect.isOfScan, HostCall.shapesScan]

theorem scan_track (answers : Answers H) (m : Central H) (p : PeerId) :
    (m.track answers p).state.scan = m.scan := by
  simp only [track]
  split
  · rfl
  · split <;> rfl

variable {α : Type} {f : Peer H → Response H (Peer H) α}

theorem isOfScan_withPeer (answers : Answers H) (m : Central H) (p : PeerId)
    (hf : ∀ q, ∀ e ∈ (f q).effects, e.isOfScan = false) :
    ∀ e ∈ (m.withPeer answers p f).effects, e.isOfScan = false := by
  intro e he
  simp only [withPeer] at he
  split at he
  · exact m.isOfScan_track answers p e he
  · rcases List.mem_append.mp he with he | he
    · exact m.isOfScan_track answers p e he
    · exact hf _ e he

theorem scan_withPeer (answers : Answers H) (m : Central H) (p : PeerId) :
    (m.withPeer answers p f).state.scan = m.scan := by
  simp only [withPeer]
  split <;> exact m.scan_track answers p

theorem isOfScan_forget (m : Central H) (p : PeerId) :
    ∀ e ∈ (m.forget p).effects, e.isOfScan = false := by
  simp only [forget]
  split
  · exact fun _ h => absurd h List.not_mem_nil
  · split <;> simp [Effect.isOfScan]

theorem scan_forget (m : Central H) (p : PeerId) : (m.forget p).state.scan = m.scan := by
  simp only [forget]
  split
  · rfl
  · split <;> rfl

/-- The calls by which a manager gives up its side of the host. -/
def closingCalls (m : Central H) : List (HostCall H) :=
  (if m.scan.isSome then [.stopScan] else []) ++ [.close]

theorem isOfScan_teardown_peers (answers : Answers H) (m : Central H) (order : List PeerId) :
    ∀ e ∈ (order.filterMap m.peers.get?).flatMap fun q => (q.teardown answers).effects,
      e.isOfScan = false := by
  intro e he
  obtain ⟨q, -, he⟩ := List.mem_flatMap.mp he
  exact q.isOfScan_teardown answers e he

theorem scanCalls_teardown (answers : Answers H) (m : Central H) (order : List PeerId)
    (c : CentralId) :
    Effect.scanCalls c (m.teardown answers order) = if m.id = c then m.closingCalls else [] := by
  have hpeers := Effect.scanCalls_eq_nil (m.isOfScan_teardown_peers answers order) c
  simp only [teardown, Effect.scanCalls_append, hpeers, closingCalls, stopScan]
  by_cases hc : m.id = c <;> cases m.scan <;> simp [call, HostCall.shapesScan, hc]

theorem records_teardown (answers : Answers H) (m : Central H) (order : List PeerId)
    (c : CentralId) : Effect.records c (m.teardown answers order) = [] := by
  rw [Effect.records, notices_teardown]
  exact Effect.records_eq_nil (m.isOfScan_teardown_peers answers order) c

end Central

namespace Hub

/-- The scan of a manager, if the manager is live. -/
def scan? (h : Hub H) (c : CentralId) : Option (Option Scan) := (h.centrals.get? c).map Central.scan

theorem scan?_of_get? {h : Hub H} {c : CentralId} {m : Central H}
    (hm : h.centrals.get? c = some m) : h.scan? c = some m.scan := by
  simp [scan?, hm]

theorem scan?_of_insert {h h' : Hub H} {c : CentralId} {m : Central H}
    (hc : h'.centrals = h.centrals.insert c m) (c' : CentralId) :
    h'.scan? c' = if c' = c then some m.scan else h.scan? c' := by
  simp only [scan?, hc, Table.get?_insert]
  split <;> rfl

theorem scan?_insert_self {h h' : Hub H} {c : CentralId} {m m' : Central H}
    (hm : h.centrals.get? c = some m) (hscan : m'.scan = m.scan)
    (hc : h'.centrals = h.centrals.insert c m') (c' : CentralId) : h'.scan? c' = h.scan? c' := by
  rw [scan?_of_insert hc]
  split
  next hc => rw [hscan, hc, scan?_of_get? hm]
  next => rfl

theorem scanCalls_destroy {h : Hub H} (hl : h.Labelled) (answers : Answers H) (c₀ c : CentralId) :
    Effect.scanCalls c (h.destroy answers c₀).effects =
      if c₀ = c then (h.centrals.get? c).elim [] Central.closingCalls else [] := by
  cases hm : h.centrals.get? c₀ with
  | none =>
    simp only [destroy, destroyIn, central, hm]
    split
    next hc => rw [← hc, hm]; rfl
    next => rfl
  | some m =>
    rw [destroy, destroyIn_effects _ _ hm, Effect.scanCalls_append, Central.scanCalls_teardown,
      hl.central_id hm]
    split
    next hc => rw [← hc, hm, Option.elim_some]; exact List.append_nil _
    next => rfl

theorem records_destroy (h : Hub H) (answers : Answers H) (c₀ c : CentralId) :
    Effect.records c (h.destroy answers c₀).effects = [] := by
  cases hm : h.centrals.get? c₀ with
  | none =>
    simp only [destroy, destroyIn, central, hm]
    rfl
  | some m =>
    have hpeers := m.records_teardown answers (trackingOrder m) c
    rw [destroy, destroyIn_effects _ _ hm]
    simpa [Effect.records] using hpeers

theorem scanCalls_shutdown {h : Hub H} (hl : h.Labelled) (answers : Answers H) (c : CentralId) :
    Effect.scanCalls c (h.shutdown answers).effects =
      (h.centrals.get? c).elim [] Central.closingCalls := by
  rw [shutdown_effects, Effect.scanCalls_flatMap]
  simp only [scanCalls_destroy hl answers]
  have hnone {l : List CentralId} (hc : c ∉ l) : (l.flatMap fun c₀ =>
      if c₀ = c then (h.centrals.get? c).elim [] Central.closingCalls else []) = [] := by
    rw [List.flatMap_eq_nil_iff]
    rintro c₀ hc₀
    rw [if_neg]
    rintro rfl
    exact hc hc₀
  cases hm : h.centrals.get? c with
  | none =>
    rw [hm] at hnone
    exact hnone (by simp [mem_centralIds, hm])
  | some m =>
    rw [hm] at hnone
    obtain ⟨front, back, hids⟩ := List.append_of_mem
      (mem_centralIds.mpr (by rw [hm]; rfl : (h.centrals.get? c).isSome))
    have hnot := h.nodup_centralIds
    rw [hids, List.nodup_middle, List.nodup_cons, List.mem_append, not_or] at hnot
    rw [hids, List.flatMap_append, List.flatMap_cons, if_pos rfl, hnone hnot.1.1, hnone hnot.1.2,
      List.nil_append, List.append_nil]

theorem records_shutdown (h : Hub H) (answers : Answers H) (c : CentralId) :
    Effect.records c (h.shutdown answers).effects = [] := by
  have hflat (l : List CentralId) :
      Effect.records c (l.flatMap fun c₀ => (h.destroy answers c₀).effects) = [] := by
    induction l with
    | nil => rfl
    | cons c₀ l ih =>
      have hfirst := h.records_destroy answers c₀ c
      simp only [Effect.records] at hfirst ih ⊢
      rw [List.flatMap_cons, Effect.notices_append, List.filterMap_append, hfirst, ih]
      rfl
  rw [shutdown_effects]
  exact hflat _

end Hub

end GattHub
