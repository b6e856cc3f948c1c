import GattHub.Proofs.TaskStep

/-! What a call of the worker does to the radio: the task that it starts, the count of the managers
that scan, and the links. -/

namespace GattHub.Radio

namespace Stack

/-- The numbers from some point on are still free for tasks. -/
def Fresh (s : Stack) : Prop := ∀ i, s.nextTask ≤ i → s.tasks.get? i = none

/-- The task that a call starts. -/
def started? (s : Stack) (c : CentralId) : HostCall handles → Option Task
  | .openCentral => some (.listen c)
  | .scan _ =>
    if s.flag? c = some false ∧ s.scans = 0 then some (.switchScan true false) else none
  | .stopScan | .close =>
    if s.flag? c = some true ∧ s.scans = 1 then some (.switchScan false false) else none
  | .lookup _ => none
  | .peer n .connect => some (.connect ⟨c, n.1, n.2, ⟨s.nextLink⟩⟩ false)
  | .peer n k => (job? k).map fun job => .request c n.1 n.2 job false

/-- Whether the manager counts as scanning after a call. -/
def flagAfter : HostCall handles → Option Bool → Option Bool
  | .openCentral, _ => some false
  | .scan _, x => x.map fun _ => true
  | .stopScan, x => x.map fun _ => false
  | .close, _ => none
  | .lookup _, x | .peer .., x => x

/-- How many managers count as scanning after a call. -/
def scansAfter : HostCall handles → Option Bool → Nat → Nat
  | .scan _, some false, n => n + 1
  | .stopScan, some true, n | .close, some true, n => n - 1
  | _, _, n => n

/-- The link of a peer of the calling manager after a call. -/
def linkAfter (s : Stack) (c : CentralId) (k : HostCall handles) (p : PeerId) : Option LinkId :=
  match k with
  | .openCentral | .close => none
  | .peer n .connect =>
    if p = n.1 then (s.flag? c).map fun _ => ⟨s.nextLink⟩ else s.link? c p
  | .peer n .cancelConnection => if p = n.1 then none else s.link? c p
  | _ => s.link? c p

/-- How many links a call opens. -/
def linksOpened : HostCall handles → Nat
  | .peer _ .connect => 1
  | _ => 0

/-- One stack differs from another by a call that a manager made. -/
structure Called (s : Stack) (c : CentralId) (k : HostCall handles) (s' : Stack) : Prop where
  tasks : ∀ j, s'.tasks.get? j = if j = s.nextTask then s.started? c k else s.tasks.get? j
  nextTask : s'.nextTask = s.nextTask + (s.started? c k).toList.length
  flag? : ∀ c', s'.flag? c' = if c' = c then flagAfter k (s.flag? c) else s.flag? c'
  scans : s'.scans = scansAfter k (s.flag? c) s.scans
  nextLink : s'.nextLink = s.nextLink + linksOpened k
  link? : ∀ c' p, s'.link? c' p = if c' = c then s.linkAfter c k p else s.link? c' p
  suspended : s'.suspended = s.suspended

section Called

variable {s : Stack}

theorem Fresh.get?_nextTask (hs : s.Fresh) : s.tasks.get? s.nextTask = none := hs _ (Nat.le_refl _)

theorem spawn_eq (s : Stack) (t : Task) : ∃ ready, s.spawn t =
    { s with
      tasks := s.tasks.insert s.nextTask t, nextTask := s.nextTask + 1, ready := ready } := by
  obtain ⟨ready, hwake⟩ := Stack.wake_eq
    { s with tasks := s.tasks.insert s.nextTask t, nextTask := s.nextTask + 1 } (.task s.nextTask)
  exact ⟨ready, hwake⟩

theorem get?_nothing_started (hs : s.Fresh) (j : Nat) :
    s.tasks.get? j = if j = s.nextTask then none else s.tasks.get? j := by
  split
  next hj => rw [hj, hs.get?_nextTask]
  next => rfl

theorem flag?_of_insert {s' : Stack} {c : CentralId} {side : Side}
    (h : s'.sides = s.sides.insert c side) (c' : CentralId) :
    s'.flag? c' = if c' = c then some side.scanning else s.flag? c' := by
  simp only [flag?, h, Table.get?_insert]
  split <;> rfl

theorem link?_of_insert {s' : Stack} {c : CentralId} {side : Side}
    (h : s'.sides = s.sides.insert c side) (c' : CentralId) (p : PeerId) :
    s'.link? c' p = if c' = c then side.links.get? p else s.link? c' p := by
  simp only [link?, h, Table.get?_insert]
  split <;> rfl

/-- A call that changes neither the tasks nor the sides. -/
theorem called_of_same (hs : s.Fresh) {c : CentralId} {k : HostCall handles}
    (hstarted : s.started? c k = none) (hflag : flagAfter k (s.flag? c) = s.flag? c)
    (hscans : scansAfter k (s.flag? c) s.scans = s.scans) (hopened : linksOpened k = 0)
    (hlink : ∀ p, s.linkAfter c k p = s.link? c p) : s.Called c k s := by
  refine ⟨fun j => ?_, by simp [hstarted], fun c' => ?_, hscans.symm, by simp [hopened],
    fun c' p => ?_, rfl⟩
  · rw [hstarted]
    exact get?_nothing_started hs j
  · rw [hflag]
    split
    next hc => rw [hc]
    next => rfl
  · rw [hlink]
    split
    next hc => rw [hc]
    next => rfl

theorem called_openCentral (c : CentralId) :
    s.Called c .openCentral (s.accept c .openCentral).state := by
  obtain ⟨ready, hspawn⟩ := Stack.spawn_eq { s with sides := s.sides.insert c .blank } (.listen c)
  simp only [accept, hspawn]
  refine ⟨fun j => Table.get?_insert .., rfl, fun c' => ?_, rfl, rfl, fun c' p => ?_, rfl⟩
  · rw [flag?_of_insert rfl]
    rfl
  · rw [link?_of_insert rfl]
    rfl

/-- A call that switches the flag of a side, and starts a task if the radio has to follow. -/
theorem called_of_switch (hs : s.Fresh) {c : CentralId} {k : HostCall handles} {side : Side}
    (hside : s.sides.get? c = some side) {on : Bool} {n : Nat} (x : Option Task)
    (hstarted : s.started? c k = x) (hflag : flagAfter k (s.flag? c) = some on)
    (hscans : scansAfter k (s.flag? c) s.scans = n) (hopened : linksOpened k = 0)
    (hlink : ∀ p, s.linkAfter c k p = s.link? c p) {s' : Stack}
    (hs' : s' = x.elim
      { s with sides := s.sides.insert c { side with scanning := on }, scans := n }
      { s with sides := s.sides.insert c { side with scanning := on }, scans := n }.spawn) :
    s.Called c k s' := by
  obtain ⟨ready, hs'⟩ : ∃ ready, s' =
      { s with
        sides := s.sides.insert c { side with scanning := on }, scans := n
        tasks := x.elim s.tasks (s.tasks.insert s.nextTask)
        nextTask := s.nextTask + x.toList.length, ready := ready } := by
    cases x with
    | none => exact ⟨s.ready, hs'⟩
    | some t =>
      obtain ⟨ready, hspawn⟩ := Stack.spawn_eq
        { s with sides := s.sides.insert c { side with scanning := on }, scans := n } t
      exact ⟨ready, hs'.trans hspawn⟩
  subst hs'
  refine ⟨fun j => ?_, by rw [hstarted], fun c' => ?_, hscans.symm, by simp [hopened],
    fun c' p => ?_, rfl⟩
  · rw [hstarted]
    cases x with
    | none => exact get?_nothing_started hs j
    | some t => exact Table.get?_insert ..
  · rw [flag?_of_insert rfl, hflag]
  · rw [link?_of_insert rfl, hlink]
    simp [link?, hside]

theorem called_scan (hs : s.Fresh) (c : CentralId) (b : Bool) :
    s.Called c (.scan b) (s.accept c (.scan b)).state := by
  have hstate : (s.accept c (.scan b)).state = (s.startScan c).1 := rfl
  by_cases hflag : s.flag? c = some false
  · obtain ⟨side, hside, hscanning⟩ := Option.map_eq_some_iff.mp hflag
    by_cases hzero : s.scans = 0
    · refine called_of_switch hs hside (some (.switchScan true false))
        (by simp [started?, hflag, hzero]) (by rw [hflag]; rfl) rfl rfl (fun _ => rfl) ?_
      simp [hstate, startScan, hside, hscanning, hflag, hzero, scansAfter]
    · refine called_of_switch hs hside none (by simp [started?, hzero]) (by rw [hflag]; rfl) rfl rfl
        (fun _ => rfl) ?_
      simp [hstate, startScan, hside, hscanning, hflag, hzero, scansAfter]
  · have hsame : (s.startScan c).1 = s := by
      simp only [startScan]
      split
      next side hside =>
        have hscanning : side.scanning = true := by simpa [flag?, hside] using hflag
        simp [hscanning]
      next => rfl
    have hkept : flagAfter (.scan b) (s.flag? c) = s.flag? c ∧
        scansAfter (.scan b) (s.flag? c) s.scans = s.scans := by
      cases hx : s.flag? c with
      | none => exact ⟨rfl, rfl⟩
      | some on =>
        cases on with
        | true => exact ⟨rfl, rfl⟩
        | false => exact absurd hx hflag
    rw [hstate, hsame]
    exact called_of_same hs (by simp [started?, hflag]) hkept.1 hkept.2 rfl fun _ => rfl

theorem called_stopScan (hs : s.Fresh) (c : CentralId) :
    s.Called c .stopScan (s.accept c .stopScan).state := by
  have hstate : (s.accept c .stopScan).state = (s.stopScan c).1 := rfl
  by_cases hflag : s.flag? c = some true
  · obtain ⟨side, hside, hscanning⟩ := Option.map_eq_some_iff.mp hflag
    by_cases hone : s.scans = 1
    · refine called_of_switch hs hside (some (.switchScan false false))
        (by simp [started?, hflag, hone]) (by rw [hflag]; rfl) rfl rfl (fun _ => rfl) ?_
      simp [hstate, stopScan, hside, hscanning, hflag, hone, scansAfter]
    · refine called_of_switch hs hside none (by simp [started?, hone]) (by rw [hflag]; rfl) rfl rfl
        (fun _ => rfl) ?_
      simp [hstate, stopScan, hside, hscanning, hflag, hone, scansAfter]
  · have hsame : (s.stopScan c).1 = s := by
      simp only [stopScan]
      split
      next side hside =>
        have hscanning : side.scanning = false := by simpa [flag?, hside] using hflag
        simp [hscanning]
      next => rfl
    have hkept : flagAfter .stopScan (s.flag? c) = s.flag? c ∧
        scansAfter .stopScan (s.flag? c) s.scans = s.scans := by
      cases hx : s.flag? c with
      | none => exact ⟨rfl, rfl⟩
      | some on =>
        cases on with
        | true => exact absurd hx hflag
        | false => exact ⟨rfl, rfl⟩
    rw [hstate, hsame]
    exact called_of_same hs (by simp [started?, hflag]) hkept.1 hkept.2 rfl fun _ => rfl

theorem scansAfter_close (x : Option Bool) (n : Nat) :
    scansAfter .close x n = scansAfter .stopScan x n := by
  cases x with
  | none => rfl
  | some on => cases on <;> rfl

/-- A manager that has no scan any more is dropped without a trace. -/
theorem drop_eq {c : CentralId} (h : s.flag? c ≠ some true) :
    ∃ ready, s.drop c = { s with sides := s.sides.erase c, ready := ready } := by
  have hidle : (s.sides.get? c).any Side.scanning = false := by
    cases hside : s.sides.get? c with
    | none => rfl
    | some side => simpa [flag?, hside] using h
  obtain ⟨ready, hwake⟩ := Stack.wakeTasks_eq { s with sides := s.sides.erase c } (watches c)
  exact ⟨ready, by simp only [drop, hidle, Bool.false_eq_true, if_false, hwake]⟩

/-- What a close leaves of a stack before the manager is dropped. -/
theorem close_eq (s : Stack) (c : CentralId) : ∃ ready, (s.close c).1 =
    { (s.stopScan c).1 with
      sides := (s.stopScan c).1.sides.modify c fun side => { side with closed := true }
      ready := ready } :=
  Stack.wakeTasks_eq
    { (s.stopScan c).1 with
      sides := (s.stopScan c).1.sides.modify c fun side => { side with closed := true } } (watches c)

theorem flag?_close (s : Stack) (c c' : CentralId) :
    (s.close c).1.flag? c' = (s.stopScan c).1.flag? c' := by
  obtain ⟨ready, hclose⟩ := s.close_eq c
  simp only [flag?, hclose, Table.get?_modify]
  split <;> simp [Function.comp_def]

/-- The close of a manager counts its scan out like the end of the scan alone. -/
theorem called_close (hs : s.Fresh) (c : CentralId) :
    s.Called c .close (s.accept c .close).state := by
  have hstop := called_stopScan hs c
  simp only [accept, accept.of] at hstop ⊢
  have hidle : (s.close c).1.flag? c ≠ some true := by
    rw [flag?_close, hstop.flag?, if_pos rfl]
    cases s.flag? c <;> simp [flagAfter]
  obtain ⟨ready, hclose⟩ := s.close_eq c
  obtain ⟨ready', hdrop⟩ := drop_eq hidle
  rw [hclose] at hdrop
  rw [hclose, hdrop]
  refine ⟨hstop.tasks, hstop.nextTask, fun c' => ?_, hstop.scans.trans (scansAfter_close _ _).symm,
    hstop.nextLink, fun c' p => ?_, hstop.suspended⟩
  · have hflag := hstop.flag? c'
    simp only [flag?, Table.get?_erase, Table.get?_modify] at hflag ⊢
    split
    next => rfl
    next hc => simpa [hc] using hflag
  · have hlink := hstop.link? c' p
    simp only [link?, Table.get?_erase, Table.get?_modify] at hlink ⊢
    split
    next => rfl
    next hc => simpa [hc] using hlink

theorem called_job (hs : s.Fresh) (c : CentralId) (n : handles.Peer) (k : PeerCall handles)
    (hconnect : k ≠ .connect) (hcancel : k ≠ .cancelConnection) :
    s.Called c (.peer n k) (s.accept c (.peer n k)).state := by
  have hstarted : s.started? c (.peer n k) =
      (job? k).map fun job => .request c n.1 n.2 job false := by
    cases k <;> first | rfl | exact absurd rfl hconnect
  have hopened : linksOpened (.peer n k) = 0 := by
    cases k <;> first | rfl | exact absurd rfl hconnect
  have hlink (p : PeerId) : s.linkAfter c (.peer n k) p = s.link? c p := by
    cases k <;> first | rfl | exact absurd rfl hconnect | exact absurd rfl hcancel
  have haccept : (s.accept c (.peer n k)).state =
      (job? k).elim s fun job => s.spawn (.request c n.1 n.2 job false) := by
    cases k <;> first | rfl | exact absurd rfl hconnect | exact absurd rfl hcancel
  rw [haccept]
  cases hjob : job? k with
  | none => exact called_of_same hs (by rw [hstarted, hjob]; rfl) rfl rfl hopened hlink
  | some job =>
    obtain ⟨ready, hspawn⟩ := s.spawn_eq (.request c n.1 n.2 job false)
    simp only [Option.elim_some, hspawn]
    rw [hjob] at hstarted
    refine ⟨fun j => ?_, by simp [hstarted], fun c' => ?_, rfl, by simp [hopened], fun c' p => ?_,
      rfl⟩
    · rw [Table.get?_insert, hstarted]
      rfl
    · split
      next hc => rw [hc]; rfl
      next => rfl
    · rw [hlink]
      split
      next hc => rw [hc]; rfl
      next => rfl

theorem modify_links (s : Stack) (c : CentralId)
    (f : Table PeerId LinkId → Table PeerId LinkId) {s' : Stack}
    (h : s'.sides = s.sides.modify c fun side => { side with links := f side.links }) :
    (∀ c', s'.flag? c' = s.flag? c') ∧
      ∀ c' p, s'.link? c' p =
        if c' = c then (s.sides.get? c).bind fun side => (f side.links).get? p
        else s.link? c' p := by
  refine ⟨fun c' => ?_, fun c' p => ?_⟩
  · simp only [flag?, h, Table.get?_modify]
    split <;> simp [Function.comp_def]
  · simp only [link?, h, Table.get?_modify]
    split
    next hc =>
      rw [hc]
      cases s.sides.get? c <;> rfl
    next => rfl

theorem called_connect (c : CentralId) (n : handles.Peer) :
    s.Called c (.peer n .connect) (s.accept c (.peer n .connect)).state := by
  simp only [accept, acceptPeer, openLink]
  obtain ⟨ready, hwake⟩ := Stack.wakeTasks_eq
    { s with
      sides := s.sides.modify c fun side =>
        { side with links := side.links.insert n.1 ⟨s.nextLink⟩ }
      nextLink := s.nextLink + 1 } (forwards c n.1)
  rw [hwake]
  obtain ⟨ready', hspawn⟩ := Stack.spawn_eq
    { s with
      sides := s.sides.modify c fun side =>
        { side with links := side.links.insert n.1 ⟨s.nextLink⟩ }
      nextLink := s.nextLink + 1, ready := ready } (.connect ⟨c, n.1, n.2, ⟨s.nextLink⟩⟩ false)
  rw [hspawn]
  refine ⟨fun j => Table.get?_insert .., rfl, fun c' => ?_, rfl, rfl, fun c' p => ?_, rfl⟩
  · rw [(modify_links s c (·.insert n.1 ⟨s.nextLink⟩) rfl).1]
    split
    next hc => rw [hc]; rfl
    next => rfl
  · rw [(modify_links s c (·.insert n.1 ⟨s.nextLink⟩) rfl).2]
    split
    · simp only [linkAfter, Table.get?_insert, flag?]
      split
      · cases s.sides.get? c <;> rfl
      · rfl
    · rfl

theorem called_cancelConnection (c : CentralId) (n : handles.Peer) :
    s.Called c (.peer n .cancelConnection) (s.accept c (.peer n .cancelConnection)).state := by
  simp only [accept, acceptPeer, closeLink]
  obtain ⟨ready, hwake⟩ := Stack.wakeTasks_eq
    { s with sides := s.sides.modify c fun side => { side with links := side.links.erase n.1 } }
    (forwards c n.1)
  rw [hwake]
  obtain ⟨ready', hspawn⟩ := Stack.spawn_eq
    { s with
      sides := s.sides.modify c fun side => { side with links := side.links.erase n.1 }
      ready := ready } (.request c n.1 n.2 .disconnect false)
  rw [hspawn]
  refine ⟨fun j => Table.get?_insert .., rfl, fun c' => ?_, rfl, rfl, fun c' p => ?_, rfl⟩
  · rw [(modify_links s c (·.erase n.1) rfl).1]
    split
    next hc => rw [hc]; rfl
    next => rfl
  · rw [(modify_links s c (·.erase n.1) rfl).2]
    split
    · simp only [linkAfter, Table.get?_erase]
      split
      · cases s.sides.get? c <;> rfl
      · rfl
    · rfl

theorem called_accept (hs : s.Fresh) (c : CentralId) (k : HostCall handles) :
    s.Called c k (s.accept c k).state := by
  cases k with
  | openCentral => exact called_openCentral c
  | scan b => exact called_scan hs c b
  | stopScan => exact called_stopScan hs c
  | close => exact called_close hs c
  | lookup p => exact called_of_same hs rfl rfl rfl rfl fun _ => rfl
  | peer n k =>
    by_cases hconnect : k = .connect
    · rw [hconnect]
      exact called_connect c n
    by_cases hcancel : k = .cancelConnection
    · rw [hcancel]
      exact called_cancelConnection c n
    exact called_job hs c n k hconnect hcancel

end Called

end Stack

end GattHub.Radio
