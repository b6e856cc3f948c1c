import GattHub.Proofs.Interleaving

/-! What one step of a task does. It may post one report, close one link and leave the task at its
next step; the count of scans and everything about other tasks stay as they are. -/

namespace GattHub.Radio

namespace Stack

/-- Whether the side of a manager counts as scanning. -/
def flag? (s : Stack) (c : CentralId) : Option Bool := (s.sides.get? c).map Side.scanning

/-- The link of a peer that was opened last and not closed since. -/
def link? (s : Stack) (c : CentralId) (p : PeerId) : Option LinkId :=
  (s.sides.get? c).bind fun side => side.links.get? p

theorem wake_eq (s : Stack) (r : Runner) : ∃ ready, s.wake r = { s with ready := ready } := by
  simp only [wake]
  split
  · exact ⟨s.ready, rfl⟩
  · exact ⟨_, rfl⟩

theorem wakeTasks_eq (s : Stack) (f : Task → Bool) :
    ∃ ready, s.wakeTasks f = { s with ready := ready } := by
  simp only [wakeTasks]
  induction s.tasks.entries.filter (fun e => f e.2) generalizing s with
  | nil => exact ⟨s.ready, rfl⟩
  | cons e es ih =>
    obtain ⟨ready, hwake⟩ := s.wake_eq (.task e.1)
    obtain ⟨ready', hrest⟩ := ih (s.wake (.task e.1))
    exact ⟨ready', by rw [List.foldl_cons, hrest, hwake]⟩

end Stack

/-- What a task does in one step: the task that is left of it, the report that it posts and the link
that it closes. -/
inductive Task.Goes :
    Task → Option Task → Option (CentralId × Report handles) → Option (CentralId × PeerId) → Prop
  | listens (c : CentralId) : Goes (.listen c) (some (.readState c .empty)) none none
  | cannotListen (c : CentralId) (message : String) :
      Goes (.listen c) none (some (c, .stateChanged false message)) none
  | readsState (c : CentralId) (inbox : Inbox AdapterEvent) (on : Bool) (message : String) :
      Goes (.readState c inbox) (some (.listening c inbox))
        (some (c, .stateChanged on message)) none
  | hears (c : CentralId) (e : AdapterEvent) (rest : List AdapterEvent) (ended : Bool)
      (post : Option (CentralId × Report handles)) : (∀ d, e ≠ .disconnected d) →
      (∀ x ∈ post, x.2.peer? = none) →
      Goes (.listening c ⟨e :: rest, ended⟩) (some (.listening c ⟨rest, ended⟩)) post none
  | hearsLoss (c : CentralId) (d : DeviceId) (rest : List AdapterEvent) (ended : Bool) :
      Goes (.listening c ⟨.disconnected d :: rest, ended⟩) (some (.listening c ⟨rest, ended⟩))
        (some (c, .peer d.peer (.disconnected .ok))) (some (c, d.peer))
  | stopsListening (c : CentralId) (inbox : Inbox AdapterEvent) :
      Goes (.listening c inbox) none none none
  | switches (on : Bool) : Goes (.switchScan on false) (some (.switchScan on true)) none none
  | switched (on : Bool) : Goes (.switchScan on true) none none none
  | requests (c : CentralId) (p : PeerId) (d : DeviceId) (job : Job) :
      Goes (.request c p d job false) (some (.request c p d job true)) none none
  | answered (c : CentralId) (p : PeerId) (d : DeviceId) (job : Job)
      (r : Except PlatformError (job.operation d).Result) :
      Goes (.request c p d job true) none
        ((job.report d r).map fun report => (c, .peer p report)) none
  | connects (a : Attempt) : Goes (.connect a false) (some (.connect a true)) none none
  | connected (a : Attempt) (status : Status) (next : Option Task) :
      next = some (.subscribe a) ∨ next = none →
      Goes (.connect a true) next (some (a.central, .peer a.peer (.connected status))) none
  | subscribes (a : Attempt) : Goes (.subscribe a) (some (.forwarding a .empty)) none none
  | cannotSubscribe (a : Attempt) : Goes (.subscribe a) none none none
  | forwards (a : Attempt) (inbox : Inbox Notification) (rest : List Notification) (uuid : Uuid)
      (value : Octets) :
      Goes (.forwarding a inbox) (some (.forwarding a { inbox with items := rest }))
        (some (a.central, .peer a.peer (.characteristicRead .ok uuid value))) none
  | stopsForwarding (a : Attempt) (inbox : Inbox Notification) :
      Goes (.forwarding a inbox) none none none

namespace Scene

/-- One scene differs from another by what one task did. -/
structure Progress (s : Scene) (i : Nat) (next : Option Task)
    (post : Option (CentralId × Report handles)) (closes : Option (CentralId × PeerId))
    (s' : Scene) : Prop where
  hub : s'.worker.hub = s.worker.hub
  queue : s'.worker.queue = s.worker.queue ++
    if s.worker.running then post.toList.map fun x => .report x.1 x.2 else []
  scans : s'.host.scans = s.host.scans
  nextTask : s'.host.nextTask = s.host.nextTask
  nextLink : s'.host.nextLink = s.host.nextLink
  flag? : ∀ c, s'.host.flag? c = s.host.flag? c
  tasks : ∀ j, s'.host.tasks.get? j = if j = i then next else s.host.tasks.get? j
  link? : ∀ c p, s'.host.link? c p = if closes = some (c, p) then none else s.host.link? c p
  suspended : ∀ j ∈ s'.host.suspended, j = i ∨ j ∈ s.host.suspended

section Progress

variable {s s' : Scene} {i : Nat} {next : Option Task} {post : Option (CentralId × Report handles)}
  {closes : Option (CentralId × PeerId)}

theorem Progress.refl (hi : s.host.tasks.get? i = next) : s.Progress i next none none s := by
  refine ⟨rfl, by simp, rfl, rfl, rfl, fun _ => rfl, fun j => ?_, fun _ _ => by simp,
    fun _ hj => .inr hj⟩
  split
  next hj => rw [hj, hi]
  next => rfl

theorem Progress.enter (h : s.Progress i next post closes s') (e : Entry) :
    s.Progress i next post closes (s'.enter e) :=
  ⟨h.hub, h.queue, h.scans, h.nextTask, h.nextLink, h.flag?, h.tasks, h.link?, h.suspended⟩

theorem Progress.become (h : s.Progress i next post closes s') (task : Task) :
    s.Progress i (some task) post closes (s'.become i task) := by
  refine ⟨h.hub, h.queue, h.scans, h.nextTask, h.nextLink, h.flag?, fun j => ?_, h.link?,
    h.suspended⟩
  simp only [Scene.become, withStack, Table.get?_insert, h.tasks j]
  split <;> rfl

theorem Progress.finish (h : s.Progress i next post closes s') :
    s.Progress i none post closes (s'.finish i) := by
  refine ⟨h.hub, h.queue, h.scans, h.nextTask, h.nextLink, h.flag?, fun j => ?_, h.link?,
    h.suspended⟩
  simp only [Scene.finish, withStack, Table.get?_erase, h.tasks j]
  split <;> rfl

theorem Progress.report (h : s.Progress i next none closes s') (c : CentralId)
    (r : Report handles) : s.Progress i next (some (c, r)) closes (s'.post c r) := by
  have hqueue := h.queue
  have hrunning : s'.worker.running = s.worker.running := by simp [Worker.running, h.hub]
  obtain ⟨ready, hwake⟩ := s'.host.wake_eq .worker
  by_cases hr : s'.worker.running = true
  · rw [Scene.post, if_pos hr, hwake]
    refine ⟨(Turn.post_hub _ _).trans h.hub, ?_, h.scans, h.nextTask, h.nextLink, h.flag?, h.tasks,
      h.link?, h.suspended⟩
    simp only [Worker.post, if_pos hr]
    simpa [← hrunning, hr] using hqueue
  · rw [Scene.post, if_neg hr]
    refine ⟨h.hub, ?_, h.scans, h.nextTask, h.nextLink, h.flag?, h.tasks, h.link?, h.suspended⟩
    rw [hqueue, ← hrunning]
    simp [hr]

/-- To subscribe or to be held up is of no account here. -/
theorem Progress.congr (h : s.Progress i next post closes s') {s'' : Scene}
    (hworker : s''.worker = s'.worker) (hscans : s''.host.scans = s'.host.scans)
    (hnextTask : s''.host.nextTask = s'.host.nextTask)
    (hnextLink : s''.host.nextLink = s'.host.nextLink) (hsides : s''.host.sides = s'.host.sides)
    (htasks : s''.host.tasks = s'.host.tasks)
    (hsuspended : ∀ j ∈ s''.host.suspended, j = i ∨ j ∈ s'.host.suspended) :
    s.Progress i next post closes s'' := by
  refine ⟨?_, ?_, hscans.trans h.scans, hnextTask.trans h.nextTask, hnextLink.trans h.nextLink,
    fun c => ?_, fun j => ?_, fun c p => ?_, fun j hj => ?_⟩
  · rw [hworker, h.hub]
  · rw [hworker, h.queue]
  · rw [Stack.flag?, hsides]
    exact h.flag? c
  · rw [htasks]
    exact h.tasks j
  · rw [Stack.link?, hsides]
    exact h.link? c p
  · exact (hsuspended j hj).elim .inl (h.suspended j)

theorem Progress.noteDevice (h : s.Progress i next post closes s') (c : CentralId) (d : DeviceId) :
    s.Progress i next post closes (s'.withStack (s'.host.noteDevice c d)) := by
  refine ⟨h.hub, h.queue, h.scans, h.nextTask, h.nextLink, fun c' => ?_, h.tasks, fun c' p => ?_,
    h.suspended⟩
  · rw [← h.flag? c']
    simp only [Stack.flag?, Stack.noteDevice, withStack, Table.get?_modify]
    split
    · simp [Function.comp_def]
    · rfl
  · rw [← h.link? c' p]
    simp only [Stack.link?, Stack.noteDevice, withStack, Table.get?_modify]
    split
    · cases s'.host.sides.get? c' <;> rfl
    · rfl

theorem Progress.closeLink (h : s.Progress i next post none s') (c : CentralId) (p : PeerId) :
    s.Progress i next post (some (c, p)) (s'.withStack (s'.host.closeLink c p)) := by
  obtain ⟨ready, hwake⟩ := Stack.wakeTasks_eq
    { s'.host with sides := s'.host.sides.modify c fun side =>
      { side with links := side.links.erase p } } (Stack.forwards c p)
  rw [Stack.closeLink, hwake]
  refine ⟨h.hub, h.queue, h.scans, h.nextTask, h.nextLink, fun c' => ?_, h.tasks, fun c' p' => ?_,
    h.suspended⟩
  · rw [← h.flag? c']
    simp only [Stack.flag?, withStack, Table.get?_modify]
    split
    · simp [Function.comp_def]
    · rfl
  · have hlink := h.link? c' p'
    simp only [reduceCtorEq, if_false] at hlink
    rw [← hlink]
    simp only [Stack.link?, withStack, Table.get?_modify, Option.some.injEq, Prod.mk.injEq]
    by_cases hc : c' = c
    · subst hc
      cases s'.host.sides.get? c' with
      | none => simp
      | some side => simp [Table.get?_erase, eq_comm]
    · simp [hc, Ne.symm hc]

end Progress

theorem advertise_progress (s : Scene) {s' : Scene} {i : Nat} {next : Option Task}
    (h : s.Progress i next none none s') (c : CentralId) (d : DeviceId) :
    ∃ post, (∀ x ∈ post, x.2.peer? = none) ∧ s.Progress i next post none (s'.advertise c d) := by
  simp only [advertise]
  split
  · exact ⟨_, by simp [Report.peer?], (h.noteDevice c d).report c _⟩
  · exact ⟨none, by simp, h⟩

/-- What a listener makes of an event. -/
theorem hear_progress (s : Scene) (i : Nat) (c : CentralId) (e : AdapterEvent)
    (rest : List AdapterEvent) (ended : Bool)
    (hi : s.host.tasks.get? i = some (.listening c ⟨e :: rest, ended⟩)) :
    ∃ post closes,
      Task.Goes (.listening c ⟨e :: rest, ended⟩) (some (.listening c ⟨rest, ended⟩)) post closes ∧
      s.Progress i (some (.listening c ⟨rest, ended⟩)) post closes
        (hear c (s.become i (.listening c ⟨rest, ended⟩)) e) := by
  have hbecome := (Progress.refl hi).become (.listening c ⟨rest, ended⟩)
  cases e with
  | discovered d | updated d =>
    obtain ⟨post, hpost, hprogress⟩ := s.advertise_progress hbecome c d
    exact ⟨post, none, .hears c _ rest ended post (by simp) hpost, hprogress⟩
  | disconnected d =>
    exact ⟨_, _, .hearsLoss c d rest ended,
      ((hbecome.enter (.linkLost d)).closeLink c d.peer).report c
        (.peer d.peer (.disconnected .ok))⟩
  | stateUpdated st =>
    refine ⟨_, none, .hears c _ rest ended (some (c, st.report)) (by simp) ?_,
      (hbecome.enter (.stateUpdated st)).report c st.report⟩
    cases st <;> simp [AdapterState.report, Report.peer?]
  | connected d | servicesAdvertised d services =>
    exact ⟨none, none, .hears c _ rest ended none (by simp) (by simp), hbecome⟩

theorem begin_progress (s : Scene) {i : Nat} {task : Task} (hi : s.host.tasks.get? i = some task)
    (o : Operation) (next : Task) : s.Progress i (some next) none none (s.begin i o next) := by
  have hbecome := (Progress.refl hi).become next
  simp only [begin]
  split
  · refine hbecome.congr rfl rfl rfl rfl rfl rfl fun j hj => ?_
    dsimp only [withStack] at hj
    split at hj
    · simpa [or_comm] using hj
    · exact .inr hj
  · exact hbecome

/-- The outcome of a request is posted and the task ends. -/
theorem answered_progress (s : Scene) {i : Nat} {c : CentralId} {p : PeerId} {d : DeviceId}
    {job : Job} (hi : s.host.tasks.get? i = some (.request c p d job true)) :
    s.Progress i none
      ((job.report d (s.host.platform.perform (job.operation d))).map fun report =>
        (c, .peer p report))
      none (s.answered i c p d job) := by
  have hrefl := Progress.refl hi
  simp only [answered]
  have hentered : s.Progress i (some (.request c p d job true)) none none
      ((job.entry p d (s.host.platform.perform (job.operation d))).elim s s.enter) := by
    cases job.entry p d (s.host.platform.perform (job.operation d)) with
    | none => exact hrefl
    | some e => exact hrefl.enter e
  cases job.report d (s.host.platform.perform (job.operation d)) with
  | none => exact hentered.finish
  | some report => exact (hentered.report c (.peer p report)).finish

/-- The outcome of a connect is posted, and a task that is connected goes on. -/
theorem connected_progress (s : Scene) {i : Nat} {a : Attempt}
    (hi : s.host.tasks.get? i = some (.connect a true)) :
    s.Progress i
      (if (s.host.platform.perform (.connect a.device)).isOk then some (.subscribe a) else none)
      (some (a.central, .peer a.peer (.connected
        (PlatformError.statusOf (s.host.platform.perform (.connect a.device))))))
      none (s.connected i a) := by
  have hreported (status : Status) :=
    (Progress.refl hi).report a.central (.peer a.peer (.connected status))
  simp only [connected]
  cases s.host.platform.perform (.connect a.device) with
  | ok u => exact (hreported _).become _
  | error e => exact (hreported _).finish

theorem go_progress (s : Scene) {i : Nat} {task : Task} (hi : s.host.tasks.get? i = some task) :
    ∃ next post closes,
      task.Goes next post closes ∧ s.Progress i next post closes (s.go i task) := by
  have hrefl := Progress.refl hi
  cases task with
  | listen c =>
    simp only [go, listen]
    split
    · exact ⟨_, _, _, .listens c, (hrefl.become (.readState c .empty)).congr rfl rfl rfl rfl rfl rfl
        fun _ hj => .inr hj⟩
    next e _ =>
      exact ⟨_, _, _, .cannotListen c e.message, ((hrefl.enter _).report c _).finish⟩
  | readState c inbox =>
    simp only [go, readState]
    split
    next st _ =>
      obtain ⟨on, message, hst⟩ :
          ∃ on message, (st.report : Report handles) = .stateChanged on message := by
        cases st <;> exact ⟨_, _, rfl⟩
      rw [hst]
      exact ⟨_, _, _, .readsState c inbox on message, (hrefl.report c _).become _⟩
    · exact ⟨_, _, _, .readsState c inbox true "adapter ready",
        ((hrefl.enter _).report c _).become _⟩
  | listening c inbox =>
    obtain ⟨items, ended⟩ := inbox
    have hstop : s.Progress i none none none (s.stopListening i c) := (hrefl.enter _).finish
    cases items with
    | nil => exact ⟨_, _, _, .stopsListening c _, hstop⟩
    | cons e rest =>
      simp only [go, listening]
      split
      · obtain ⟨post, closes, hgoes, hprogress⟩ := s.hear_progress i c e rest ended hi
        exact ⟨_, post, closes, hgoes, hprogress⟩
      · exact ⟨_, _, _, .stopsListening c _, hstop⟩
  | switchScan on begun =>
    cases begun with
    | false => exact ⟨_, _, _, .switches on, s.begin_progress hi _ _⟩
    | true =>
      simp only [go, switched]
      split
      · exact ⟨_, _, _, .switched on, hrefl.finish⟩
      · exact ⟨_, _, _, .switched on, (hrefl.enter _).finish⟩
  | request c p d job begun =>
    cases begun with
    | false => exact ⟨_, _, _, .requests c p d job, s.begin_progress hi _ _⟩
    | true => exact ⟨_, _, _, .answered c p d job _, s.answered_progress hi⟩
  | connect a begun =>
    cases begun with
    | false =>
      exact ⟨_, _, _, .connects a, s.begin_progress hi (.connect a.device) (.connect a true)⟩
    | true =>
      refine ⟨_, _, _, .connected a _ _ ?_, s.connected_progress hi⟩
      split
      · exact .inl rfl
      · exact .inr rfl
  | subscribe a =>
    simp only [go, subscribe]
    split
    · exact ⟨_, _, _, .subscribes a,
        (hrefl.become (.forwarding a .empty)).congr rfl rfl rfl rfl rfl rfl fun _ hj => .inr hj⟩
    · exact ⟨_, _, _, .cannotSubscribe a, (hrefl.enter _).finish⟩
  | forwarding a inbox =>
    obtain ⟨items, ended⟩ := inbox
    have hstop : s.Progress i none none none (s.stopForwarding i a) := (hrefl.enter _).finish
    cases items with
    | nil => exact ⟨_, _, _, .stopsForwarding a _, hstop⟩
    | cons n rest =>
      simp only [go, forwarding]
      split
      · exact ⟨_, _, _, .forwards a _ rest n.uuid n.value, (hrefl.become _).report _ _⟩
      · exact ⟨_, _, _, .stopsForwarding a _, hstop⟩

theorem stepTask_of_waits {s : Scene} {i : Nat} {t : Task} (hi : s.host.tasks.get? i = some t)
    (h : s.host.waits i t = true) : s.stepTask i = s := by
  simp only [stepTask, hi, h, if_true]

theorem stepTask_of_not_waits {s : Scene} {i : Nat} {t : Task} (hi : s.host.tasks.get? i = some t)
    (h : ¬ s.host.waits i t = true) : s.stepTask i = s.go i t := by
  simp only [stepTask, hi, if_neg h]

/-- A task that is stepped goes on, or has to wait, or has ended. -/
theorem stepTask_cases (s : Scene) (i : Nat) :
    s.stepTask i = s ∨ ∃ task next post closes, s.host.tasks.get? i = some task ∧
      task.Goes next post closes ∧ s.Progress i next post closes (s.stepTask i) := by
  simp only [stepTask]
  split
  next task hi =>
    split
    · exact .inl rfl
    · obtain ⟨next, post, closes, hgoes, hprogress⟩ := s.go_progress hi
      exact .inr ⟨task, next, post, closes, hi, hgoes, hprogress⟩
  next => exact .inl rfl

end Scene

end GattHub.Radio
