import GattHub.Proofs.HostCalls

/-! What every beat keeps. A beat is a moment of the hub, a step of a task, or something that
touches no manager; so the hub of a course goes through a run, no two tasks share a number, and the
queue is first in, first out. -/

namespace GattHub.Radio

/-- What a happening brings to a task that has subscribed to it. -/
def Happening.brings : Happening → Task → Option Task
  | .adapter e => Stack.inListener (·.push e)
  | .adapterEnds => Stack.inListener Inbox.ending
  | .notified d n => Stack.inForwarder d (·.push n)
  | .notificationsEnd d => Stack.inForwarder d Inbox.ending
  | _ => fun _ => none

namespace Stack

/-- A delivery changes what the takers hold and nothing else. -/
theorem deliver_eq (s : Stack) (f : Task → Option Task) :
    ∃ tasks called, (s.deliver f).2 = { s with tasks := tasks, called := called } ∧
      ∀ i, tasks.get? i = s.tasks.get? i ∨
        ∃ t t', s.tasks.get? i = some t ∧ f t = some t' ∧ tasks.get? i = some t' := by
  set takers := s.subscribers.filterMap fun i => ((s.tasks.get? i).bind f).map fun t => (i, t)
    with htakers
  have hmem : ∀ e ∈ takers, ∃ t, s.tasks.get? e.1 = some t ∧ f t = some e.2 := by
    rintro ⟨i, t'⟩ he
    obtain ⟨j, -, hj⟩ := List.mem_filterMap.mp he
    obtain ⟨t'', ht'', heq⟩ := Option.map_eq_some_iff.mp hj
    obtain ⟨t, ht, hf⟩ := Option.bind_eq_some_iff.mp ht''
    cases heq
    exact ⟨t, ht, hf⟩
  have hgen (l : List (Nat × Task)) (hl : ∀ e ∈ l, ∃ t, s.tasks.get? e.1 = some t ∧ f t = some e.2)
      (s' : Stack) (h : ∃ tasks called, s' = { s with tasks := tasks, called := called } ∧
        ∀ i, tasks.get? i = s.tasks.get? i ∨
          ∃ t t', s.tasks.get? i = some t ∧ f t = some t' ∧ tasks.get? i = some t') :
      ∃ tasks called, l.foldl (fun s e => { s with tasks := s.tasks.insert e.1 e.2 }.call e.1) s' =
        { s with tasks := tasks, called := called } ∧ ∀ i, tasks.get? i = s.tasks.get? i ∨
          ∃ t t', s.tasks.get? i = some t ∧ f t = some t' ∧ tasks.get? i = some t' := by
    induction l generalizing s' with
    | nil => exact h
    | cons e l ih =>
      refine ih (fun e' he' => hl e' (List.mem_cons_of_mem e he')) _ ?_
      obtain ⟨tasks, called, rfl, htasks⟩ := h
      have hcall : ∃ called',
          ({ s with tasks := tasks.insert e.1 e.2, called := called } : Stack).call e.1 =
            { s with tasks := tasks.insert e.1 e.2, called := called' } := by
        simp only [call]
        split
        · exact ⟨called, rfl⟩
        · exact ⟨_, rfl⟩
      obtain ⟨called', hcall⟩ := hcall
      refine ⟨_, called', hcall, fun i => ?_⟩
      rw [Table.get?_insert]
      split
      next hi =>
        obtain ⟨t, ht, hf⟩ := hl e List.mem_cons_self
        exact .inr ⟨t, e.2, by rw [hi, ht], hf, rfl⟩
      next => exact htasks i
  exact hgen takers hmem s ⟨s.tasks, s.called, rfl, fun _ => .inl rfl⟩

/-- Tasks have numbers below the next one, also those that are held up. -/
structure Sound (s : Stack) : Prop where
  fresh : s.Fresh
  suspended : ∀ i ∈ s.suspended, i < s.nextTask

theorem sound_new (platform : Platform) : (Stack.new platform).Sound := ⟨fun _ _ => rfl, nofun⟩

theorem Sound.lt_nextTask {s : Stack} (hs : s.Sound) {i : Nat} {t : Task}
    (h : s.tasks.get? i = some t) : i < s.nextTask := by
  by_contra hle
  rw [hs.fresh i (Nat.le_of_not_lt hle)] at h
  cases h

theorem Called.sound {s s' : Stack} {c : CentralId} {k : HostCall handles} (h : s.Called c k s')
    (hs : s.Sound) : s'.Sound := by
  refine ⟨fun i hi => ?_, fun i hi => ?_⟩
  · rw [h.tasks]
    rw [h.nextTask] at hi
    split
    next hj =>
      cases ht : s.started? c k with
      | none => rfl
      | some t =>
        rw [ht, Option.toList_some, List.length_singleton] at hi
        omega
    next => exact hs.fresh i (by omega)
  · rw [h.suspended] at hi
    have hlt := hs.suspended i hi
    rw [h.nextTask]
    omega

theorem Sound.acceptAll {s : Stack} (hs : s.Sound) (ks : List (CentralId × HostCall handles)) :
    (s.acceptAll ks).Sound := by
  induction ks generalizing s with
  | nil => exact hs
  | cons e ks ih => exact ih ((s.called_accept hs.fresh e.1 e.2).sound hs)

section Grows

variable {s s' s'' : Stack}

/-- Nothing becomes of the tasks that there are; others may be started. -/
structure Grows (s s' : Stack) : Prop where
  nextTask_le : s.nextTask ≤ s'.nextTask
  tasks : ∀ i < s.nextTask, s'.tasks.get? i = s.tasks.get? i
  suspended : s'.suspended = s.suspended

theorem Grows.refl (s : Stack) : s.Grows s := ⟨Nat.le_refl _, fun _ _ => rfl, rfl⟩

theorem Grows.trans (h : s.Grows s') (h' : s'.Grows s'') : s.Grows s'' :=
  ⟨Nat.le_trans h.nextTask_le h'.nextTask_le,
    fun i hi => (h'.tasks i (Nat.lt_of_lt_of_le hi h.nextTask_le)).trans (h.tasks i hi),
    h'.suspended.trans h.suspended⟩

theorem Called.grows {c : CentralId} {k : HostCall handles} (h : s.Called c k s') : s.Grows s' :=
  ⟨by rw [h.nextTask]; exact Nat.le_add_right ..,
    fun i hi => by rw [h.tasks, if_neg (Nat.ne_of_lt hi)], h.suspended⟩

theorem grows_acceptAll (hs : s.Sound) (ks : List (CentralId × HostCall handles)) :
    s.Grows (s.acceptAll ks) := by
  induction ks generalizing s with
  | nil => exact .refl s
  | cons e ks ih =>
    have hcalled := s.called_accept hs.fresh e.1 e.2
    exact hcalled.grows.trans (ih (hcalled.sound hs))

end Grows

end Stack

namespace Beat

/-- What is left of the queue when the worker has taken its message. -/
def left (b : Beat) : List (Message handles) :=
  match b.happening with
  | .work => b.scene.worker.queue.tail
  | _ => b.scene.worker.queue

/-- What a beat puts at the end of the queue. -/
def posted (b : Beat) : List (Message handles) := b.after.worker.queue.drop b.left.length

/-- The message that the worker takes. -/
def taken (b : Beat) : List (Message handles) :=
  match b.happening with
  | .work => b.scene.worker.queue.take 1
  | _ => []

theorem taken_append_left (b : Beat) : b.taken ++ b.left = b.scene.worker.queue := by
  simp only [taken, left]
  split
  · cases b.scene.worker.queue <;> rfl
  · rfl

theorem posted_of_eq {b : Beat} {ms : List (Message handles)}
    (h : b.after.worker.queue = b.left ++ ms) : b.posted = ms := by
  rw [posted, h, List.drop_left]

/-- A step of a task that goes on. -/
structure Steps (b : Beat) (i : Nat) (task : Task) (next : Option Task)
    (post : Option (CentralId × Report handles)) (closes : Option (CentralId × PeerId)) : Prop where
  happening : b.happening = .step i
  found : b.scene.host.tasks.get? i = some task
  goes : task.Goes next post closes
  progress : b.scene.Progress i next post closes b.after

/-- Neither a moment of the hub nor a step of a task. -/
structure Outside (b : Beat) : Prop where
  moment? : b.moment? = none
  hub : b.after.worker.hub = b.scene.worker.hub
  queue : ∃ ms, b.after.worker.queue = b.left ++ ms ∧ ∀ c r, .report c r ∉ ms
  scans : b.after.host.scans = b.scene.host.scans
  nextTask : b.after.host.nextTask = b.scene.host.nextTask
  nextLink : b.after.host.nextLink = b.scene.host.nextLink
  sides : b.after.host.sides = b.scene.host.sides
  suspended : ∀ i ∈ b.after.host.suspended, i ∈ b.scene.host.suspended
  tasks : ∀ i, b.after.host.tasks.get? i = b.scene.host.tasks.get? i ∨
    ∃ t t', b.scene.host.tasks.get? i = some t ∧ b.happening.brings t = some t' ∧
      b.after.host.tasks.get? i = some t'

theorem Outside.of_worker {b : Beat} (hm : b.moment? = none)
    (hhub : b.after.worker.hub = b.scene.worker.hub) (hhost : b.after.host = b.scene.host)
    (hqueue : ∃ ms, b.after.worker.queue = b.left ++ ms ∧ ∀ c r, .report c r ∉ ms) : b.Outside :=
  ⟨hm, hhub, hqueue, by rw [hhost], by rw [hhost], by rw [hhost], by rw [hhost],
    fun i hi => by rwa [hhost] at hi, fun i => .inl (by rw [hhost])⟩

theorem outside_deliver (s : Scene) (x : Happening) (hm : (Beat.mk s x).moment? = none)
    (hx : (Beat.mk s x).left = s.worker.queue)
    (hafter : (Beat.mk s x).after = s.withStack (s.host.deliver x.brings).2) :
    (Beat.mk s x).Outside := by
  obtain ⟨tasks, called, hstack, htasks⟩ := s.host.deliver_eq x.brings
  rw [hstack] at hafter
  refine ⟨hm, by rw [hafter]; rfl, ⟨[], ?_, nofun⟩, by rw [hafter]; rfl, by rw [hafter]; rfl,
    by rw [hafter]; rfl, by rw [hafter]; rfl, fun i hi => by rwa [hafter] at hi, fun i => ?_⟩
  · rw [hafter, hx, List.append_nil]
    rfl
  · rw [hafter]
    exact htasks i

theorem outside_post (s : Scene) (x : Happening) (m : Message handles) (hr : ∀ c r, m ≠ .report c r)
    (hm : (Beat.mk s x).moment? = none) (hx : (Beat.mk s x).left = s.worker.queue)
    (hafter : (Beat.mk s x).after = { s with worker := s.worker.post m }) :
    (Beat.mk s x).Outside := by
  refine .of_worker hm ?_ (by rw [hafter]) ?_
  · rw [hafter]
    exact Turn.post_hub _ _
  · rw [hafter, hx]
    by_cases hw : s.worker.running = true
    · exact ⟨[m], by simp [Worker.post, hw], fun c r h => hr c r (List.mem_singleton.mp h).symm⟩
    · exact ⟨[], by simp [Worker.post, hw], by simp⟩

/-- Each beat is of one of three kinds. -/
theorem cases (b : Beat) : (∃ t, b.moment? = some t) ∨
    (∃ i task next post closes, b.Steps i task next post closes) ∨ b.Outside := by
  obtain ⟨s, x⟩ := b
  cases x with
  | work =>
    cases ht : (Beat.mk s .work).moment? with
    | some t => exact .inl ⟨t, rfl⟩
    | none =>
      obtain ⟨hhub, hhost, hqueue⟩ := of_no_moment ht rfl
      exact .inr (.inr (.of_worker ht hhub hhost ⟨[], by simpa [left] using hqueue, nofun⟩))
  | step i =>
    rcases s.stepTask_cases i with hsame | ⟨task, next, post, closes, hi, hgoes, hprogress⟩
    · have hafter : (Beat.mk s (.step i)).after = s := hsame
      refine .inr (.inr (.of_worker rfl (by rw [hafter]) (by rw [hafter]) ⟨[], ?_, nofun⟩))
      rw [hafter, List.append_nil]
      rfl
    · exact .inr (.inl ⟨i, task, next, post, closes, rfl, hi, hgoes, hprogress⟩)
  | ask ticket r =>
    refine .inr (.inr ?_)
    cases hr : r.resolve with
    | error e =>
      have hafter : (Beat.mk s (.ask ticket r)).after = s := by
        simp [after, Scene.happen, Worker.submit, hr, Except.bind]
      refine .of_worker rfl (by rw [hafter]) (by rw [hafter]) ⟨[], ?_, nofun⟩
      rw [hafter, List.append_nil]
      rfl
    | ok r' =>
      refine outside_post s _ (.request ticket r') (by simp) rfl rfl ?_
      by_cases hw : s.worker.running = true
      · simp [after, Scene.happen, Worker.submit, hr, Except.bind, hw]
      · simp [after, Scene.happen, Worker.submit, hr, Except.bind, hw, Worker.post]
  | release => exact .inr (.inr (outside_post s _ .shutdown (by simp) rfl rfl rfl))
  | adapter e => exact .inr (.inr (outside_deliver s (.adapter e) rfl rfl rfl))
  | adapterEnds => exact .inr (.inr (outside_deliver s .adapterEnds rfl rfl rfl))
  | notified d n => exact .inr (.inr (outside_deliver s (.notified d n) rfl rfl rfl))
  | notificationsEnd d => exact .inr (.inr (outside_deliver s (.notificationsEnd d) rfl rfl rfl))
  | goOn i =>
    refine .inr (.inr ?_)
    have hcall : ∃ called, (Beat.mk s (.goOn i)).after = s.withStack
        { s.host with suspended := s.host.suspended.erase i, called := called } := by
      simp only [after, Scene.happen, Stack.call]
      split
      · exact ⟨_, rfl⟩
      · exact ⟨_, rfl⟩
    obtain ⟨called, hafter⟩ := hcall
    refine ⟨rfl, by rw [hafter]; rfl, ⟨[], by rw [hafter, List.append_nil]; rfl, nofun⟩,
      by rw [hafter]; rfl, by rw [hafter]; rfl, by rw [hafter]; rfl, by rw [hafter]; rfl,
      fun j hj => ?_, fun j => .inl (by rw [hafter]; rfl)⟩
    rw [hafter] at hj
    exact List.mem_of_mem_erase hj
  | platform p =>
    exact .inr (.inr ⟨rfl, rfl, ⟨[], (List.append_nil _).symm, nofun⟩, rfl, rfl, rfl, rfl,
      fun _ => id, fun _ => .inl rfl⟩)
  | arrange ready called occurrences =>
    exact .inr (.inr ⟨rfl, rfl, ⟨[], (List.append_nil _).symm, nofun⟩, rfl, rfl, rfl, rfl,
      fun _ => id, fun _ => .inl rfl⟩)

section Kinds

variable {b : Beat} {t : Moment handles} {i : Nat} {task : Task} {next : Option Task}
  {post : Option (CentralId × Report handles)} {closes : Option (CentralId × PeerId)}

theorem Steps.moment? (h : b.Steps i task next post closes) : b.moment? = none := by
  simp [Beat.moment?, h.happening]

theorem Steps.left (h : b.Steps i task next post closes) : b.left = b.scene.worker.queue := by
  simp [Beat.left, h.happening]

theorem left_of_moment (h : b.moment? = some t) : b.left = b.scene.worker.queue.tail := by
  simp [left, (of_moment h).1]

/-- Nothing gets lost or overtaken on its way to the worker. -/
theorem left_append_posted (b : Beat) : b.after.worker.queue = b.left ++ b.posted := by
  rcases b.cases with ⟨t, ht⟩ | ⟨i, task, next, post, closes, hsteps⟩ | hout
  · obtain ⟨-, -, -, -, -, hqueue⟩ := of_moment ht
    rw [← left_of_moment ht] at hqueue
    rw [posted_of_eq hqueue, hqueue]
  · have hqueue := hsteps.progress.queue
    rw [← hsteps.left] at hqueue
    rw [posted_of_eq hqueue, hqueue]
  · obtain ⟨ms, hqueue, -⟩ := hout.queue
    rw [posted_of_eq hqueue, hqueue]

theorem posted_of_moment (h : b.moment? = some t) :
    b.posted = (Effect.calls t.effects).flatMap Stack.posts := by
  obtain ⟨-, -, -, -, -, hqueue⟩ := of_moment h
  rw [← left_of_moment h] at hqueue
  exact posted_of_eq hqueue

theorem Steps.posted (h : b.Steps i task next post closes) : b.posted =
    if b.scene.worker.running then post.toList.map fun x => .report x.1 x.2 else [] := by
  have hqueue := h.progress.queue
  rw [← h.left] at hqueue
  exact posted_of_eq hqueue

theorem Outside.posted (h : b.Outside) (c : CentralId) (r : Report handles) :
    .report c r ∉ b.posted := by
  obtain ⟨ms, hqueue, hms⟩ := h.queue
  rw [posted_of_eq hqueue]
  exact hms c r

theorem sound (hs : b.scene.host.Sound) : b.after.host.Sound := by
  rcases b.cases with ⟨t, ht⟩ | ⟨i, task, next, post, closes, hsteps⟩ | hout
  · obtain ⟨-, -, -, -, hhost, -⟩ := of_moment ht
    rw [hhost]
    exact hs.acceptAll _
  · obtain ⟨-, hi, -, hprogress⟩ := hsteps
    refine ⟨fun j hj => ?_, fun j hj => ?_⟩
    · rw [hprogress.nextTask] at hj
      rw [hprogress.tasks, if_neg (Nat.ne_of_gt (Nat.lt_of_lt_of_le (hs.lt_nextTask hi) hj))]
      exact hs.fresh j hj
    · rw [hprogress.nextTask]
      rcases hprogress.suspended j hj with rfl | hj
      · exact hs.lt_nextTask hi
      · exact hs.suspended j hj
  · refine ⟨fun i hi => ?_, fun i hi => ?_⟩
    · rw [hout.nextTask] at hi
      rcases hout.tasks i with hsame | ⟨t, -, ht, -⟩
      · rw [hsame]
        exact hs.fresh i hi
      · rw [hs.fresh i hi] at ht
        cases ht
    · rw [hout.nextTask]
      exact hs.suspended i (hout.suspended i hi)

end Kinds

end Beat

namespace Course

variable (settings : Settings) (platform : Platform) (xs : List Happening)

theorem sound : (of settings platform xs).scene.host.Sound :=
  of_induction (P := fun k => k.scene.host.Sound) settings platform (Stack.sound_new platform)
    (fun ys x hs => Beat.sound (b := ⟨(of settings platform ys).scene, x⟩) hs) xs

/-- The hub of a course goes through a run. -/
theorem exists_run : ∃ moves, (Run.of settings moves).past = (of settings platform xs).moments ∧
    (Run.of settings moves).hub = (of settings platform xs).scene.worker.hub := by
  refine of_induction (P := fun k => ∃ moves, (Run.of settings moves).past = k.moments ∧
    (Run.of settings moves).hub = k.scene.worker.hub) settings platform ⟨[], rfl, rfl⟩ ?_ xs
  rintro xs x ⟨moves, hpast, hhub⟩
  set k := of settings platform xs
  rw [moments_take, take_scene]
  rcases (Beat.mk k.scene x).cases with ⟨t, ht⟩ | ⟨i, task, next, post, closes, hsteps⟩ | hout
  · obtain ⟨-, hbefore, -, hafter, -⟩ := Beat.of_moment ht
    refine ⟨moves ++ [t.move], ?_⟩
    rw [Run.of_append_singleton, Run.take_some (hhub.trans hbefore), hpast, ht, hafter]
    exact ⟨rfl, rfl⟩
  · refine ⟨moves, ?_, hhub.trans hsteps.progress.hub.symm⟩
    rw [hsteps.moment?, hpast]
    simp
  · refine ⟨moves, ?_, hhub.trans hout.hub.symm⟩
    rw [hout.moment?, hpast]
    simp

/-- First in, first out. -/
theorem queue_eq {bs seg : List Beat} {b : Beat}
    (hpast : (of settings platform xs).past = bs ++ b :: seg) :
    b.scene.worker.queue ++ (b :: seg).flatMap Beat.posted =
      (b :: seg).flatMap Beat.taken ++ (of settings platform xs).scene.worker.queue := by
  have hstep (u : Beat) : u.scene.worker.queue ++ u.posted = u.taken ++ u.after.worker.queue := by
    rw [u.left_append_posted, ← List.append_assoc, u.taken_append_left]
  refine since_induction (P := fun seg s => b.scene.worker.queue ++ (b :: seg).flatMap Beat.posted =
    (b :: seg).flatMap Beat.taken ++ s.worker.queue) settings platform xs hpast ?_ ?_
  · simpa using hstep b
  · intro seg u ih
    rw [← List.cons_append, List.flatMap_append, List.flatMap_append, ← List.append_assoc, ih,
      List.append_assoc, List.append_assoc]
    simpa using hstep u

end Course

end GattHub.Radio
