import GattHub.Proofs.ScanEffects
import GattHub.Radio.Station

/-! A worker and the tasks of a radio, interleaved in any order: one message of the worker, one step
of one task, or something from outside at a time. The order in which a station lets them run is one
of these, and whatever the order, the hub goes through a run. -/

namespace GattHub

variable {H : Handles}

/-- What a message means to the hub, given what the host answers meanwhile. The first message means
nothing. -/
def Message.move? (answers : Answers H) : Message H → Option (Move H)
  | .start => none
  | .request _ r => some (.request answers r)
  | .report c r => some (.report c r)
  | .shutdown => some (.shutdown answers)

namespace Radio

inductive Happening where
  /-- The worker takes the oldest message. -/
  | work
  /-- A task takes a step, if it does not have to wait. -/
  | step (i : Nat)
  | ask (ticket : Nat) (r : Request String)
  /-- The callers let go of the hub. -/
  | release
  | adapter (e : AdapterEvent)
  | adapterEnds
  | notified (d : DeviceId) (n : Notification)
  | notificationsEnd (d : DeviceId)
  /-- The radio is done with the operation of a task that it held up. -/
  | goOn (i : Nat)
  | platform (p : Platform)
  /-- Who is next in line, and what is still on record. -/
  | arrange (ready : List Runner) (called : List Nat) (occurrences : List (Occurrence handles))

namespace Scene

/-- The worker handles one message. -/
def work (s : Scene) : Scene :=
  match s.worker.queue with
  | [] => s
  | m :: rest => Turn.take Stack.host { s with worker.queue := rest } m

def happen (s : Scene) : Happening → Scene
  | .work => s.work
  | .step i => s.stepTask i
  | .ask ticket r =>
    match s.worker.submit ticket r with
    | .ok w => { s with worker := w }
    | .error _ => s
  | .release => { s with worker := s.worker.post .shutdown }
  | .adapter e => s.withStack (s.host.deliver (Stack.inListener (·.push e))).2
  | .adapterEnds => s.withStack (s.host.deliver (Stack.inListener Inbox.ending)).2
  | .notified d n => s.withStack (s.host.deliver (Stack.inForwarder d (·.push n))).2
  | .notificationsEnd d => s.withStack (s.host.deliver (Stack.inForwarder d Inbox.ending)).2
  | .goOn i => s.withStack ({ s.host with suspended := s.host.suspended.erase i }.call i)
  | .platform p => s.withStack { s.host with platform := p }
  | .arrange ready called occurrences =>
    ⟨s.worker, { s.host with ready := ready, called := called }, occurrences⟩

end Scene

/-- Where worker and tasks are, and what happens next. -/
structure Beat where
  scene : Scene
  happening : Happening

namespace Beat

def after (b : Beat) : Scene := b.scene.happen b.happening

theorem after_of_step {b : Beat} {i : Nat} (h : b.happening = .step i) :
    b.after = b.scene.stepTask i := by
  rw [after, h]
  rfl

/-- The moment of the hub, if the worker hands it a message. -/
def moment? (b : Beat) : Option (Moment handles) :=
  match b.happening, b.scene.worker.hub, b.scene.worker.queue with
  | .work, some h, m :: _ => (m.move? b.scene.host.answers).map (Moment.mk h)
  | _, _, _ => none

end Beat

/-- The beats of what happens next. -/
def Scene.beats (s : Scene) : List Happening → List Beat
  | [] => []
  | x :: xs => ⟨s, x⟩ :: (s.happen x).beats xs

/-- How far worker and tasks have come, and by which beats. -/
structure Course where
  past : List Beat
  scene : Scene

namespace Course

def start (settings : Settings) (platform : Platform) : Course :=
  ⟨[], ⟨.start settings, .new platform, []⟩⟩

def take (k : Course) (x : Happening) : Course := ⟨k.past ++ [⟨k.scene, x⟩], k.scene.happen x⟩

def of (settings : Settings) (platform : Platform) (xs : List Happening) : Course :=
  xs.foldl take (start settings platform)

def moments (k : Course) : List (Moment handles) := k.past.filterMap Beat.moment?

@[simp] theorem take_scene (k : Course) (x : Happening) :
    (k.take x).scene = (Beat.mk k.scene x).after := rfl

theorem moments_take (k : Course) (x : Happening) :
    (k.take x).moments = k.moments ++ (Beat.mk k.scene x).moment?.toList := by
  cases ht : (Beat.mk k.scene x).moment? <;> simp [moments, take, ht]

theorem of_append_singleton (settings : Settings) (platform : Platform) (xs : List Happening)
    (x : Happening) : of settings platform (xs ++ [x]) = (of settings platform xs).take x := by
  simp [of]

/-- What holds at the start and is kept by every beat holds all along. -/
theorem of_induction {P : Course → Prop} (settings : Settings) (platform : Platform)
    (hstart : P (start settings platform))
    (hstep : ∀ xs x, P (of settings platform xs) → P ((of settings platform xs).take x))
    (xs : List Happening) : P (of settings platform xs) := by
  induction xs using List.reverseRecOn with
  | nil => exact hstart
  | append_singleton xs x ih =>
    rw [of_append_singleton]
    exact hstep xs x ih

theorem of_append_scene (settings : Settings) (platform : Platform) (xs ys : List Happening) :
    (of settings platform (xs ++ ys)).scene =
      ys.foldl Scene.happen (of settings platform xs).scene := by
  rw [of, List.foldl_append, ← of]
  exact (List.foldl_hom Course.scene fun k x => rfl).symm

/-- What happens next adds its beats to those that are past. -/
theorem past_append (settings : Settings) (platform : Platform) (xs ys : List Happening) :
    (of settings platform (xs ++ ys)).past =
      (of settings platform xs).past ++ (of settings platform xs).scene.beats ys := by
  rw [of, List.foldl_append, ← of]
  generalize of settings platform xs = k
  induction ys generalizing k with
  | nil => exact (List.append_nil _).symm
  | cons y ys ih =>
    rw [List.foldl_cons, ih (k.take y)]
    exact List.append_assoc ..

theorem past_append_cons (settings : Settings) (platform : Platform) (xs : List Happening)
    (x : Happening) (ys : List Happening) :
    (of settings platform (xs ++ x :: ys)).past = (of settings platform xs).past ++
      ⟨(of settings platform xs).scene, x⟩ ::
        (Beat.mk (of settings platform xs).scene x).after.beats ys := past_append ..

/-- Every beat that is past was reached by a shorter course. -/
theorem exists_of_past_eq (settings : Settings) (platform : Platform) (xs : List Happening)
    {bs cs : List Beat} {b : Beat} (h : (of settings platform xs).past = bs ++ b :: cs) :
    ∃ xs', (of settings platform xs').past = bs ∧ (of settings platform xs').scene = b.scene := by
  revert bs cs b
  refine of_induction (P := fun k => ∀ {bs cs b}, k.past = bs ++ b :: cs →
    ∃ xs', (of settings platform xs').past = bs ∧ (of settings platform xs').scene = b.scene)
    settings platform ?_ ?_ xs
  · intro bs cs b h
    simp [start] at h
  · intro xs x ih bs cs b heq
    cases cs using List.reverseRecOn with
    | nil =>
      obtain ⟨hbs, hb⟩ := List.append_inj' heq rfl
      cases hb
      exact ⟨xs, hbs, rfl⟩
    | append_singleton cs u =>
      rw [← List.cons_append, ← List.append_assoc] at heq
      exact ih (List.append_inj' heq rfl).1

/-- What holds right after a beat and is kept by every later one holds of all that came since. -/
theorem since_induction {P : List Beat → Scene → Prop} (settings : Settings) (platform : Platform)
    (xs : List Happening) {bs seg : List Beat} {b : Beat}
    (hpast : (of settings platform xs).past = bs ++ b :: seg) (hstart : P [] b.after)
    (hstep : ∀ seg u, P seg u.scene → P (seg ++ [u]) u.after) :
    P seg (of settings platform xs).scene := by
  revert seg
  refine of_induction (P := fun k => ∀ {seg}, k.past = bs ++ b :: seg → P seg k.scene)
    settings platform ?_ ?_ xs
  · intro seg hpast
    simp [start] at hpast
  · intro ys x ih seg hpast
    cases seg using List.reverseRecOn with
    | nil =>
      obtain ⟨-, hb⟩ := List.append_inj' hpast rfl
      cases hb
      exact hstart
    | append_singleton seg u =>
      rw [← List.cons_append, ← List.append_assoc] at hpast
      obtain ⟨hprior, hu⟩ := List.append_inj' hpast rfl
      cases hu
      exact hstep seg _ (ih hprior)

end Course

namespace Stack

/-- The stack after calls that the worker made in one step. -/
def acceptAll (s : Stack) (ks : List (CentralId × HostCall handles)) : Stack :=
  ks.foldl (fun s e => (s.accept e.1 e.2).state) s

/-- The reports that a call posts before it returns. -/
def posts (e : CentralId × HostCall handles) : List (Message handles) :=
  match e.2 with
  | .peer n k => (report? k).toList.map fun r => .report e.1 (.peer n.1 r)
  | _ => []

theorem posts_accept (s : Stack) (c : CentralId) (k : HostCall handles) :
    (s.accept c k).posts.map (fun p => .report p.1 p.2) = posts (c, k) := by
  cases k <;> simp [accept, accept.of, posts, Function.comp_def]

end Stack

namespace Scene

theorem queue_foldl_post (posts : List (CentralId × Report handles)) (w : Worker handles) :
    (posts.foldl (fun w p => w.post (.report p.1 p.2)) w).queue =
      w.queue ++ if w.running then posts.map fun p => .report p.1 p.2 else [] := by
  induction posts generalizing w with
  | nil => simp
  | cons p posts ih =>
    have hrunning : (w.post (.report p.1 p.2)).running = w.running := by
      simp [Worker.running, Turn.post_hub]
    rw [List.foldl_cons, ih, hrunning]
    by_cases hw : w.running = true <;> simp [Worker.post, hw]

/-- The effects of a step go to the radio one after the other. -/
theorem foldl_deliver_spec (es : List (Effect handles)) (s : Scene) :
    (es.foldl (Turn.deliver Stack.host) s).host = s.host.acceptAll (Effect.calls es) ∧
      (es.foldl (Turn.deliver Stack.host) s).worker.queue =
        s.worker.queue ++
          if s.worker.running then (Effect.calls es).flatMap Stack.posts else [] := by
  induction es generalizing s with
  | nil => simp [Stack.acceptAll]
  | cons e es ih =>
    obtain ⟨hhost, hqueue⟩ := ih (s.deliver Stack.host e)
    have hrunning : (s.deliver Stack.host e).worker.running = s.worker.running := by
      simp [Worker.running, Turn.deliver_hub]
    rw [List.foldl_cons, hhost, hqueue, hrunning]
    cases e with
    | notice | log => exact ⟨rfl, rfl⟩
    | call c k r =>
      refine ⟨rfl, ?_⟩
      have hposted := queue_foldl_post (s.host.accept c k).posts s.worker
      rw [Stack.posts_accept] at hposted
      rw [show (s.deliver Stack.host (.call c k r)).worker.queue = _ from hposted]
      split <;> simp

theorem advance_spec (s : Scene) (st : Step handles (Hub handles)) :
    (s.advance Stack.host st).worker.hub = some st.state ∧
      (s.advance Stack.host st).host = s.host.acceptAll (Effect.calls st.effects) ∧
      (s.advance Stack.host st).worker.queue =
        s.worker.queue ++ (Effect.calls st.effects).flatMap Stack.posts := by
  obtain ⟨hhost, hqueue⟩ :=
    foldl_deliver_spec st.effects { s with worker.hub := some st.state }
  exact ⟨(Turn.advance_spec Stack.host s st).1, hhost, hqueue⟩

end Scene

namespace Beat

/-- A message that the hub is handed. -/
theorem of_moment {b : Beat} {t : Moment handles} (h : b.moment? = some t) :
    b.happening = .work ∧ b.scene.worker.hub = some t.hub ∧
      (∃ m rest, b.scene.worker.queue = m :: rest ∧ m.move? b.scene.host.answers = some t.move) ∧
      b.after.worker.hub = t.after ∧
      b.after.host = b.scene.host.acceptAll (Effect.calls t.effects) ∧
      b.after.worker.queue =
        b.scene.worker.queue.tail ++ (Effect.calls t.effects).flatMap Stack.posts := by
  obtain ⟨s, x⟩ := b
  obtain ⟨m, rest, h₀, hx, hq, hhub, ht⟩ : ∃ m rest h₀, x = .work ∧ s.worker.queue = m :: rest ∧
      s.worker.hub = some h₀ ∧ (m.move? s.host.answers).map (Moment.mk h₀) = some t := by
    simp only [moment?] at h
    split at h
    next _ h₀ m rest hhub hq => exact ⟨m, rest, h₀, rfl, hq, hhub, h⟩
    next => cases h
  obtain ⟨move, hmove, rfl⟩ := Option.map_eq_some_iff.mp ht
  subst hx
  have hafter : (Beat.mk s .work).after =
      Turn.take Stack.host { s with worker.queue := rest } m := by
    simp [after, Scene.happen, Scene.work, hq]
  refine ⟨rfl, hhub, ⟨m, rest, hq, hmove⟩, ?_⟩
  rw [hafter, show (Beat.mk s .work).scene.worker.queue.tail = rest from congrArg List.tail hq]
  cases m with
  | start => cases hmove
  | request ticket r =>
    cases hmove
    simp only [Turn.take, hhub]
    exact Scene.advance_spec _ _
  | report c r =>
    cases hmove
    simp only [Turn.take, hhub]
    exact Scene.advance_spec _ _
  | shutdown =>
    cases hmove
    simp only [Turn.take, hhub]
    exact ⟨rfl, (Scene.advance_spec _ _).2⟩

/-- A message that the hub is not handed, or none at all, changes nothing but the queue. -/
theorem of_no_moment {b : Beat} (h : b.moment? = none) (hw : b.happening = .work) :
    b.after.worker.hub = b.scene.worker.hub ∧ b.after.host = b.scene.host ∧
      b.after.worker.queue = b.scene.worker.queue.tail := by
  obtain ⟨s, x⟩ := b
  cases hw
  cases hq : s.worker.queue with
  | nil => simp [after, Scene.happen, Scene.work, hq]
  | cons m rest =>
    have hafter : (Beat.mk s .work).after =
        Turn.take Stack.host { s with worker.queue := rest } m := by
      simp [after, Scene.happen, Scene.work, hq]
    rw [hafter]
    cases hhub : s.worker.hub with
    | none =>
      simp only [Turn.take, hhub]
      exact ⟨rfl, rfl, rfl⟩
    | some h₀ =>
      have hmove : m.move? s.host.answers = none := by simpa [moment?, hhub, hq] using h
      cases m with
      | start =>
        simp only [Turn.take, hhub]
        exact ⟨rfl, rfl, rfl⟩
      | _ => cases hmove

end Beat

end Radio

end GattHub
