import GattHub.Proofs.ScanShare

/-! A radio under any use. Managers are opened, used and dropped and their peers are called in any
order, by whoever it may be; between the calls the tasks step, the platform reports, and the worker
takes what it was posted. -/

namespace GattHub.Radio

/-- The attempt at a link that a task makes, from the connect to the last notification. -/
def Task.attempt? : Task → Option Attempt
  | .connect a _ | .subscribe a | .forwarding a _ => some a
  | _ => none

/-- What comes from outside reaches listeners, which attempt no link, and forwarders. -/
theorem Happening.brings_cases {x : Happening} {t t' : Task} (h : x.brings t = some t') :
    (t.attempt? = none ∧ t'.attempt? = none) ∨
      ∃ a inbox inbox', t = .forwarding a inbox ∧ t' = .forwarding a inbox' ∧
        ((∃ n, x = .notified a.device n ∧ inbox' = inbox.push n) ∨
          x = .notificationsEnd a.device ∧ inbox' = inbox.ending) := by
  have hlistener {f : Inbox AdapterEvent → Inbox AdapterEvent}
      (h : Stack.inListener f t = some t') : t.attempt? = none ∧ t'.attempt? = none := by
    cases t <;> cases h <;> exact ⟨rfl, rfl⟩
  have hforwarder {d : DeviceId} {f : Inbox Notification → Inbox Notification}
      (h : Stack.inForwarder d f t = some t') :
      ∃ a inbox, t = .forwarding a inbox ∧ a.device = d ∧ t' = .forwarding a (f inbox) := by
    cases t with
    | forwarding a inbox =>
      simp only [Stack.inForwarder] at h
      split at h
      next hd =>
        cases h
        exact ⟨a, inbox, rfl, hd, rfl⟩
      · cases h
    | _ => cases h
  cases x with
  | adapter | adapterEnds => exact .inl (hlistener h)
  | notified d n =>
    obtain ⟨a, inbox, ht, rfl, ht'⟩ := hforwarder h
    exact .inr ⟨a, inbox, _, ht, ht', .inl ⟨n, rfl, rfl⟩⟩
  | notificationsEnd d =>
    obtain ⟨a, inbox, ht, rfl, ht'⟩ := hforwarder h
    exact .inr ⟨a, inbox, _, ht, ht', .inr ⟨rfl, rfl⟩⟩
  | _ => cases h

/-- What can happen to a radio. -/
inductive Act where
  | use (c : CentralId) (u : SideUse)
  /-- A manager calls a device, under the name that the device goes by. -/
  | call (c : CentralId) (d : DeviceId) (k : PeerCall handles)
  | worker (w : Worker handles)
  /-- A task steps, or something comes from outside. -/
  | happen (x : Happening) (notWork : x ≠ .work)

namespace Scene

def start (settings : Settings) (platform : Platform) : Scene :=
  ⟨.start settings, .new platform, []⟩

def act (s : Scene) : Act → Scene
  | .use c u => s.withStack (s.host.use c u)
  | .call c d k => s.deliver Stack.host (.call c (.peer (d.peer, d) k) none)
  | .worker w => { s with worker := w }
  | .happen x _ => s.happen x

def actAll (s : Scene) (as : List Act) : Scene := as.foldl act s

end Scene

/-- Where a radio and its worker are, and what happens next. -/
structure Instant where
  scene : Scene
  act : Act

namespace Instant

def after (o : Instant) : Scene := o.scene.act o.act

/-- The task that steps. -/
def step? (o : Instant) : Option Nat :=
  match o.act with
  | .happen (.step i) _ => some i
  | _ => none

/-- What is put at the end of the queue. -/
def posted (o : Instant) : List (Message handles) :=
  match o.act with
  | .worker _ => []
  | _ => o.after.worker.queue.drop o.scene.worker.queue.length

end Instant

namespace Scene

/-- The instants of what happens next. -/
def instants (s : Scene) : List Act → List Instant
  | [] => []
  | a :: as => ⟨s, a⟩ :: (s.act a).instants as

variable {s : Scene}

theorem actAll_append (s : Scene) (as bs : List Act) :
    s.actAll (as ++ bs) = (s.actAll as).actAll bs := List.foldl_append

theorem actAll_append_singleton (s : Scene) (as : List Act) (a : Act) :
    s.actAll (as ++ [a]) = (s.actAll as).act a := s.actAll_append as [a]

theorem instants_append (s : Scene) (as bs : List Act) :
    s.instants (as ++ bs) = s.instants as ++ (s.actAll as).instants bs := by
  induction as generalizing s with
  | nil => rfl
  | cons a as ih => exact congrArg (_ :: ·) (ih (s.act a))

theorem instants_append_singleton (s : Scene) (as : List Act) (a : Act) :
    s.instants (as ++ [a]) = s.instants as ++ [⟨s.actAll as, a⟩] := s.instants_append as [a]

theorem called_call (hs : s.host.Sound) (c : CentralId) (d : DeviceId) (k : PeerCall handles) :
    s.host.Called c (.peer (d.peer, d) k) (s.act (.call c d k)).host :=
  s.host.called_accept hs.fresh c (.peer (d.peer, d) k)

theorem posted_call (s : Scene) (c : CentralId) (d : DeviceId) (k : PeerCall handles) :
    (Instant.mk s (.call c d k)).posted =
      if s.worker.running then
        (Stack.report? k).toList.map fun r => .report c (.peer d.peer r)
      else [] := by
  have hqueue := (foldl_deliver_spec [.call c (.peer (d.peer, d) k) none] s).2
  have hafter : (Instant.mk s (.call c d k)).after.worker.queue = _ := hqueue
  simp [Instant.posted, hafter, Effect.calls, Effect.call?, Stack.posts]

/-- What happens without the worker is the step of a task or leaves the managers alone. -/
theorem happen_cases (s : Scene) {x : Happening} (hx : x ≠ .work) :
    (∃ i task next post closes, (Beat.mk s x).Steps i task next post closes) ∨
      (Beat.mk s x).Outside := by
  rcases (Beat.mk s x).cases with ⟨t, ht⟩ | hsteps | hout
  · exact absurd (Beat.of_moment ht).1 hx
  · exact .inl hsteps
  · exact .inr hout

theorem sound_act (hs : s.host.Sound) (a : Act) : (s.act a).host.Sound := by
  cases a with
  | use c u => exact (Stack.grows_use hs c u).1
  | call c d k => exact (called_call hs c d k).sound hs
  | worker w => exact hs
  | happen x hx => exact Beat.sound (b := ⟨s, x⟩) hs

theorem sound_actAll_of (hs : s.host.Sound) (as : List Act) : (s.actAll as).host.Sound := by
  induction as generalizing s with
  | nil => exact hs
  | cons a as ih => exact ih (sound_act hs a)

theorem sound_actAll (settings : Settings) (platform : Platform) (as : List Act) :
    ((start settings platform).actAll as).host.Sound :=
  sound_actAll_of (Stack.sound_new platform) as

/-- A use or a call keeps the tasks that there are. -/
theorem grows_act (hs : s.host.Sound) {a : Act} (ha : ∀ x hx, a ≠ .happen x hx) :
    s.host.Grows (s.act a).host := by
  cases a with
  | use c u => exact (Stack.grows_use hs c u).2
  | call c d k => exact (called_call hs c d k).grows
  | worker w => exact .refl _
  | happen x hx => exact absurd rfl (ha x hx)

theorem nextTask_le_act (hs : s.host.Sound) (a : Act) :
    s.host.nextTask ≤ (s.act a).host.nextTask := by
  cases a with
  | happen x hx =>
    rcases s.happen_cases hx with ⟨i, task, next, post, closes, hsteps⟩ | hout
    · exact Nat.le_of_eq hsteps.progress.nextTask.symm
    · exact Nat.le_of_eq hout.nextTask.symm
  | _ => exact (grows_act hs (by simp)).nextTask_le

theorem nextTask_le_actAll (hs : s.host.Sound) (as : List Act) :
    s.host.nextTask ≤ (s.actAll as).host.nextTask := by
  induction as generalizing s with
  | nil => exact Nat.le_refl _
  | cons a as ih => exact Nat.le_trans (nextTask_le_act hs a) (ih (sound_act hs a))

/-- What becomes of a task. -/
theorem get?_act (hs : s.host.Sound) {i : Nat} {t : Task} (h : s.host.tasks.get? i = some t)
    (a : Act) :
    (s.act a).host.tasks.get? i = some t ∨
      ∃ x hx, a = .happen x hx ∧
        ((∃ next post closes, (Beat.mk s x).Steps i t next post closes) ∨
          ∃ t', x.brings t = some t' ∧ (s.act a).host.tasks.get? i = some t') := by
  cases a with
  | happen x hx =>
    rcases s.happen_cases hx with ⟨j, task, next, post, closes, hsteps⟩ | hout
    · by_cases hij : i = j
      · subst hij
        have htask : t = task := Option.some.inj (h.symm.trans hsteps.found)
        subst htask
        exact .inr ⟨x, hx, rfl, .inl ⟨next, post, closes, hsteps⟩⟩
      · exact .inl ((hsteps.progress.tasks i).trans ((if_neg hij).trans h))
    · rcases hout.tasks i with hsame | ⟨t₀, t', ht₀, hbrings, ht'⟩
      · exact .inl (hsame.trans h)
      · have htask : t = t₀ := Option.some.inj (h.symm.trans ht₀)
        subst htask
        exact .inr ⟨x, hx, rfl, .inr ⟨t', hbrings, ht'⟩⟩
  | _ => exact .inl (((grows_act hs (by simp)).tasks i (hs.lt_nextTask h)).trans h)

/-- A task that does not step is left as it is, or receives something. -/
theorem get?_act_of_not_step (hs : s.host.Sound) {x : Act} {i : Nat} (hi : i < s.host.nextTask)
    (h : (Instant.mk s x).step? ≠ some i) :
    (s.act x).host.tasks.get? i = s.host.tasks.get? i ∨
      ∃ y hy t t', x = .happen y hy ∧ s.host.tasks.get? i = some t ∧ y.brings t = some t' ∧
        (s.act x).host.tasks.get? i = some t' := by
  cases x with
  | happen y hy =>
    rcases s.happen_cases hy with ⟨j, task, next, post, closes, hsteps⟩ | hout
    · refine .inl ((hsteps.progress.tasks i).trans (if_neg ?_))
      rintro rfl
      cases show y = .step i from hsteps.happening
      exact h rfl
    · rcases hout.tasks i with hsame | ⟨t, t', ht, hbrings, ht'⟩
      · exact .inl hsame
      · exact .inr ⟨y, hy, t, t', rfl, ht, hbrings, ht'⟩
  | _ => exact .inl ((grows_act hs (by simp)).tasks i hi)

theorem eq_step_of_step? {x : Act} {i : Nat} (h : (Instant.mk s x).step? = some i) :
    ∃ hx, x = .happen (.step i) hx := by
  simp only [Instant.step?] at h
  split at h
  next j hx =>
    cases h
    exact ⟨hx, rfl⟩
  next => cases h

theorem posted_step {i : Nat} {next : Option Task} {post : Option (CentralId × Report handles)}
    {closes : Option (CentralId × PeerId)} (hstep : Happening.step i ≠ .work)
    (h : s.Progress i next post closes (s.stepTask i)) :
    (Instant.mk s (.happen (.step i) hstep)).posted =
      if s.worker.running then post.toList.map fun e => .report e.1 e.2 else [] := by
  have hposted : (Instant.mk s (.happen (.step i) hstep)).posted =
      (s.stepTask i).worker.queue.drop s.worker.queue.length := rfl
  rw [hposted, h.queue, List.drop_left]

theorem posted_of_same {i : Nat} (hstep : Happening.step i ≠ .work) (h : s.stepTask i = s) :
    (Instant.mk s (.happen (.step i) hstep)).posted = [] := by
  have hposted : (Instant.mk s (.happen (.step i) hstep)).posted =
      (s.stepTask i).worker.queue.drop s.worker.queue.length := rfl
  rw [hposted, h, List.drop_length]

end Scene

end GattHub.Radio
