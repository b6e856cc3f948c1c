import GattHub.Proofs.Interleaving

/-! The order in which a station lets worker and tasks run. A round of the worker is its messages
taken one at a time, a turn of a task is its steps, and all else only says who is next in line. So
what holds of every course holds of every station. -/

namespace GattHub

variable {H : Handles} {σ : Type}

/-- The same worker with messages in front of its queue. -/
def Worker.ahead (ms : List (Message H)) (w : Worker H) : Worker H :=
  { w with queue := ms ++ w.queue }

theorem Worker.post_ahead (ms : List (Message H)) (w : Worker H) (m : Message H) :
    (w.ahead ms).post m = (w.post m).ahead ms := by
  by_cases hw : w.hub.isSome = true <;> simp [Worker.post, Worker.ahead, Worker.running, hw]

namespace Turn

def ahead (ms : List (Message H)) (t : Turn H σ) : Turn H σ :=
  { t with worker := t.worker.ahead ms }

variable (host : HostStack H σ) (ms : List (Message H)) (t : Turn H σ)

theorem deliver_ahead (e : Effect H) :
    (t.ahead ms).deliver host e = (t.deliver host e).ahead ms := by
  cases e with
  | notice | log => rfl
  | call c k refusal =>
    have hposts (ps : List (CentralId × Report H)) (w : Worker H) :
        ps.foldl (fun w p => w.post (.report p.1 p.2)) (w.ahead ms) =
          (ps.foldl (fun w p => w.post (.report p.1 p.2)) w).ahead ms :=
      List.foldl_hom (Worker.ahead ms) fun w p => w.post_ahead ms _
    simp only [deliver, ahead, hposts]

theorem advance_ahead (s : Step H (Hub H)) :
    (t.ahead ms).advance host s = (t.advance host s).ahead ms := by
  change s.effects.foldl (deliver host) (ahead ms { t with worker.hub := some s.state }) = _
  exact List.foldl_hom (ahead ms) fun t e => deliver_ahead host ms t e

/-- A message is taken without regard to those that wait. -/
theorem take_ahead (m : Message H) : (t.ahead ms).take host m = (t.take host m).ahead ms := by
  have hhub : (t.ahead ms).worker.hub = t.worker.hub := rfl
  cases hh : t.worker.hub with
  | none =>
    rw [hh] at hhub
    simp only [take, hh, hhub]
    rfl
  | some h =>
    rw [hh] at hhub
    cases m with
    | start =>
      simp only [take, hh, hhub]
      rfl
    | report c r => simp only [take, hh, hhub, advance_ahead]
    | request ticket r | shutdown =>
      simp only [take, stop, hh, hhub, advance_ahead]
      rfl

end Turn

/-- The worker and the tasks of a station, before they run on. -/
def Desk.scene (s : Radio.Station) : Radio.Scene := ⟨s.worker, s.host, []⟩

namespace Radio

namespace Scene

/-- One scene comes of another by things that happen. -/
def Leads (s s' : Scene) : Prop := ∃ xs : List Happening, xs.foldl happen s = s'

variable {s s' s'' : Scene}

theorem Leads.refl (s : Scene) : s.Leads s := ⟨[], rfl⟩

theorem Leads.trans (h : s.Leads s') (h' : s'.Leads s'') : s.Leads s'' := by
  obtain ⟨xs, rfl⟩ := h
  obtain ⟨ys, rfl⟩ := h'
  exact ⟨xs ++ ys, List.foldl_append⟩

theorem leads_happen (s : Scene) (x : Happening) : s.Leads (s.happen x) := ⟨[x], rfl⟩

theorem leads_repeat {f : Scene → Scene} (hf : ∀ s : Scene, s.Leads (f s)) (n : Nat) (s : Scene) :
    s.Leads (Nat.repeat f n s) := by
  induction n with
  | zero => exact .refl s
  | succ n ih => exact ih.trans (hf _)

theorem leads_foldl_take (ms : List (Message handles)) (s : Scene) :
    Leads (s.ahead ms) (ms.foldl (Turn.take Stack.host) s) := by
  induction ms generalizing s with
  | nil => exact .refl s
  | cons m ms ih =>
    have hwork : happen (s.ahead (m :: ms)) .work = (s.take Stack.host m).ahead ms := by
      rw [← Turn.take_ahead]
      rfl
    have hleads := leads_happen (s.ahead (m :: ms)) .work
    rw [hwork] at hleads
    exact hleads.trans (ih _)

theorem leads_round (s : Scene) : s.Leads (Turn.round Stack.host s) := by
  -- A round empties the queue first; here the messages stay in it until each is taken.
  have hsplit : s = Turn.ahead s.worker.queue { s with worker.queue := [] } := by
    simp [Turn.ahead, Worker.ahead]
  have hleads := leads_foldl_take s.worker.queue { s with worker.queue := [] }
  rwa [← hsplit] at hleads

theorem leads_arrange (s : Scene) (ready : List Runner) (called : List Nat)
    (occurrences : List (Occurrence handles)) :
    s.Leads ⟨s.worker, { s.host with ready := ready, called := called }, occurrences⟩ :=
  leads_happen s (.arrange ready called occurrences)

theorem leads_wake (s : Scene) (r : Runner) : s.Leads (s.withStack (s.host.wake r)) := by
  simp only [Stack.wake]
  split
  · exact .refl s
  · exact leads_arrange s _ s.host.called s.occurrences

theorem leads_runTask (s : Scene) (i : Nat) : s.Leads (s.runTask i) := by
  simp only [runTask]
  split
  · exact leads_repeat (fun s => leads_happen s (.step i)) _ s
  · exact .refl s

theorem leads_run (s : Scene) (r : Runner) : s.Leads (s.run r) := by
  cases r with
  | worker => exact (leads_round s).trans (leads_round _)
  | task i => exact leads_runTask s i

theorem leads_runNext (s : Scene) : s.Leads s.runNext := by
  simp only [runNext]
  split
  · exact .refl s
  · exact (leads_arrange s _ s.host.called s.occurrences).trans (leads_run _ _)

theorem leads_clear (s : Scene) : s.Leads s.clear :=
  leads_repeat (fun s => leads_repeat leads_runNext _ s) 6 s

theorem leads_answerCall (s : Scene) : s.Leads s.answerCall := by
  simp only [answerCall]
  split
  · exact .refl s
  · exact (leads_arrange s s.host.ready _ s.occurrences).trans
      ((leads_runTask _ _).trans (leads_clear _))

/-- Whoever is let run, and in which order: it is one of the orders that are possible. -/
theorem leads_settle (s : Scene) : s.Leads s.settle := by
  have hwoken : s.Leads
      (if s.worker.queue.isEmpty then s else s.withStack (s.host.wake .worker)) := by
    split
    · exact .refl s
    · exact leads_wake s .worker
  exact hwoken.trans ((leads_clear _).trans (leads_repeat leads_answerCall _ _))

end Scene

namespace Station

/-- What callers, readers, the adapter and the platform make of a station that was started. -/
inductive Reached (settings : Settings) (platform : Platform) : Station → Prop
  | start (index : Nat) (s : Station) :
      Station.start settings platform index = .ok s → Reached _ _ s
  | ask (s : Station) (r : Request String) : Reached _ _ s → Reached _ _ (s.ask Scene.settle r).desk
  | close (s : Station) : Reached _ _ s → Reached _ _ (s.close Scene.settle).desk
  | proceed (s : Station) : Reached _ _ s → Reached _ _ (s.proceed Scene.settle).desk
  | read (s : Station) (feeds : Feeds) : Reached _ _ s → Reached _ _ { s with feeds := feeds }
  | emit (s : Station) (e : AdapterEvent) : Reached _ _ s → Reached _ _ (s.emit e).desk
  | endEvents (s : Station) : Reached _ _ s → Reached _ _ s.endEvents.desk
  | notify (s : Station) (d : DeviceId) (n : Notification) :
      Reached _ _ s → Reached _ _ (s.notify d n).desk
  | endNotifications (s : Station) (d : DeviceId) :
      Reached _ _ s → Reached _ _ (s.endNotifications d).desk
  | release (s : Station) (k : OperationKind) : Reached _ _ s → Reached _ _ (s.release k).desk
  | withPlatform (s : Station) (p : Platform) : Reached _ _ s → Reached _ _ (s.withPlatform p)

/-- To run on is to settle, and to forget what has happened. -/
theorem leads_proceed (s : Station) : s.scene.Leads (s.proceed Scene.settle).desk.scene :=
  (Scene.leads_settle s.scene).trans
    (Scene.leads_arrange _ s.scene.settle.host.ready s.scene.settle.host.called [])

theorem leads_resume {α : Type} (s : Station) (r : α × Stack)
    (h : s.scene.Leads (s.scene.withStack r.2)) : s.scene.Leads (s.resume r).desk.scene :=
  h.trans (leads_proceed { s with host := r.2 })

theorem leads_ask (s : Station) (r : Request String) :
    s.scene.Leads (s.ask Scene.settle r).desk.scene := by
  cases hw : s.worker.submit 0 r with
  | error reason =>
    simp only [Desk.ask, hw]
    exact leads_proceed s
  | ok w =>
    have hask : s.scene.happen (.ask 0 r) = { s.scene with worker := w } := by
      simp only [Scene.happen, Desk.scene, hw]
    have hleads := Scene.leads_happen s.scene (.ask 0 r)
    rw [hask] at hleads
    simp only [Desk.ask, hw]
    exact hleads.trans (leads_proceed { s with worker := w })

theorem leads_close (s : Station) : s.scene.Leads (s.close Scene.settle).desk.scene :=
  (Scene.leads_happen s.scene .release).trans
    (leads_proceed { s with worker := s.worker.post .shutdown, feeds := s.feeds.ending })

theorem leads_release (s : Station) (k : OperationKind) :
    s.scene.Leads (s.release k).desk.scene := by
  simp only [release]
  split
  next host hhost =>
    obtain ⟨i, -, rfl⟩ := Option.map_eq_some_iff.mp hhost
    exact leads_resume s _ (Scene.leads_happen s.scene (.goOn i))
  next => exact leads_resume s _ (.refl _)

/-- Every station is where some course is. -/
theorem exists_course {settings : Settings} {platform : Platform} {s : Station}
    (h : Reached settings platform s) :
    ∃ xs, (Course.of settings platform xs).scene = s.scene := by
  have hgoes {s s' : Station} (hleads : s.scene.Leads s'.scene)
      (ih : ∃ xs, (Course.of settings platform xs).scene = s.scene) :
      ∃ xs, (Course.of settings platform xs).scene = s'.scene := by
    obtain ⟨ys, hys⟩ := hleads
    obtain ⟨xs, hxs⟩ := ih
    refine ⟨xs ++ ys, ?_⟩
    rw [Course.of_append_scene, hxs, hys]
  induction h with
  | start index s hs =>
    refine ⟨[], ?_⟩
    rw [Station.start] at hs
    cases ha : platform.openAdapter index with
    | error e =>
      rw [ha] at hs
      cases hs
    | ok =>
      rw [ha] at hs
      cases hs
      rfl
  | ask s r _ ih => exact hgoes (leads_ask s r) ih
  | close s _ ih => exact hgoes (leads_close s) ih
  | proceed s _ ih => exact hgoes (leads_proceed s) ih
  | read s feeds _ ih => exact ih
  | emit s e _ ih => exact hgoes (leads_resume s _ (Scene.leads_happen s.scene (.adapter e))) ih
  | endEvents s _ ih => exact hgoes (leads_resume s _ (Scene.leads_happen s.scene .adapterEnds)) ih
  | notify s d n _ ih =>
    exact hgoes (leads_resume s _ (Scene.leads_happen s.scene (.notified d n))) ih
  | endNotifications s d _ ih =>
    exact hgoes (leads_resume s _ (Scene.leads_happen s.scene (.notificationsEnd d))) ih
  | release s k _ ih => exact hgoes (leads_release s k) ih
  | withPlatform s p _ ih => exact hgoes (Scene.leads_happen s.scene (.platform p)) ih

end Station

end Radio

end GattHub
