import GattHub.Proofs.Listening

/-! The power state that a manager reports, and the state of the adapter. A listener subscribes to the
updates first and reads the state after that; so the updates that it takes in later may be older than
what it has read, but the last of them is not. -/

namespace GattHub.Radio

/-- The state of the adapter is what it has last given out; up to then it is as it was. -/
def stateAfter (state : AdapterState) (bs : List Beat) : AdapterState :=
  (bs.filterMap Beat.update?).getLast?.getD state

theorem stateAfter_append_singleton (state : AdapterState) (bs : List Beat) (b : Beat) :
    stateAfter state (bs ++ [b]) = b.update?.getD (stateAfter state bs) := by
  cases hb : b.update? <;> simp [stateAfter, hb]

/-- Without an update the state stays. -/
theorem stateAfter_append (state : AdapterState) (bs : List Beat) {cs : List Beat}
    (h : cs.filterMap Beat.update? = []) : stateAfter state (bs ++ cs) = stateAfter state bs := by
  simp [stateAfter, h]

/-- What is relied on of the adapter, as far as the listeners of a manager go: its events can be had,
and do not end; and when it is asked for its state, it answers what the state was at some moment
between the question and the answer. -/
structure Course.Dependable (k : Course) (state : AdapterState) (c : CentralId) : Prop where
  lasting : ∀ b ∈ k.past, b.happening ≠ .adapterEnds
  events : ∀ b ∈ k.past, ∀ i, b.happening = .step i →
    b.scene.host.tasks.get? i = some (.listen c) →
    b.scene.host.platform.perform .events = .ok ()
  answered : ∀ bs b cs i inbox, k.past = bs ++ b :: cs → b.happening = .step i →
    b.scene.host.tasks.get? i = some (.readState c inbox) →
    ∃ us vs, bs = us ++ vs ∧
      (∀ v ∈ vs, ∃ inbox', v.scene.host.tasks.get? i = some (.readState c inbox')) ∧
      b.scene.host.platform.perform .adapterState = .ok (stateAfter state us)

theorem Course.Dependable.of_take {k : Course} {x : Happening} {state : AdapterState}
    {c : CentralId} (h : (k.take x).Dependable state c) : k.Dependable state c := by
  refine ⟨fun b hb => h.lasting b (List.mem_append_left _ hb),
    fun b hb => h.events b (List.mem_append_left _ hb), fun bs b cs i inbox hpast => ?_⟩
  refine h.answered bs b (cs ++ [⟨k.scene, x⟩]) i inbox ?_
  simp [take, hpast]

namespace Beat

theorem hub_of_no_moment {b : Beat} (h : b.moment? = none) :
    b.after.worker.hub = b.scene.worker.hub := by
  rcases b.cases with ⟨t, ht⟩ | ⟨i, task, next, post, closes, hsteps⟩ | hout
  · rw [h] at ht
    cases ht
  · exact hsteps.progress.hub
  · exact hout.hub

/-- A message that means nothing to the hub says nothing of power. -/
theorem powers_taken_of_no_moment {b : Beat} (h : b.moment? = none) {hub : Hub handles}
    (hhub : b.scene.worker.hub = some hub) (c : CentralId) : powers c b.taken = [] := by
  obtain ⟨s, x⟩ := b
  cases x with
  | work =>
    cases hq : s.worker.queue with
    | nil => simp [taken, hq, powers]
    | cons m rest =>
      cases m with
      | start => simp [taken, hq, powers, Message.power?]
      | _ => simp [moment?, hq, show s.worker.hub = some hub from hhub, Message.move?] at h
  | _ => rfl

/-- The listener of a manager that is opened. -/
theorem get?_of_opens {b : Beat} {c : CentralId} (hs : b.scene.host.Sound) {m : Moment handles}
    (hm : b.moment? = some m) (hcalls : Effect.calls m.effects = [(c, .openCentral)]) :
    b.after.host.tasks.get? b.scene.host.nextTask = some (.listen c) := by
  obtain ⟨-, -, -, -, hhost, -⟩ := of_moment hm
  rw [hhost, hcalls]
  exact ((b.scene.host.called_accept hs.fresh c .openCentral).tasks _).trans (if_pos rfl)

theorem isOpen_after {b : Beat} {c : CentralId}
    (hcloses : ∀ m, b.moment? = some m → (c, .close) ∉ Effect.calls m.effects)
    (h : b.scene.host.isOpen c = true) : b.after.host.isOpen c = true := by
  rcases b.cases with ⟨m, hm⟩ | ⟨i, task, next, post, closes, hsteps⟩ | hout
  · obtain ⟨-, -, -, -, hhost, -⟩ := of_moment hm
    rw [hhost]
    exact Stack.isOpen_acceptAll (hcloses m hm) h
  · rw [Stack.isOpen_iff] at h ⊢
    rw [after_of_step hsteps.happening, Scene.closed?_stepTask, h]
  · rw [Stack.isOpen, hout.sides]
    exact h

end Beat

namespace Course

/-- The power state of a manager that is live. -/
def power? (k : Course) (c : CentralId) : Option Bool := k.scene.worker.hub.bind (·.power? c)

/-- What was told of the power of a manager. -/
def told (k : Course) (c : CentralId) : List Bool :=
  (k.moments.flatMap Moment.notices).filterMap (Notice.power? c)

/-- A beat in which no manager speaks of power. -/
theorem told_take (k : Course) (x : Happening) (c : CentralId) : (k.take x).told c =
    k.told c ++ ((Beat.mk k.scene x).moment?.map fun t => Effect.powers c t.effects).getD [] := by
  rw [told, moments_take, List.flatMap_append, List.filterMap_append]
  cases (Beat.mk k.scene x).moment? with
  | none => rfl
  | some t => simp [told, Effect.powers, Moment.notices]

/-- What is said of the power of a manager ends with this: what is on its way to the manager, and what
it was told already together with what it is about to be told. -/
structure Tells (k : Course) (c : CentralId) (poweredOn on : Bool) : Prop where
  power : (powers c k.scene.worker.queue).getLast?.getD poweredOn = on
  told : (k.told c ++ powers c k.scene.worker.queue).getLast? = some on

section Tells

variable {k : Course} {x : Happening} {c : CentralId} {y z on : Bool}

theorem powers_queue_take (k : Course) (x : Happening) (c : CentralId) :
    powers c k.scene.worker.queue =
        powers c (Beat.mk k.scene x).taken ++ powers c (Beat.mk k.scene x).left ∧
      powers c (k.take x).scene.worker.queue =
        powers c (Beat.mk k.scene x).left ++ powers c (Beat.mk k.scene x).posted := by
  rw [← powers_append, ← powers_append, Beat.taken_append_left, ← Beat.left_append_posted]
  exact ⟨rfl, rfl⟩

theorem Tells.take (h : k.Tells c z on)
    (htaken : (powers c (Beat.mk k.scene x).taken).getLast?.getD z = y)
    (htold : (k.take x).told c = k.told c ++ powers c (Beat.mk k.scene x).taken)
    (hposted : powers c (Beat.mk k.scene x).posted = []) : (k.take x).Tells c y on := by
  obtain ⟨hbefore, hafter⟩ := powers_queue_take k x c
  obtain ⟨hpower, hlast⟩ := h
  rw [hposted, List.append_nil] at hafter
  rw [hbefore] at hpower hlast
  refine ⟨?_, ?_⟩
  · rw [hafter, ← htaken, ← hpower, List.getLast?_append]
    cases (powers c (Beat.mk k.scene x).left).getLast? <;> rfl
  · rw [hafter, htold, List.append_assoc]
    exact hlast

theorem Tells.of_posted (hposted : powers c (Beat.mk k.scene x).posted = [on]) :
    (k.take x).Tells c y on := by
  obtain ⟨-, hafter⟩ := powers_queue_take k x c
  rw [hposted] at hafter
  constructor
  · rw [hafter, List.getLast?_concat]
    rfl
  · rw [hafter, ← List.append_assoc]
    exact List.getLast?_concat

end Tells

variable (settings : Settings) (platform : Platform) (xs : List Happening)

theorem map_happening_past : (of settings platform xs).past.map Beat.happening = xs := by
  induction xs using List.reverseRecOn with
  | nil => rfl
  | append_singleton xs x ih => rw [of_append_singleton, take, List.map_append, ih]; rfl

section Live

variable {settings platform xs} {x : Happening} {c : CentralId}

/-- A manager that is live was so before the beat, or was opened in it. What of its power left the
queue was told, and the last of it is now its power state. -/
theorem power?_take {y : Bool} (hy : ((of settings platform xs).take x).power? c = some y) :
    let k := of settings platform xs
    let b : Beat := ⟨k.scene, x⟩
    (∃ m, b.moment? = some m ∧ Effect.calls m.effects = [(c, .openCentral)]) ∨
      (∀ m, b.moment? = some m → (c, .close) ∉ Effect.calls m.effects) ∧
        ∃ z, k.power? c = some z ∧ (powers c b.taken).getLast?.getD z = y ∧
          (k.take x).told c = k.told c ++ powers c b.taken := by
  intro k b
  have htold : (k.take x).told c = k.told c ++ _ := told_take k x c
  cases hm : b.moment? with
  | none =>
    rw [show (Beat.mk k.scene x).moment? = none from hm] at htold
    have hkept : k.power? c = some y := by
      rw [← hy, power?, power?, take_scene, b.hub_of_no_moment hm]
    obtain ⟨h, hh, -⟩ := Option.bind_eq_some_iff.mp hkept
    rw [b.powers_taken_of_no_moment hm hh c]
    exact .inr ⟨nofun, y, hkept, rfl, htold⟩
  | some m =>
    rw [show (Beat.mk k.scene x).moment? = some m from hm] at htold
    obtain ⟨hx, hhub, ⟨msg, rest, hq, hmove⟩, hafter, -⟩ := Beat.of_moment hm
    have hbefore : k.power? c = m.hub.power? c := by
      rw [power?, show k.scene.worker.hub = some m.hub from hhub]
      rfl
    have hlater : (k.take x).power? c = m.after.bind (·.power? c) := by
      rw [power?, take_scene, hafter]
    have htaken : b.taken = [msg] := by simp [Beat.taken, hx, hq]
    have hpowers := m.powers ((hub_proper settings platform xs _ hhub).1) c
    rw [← hbefore, ← hlater, show (k.take x).power? c = some y from hy] at hpowers
    rw [htaken]
    generalize k.power? c = z at hpowers
    cases hpowers with
    | kept _ hmisses htells hopens hcloses =>
      -- a report of power would have been taken in
      have hnone : powers c [msg] = [] := powers_eq_nil fun on message hmem => by
        rw [← List.mem_singleton.mp hmem] at hmove
        cases hmisses on message (Option.some.inj hmove).symm
      rw [hnone]
      refine .inr ⟨fun m' hm' => Option.some.inj hm' ▸ hcloses, y, rfl, rfl, ?_⟩
      exact htold.trans (by simp [htells])
    | reported z _ message hmoves htells hcalls =>
      have hone : powers c [msg] = [y] := by
        rw [hmoves] at hmove
        cases msg with
        | report c' r =>
          cases hmove
          simp [powers, Message.power?]
        | start | request | shutdown => cases hmove
      rw [hone]
      refine .inr ⟨fun m' hm' => ?_, z, rfl, rfl, htold.trans (by simp [htells])⟩
      rw [← Option.some.inj hm', hcalls]
      exact List.not_mem_nil
    | opened _ _ _ _ hcalls => exact .inl ⟨m, rfl, hcalls⟩

end Live

/-- The side of a manager that is live is open. -/
theorem isOpen_of_power {c : CentralId} {y : Bool}
    (hy : (of settings platform xs).power? c = some y) :
    (of settings platform xs).scene.host.isOpen c = true := by
  revert y
  refine of_induction (P := fun k => ∀ {y}, k.power? c = some y → k.scene.host.isOpen c = true)
    settings platform ?_ ?_ xs
  · intro y hy
    cases hy
  · intro xs x ih y hy
    rcases power?_take hy with ⟨m, hm, hcalls⟩ | ⟨hcloses, hlive⟩
    · obtain ⟨-, -, -, -, hhost, -⟩ := Beat.of_moment hm
      rw [take_scene, hhost, hcalls]
      exact Stack.isOpen_iff.mpr ((Stack.closed?_openCentral _ c c).trans (if_pos rfl))
    · refine Beat.isOpen_after hcloses ?_
      obtain ⟨z, hz, -⟩ := hlive
      exact ih hz

section Dependable

variable {settings platform xs} {c : CentralId}

/-- A listener has not had the last of the events, and of the updates that it has yet to look at the
last one is the current one. -/
theorem current_of_heard (hk : (of settings platform xs).Dependable platform.state c) :
    ∀ i t inbox, (of settings platform xs).scene.host.tasks.get? i = some t →
      t.listener? = some c → inbox ∈ t.heard? →
      inbox.ended = false ∧ ∀ s, inbox.updates.getLast? = some s →
        s = stateAfter platform.state (of settings platform xs).past := by
  revert hk
  refine of_induction (P := fun k => k.Dependable platform.state c → ∀ i t inbox,
    k.scene.host.tasks.get? i = some t → t.listener? = some c → inbox ∈ t.heard? →
    inbox.ended = false ∧ ∀ s, inbox.updates.getLast? = some s →
      s = stateAfter platform.state k.past) settings platform ?_ ?_ xs
  · intro _ i t inbox hi
    cases hi
  · intro xs x ih hk i t inbox hi hl hinbox
    set b : Beat := ⟨(of settings platform xs).scene, x⟩ with hb
    have hnext : stateAfter platform.state ((of settings platform xs).take x).past =
        b.update?.getD (stateAfter platform.state (of settings platform xs).past) :=
      stateAfter_append_singleton ..
    have hends : b.happening ≠ .adapterEnds :=
      hk.lasting b (List.mem_append_right _ List.mem_cons_self)
    rw [hnext]
    rcases Beat.fares_of_after (b := b) (sound settings platform xs)
      (attentive settings platform xs) hi hl with rfl | ⟨t₀, said, ht₀, hfares⟩
    · cases hinbox
    have hbefore := fun inbox => ih hk.of_take i t₀ inbox ht₀ (hfares.listener?.symm.trans hl)
    cases hfares with
    | idles => cases hinbox
    | listens c' hstep =>
      cases hinbox
      exact ⟨rfl, nofun⟩
    | waits c' inbox₀ inbox' hupdates hended | receives c' inbox₀ inbox' hupdates hended =>
      cases hinbox
      obtain ⟨hlasting, hlast⟩ := hbefore inbox₀ rfl
      refine ⟨(hended hends).trans hlasting, fun s hs => ?_⟩
      rw [hupdates] at hs
      cases hupdate : b.update? with
      | none => exact hlast s (by simpa [hupdate] using hs)
      | some s' => simpa [hupdate] using hs.symm
    | reads c' inbox₀ hstep =>
      cases hinbox
      rw [Beat.update?_of_step hstep]
      exact hbefore inbox rfl
    | hears c' e rest ended hstep =>
      cases hinbox
      obtain ⟨hlasting, hlast⟩ := hbefore ⟨e :: rest, ended⟩ rfl
      rw [Beat.update?_of_step hstep]
      refine ⟨hlasting, fun s hs => hlast s ?_⟩
      rw [Inbox.updates_cons, List.getLast?_append, hs, Option.some_or]

/-- While a listener reads the state of the adapter, every update is brought to it. -/
theorem awaited_of_readState : ∀ i inbox us vs,
    (of settings platform xs).scene.host.tasks.get? i = some (.readState c inbox) →
    (of settings platform xs).past = us ++ vs →
    (∀ v ∈ vs, ∃ inbox', v.scene.host.tasks.get? i = some (.readState c inbox')) →
    inbox.updates = [] → vs.filterMap Beat.update? = [] := by
  refine of_induction (P := fun k => ∀ i inbox us vs,
    k.scene.host.tasks.get? i = some (.readState c inbox) → k.past = us ++ vs →
    (∀ v ∈ vs, ∃ inbox', v.scene.host.tasks.get? i = some (.readState c inbox')) →
    inbox.updates = [] → vs.filterMap Beat.update? = []) settings platform ?_ ?_ xs
  · intro i inbox us vs hi
    cases hi
  · intro xs x ih i inbox us vs hi hpast hvs hempty
    cases vs using List.reverseRecOn with
    | nil => rfl
    | append_singleton vs v =>
      rw [← List.append_assoc] at hpast
      obtain ⟨hprior, hv⟩ := List.append_inj' hpast rfl
      obtain ⟨inbox₀, hbefore⟩ := hvs v (List.mem_append_right _ List.mem_cons_self)
      cases hv
      set b : Beat := ⟨(of settings platform xs).scene, x⟩ with hb
      rcases Beat.fares_of_after (b := b) (sound settings platform xs)
        (attentive settings platform xs) hi rfl with hlisten | ⟨t₀, said, ht₀, hfares⟩
      · cases hlisten
      cases ht₀.symm.trans hbefore
      cases hfares with
      | waits c' inbox₀ inbox' hupdates hended =>
        obtain ⟨hempty₀, hnone⟩ := List.append_eq_nil_iff.mp (hupdates.symm.trans hempty)
        rw [List.filterMap_append, ih i inbox₀ us vs hbefore hprior
          (fun u hu => hvs u (List.mem_append_left _ hu)) hempty₀]
        simpa using hnone

/-- A listener of a manager that is live goes on. -/
theorem fares_of_live {x : Happening}
    (hk : ((of settings platform xs).take x).Dependable platform.state c) {y : Bool}
    (hy : (of settings platform xs).power? c = some y) {i : Nat} {t : Task}
    (hi : (of settings platform xs).scene.host.tasks.get? i = some t)
    (hl : t.listener? = some c) :
    let b : Beat := ⟨(of settings platform xs).scene, x⟩
    ∃ t' said, b.after.host.tasks.get? i = some t' ∧ b.Fares i t t' said ∧
      (b.happening = .step i → powers c b.posted = said.toList) := by
  intro b
  obtain ⟨h, hh, -⟩ := Option.bind_eq_some_iff.mp hy
  refine Beat.fares_of_listener (sound settings platform xs) (attentive settings platform xs) hi hl
    (congrArg Option.isSome hh) (isOpen_of_power settings platform xs hy) (fun hstep ht => ?_)
    fun inbox hinbox => (current_of_heard hk.of_take i t inbox hi hl hinbox).1
  exact hk.events b (List.mem_append_right _ List.mem_cons_self) i hstep (ht ▸ hi)

/-- A manager that is live has a listener. -/
theorem exists_listener (hk : (of settings platform xs).Dependable platform.state c) :
    ∀ y, (of settings platform xs).power? c = some y →
      ∃ i t, (of settings platform xs).scene.host.tasks.get? i = some t ∧ t.listener? = some c := by
  revert hk
  refine of_induction (P := fun k => k.Dependable platform.state c → ∀ y, k.power? c = some y →
    ∃ i t, k.scene.host.tasks.get? i = some t ∧ t.listener? = some c) settings platform ?_ ?_ xs
  · intro _ y hy
    cases hy
  · intro xs x ih hk y hy
    rcases power?_take hy with ⟨m, hm, hcalls⟩ | ⟨-, hlive⟩
    · exact ⟨_, _, Beat.get?_of_opens (sound settings platform xs) hm hcalls, rfl⟩
    · obtain ⟨z, hz, -⟩ := hlive
      obtain ⟨i, t, hi, hl⟩ := ih hk.of_take z hz
      obtain ⟨t', said, hi', hfares, -⟩ := fares_of_live hk hz hi hl
      exact ⟨i, t', hi', hfares.listener?.trans hl⟩

section CaughtUp

variable {x : Happening} (hk : ((of settings platform xs).take x).Dependable platform.state c)
  {y : Bool} (hy : (of settings platform xs).power? c = some y)
  (hcaught : ∀ i t, (Beat.mk (of settings platform xs).scene x).after.host.tasks.get? i = some t →
    t.listener? = some c → t.isCaughtUp = true)
include hk hy hcaught

/-- An update is brought to the listener, which then has yet to look at it. -/
theorem update?_eq_none_of_caughtUp :
    (Beat.mk (of settings platform xs).scene x).update? = none := by
  obtain ⟨i, t, hi, hl⟩ := exists_listener hk.of_take y hy
  obtain ⟨t', said, hi', hfares, -⟩ := fares_of_live hk hy hi hl
  have hup := hcaught i t' hi' (hfares.listener?.trans hl)
  cases hfares with
  | idles | listens | waits => cases hup
  | reads c' inbox hstep => exact Beat.update?_of_step hstep
  | hears c' e rest ended hstep => exact Beat.update?_of_step hstep
  | receives c' inbox inbox' hupdates =>
    have hempty : inbox.updates ++ _ = [] := hupdates.symm.trans (List.isEmpty_iff.mp hup)
    simpa using (List.append_eq_nil_iff.mp hempty).2

/-- Listeners that do not speak of power had caught up before. -/
theorem caughtUp_before
    (hsilent : powers c (Beat.mk (of settings platform xs).scene x).posted = []) :
    ∀ i t, (of settings platform xs).scene.host.tasks.get? i = some t → t.listener? = some c →
      t.isCaughtUp = true := by
  intro i t hi hl
  obtain ⟨t', said, hi', hfares, hsaid⟩ := fares_of_live hk hy hi hl
  have hup := hcaught i t' hi' (hfares.listener?.trans hl)
  have hlisten := hl
  cases hfares with
  | idles | listens | waits => cases hup
  | reads c' inbox hstep =>
    cases hl
    have hnone := hsilent.symm.trans (hsaid hstep)
    simp [Stack.reports?] at hnone
  | receives c' inbox inbox' hupdates =>
    have hempty : inbox.updates ++ _ = [] := hupdates.symm.trans (List.isEmpty_iff.mp hup)
    exact List.isEmpty_iff.mpr (List.append_eq_nil_iff.mp hempty).1
  | hears c' e rest ended hstep =>
    have hnone := hsilent.symm.trans (hsaid hstep)
    cases he : e.update? with
    | none =>
      refine List.isEmpty_iff.mpr ?_
      rw [Inbox.updates_cons, he]
      exact List.isEmpty_iff.mp hup
    | some s => simp [he] at hnone

/-- A listener that speaks of power when it has nothing more to look at tells the current state. -/
theorem posted_of_caughtUp
    (hspeaks : powers c (Beat.mk (of settings platform xs).scene x).posted ≠ []) :
    powers c (Beat.mk (of settings platform xs).scene x).posted =
      [(stateAfter platform.state (of settings platform xs).past).isOn] := by
  obtain ⟨h, hh, -⟩ := Option.bind_eq_some_iff.mp hy
  rcases (Beat.mk (of settings platform xs).scene x).cases with
    ⟨m, hm⟩ | ⟨i, t, next, post, closes, hsteps⟩ | hout
  · exact absurd (Beat.powers_posted_of_moment hm c) hspeaks
  · have hl : t.listener? = some c := by
      by_contra hl
      exact hspeaks (hsteps.powers_posted (congrArg Option.isSome hh) hl)
    obtain ⟨t', said, hi', hfares, hsaid⟩ := fares_of_live hk hy hsteps.found hl
    have hup := hcaught i t' hi' (hfares.listener?.trans hl)
    have hposted := hsaid hsteps.happening
    rw [hposted] at hspeaks ⊢
    cases hfares with
    | idles | listens | waits => cases hup
    | receives => exact absurd rfl hspeaks
    | reads c' inbox hstep =>
      cases hl
      obtain ⟨us, vs, hpast, hvs, hanswer⟩ :=
        hk.answered _ _ [] i inbox rfl hstep hsteps.found
      have hnone := awaited_of_readState i inbox us vs hsteps.found hpast hvs
        (List.isEmpty_iff.mp hup)
      rw [hpast, stateAfter_append _ _ hnone]
      simp [Stack.reports?, hanswer]
    | hears c' e rest ended hstep =>
      have hlast := (current_of_heard hk.of_take i _ _ hsteps.found hl rfl).2
      cases he : e.update? with
      | none => simp [he] at hspeaks
      | some s =>
        rw [Inbox.updates_cons, he, List.isEmpty_iff.mp hup] at hlast
        rw [← hlast s rfl]
        rfl
  · exact absurd (hout.powers_posted c) hspeaks

end CaughtUp

/-- Once its listeners have caught up, all that a manager has been told or will be told of power ends
with the current state of the adapter. -/
theorem tells_of_caughtUp (hk : (of settings platform xs).Dependable platform.state c) :
    ∀ y, (of settings platform xs).power? c = some y →
      (∀ i t, (of settings platform xs).scene.host.tasks.get? i = some t → t.listener? = some c →
        t.isCaughtUp = true) →
      (of settings platform xs).Tells c y
        (stateAfter platform.state (of settings platform xs).past).isOn := by
  revert hk
  refine of_induction (P := fun k => k.Dependable platform.state c → ∀ y, k.power? c = some y →
    (∀ i t, k.scene.host.tasks.get? i = some t → t.listener? = some c → t.isCaughtUp = true) →
    k.Tells c y (stateAfter platform.state k.past).isOn) settings platform ?_ ?_ xs
  · intro _ y hy
    cases hy
  · intro xs x ih hk y hy hcaught
    set b : Beat := ⟨(of settings platform xs).scene, x⟩ with hb
    have hnext : stateAfter platform.state ((of settings platform xs).take x).past =
        b.update?.getD (stateAfter platform.state (of settings platform xs).past) :=
      stateAfter_append_singleton ..
    rcases power?_take hy with ⟨m, hm, hcalls⟩ | ⟨-, hlive⟩
    · -- the listener of a manager that was opened just now has yet to subscribe
      cases hcaught _ _ (Beat.get?_of_opens (sound settings platform xs) hm hcalls) rfl
    obtain ⟨z, hz, htaken, htold⟩ := hlive
    have hsteady := update?_eq_none_of_caughtUp hk hz hcaught
    rw [hnext, hsteady, Option.getD_none]
    by_cases hspeaks : powers c b.posted = []
    · have hprior := ih hk.of_take z hz (caughtUp_before hk hz hcaught hspeaks)
      exact hprior.take htaken htold hspeaks
    · exact .of_posted (posted_of_caughtUp hk hz hcaught hspeaks)

/-- When the listener of a manager that is live has taken in all updates and nothing is left on the
queue, the manager is powered exactly if the adapter's state is that it is on, and what was last told
of the manager's power says the same. -/
theorem power_converges (hk : (of settings platform xs).Dependable platform.state c)
    (hcaught : ∀ i t, (of settings platform xs).scene.host.tasks.get? i = some t →
      t.listener? = some c → t.isCaughtUp = true)
    (hqueue : (of settings platform xs).scene.worker.queue = []) {h : Hub handles}
    (hh : (of settings platform xs).scene.worker.hub = some h) {m : Central handles}
    (hm : h.centrals.get? c = some m) :
    (m.poweredOn = true ↔
        stateAfter platform.state (of settings platform xs).past = .poweredOn) ∧
      ((of settings platform xs).told c).getLast? = some m.poweredOn := by
  have hlive : (of settings platform xs).power? c = some m.poweredOn := by
    simp [power?, hh, Hub.power?, hm]
  obtain ⟨hpower, htold⟩ := tells_of_caughtUp hk _ hlive hcaught
  rw [hqueue] at hpower htold
  have hon : m.poweredOn =
      (stateAfter platform.state (of settings platform xs).past).isOn := hpower
  refine ⟨?_, ?_⟩
  · rw [hon, AdapterState.isOn, decide_eq_true_iff]
  · rw [hon, ← htold, show powers c ([] : List (Message handles)) = [] from rfl, List.append_nil]

end Dependable

/-- An adapter that is off. -/
def dark : Platform := ⟨1, .poweredOff, ∅, ∅, []⟩

/-- Between the subscription of a listener and the answer to its question the adapter goes on and off
again, and the answer is from the time between. -/
def flicker : List Happening :=
  [.work, .ask 0 .allocate, .work, .step 0, .adapter (.stateUpdated .poweredOn),
    .adapter (.stateUpdated .poweredOff), .platform { dark with state := .poweredOn }, .step 0,
    .step 0, .step 0, .work, .work, .work]

/-- What a task answers for that reads the state of the adapter for a manager. -/
def reader? (c : CentralId) (b : Beat) : Option Nat :=
  match b.happening with
  | .step i =>
    match b.scene.host.tasks.get? i with
    | some (.readState c' _) => if c' = c then some i else none
    | _ => none
  | _ => none

theorem dependable_flicker : (of .default dark flicker).Dependable dark.state ⟨1⟩ := by
  refine ⟨fun b hb => ?_, fun b hb i _ _ => ?_, fun bs b cs i inbox hpast hstep hi => ?_⟩
  · have hnone : ∀ x ∈ flicker, x ≠ .adapterEnds := by simp [flicker]
    refine hnone _ ?_
    rw [← map_happening_past .default dark flicker]
    exact List.mem_map_of_mem hb
  · have hall : ∀ b ∈ (of .default dark flicker).past,
        b.scene.host.platform.perform .events = .ok () := by decide +kernel
    exact hall b hb
  · have hreader : reader? ⟨1⟩ b = some i := by simp [reader?, hstep, hi]
    -- only the eighth beat is an answer to a listener
    have hreaders : (of .default dark flicker).past.map (reader? ⟨1⟩) =
        List.replicate 7 none ++ some 0 :: List.replicate 5 none := by decide +kernel
    rw [hpast, List.map_append, List.map_cons, hreader] at hreaders
    obtain ⟨hmap, hzero, -⟩ :=
      (List.append_cons_inj_of_notMem (by simp) (by simp)).mp hreaders.symm
    have hlength : bs.length = 7 := by simpa using (congrArg List.length hmap).symm
    cases hzero
    have hbs : (of .default dark flicker).past.take 7 = bs := by rw [hpast, ← hlength, List.take_left]
    have hb : (of .default dark flicker).past[7]? = some b := by simp [hpast, ← hlength]
    have hvs : ∀ v ∈ ((of .default dark flicker).past.take 7).drop 5,
        ∃ inbox' ∈ [Inbox.mk [.stateUpdated .poweredOn] false,
          Inbox.mk [.stateUpdated .poweredOn, .stateUpdated .poweredOff] false],
          v.scene.host.tasks.get? 0 = some (.readState ⟨1⟩ inbox') := by decide +kernel
    have hanswer : ∀ b ∈ (of .default dark flicker).past[7]?,
        b.scene.host.platform.perform .adapterState =
          .ok (stateAfter dark.state (((of .default dark flicker).past.take 7).take 5)) := by
      decide +kernel
    rw [hbs] at hvs hanswer
    refine ⟨bs.take 5, bs.drop 5, (List.take_append_drop 5 bs).symm, fun v hv => ?_, hanswer b hb⟩
    obtain ⟨inbox', -, hinbox⟩ := hvs v hv
    exact ⟨inbox', hinbox⟩

/-- What was read is out of date when it is taken in, and so is the first update after it; the last
one is not. -/
theorem power_converges_flicker :
    let k := of .default dark flicker
    k.Dependable dark.state ⟨1⟩ ∧ k.scene.worker.queue = [] ∧ k.told ⟨1⟩ = [true, true, false] ∧
      ∃ h m, k.scene.worker.hub = some h ∧ h.centrals.get? ⟨1⟩ = some m ∧ m.poweredOn = false ∧
        stateAfter dark.state k.past ≠ .poweredOn := by
  intro k
  have htold : k.told ⟨1⟩ = [true, true, false] := by decide +kernel
  have hqueue : k.scene.worker.queue = [] := List.isEmpty_iff.mp (by decide +kernel)
  have hcaught : ∀ e ∈ k.scene.host.tasks.entries, e.2.listener? = some ⟨1⟩ →
      e.2.isCaughtUp = true := by decide +kernel
  have hlive : (k.power? ⟨1⟩).isSome = true := by decide +kernel
  obtain ⟨x, hx⟩ := Option.isSome_iff_exists.mp hlive
  obtain ⟨h, hh, hm⟩ := Option.bind_eq_some_iff.mp hx
  obtain ⟨m, hm, -⟩ := Option.map_eq_some_iff.mp hm
  obtain ⟨hiff, hlast⟩ := power_converges dependable_flicker
    (fun i t hi => hcaught (i, t) (Table.mem_entries_iff.mpr hi)) hqueue hh hm
  have hoff : m.poweredOn = false := by
    rw [htold] at hlast
    exact (Option.some.inj hlast).symm
  refine ⟨dependable_flicker, hqueue, htold, h, m, hh, hm, hoff, fun hon => ?_⟩
  rw [hiff.mpr hon] at hoff
  cases hoff

end Course

end GattHub.Radio
