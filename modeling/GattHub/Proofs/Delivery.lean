import GattHub.Proofs.Schedule

/-! Deliveries. A task for which something can come in from outside has subscribed to it, in the very
step with which it became one; so what comes in reaches every such task, and each of them once. -/

namespace GattHub.Radio

/-- Whether something from outside can come in for the task. -/
def Task.takesIn : Task → Bool
  | .readState .. | .listening .. | .forwarding .. => true
  | _ => false

theorem Happening.takesIn_of_brings {x : Happening} {t t' : Task} (h : x.brings t = some t') :
    t.takesIn = true ∧ t'.takesIn = true := by
  have hlistener {f : Inbox AdapterEvent → Inbox AdapterEvent}
      (h : Stack.inListener f t = some t') : t.takesIn = true ∧ t'.takesIn = true := by
    cases t <;> cases h <;> exact ⟨rfl, rfl⟩
  have hforwarder {d : DeviceId} {f : Inbox Notification → Inbox Notification}
      (h : Stack.inForwarder d f t = some t') : t.takesIn = true ∧ t'.takesIn = true := by
    cases t with
    | forwarding a inbox =>
      simp only [Stack.inForwarder] at h
      split at h <;> cases h
      exact ⟨rfl, rfl⟩
    | _ => cases h
  cases x with
  | adapter | adapterEnds => exact hlistener h
  | notified | notificationsEnd => exact hforwarder h
  | _ => cases h

namespace Stack

variable {s s' : Stack} {i : Nat} {t : Task}

/-- Every task for which something can come in is subscribed. -/
def Attentive (s : Stack) : Prop :=
  ∀ i t, s.tasks.get? i = some t → t.takesIn = true → i ∈ s.subscribers

theorem attentive_new (platform : Platform) : (Stack.new platform).Attentive := nofun

theorem Attentive.congr (h : s.Attentive) (htasks : s'.tasks = s.tasks)
    (hsubscribers : s'.subscribers = s.subscribers) : s'.Attentive := by
  intro i t hi ht
  rw [htasks] at hi
  rw [hsubscribers]
  exact h i t hi ht

theorem Attentive.insert (h : s.Attentive) (htasks : s'.tasks = s.tasks.insert i t)
    (hsubscribers : ∀ j ∈ s.subscribers, j ∈ s'.subscribers)
    (ht : t.takesIn = true → i ∈ s'.subscribers) : s'.Attentive := by
  intro j t' hj ht'
  rw [htasks, Table.get?_insert] at hj
  split at hj
  next hij =>
    cases hj
    exact hij ▸ ht ht'
  next => exact hsubscribers j (h j t' hj ht')

theorem Attentive.erase (h : s.Attentive) (htasks : s'.tasks = s.tasks.erase i)
    (hsubscribers : s'.subscribers = s.subscribers.erase i) : s'.Attentive := by
  intro j t hj ht
  rw [htasks, Table.get?_erase] at hj
  split at hj
  · cases hj
  next hij =>
    rw [hsubscribers]
    exact (List.mem_erase_of_ne hij).mpr (h j t hj ht)

/-- What is delivered reaches all who have subscribed, and each of them once. -/
theorem deliver_spec (s : Stack) (f : Task → Option Task) :
    (s.deliver f).2.subscribers = s.subscribers ∧
      ∀ i, (s.deliver f).2.tasks.get? i =
        if i ∈ s.subscribers then (s.tasks.get? i).map fun t => (f t).getD t
        else s.tasks.get? i := by
  set taker : Nat → Option (Nat × Task) :=
    fun i => ((s.tasks.get? i).bind f).map fun t => (i, t) with htaker
  have htake (j : Nat) :
      ((s.tasks.get? j).map fun t => (f t).getD t) = ((taker j).map Prod.snd).or (s.tasks.get? j) := by
    simp only [htaker]
    cases s.tasks.get? j with
    | none => rfl
    | some t => cases hf : f t <;> simp [hf]
  -- The takers are known before the first one is served; so the order is of no account.
  have hgen (l : List Nat) (s' : Stack) (hsubscribers : s'.subscribers = s.subscribers)
      (done : List Nat) (htasks : ∀ i, s'.tasks.get? i =
        if i ∈ done then ((taker i).map Prod.snd).or (s.tasks.get? i) else s.tasks.get? i) :
      let r := (l.filterMap taker).foldl
        (fun s e => { s with tasks := s.tasks.insert e.1 e.2 }.call e.1) s'
      r.subscribers = s.subscribers ∧ ∀ i, r.tasks.get? i =
        if i ∈ done ++ l then ((taker i).map Prod.snd).or (s.tasks.get? i)
        else s.tasks.get? i := by
    induction l generalizing s' done with
    | nil => simpa using ⟨hsubscribers, htasks⟩
    | cons j l ih =>
      cases hj : taker j with
      | none =>
        rw [List.filterMap_cons_none hj]
        have hmore : ∀ i, s'.tasks.get? i =
            if i ∈ done ++ [j] then ((taker i).map Prod.snd).or (s.tasks.get? i)
            else s.tasks.get? i := by
          intro i
          by_cases hij : i = j
          · subst hij
            simp [htasks i, hj]
          · simp [htasks i, hij]
        simpa using ih s' hsubscribers (done ++ [j]) hmore
      | some e =>
        rw [List.filterMap_cons_some hj, List.foldl_cons]
        have he : e.1 = j := by
          obtain ⟨t, -, ht⟩ := Option.map_eq_some_iff.mp hj
          rw [← ht]
        set served := { s' with tasks := s'.tasks.insert e.1 e.2 }.call e.1 with hserved
        have hcall : served.subscribers = s'.subscribers ∧
            served.tasks = s'.tasks.insert e.1 e.2 := by
          simp only [hserved, call]
          split <;> exact ⟨rfl, rfl⟩
        have hmore : ∀ i, served.tasks.get? i =
            if i ∈ done ++ [j] then ((taker i).map Prod.snd).or (s.tasks.get? i)
            else s.tasks.get? i := by
          intro i
          rw [hcall.2, Table.get?_insert, he]
          by_cases hij : i = j
          · subst hij
            simp [hj]
          · simp [htasks i, hij]
        simpa using ih served (hcall.1.trans hsubscribers) (done ++ [j]) hmore
  obtain ⟨hsubscribers, htasks⟩ := hgen s.subscribers s rfl [] fun i => by simp
  exact ⟨hsubscribers, fun i => (htasks i).trans (by rw [htake]; rfl)⟩

theorem attentive_deliver (h : s.Attentive) (f : Task → Option Task) :
    (s.deliver f).2.Attentive := by
  obtain ⟨hsubscribers, htasks⟩ := s.deliver_spec f
  intro i t hi ht
  rw [hsubscribers]
  by_contra hnot
  rw [htasks, if_neg hnot] at hi
  exact hnot (h i t hi ht)

/-- Who has subscribed, and what is on the air. -/
def aside (s : Stack) : List Nat × List Operation := (s.subscribers, s.made)

/-- No call subscribes anybody, and none goes on the air by itself. -/
theorem aside_accept (s : Stack) (c : CentralId) (k : HostCall handles) :
    (s.accept c k).state.aside = s.aside := by
  have hspawn (s : Stack) (t : Task) : (s.spawn t).aside = s.aside := by
    obtain ⟨ready, hspawn⟩ := s.spawn_eq t
    rw [hspawn]
    rfl
  have hwake (s : Stack) (f : Task → Bool) : (s.wakeTasks f).aside = s.aside := by
    obtain ⟨ready, hwake⟩ := s.wakeTasks_eq f
    rw [hwake]
    rfl
  have hstop (s : Stack) : (s.stopScan c).1.aside = s.aside := by
    simp only [stopScan]
    split
    · split
      · split
        · exact hspawn _ _
        · rfl
      · rfl
    · rfl
  cases k with
  | openCentral => exact hspawn _ _
  | scan b =>
    simp only [accept, accept.of, startScan]
    split
    · split
      · rfl
      · split
        · exact hspawn _ _
        · rfl
    · rfl
  | stopScan => exact hstop s
  | close => exact (hwake _ _).trans ((hwake _ _).trans (hstop s))
  | lookup p => rfl
  | peer n k =>
    cases k with
    | connect | cancelConnection => exact (hspawn _ _).trans (hwake _ _)
    | attMtu | discoverCharacteristics | discoverDescriptors => rfl
    | _ => exact hspawn _ _

theorem subscribers_accept (s : Stack) (c : CentralId) (k : HostCall handles) :
    (s.accept c k).state.subscribers = s.subscribers := congrArg Prod.fst (s.aside_accept c k)

theorem takesIn_of_started {c : CentralId} {k : HostCall handles} (h : s.started? c k = some t) :
    t.takesIn = false := by
  cases k with
  | openCentral =>
    cases h
    rfl
  | scan | stopScan | close =>
    simp only [started?] at h
    split at h <;> cases h
    rfl
  | lookup => cases h
  | peer n k =>
    cases k with
    | attMtu | discoverCharacteristics | discoverDescriptors => cases h
    | _ =>
      cases h
      rfl

theorem attentive_acceptAll (hs : s.Sound) (h : s.Attentive)
    (ks : List (CentralId × HostCall handles)) : (s.acceptAll ks).Attentive := by
  induction ks generalizing s with
  | nil => exact h
  | cons e ks ih =>
    have hcalled := s.called_accept hs.fresh e.1 e.2
    refine ih (hcalled.sound hs) fun i t hi ht => ?_
    rw [subscribers_accept]
    rw [hcalled.tasks] at hi
    split at hi
    · rw [takesIn_of_started hi] at ht
      cases ht
    · exact h i t hi ht

end Stack

namespace Scene

variable {s : Scene}

theorem attentive_post (h : s.host.Attentive) (c : CentralId) (r : Report handles) :
    (s.post c r).host.Attentive := by
  obtain ⟨ready, hwake⟩ := s.host.wake_eq .worker
  simp only [post, hwake]
  split
  · exact h.congr rfl rfl
  · exact h

theorem attentive_become (h : s.host.Attentive) (i : Nat) {t : Task}
    (ht : t.takesIn = true → i ∈ s.host.subscribers) : (s.become i t).host.Attentive :=
  h.insert rfl (fun _ hj => hj) ht

theorem attentive_finish (h : s.host.Attentive) (i : Nat) : (s.finish i).host.Attentive :=
  h.erase rfl rfl

theorem attentive_subscribed (h : s.host.Attentive) (i : Nat) (t : Task) :
    (s.subscribed i t).host.Attentive :=
  h.insert (t := t) (i := i) rfl (fun _ hj => List.mem_append_left _ hj) fun _ =>
    List.mem_append_right _ List.mem_cons_self

theorem attentive_begin (h : s.host.Attentive) (i : Nat) (o : Operation) {t : Task}
    (ht : t.takesIn = false) : (s.begin i o t).host.Attentive := by
  have hbecome : (s.become i t).host.Attentive := attentive_become h i (by simp [ht])
  simp only [begin]
  split
  · exact hbecome.congr rfl rfl
  · exact hbecome

theorem attentive_hear (h : s.host.Attentive) (c : CentralId) (e : AdapterEvent) :
    (hear c s e).host.Attentive := by
  have hadvertise (d : DeviceId) : (s.advertise c d).host.Attentive := by
    simp only [advertise]
    split
    · exact attentive_post (s := s.withStack (s.host.noteDevice c d)) (h.congr rfl rfl) c _
    · exact h
  cases e with
  | discovered d | updated d => exact hadvertise d
  | disconnected d =>
    obtain ⟨ready, hwake⟩ := Stack.wakeTasks_eq
      { s.host with sides := s.host.sides.modify c fun side =>
        { side with links := side.links.erase d.peer } } (Stack.forwards c d.peer)
    have hclosed : (s.host.closeLink c d.peer).Attentive := by
      rw [Stack.closeLink, hwake]
      exact h.congr rfl rfl
    exact attentive_post (s := (s.enter (.linkLost d)).withStack (s.host.closeLink c d.peer))
      hclosed c _
  | stateUpdated st => exact attentive_post (s := s.enter (.stateUpdated st)) h c _
  | connected d | servicesAdvertised d services => exact h

theorem attentive_go (h : s.host.Attentive) {i : Nat} {t : Task}
    (hi : s.host.tasks.get? i = some t) : (s.go i t).host.Attentive := by
  cases t with
  | listen c =>
    simp only [go, listen]
    split
    · exact attentive_subscribed h i _
    next e _ =>
      exact attentive_finish (attentive_post (s := s.enter (.listenFailed e)) h c _) i
  | readState c inbox =>
    have hsubscribed : i ∈ s.host.subscribers := h i _ hi rfl
    have hposted (s' : Scene) (h' : s'.host = s.host) (r : Report handles) :
        ((s'.post c r).become i (.listening c inbox)).host.Attentive := by
      obtain ⟨ready, hwake⟩ := s'.host.wake_eq .worker
      refine attentive_become (attentive_post (h'.symm ▸ h) c r) i fun _ => ?_
      simp only [post, hwake]
      split
      · exact h'.symm ▸ hsubscribed
      · exact h'.symm ▸ hsubscribed
    simp only [go, readState]
    split
    · exact hposted s rfl _
    next e _ => exact hposted (s.enter (.stateUnavailable e)) rfl _
  | listening c inbox =>
    have hsubscribed : i ∈ s.host.subscribers := h i _ hi rfl
    simp only [go, listening]
    split
    · split
      · exact attentive_hear (attentive_become h i fun _ => hsubscribed) c _
      · exact attentive_finish h i
    · exact attentive_finish h i
  | switchScan on begun =>
    cases begun with
    | false => exact attentive_begin h i _ rfl
    | true =>
      simp only [go, switched]
      split <;> exact attentive_finish h i
  | request c p d job begun =>
    cases begun with
    | false => exact attentive_begin h i _ rfl
    | true =>
      simp only [go, answered]
      have hentered : ((job.entry p d (s.host.platform.perform (job.operation d))).elim s
          s.enter).host.Attentive := by
        cases job.entry p d (s.host.platform.perform (job.operation d)) <;> exact h
      cases job.report d (s.host.platform.perform (job.operation d)) with
      | none => exact attentive_finish hentered i
      | some report => exact attentive_finish (attentive_post hentered c _) i
  | connect a begun =>
    cases begun with
    | false => exact attentive_begin h i _ rfl
    | true =>
      simp only [go, connected]
      split
      · exact attentive_become (attentive_post h _ _) i (by simp [Task.takesIn])
      · exact attentive_finish (attentive_post h _ _) i
  | subscribe a =>
    simp only [go, subscribe]
    split
    · exact attentive_subscribed h i _
    · exact attentive_finish h i
  | forwarding a inbox =>
    have hsubscribed : i ∈ s.host.subscribers := h i _ hi rfl
    simp only [go, forwarding]
    split
    · split
      · exact attentive_post (attentive_become h i fun _ => hsubscribed) _ _
      · exact attentive_finish h i
    · exact attentive_finish h i

theorem attentive_stepTask (h : s.host.Attentive) (i : Nat) : (s.stepTask i).host.Attentive := by
  simp only [stepTask]
  split
  next t hi =>
    split
    · exact h
    · exact attentive_go h hi
  next => exact h

end Scene

namespace Beat

variable {b : Beat}

/-- What becomes of each task when something comes in from outside. -/
theorem Outside.get?_after (hout : b.Outside) (h : b.scene.host.Attentive) (i : Nat) :
    b.after.host.tasks.get? i =
      (b.scene.host.tasks.get? i).map fun t => (b.happening.brings t).getD t := by
  have hidle (hnone : ∀ t, b.happening.brings t = none) : b.after.host.tasks.get? i =
      (b.scene.host.tasks.get? i).map fun t => (b.happening.brings t).getD t := by
    rcases hout.tasks i with hsame | ⟨t, t', -, hbrings, -⟩
    · simp [hsame, hnone]
    · rw [hnone] at hbrings
      cases hbrings
  obtain ⟨s, x⟩ := b
  have hdelivered (hafter : (Beat.mk s x).after = s.withStack (s.host.deliver x.brings).2) :
      (Beat.mk s x).after.host.tasks.get? i =
        (s.host.tasks.get? i).map fun t => (x.brings t).getD t := by
    rw [hafter]
    refine ((s.host.deliver_spec x.brings).2 i).trans ?_
    split
    · rfl
    next hi =>
      cases hget : s.host.tasks.get? i with
      | none => rfl
      | some t =>
        cases hbrings : x.brings t with
        | none => simp [hbrings]
        | some t' => exact absurd (h i t hget (Happening.takesIn_of_brings hbrings).1) hi
  cases x with
  | adapter | adapterEnds | notified | notificationsEnd => exact hdelivered rfl
  | _ => exact hidle fun _ => rfl

theorem attentive (hs : b.scene.host.Sound) (h : b.scene.host.Attentive) :
    b.after.host.Attentive := by
  obtain ⟨s, x⟩ := b
  cases x with
  | work =>
    cases ht : (Beat.mk s .work).moment? with
    | some t =>
      obtain ⟨-, -, -, -, hhost, -⟩ := of_moment ht
      rw [hhost]
      exact Stack.attentive_acceptAll hs h _
    | none =>
      obtain ⟨-, hhost, -⟩ := of_no_moment ht rfl
      rw [hhost]
      exact h
  | step i => exact Scene.attentive_stepTask h i
  | ask ticket r =>
    simp only [after, Scene.happen]
    split <;> exact h
  | adapter | adapterEnds | notified | notificationsEnd => exact Stack.attentive_deliver h _
  | goOn i =>
    refine h.congr ?_ ?_ <;>
    · simp only [after, Scene.happen, Scene.withStack, Stack.call]
      split <;> rfl
  | release | platform | arrange => exact h.congr rfl rfl

end Beat

theorem Course.attentive (settings : Settings) (platform : Platform) (xs : List Happening) :
    (of settings platform xs).scene.host.Attentive :=
  of_induction (P := fun k => k.scene.host.Attentive) settings platform
    (Stack.attentive_new platform)
    (fun ys x h => Beat.attentive (b := ⟨(of settings platform ys).scene, x⟩)
      (sound settings platform ys) h) xs

end GattHub.Radio
