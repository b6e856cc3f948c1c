import GattHub.Proofs.Isolation
import GattHub.Proofs.ScanShare
import GattHub.Proofs.Delivery
import Mathlib.Data.List.Sort

/-! The order in which requests go on the air. A request that is accepted starts a task of its own, and
tasks take their first steps in any order; so one request may overtake another on its way to the
radio. -/

namespace GattHub.Radio

/-- The operation that a task has yet to take on the air. -/
def Task.due? : Task → Option Operation
  | .switchScan on false => some (if on then .startScan else .stopScan)
  | .request _ _ d job false => (some (job.operation d)).filter Operation.isOnAir
  | .connect a false => some (.connect a.device)
  | _ => none

/-- Which way an operation switches the scan of the radio. -/
def Operation.switch? : Operation → Option Bool
  | .startScan => some true
  | .stopScan => some false
  | _ => none

/-- Whether a radio is told last to scan, by the operations that follow this state of its scan. -/
def switchedTo (on : Bool) (os : List Operation) : Bool :=
  (os.filterMap Operation.switch?).getLast?.getD on

theorem switchedTo_append (on : Bool) (os os' : List Operation) :
    switchedTo on (os ++ os') = switchedTo (switchedTo on os) os' := by
  simp only [switchedTo, List.filterMap_append, List.getLast?_append]
  cases (os'.filterMap Operation.switch?).getLast? <;> simp

namespace Stack

variable {s s' s'' : Stack}

def due? (s : Stack) (i : Nat) : Option Operation := (s.tasks.get? i).bind Task.due?

/-- What the tasks that were started on the way from one stack to another have to take on the air, in
the order in which they were started. -/
def asked (s s' : Stack) : List (Nat × Operation) :=
  (List.range' s.nextTask (s'.nextTask - s.nextTask)).filterMap fun i =>
    (s'.due? i).map fun o => (i, o)

theorem asked_of_nextTask (h : s'.nextTask = s.nextTask) : s.asked s' = [] := by simp [asked, h]

theorem asked_trans (h : s.Grows s') (h' : s'.Grows s'') :
    s.asked s'' = s.asked s' ++ s'.asked s'' :=
  filterMap_started_trans (fun i t => (t.bind Task.due?).map fun o => (i, o)) h h'

theorem mem_asked {e : Nat × Operation} :
    e ∈ s.asked s' ↔ s.nextTask ≤ e.1 ∧ e.1 < s'.nextTask ∧ s'.due? e.1 = some e.2 := by
  obtain ⟨i, o⟩ := e
  simp only [asked, List.mem_filterMap, List.mem_range'_1, Option.map_eq_some_iff, Prod.mk.injEq]
  constructor
  · rintro ⟨j, hj, o', ho, rfl, rfl⟩
    exact ⟨hj.1, by omega, ho⟩
  · rintro ⟨hi, hlt, ho⟩
    exact ⟨i, ⟨hi, by omega⟩, o, ho, rfl, rfl⟩

theorem pairwise_asked (s s' : Stack) : (s.asked s').Pairwise fun e e' => e.1 < e'.1 := by
  refine List.Pairwise.filterMap _ ?_ (List.pairwise_lt_range' (s := s.nextTask))
  intro i j hij e he e' he'
  obtain ⟨o, -, rfl⟩ := Option.map_eq_some_iff.mp he
  obtain ⟨o', -, rfl⟩ := Option.map_eq_some_iff.mp he'
  exact hij

theorem Called.asked {c : CentralId} {k : HostCall handles} (h : s.Called c k s') :
    s.asked s' = (((s.started? c k).bind Task.due?).map fun o => (s.nextTask, o)).toList := by
  have hown : s'.due? s.nextTask = (s.started? c k).bind Task.due? := by
    rw [due?, h.tasks, if_pos rfl]
  rw [Stack.asked, h.nextTask, Nat.add_sub_cancel_left]
  cases ht : s.started? c k with
  | none => rfl
  | some t =>
    rw [ht] at hown
    cases ho : t.due? <;> simp [hown, ho]

/-- What a call to a device takes on the air. -/
def airs? (d : DeviceId) : PeerCall handles → Option Operation
  | .connect => some (.connect d)
  | k => ((job? k).map (Job.operation d)).filter Operation.isOnAir

theorem due?_started_peer (s : Stack) (c : CentralId) (n : handles.Peer) (k : PeerCall handles) :
    (s.started? c (.peer n k)).bind Task.due? = airs? n.2 k := by
  cases k <;> rfl

theorem switch?_of_airs? {d : DeviceId} {k : PeerCall handles} {o : Operation}
    (h : airs? d k = some o) : o.switch? = none := by
  by_cases hk : k = .connect
  · subst hk
    cases h
    rfl
  · have hjob : ((job? k).map (Job.operation d)).filter Operation.isOnAir = some o := by
      rw [← h]
      cases k <;> first | rfl | exact absurd rfl hk
    obtain ⟨ho, -⟩ := Option.filter_eq_some_iff.mp hjob
    obtain ⟨job, -, rfl⟩ := Option.map_eq_some_iff.mp ho
    cases job <;> rfl

/-- Whether the radio is to scan, by the count of scans. -/
def wantsScan (s : Stack) : Bool := s.scans != 0

section Called

variable {c : CentralId} {k : HostCall handles}

theorem Called.switchedTo_of_kept (h : s.Called c k s')
    (hquiet : ∀ o ∈ (s.started? c k).bind Task.due?, o.switch? = none)
    (hscans : s'.scans = s.scans) :
    switchedTo s.wantsScan ((s.asked s').map Prod.snd) = s'.wantsScan := by
  rw [h.asked, wantsScan, wantsScan, hscans]
  cases ho : (s.started? c k).bind Task.due? with
  | none => rfl
  | some o => simp [switchedTo, hquiet o ho]

/-- A call that ends the scan of its side, if there is one. -/
theorem Called.switchedTo_of_ends (h : s.Called c k s')
    (hstarted : s.started? c k =
      if s.flag? c = some true ∧ s.scans = 1 then some (.switchScan false false) else none)
    (hscans : s'.scans = if s.flag? c = some true then s.scans - 1 else s.scans) :
    switchedTo s.wantsScan ((s.asked s').map Prod.snd) = s'.wantsScan := by
  by_cases hflag : s.flag? c = some true
  · rw [if_pos hflag] at hscans
    rw [h.asked, hstarted]
    by_cases hone : s.scans = 1
    · simp [hflag, hone, hscans, wantsScan, Task.due?, switchedTo, Operation.switch?]
    · -- The count may be zero already, and then it stays there.
      have hsame : s'.wantsScan = s.wantsScan := by
        rw [wantsScan, wantsScan, hscans, Bool.eq_iff_iff, bne_iff_ne, bne_iff_ne]
        omega
      simp [hone, hsame, switchedTo]
  · rw [if_neg hflag] at hscans
    exact h.switchedTo_of_kept (by simp [hstarted, hflag]) hscans

/-- What a call asks of the scan of the radio agrees with the count of scans. -/
theorem Called.switchedTo_asked (h : s.Called c k s') :
    switchedTo s.wantsScan ((s.asked s').map Prod.snd) = s'.wantsScan := by
  have hscans := h.scans
  cases k with
  | scan b =>
    by_cases hflag : s.flag? c = some false
    · rw [hflag] at hscans
      rw [h.asked]
      by_cases hzero : s.scans = 0
      · simp [started?, hflag, hzero, hscans, wantsScan, scansAfter, Task.due?, switchedTo,
          Operation.switch?]
      · simp [started?, hflag, hzero, hscans, wantsScan, scansAfter, switchedTo]
    · refine h.switchedTo_of_kept (by simp [started?, hflag]) (hscans.trans ?_)
      cases hx : s.flag? c with
      | none => rfl
      | some on =>
        cases on with
        | true => rfl
        | false => exact absurd hx hflag
  | stopScan | close =>
    refine h.switchedTo_of_ends rfl (hscans.trans ?_)
    cases s.flag? c with
    | none => rfl
    | some on => cases on <;> rfl
  | openCentral | lookup => exact h.switchedTo_of_kept (by simp [started?, Task.due?]) hscans
  | peer n k =>
    refine h.switchedTo_of_kept (fun o ho => ?_) hscans
    rw [due?_started_peer] at ho
    exact switch?_of_airs? ho

end Called

theorem switchedTo_acceptAll (hs : s.Sound) (ks : List (CentralId × HostCall handles)) :
    switchedTo s.wantsScan ((s.asked (s.acceptAll ks)).map Prod.snd) =
      (s.acceptAll ks).wantsScan := by
  induction ks generalizing s with
  | nil => simp [acceptAll, asked, switchedTo]
  | cons e ks ih =>
    have hcalled := s.called_accept hs.fresh e.1 e.2
    have hsound := hcalled.sound hs
    have hall : s.acceptAll (e :: ks) = (s.accept e.1 e.2).state.acceptAll ks := rfl
    rw [hall, asked_trans hcalled.grows (grows_acceptAll hsound ks), List.map_append,
      switchedTo_append, hcalled.switchedTo_asked, ih hsound]

theorem made_acceptAll (s : Stack) (ks : List (CentralId × HostCall handles)) :
    (s.acceptAll ks).made = s.made := by
  induction ks generalizing s with
  | nil => rfl
  | cons e ks ih => exact (ih _).trans (congrArg Prod.snd (s.aside_accept e.1 e.2))

end Stack

namespace Task

variable {t t' : Task}

theorem Goes.due? {post : Option (CentralId × Report handles)}
    {closes : Option (CentralId × PeerId)} (h : t.Goes (some t') post closes) : t'.due? = none := by
  cases h with
  | connected a status next hnext =>
    rcases hnext with hnext | hnext <;> cases hnext
    rfl
  | _ => rfl

theorem due?_of_takesIn (h : t.takesIn = true) : t.due? = none := by
  cases t with
  | readState | listening | forwarding => rfl
  | _ => cases h

end Task

namespace Scene

variable {s : Scene}

theorem made_post (s : Scene) (c : CentralId) (r : Report handles) :
    (s.post c r).host.made = s.host.made := by
  obtain ⟨ready, hwake⟩ := s.host.wake_eq .worker
  simp only [post, hwake]
  split <;> rfl

theorem made_hear (s : Scene) (c : CentralId) (e : AdapterEvent) :
    (hear c s e).host.made = s.host.made := by
  have hadvertise (d : DeviceId) : (s.advertise c d).host.made = s.host.made := by
    simp only [advertise]
    split
    · exact made_post _ _ _
    · rfl
  cases e with
  | discovered d | updated d => exact hadvertise d
  | disconnected d =>
    obtain ⟨ready, hwake⟩ := Stack.wakeTasks_eq
      { s.host with sides := s.host.sides.modify c fun side =>
        { side with links := side.links.erase d.peer } } (Stack.forwards c d.peer)
    have hclosed : (s.host.closeLink c d.peer).made = s.host.made := by rw [Stack.closeLink, hwake]
    exact (made_post _ _ _).trans hclosed
  | stateUpdated st => exact made_post _ _ _
  | connected d | servicesAdvertised d services => rfl

theorem made_begin (s : Scene) (i : Nat) (o : Operation) (next : Task) :
    (s.begin i o next).host.made = s.host.made ++ ((some o).filter Operation.isOnAir).toList := by
  simp only [begin]
  cases ho : o.isOnAir <;> simp [ho, Option.filter, become, withStack]

/-- A task goes on the air with what it has to take there, and with nothing else. -/
theorem made_go (s : Scene) (i : Nat) (t : Task) :
    (s.go i t).host.made = s.host.made ++ t.due?.toList := by
  have hnothing {s' : Scene} (h : s'.host.made = s.host.made) :
      s'.host.made = s.host.made ++ [] := by rw [h, List.append_nil]
  cases t with
  | listen c =>
    refine hnothing ?_
    simp only [go, listen]
    split
    · rfl
    · exact made_post _ _ _
  | readState c inbox =>
    refine hnothing ?_
    simp only [go, readState]
    split <;> exact made_post _ _ _
  | listening c inbox =>
    refine hnothing ?_
    simp only [go, listening]
    split
    · split
      · exact made_hear _ _ _
      · rfl
    · rfl
  | switchScan on begun =>
    cases begun with
    | false =>
      refine (made_begin _ _ _ _).trans ?_
      cases on <;> rfl
    | true =>
      refine hnothing ?_
      simp only [go, switched]
      split <;> rfl
  | request c p d job begun =>
    cases begun with
    | false => exact made_begin _ _ _ _
    | true =>
      refine hnothing ?_
      simp only [go, answered]
      have hentered : ((job.entry p d (s.host.platform.perform (job.operation d))).elim s
          s.enter).host.made = s.host.made := by
        cases job.entry p d (s.host.platform.perform (job.operation d)) <;> rfl
      cases job.report d (s.host.platform.perform (job.operation d)) with
      | none => exact hentered
      | some report => exact (made_post _ _ _).trans hentered
  | connect a begun =>
    cases begun with
    | false => exact made_begin _ _ _ _
    | true =>
      refine hnothing ?_
      simp only [go, connected]
      split <;> exact made_post _ _ _
  | subscribe a =>
    refine hnothing ?_
    simp only [go, subscribe]
    split <;> rfl
  | forwarding a inbox =>
    refine hnothing ?_
    simp only [go, forwarding]
    split
    · split
      · exact made_post _ _ _
      · rfl
    · rfl

end Scene

namespace Beat

/-- What the tasks that a beat starts have to take on the air, in the order in which they are
started. -/
def asks (b : Beat) : List (Nat × Operation) := b.scene.host.asked b.after.host

/-- What a task takes on the air in its first step. -/
def begins? (b : Beat) : Option (Nat × Operation) :=
  match b.happening with
  | .step i => (b.scene.host.due? i).map fun o => (i, o)
  | _ => none

end Beat

/-- What has been asked of a radio, what has begun, and what is still due. -/
structure Stack.Books (s : Stack) (asked begun : List (Nat × Operation)) : Prop where
  sorted : asked.Pairwise fun e e' => e.1 < e'.1
  below : ∀ e ∈ asked, e.1 < s.nextTask
  made : s.made = begun.map Prod.snd
  once : begun.Nodup
  due : ∀ i o, s.due? i = some o ↔ (i, o) ∈ asked ∧ (i, o) ∉ begun
  begun_subset : begun ⊆ asked
  free : ∀ i, s.due? i ≠ none → i ∉ s.suspended

namespace Stack.Books

variable {s s' : Stack} {asked begun : List (Nat × Operation)}

theorem nodup_fst (h : s.Books asked begun) : (asked.map Prod.fst).Nodup :=
  List.pairwise_map.mpr (h.sorted.imp Nat.ne_of_lt)

/-- Something that starts no task and lets none go on the air. -/
theorem congr (h : s.Books asked begun) (hnext : s'.nextTask = s.nextTask)
    (hmade : s'.made = s.made) (hdue : ∀ i, s'.due? i = s.due? i)
    (hsuspended : ∀ i ∈ s'.suspended, s'.due? i ≠ none → i ∈ s.suspended) :
    s'.Books asked begun := by
  refine ⟨h.sorted, hnext ▸ h.below, hmade ▸ h.made, h.once, fun i o => ?_, h.begun_subset,
    fun i hi hs => h.free i (hdue i ▸ hi) (hsuspended i hs hi)⟩
  rw [hdue]
  exact h.due i o

theorem acceptAll (h : s.Books asked begun) (hs : s.Sound)
    (ks : List (CentralId × HostCall handles)) :
    (s.acceptAll ks).Books (asked ++ s.asked (s.acceptAll ks)) begun := by
  have hgrows := grows_acceptAll hs ks
  have hdue (i : Nat) (hi : i < s.nextTask) : (s.acceptAll ks).due? i = s.due? i := by
    rw [Stack.due?, hgrows.tasks i hi]
    rfl
  refine ⟨?_, ?_, (s.made_acceptAll ks).trans h.made, h.once, fun i o => ?_,
    fun e he => List.mem_append_left _ (h.begun_subset he), fun i hi hsuspended => ?_⟩
  · refine List.pairwise_append.mpr ⟨h.sorted, s.pairwise_asked _, fun e he e' he' => ?_⟩
    exact Nat.lt_of_lt_of_le (h.below e he) (mem_asked.mp he').1
  · intro e he
    rcases List.mem_append.mp he with he | he
    · exact Nat.lt_of_lt_of_le (h.below e he) hgrows.nextTask_le
    · exact (mem_asked.mp he).2.1
  · by_cases hi : i < s.nextTask
    · have hold : (i, o) ∉ s.asked (s.acceptAll ks) := fun hmem =>
        absurd (mem_asked.mp hmem).1 (Nat.not_le_of_lt hi)
      rw [hdue i hi, h.due, List.mem_append, or_iff_left hold]
    · have hnot : (i, o) ∉ asked := fun hmem => hi (h.below _ hmem)
      rw [List.mem_append, or_iff_right hnot, mem_asked]
      refine ⟨fun ho => ⟨⟨Nat.le_of_not_lt hi, ?_, ho⟩, fun hmem => hnot (h.begun_subset hmem)⟩,
        fun hmem => hmem.1.2.2⟩
      obtain ⟨t, ht, -⟩ := Option.bind_eq_some_iff.mp ho
      exact (hs.acceptAll ks).lt_nextTask ht
  · rw [hgrows.suspended] at hsuspended
    have hlt := hs.suspended i hsuspended
    rw [hdue i hlt] at hi
    exact h.free i hi hsuspended

theorem begin (h : s.Books asked begun) {i : Nat} {o : Operation} (hi : s.due? i = some o)
    (hnext : s'.nextTask = s.nextTask) (hmade : s'.made = s.made ++ [o])
    (hdue : ∀ j, s'.due? j = if j = i then none else s.due? j)
    (hsuspended : ∀ j ∈ s'.suspended, j = i ∨ j ∈ s.suspended) :
    s'.Books asked (begun ++ [(i, o)]) := by
  obtain ⟨hasked, hbegun⟩ := (h.due i o).mp hi
  refine ⟨h.sorted, hnext ▸ h.below, by rw [hmade, h.made]; simp, ?_, fun j o' => ?_, ?_,
    fun j hj hs => ?_⟩
  · exact List.nodup_append.mpr ⟨h.once, List.nodup_singleton _, by
      rintro e he e' he' rfl
      exact hbegun (List.mem_singleton.mp he' ▸ he)⟩
  · rw [hdue, List.mem_append, List.mem_singleton, not_or]
    split
    next hji =>
      -- nothing else was asked under this number
      subst hji
      refine ⟨nofun, fun hmem => absurd ?_ hmem.2.2⟩
      exact List.inj_on_of_nodup_map h.nodup_fst hmem.1 hasked rfl
    next hji =>
      rw [h.due, and_congr_right_iff]
      exact fun _ => ⟨fun hnot => ⟨hnot, fun heq => hji (congrArg Prod.fst heq)⟩, And.left⟩
  · intro e he
    rcases List.mem_append.mp he with he | he
    · exact h.begun_subset he
    · exact List.mem_singleton.mp he ▸ hasked
  · rw [hdue] at hj
    split at hj
    · exact hj rfl
    next hne => exact h.free j hj ((hsuspended j hs).resolve_left hne)

/-- Once nothing is due, all that was asked has begun. -/
theorem perm (h : s.Books asked begun) (hidle : ∀ i, s.due? i = none) : begun.Perm asked := by
  refine (List.perm_ext_iff_of_nodup h.once h.nodup_fst.of_map).mpr fun e =>
    ⟨fun he => h.begun_subset he, fun he => ?_⟩
  by_contra hnot
  have hdue := (h.due e.1 e.2).mpr ⟨he, hnot⟩
  rw [hidle] at hdue
  cases hdue

/-- What begins in the order of the numbers overtakes nothing. -/
theorem sublist (h : s.Books asked begun) (hsorted : begun.Pairwise fun e e' => e.1 < e'.1) :
    begun.Sublist asked := by
  have hantisymm : Std.Antisymm fun e e' : Nat × Operation => e.1 < e'.1 :=
    ⟨fun _ _ hlt hlt' => absurd hlt' (Nat.lt_asymm hlt)⟩
  exact List.sublist_of_subperm_of_pairwise (List.subperm_of_subset h.once h.begun_subset) hsorted
    h.sorted

/-- A task that has yet to go on the air waits for nothing but its turn. -/
theorem not_waits (h : s.Books asked begun) {i : Nat} {t : Task} (hi : s.tasks.get? i = some t)
    {o : Operation} (ho : t.due? = some o) : s.waits i t = false := by
  have hfree : i ∉ s.suspended := h.free i (by simp [due?, hi, ho])
  cases t with
  | switchScan | request | connect => simp [waits, hfree]
  | _ => cases ho

theorem go {s : Scene} (h : s.host.Books asked begun) {i : Nat} {t : Task}
    (hi : s.host.tasks.get? i = some t) :
    (s.go i t).host.Books asked (begun ++ (t.due?.map fun o => (i, o)).toList) := by
  have hmade := s.made_go i t
  obtain ⟨next, post, closes, hgoes, hprogress⟩ := s.go_progress hi
  have hnext : next.bind Task.due? = none := by
    cases next with
    | none => rfl
    | some t' => exact hgoes.due?
  have hdue (j : Nat) : (s.go i t).host.due? j = if j = i then none else s.host.due? j := by
    rw [due?, hprogress.tasks]
    split
    · exact hnext
    · rfl
  have hown : s.host.due? i = t.due? := by rw [due?, hi, Option.bind_some]
  cases ho : t.due? with
  | some o =>
    rw [ho] at hmade hown
    exact h.begin hown hprogress.nextTask hmade hdue hprogress.suspended
  | none =>
    rw [ho] at hmade hown
    rw [Option.map_none, Option.toList_none, List.append_nil]
    refine h.congr hprogress.nextTask (hmade.trans (List.append_nil _)) (fun j => ?_)
      fun j hj hdue' => (hprogress.suspended j hj).resolve_left fun hji => hdue' ?_
    · rw [hdue]
      split
      next hji => rw [hji, hown]
      next => rfl
    · rw [hdue, if_pos hji]

/-- The step of a task takes on the air what the task has to take there. -/
theorem stepTask {s : Scene} (h : s.host.Books asked begun) (i : Nat) :
    (s.stepTask i).host.Books asked
      (begun ++ ((s.host.due? i).map fun o => (i, o)).toList) := by
  cases hi : s.host.tasks.get? i with
  | none => simpa [Scene.stepTask, due?, hi] using h
  | some t =>
    rw [show s.host.due? i = t.due? by rw [due?, hi, Option.bind_some]]
    by_cases hwaits : s.host.waits i t = true
    · have hidle : t.due? = none := by
        cases ho : t.due? with
        | none => rfl
        | some o =>
          rw [h.not_waits hi ho] at hwaits
          cases hwaits
      simpa [Scene.stepTask_of_waits hi hwaits, hidle] using h
    · rw [Scene.stepTask_of_not_waits hi hwaits]
      exact h.go hi

end Stack.Books

namespace Beat

variable {b : Beat} {asked begun : List (Nat × Operation)}

theorem made_of_not_step (hx : ∀ i, b.happening ≠ .step i) :
    b.after.host.made = b.scene.host.made := by
  obtain ⟨s, x⟩ := b
  have hdelivered (f : Task → Option Task) : (s.host.deliver f).2.made = s.host.made := by
    obtain ⟨tasks, called, hstack, -⟩ := s.host.deliver_eq f
    rw [hstack]
  cases x with
  | work =>
    cases hm : (Beat.mk s .work).moment? with
    | some m =>
      rw [(of_moment hm).2.2.2.2.1]
      exact Stack.made_acceptAll _ _
    | none => rw [(of_no_moment hm rfl).2.1]
  | step i => exact absurd rfl (hx i)
  | ask ticket r =>
    simp only [after, Scene.happen]
    split <;> rfl
  | adapter | adapterEnds | notified | notificationsEnd => exact hdelivered _
  | goOn i =>
    simp only [after, Scene.happen, Scene.withStack, Stack.call]
    split <;> rfl
  | release | platform | arrange => rfl

/-- What a beat asks of the scan of the radio agrees with the count of scans. -/
theorem switchedTo_asks (hs : b.scene.host.Sound) :
    switchedTo b.scene.host.wantsScan (b.asks.map Prod.snd) = b.after.host.wantsScan := by
  have hkept (hnext : b.after.host.nextTask = b.scene.host.nextTask)
      (hscans : b.after.host.scans = b.scene.host.scans) :
      switchedTo b.scene.host.wantsScan (b.asks.map Prod.snd) = b.after.host.wantsScan := by
    rw [asks, Stack.asked_of_nextTask hnext, Stack.wantsScan, Stack.wantsScan, hscans]
    rfl
  rcases b.cases with ⟨m, hm⟩ | ⟨i, task, next, post, closes, hsteps⟩ | hout
  · obtain ⟨-, -, -, -, hhost, -⟩ := of_moment hm
    rw [asks, hhost]
    exact Stack.switchedTo_acceptAll hs _
  · exact hkept hsteps.progress.nextTask hsteps.progress.scans
  · exact hkept hout.nextTask hout.scans

/-- No step of a task asks for anything, and none changes the count of scans. -/
theorem kept_of_step {i : Nat} (hx : b.happening = .step i) :
    b.after.host.nextTask = b.scene.host.nextTask ∧ b.after.host.scans = b.scene.host.scans := by
  rcases b.cases with ⟨m, hm⟩ | ⟨j, task, next, post, closes, hsteps⟩ | hout
  · rw [(of_moment hm).1] at hx
    cases hx
  · exact ⟨hsteps.progress.nextTask, hsteps.progress.scans⟩
  · exact ⟨hout.nextTask, hout.scans⟩

theorem begins?_of_not_step (hx : ∀ i, b.happening ≠ .step i) : b.begins? = none := by
  rw [begins?]
  split
  next i hi => exact absurd hi (hx i)
  next => rfl

/-- What a beat asks for and what begins in it go into the books, and nothing else changes them. -/
theorem books (hs : b.scene.host.Sound) (h : b.scene.host.Books asked begun) :
    b.after.host.Books (asked ++ b.asks) (begun ++ b.begins?.toList) := by
  by_cases hstep : ∃ i, b.happening = .step i
  · obtain ⟨i, hx⟩ := hstep
    rw [asks, Stack.asked_of_nextTask (kept_of_step hx).1, List.append_nil, after_of_step hx,
      begins?, hx]
    exact h.stepTask i
  have hx : ∀ i, b.happening ≠ .step i := fun i hi => hstep ⟨i, hi⟩
  rw [begins?_of_not_step hx, Option.toList_none, List.append_nil]
  rcases b.cases with ⟨m, hm⟩ | ⟨i, task, next, post, closes, hsteps⟩ | hout
  · obtain ⟨-, -, -, -, hhost, -⟩ := of_moment hm
    rw [asks, hhost]
    exact h.acceptAll hs _
  · exact absurd hsteps.happening (hx i)
  · have hdue (i : Nat) : b.after.host.due? i = b.scene.host.due? i := by
      rcases hout.tasks i with hsame | ⟨t, t', ht, hbrings, ht'⟩
      · rw [Stack.due?, hsame]
        rfl
      · obtain ⟨htakes, htakes'⟩ := Happening.takesIn_of_brings hbrings
        rw [Stack.due?, Stack.due?, ht, ht', Option.bind_some, Option.bind_some,
          Task.due?_of_takesIn htakes, Task.due?_of_takesIn htakes']
    rw [asks, Stack.asked_of_nextTask hout.nextTask, List.append_nil]
    exact h.congr hout.nextTask (made_of_not_step hx) hdue fun i hi _ => hout.suspended i hi

end Beat

namespace Course

/-- What has been asked of the radio, in the order of the requests. -/
def asked (k : Course) : List (Nat × Operation) := k.past.flatMap Beat.asks

/-- What has begun, in the order in which it went on the air. -/
def begun (k : Course) : List (Nat × Operation) := k.past.filterMap Beat.begins?

theorem asked_take (k : Course) (x : Happening) :
    (k.take x).asked = k.asked ++ (Beat.mk k.scene x).asks := by simp [asked, take]

theorem begun_take (k : Course) (x : Happening) :
    (k.take x).begun = k.begun ++ (Beat.mk k.scene x).begins?.toList := by
  cases hx : (Beat.mk k.scene x).begins? <;> simp [begun, take, hx]

section Books

variable (settings : Settings) (platform : Platform) (xs : List Happening)

theorem books : (of settings platform xs).scene.host.Books (of settings platform xs).asked
    (of settings platform xs).begun := by
  refine of_induction (P := fun k => k.scene.host.Books k.asked k.begun) settings platform ?_ ?_ xs
  · refine ⟨.nil, nofun, rfl, List.nodup_nil, fun i o => ⟨nofun, fun h => ?_⟩, List.nil_subset _,
      fun i hi => absurd rfl hi⟩
    cases h.1
  · intro ys x h
    rw [asked_take, begun_take]
    exact Beat.books (b := ⟨(of settings platform ys).scene, x⟩) (sound settings platform ys) h

theorem switchedTo_asked :
    switchedTo false ((of settings platform xs).asked.map Prod.snd) =
      (of settings platform xs).scene.host.wantsScan := by
  refine of_induction (P := fun k => switchedTo false (k.asked.map Prod.snd) =
    k.scene.host.wantsScan) settings platform rfl (fun ys x h => ?_) xs
  rw [asked_take, List.map_append, switchedTo_append, h]
  exact Beat.switchedTo_asks (b := ⟨(of settings platform ys).scene, x⟩) (sound settings platform ys)

end Books

/-- Each request that is accepted starts a task, if it has to go on the air, and what is asked of the
radio's scan agrees with the count of scans. The tasks are numbered in the order in which they were
started. What is on the air is what tasks took there in their first steps, each of them once; no step asks
for anything else, whatever comes of it. But of the tasks that are due, any two may go one after the other
either way. Only if tasks take their first steps in the order of their numbers, no request overtakes
another. Then, once none is due, all that was asked has gone on the air in the order in which it was
asked, and the radio was told last to scan just if the count of scans is not zero. -/
theorem requests_on_air (settings : Settings) (platform : Platform) (xs : List Happening) :
    let k := of settings platform xs
    let s := k.scene.host
    (∀ b ∈ k.past, ∀ c p action, b.Accepts c p action → ∃ q prepared, q.native.1 = p ∧
      (b.scene.peer? c p = some q ∨ b.scene.peer? c p = none) ∧ q.prepare action = .ok prepared ∧
      b.asks = ((Stack.airs? q.native.2 prepared.call).map fun o =>
        (b.scene.host.nextTask, o)).toList) ∧
    (∀ b ∈ k.past,
      switchedTo b.scene.host.wantsScan (b.asks.map Prod.snd) = b.after.host.wantsScan) ∧
    (∀ b ∈ k.past, ∀ i, b.happening = .step i →
      b.asks = [] ∧ b.after.host.scans = b.scene.host.scans) ∧
    k.asked.Pairwise (fun e e' => e.1 < e'.1) ∧
    (s.made = k.begun.map Prod.snd ∧ k.begun.Nodup ∧ k.begun ⊆ k.asked) ∧
    (∀ i o, s.due? i = some o ↔ (i, o) ∈ k.asked ∧ (i, o) ∉ k.begun) ∧
    (∀ i j o o', i ≠ j → s.due? i = some o → s.due? j = some o' →
      (of settings platform (xs ++ [.step i, .step j])).scene.host.made = s.made ++ [o, o']) ∧
    ((∀ i, s.due? i = none) → k.begun.Perm k.asked) ∧
    (k.begun.Pairwise (fun e e' => e.1 < e'.1) → k.begun.Sublist k.asked ∧
      ((∀ i, s.due? i = none) → s.made = k.asked.map Prod.snd ∧
        (switchedTo false s.made = true ↔ 0 < s.scans))) := by
  intro k s
  have hbooks := books settings platform xs
  refine ⟨fun b hb c p action hacc => ?_,
    fun b hb => Beat.switchedTo_asks (proper_of_mem settings platform xs hb).sound,
    fun b _ i hi => ?_, hbooks.sorted,
    ⟨hbooks.made, hbooks.once, hbooks.begun_subset⟩, hbooks.due,
    fun i j o o' hij hi hj => ?_, hbooks.perm, fun hsorted => ⟨hbooks.sublist hsorted,
      fun hidle => ?_⟩⟩
  · obtain ⟨q, prepared, hn, hq, hp, hcalled⟩ :=
      Beat.called_of_accepts (proper_of_mem settings platform xs hb) hacc
    exact ⟨q, prepared, hn, hq, hp, by rw [Beat.asks, hcalled.asked, Stack.due?_started_peer]⟩
  · obtain ⟨hnext, hscans⟩ := Beat.kept_of_step hi
    exact ⟨Stack.asked_of_nextTask hnext, hscans⟩
  · have hfirst := hbooks.stepTask i
    rw [show k.scene.host.due? i = some o from hi] at hfirst
    obtain ⟨hasked, hbegun⟩ := (hbooks.due j o').mp hj
    -- the second of the two is still due after the first
    have hj' : (k.scene.stepTask i).host.due? j = some o' := by
      refine (hfirst.due j o').mpr ⟨hasked, fun hmem => ?_⟩
      rcases List.mem_append.mp hmem with hmem | hmem
      · exact hbegun hmem
      · exact hij (congrArg Prod.fst (List.mem_singleton.mp hmem)).symm
    have hsecond := (hfirst.stepTask j).made
    rw [hj'] at hsecond
    rw [of_append_scene, hbooks.made]
    refine hsecond.trans ?_
    simp
  · have hbegun : k.begun = k.asked :=
      (hbooks.sublist hsorted).eq_of_length (hbooks.perm hidle).length_eq
    have hmade : s.made = k.asked.map Prod.snd := by rw [← hbegun, hbooks.made]
    refine ⟨hmade, ?_⟩
    rw [hmade, switchedTo_asked, Stack.wantsScan, bne_iff_ne, Nat.pos_iff_ne_zero]

/-- What a light can be told. -/
def dimming : Characteristic := ⟨.ofShort 0x2a57, .ofShort 0x1815, 0x08, []⟩

/-- A radio with one device, which is a light. -/
def dimmer : Platform :=
  ⟨1, .poweredOn, Table.insert ∅ lamp
    ⟨some ⟨none, none, none, [], ∅, ∅⟩, [⟨.ofShort 0x1815, true, [dimming]⟩], ∅⟩, ∅, []⟩

/-- A session writes twice, and its manager scans and stops. None of the four requests has gone on the
air yet. -/
def errands : List Happening :=
  [.work, .ask 0 .allocate, .work, .step 0, .step 0, .work, .adapter (.discovered lamp), .step 0,
    .work, .ask 1 (.act ⟨1⟩ lamp.peer.text .connect), .work, .step 1, .step 1, .work,
    .ask 2 (.act ⟨1⟩ lamp.peer.text (.discoverServices [])), .work, .step 2, .step 2, .work,
    .ask 3 (.act ⟨1⟩ lamp.peer.text (.discoverCharacteristics ⟨1⟩ [])), .work, .work,
    .ask 4 (.act ⟨1⟩ lamp.peer.text (.writeCharacteristic ⟨2⟩ [1] false)), .work,
    .ask 5 (.act ⟨1⟩ lamp.peer.text (.writeCharacteristic ⟨2⟩ [2] false)), .work,
    .ask 6 (.scan ⟨1⟩ false), .work, .ask 7 (.stopScan ⟨1⟩), .work]

/-- The later write comes first, and so does the stop. Then all is done; the radio scans on, though no
manager does, and the light is left with the older value. -/
theorem requests_on_air_overtaken :
    let write (value : Octets) : Operation := .write lamp dimming value true
    let k := of .default dimmer errands
    let s := k.scene.host
    let k' := of .default dimmer (errands ++ [.step 4, .step 3, .step 6, .step 5])
    let s' := k'.scene.host
    k.asked.drop 2 = [(3, write [1]), (4, write [2]), (5, .startScan), (6, .stopScan)] ∧
    (of .default dimmer (errands ++ [.step 3, .step 4])).scene.host.made =
      s.made ++ [write [1], write [2]] ∧
    (of .default dimmer (errands ++ [.step 4, .step 3])).scene.host.made =
      s.made ++ [write [2], write [1]] ∧
    (of .default dimmer (errands ++ [.step 6, .step 5])).scene.host.made =
      s.made ++ [.stopScan, .startScan] ∧
    s'.made.drop 2 = [write [2], write [1], .stopScan, .startScan] ∧
    (∀ i, s'.due? i = none) ∧ k'.begun.Perm k'.asked ∧
    s'.scans = 0 ∧ switchedTo false s'.made = true := by
  intro write k s k' s'
  obtain ⟨-, -, -, -, -, -, heither, -, -⟩ := requests_on_air .default dimmer errands
  obtain ⟨-, -, -, -, -, hdue, -, hperm, -⟩ := requests_on_air .default dimmer
    (errands ++ [.step 4, .step 3, .step 6, .step 5])
  have hfirst : s.due? 3 = some (write [1]) := by decide +kernel
  have hsecond : s.due? 4 = some (write [2]) := by decide +kernel
  have hstart : s.due? 5 = some .startScan := by decide +kernel
  have hstop : s.due? 6 = some .stopScan := by decide +kernel
  have hbegun : ∀ e ∈ k'.asked, e ∈ k'.begun := by decide +kernel
  have hidle (i : Nat) : s'.due? i = none :=
    Option.eq_none_iff_forall_ne_some.mpr fun o ho =>
      ((hdue i o).mp ho).2 (hbegun _ ((hdue i o).mp ho).1)
  have hinOrder := heither 3 4 _ _ (by decide) hfirst hsecond
  have hovertaken := heither 4 3 _ _ (by decide) hsecond hfirst
  have hreversed := heither 6 5 _ _ (by decide) hstop hstart
  -- Unification would run the course to compare what the two stacks have on the air.
  rw [show s = (of .default dimmer errands).scene.host from rfl]
  exact ⟨by decide +kernel, hinOrder, hovertaken, hreversed, by decide +kernel, hidle,
    hperm hidle, by decide +kernel, by decide +kernel⟩

end Course

end GattHub.Radio
