import GattHub.Proofs.ScanCount
import Mathlib.Data.List.Chain

/-! How the managers of one radio share its scan, whoever uses them and in whatever order. A manager
may be asked to scan when it scans already, or to stop when it does not; it may be closed twice, used
after its close, or dropped without one. -/

namespace GattHub.Radio

/-- What can be done with the side of a radio that a manager holds. -/
inductive SideUse where
  | openSide
  | scan
  | stopScan
  | close
  | drop
  deriving DecidableEq

namespace Stack

/-- Uses the side of a manager. A name that is taken is not given to another side. -/
def use (s : Stack) (c : CentralId) : SideUse → Stack
  | .openSide => if s.sides.contains c then s else (s.accept c .openCentral).state
  | .scan => (s.startScan c).1
  | .stopScan => (s.stopScan c).1
  | .close => (s.close c).1
  | .drop => s.drop c

def afterUses (platform : Platform) (us : List (CentralId × SideUse)) : Stack :=
  us.foldl (fun s u => s.use u.1 u.2) (new platform)

/-- The operations of the tasks that were started on the way from one stack to another, in the order
in which they were started. -/
def issued (s s' : Stack) : List Operation :=
  (List.range' s.nextTask (s'.nextTask - s.nextTask)).filterMap fun i =>
    (s'.tasks.get? i).bind Task.operation?

/-- What a use of a side does to the count of scans, and what it asks of the radio. -/
inductive Counted (s : Stack) (c : CentralId) (u : SideUse) (s' : Stack) : Prop
  | acquired : u = .scan → s.flag? c = some false → s'.scans = s.scans + 1 →
      s.issued s' = (if s.scans = 0 then [.startScan] else []) → Counted s c u s'
  | released : u = .stopScan ∨ u = .close ∨ u = .drop → s.flag? c = some true →
      s'.scans = s.scans - 1 →
      s.issued s' = (if u ≠ .drop ∧ s.scans = 1 then [.stopScan] else []) → Counted s c u s'
  | kept : u ≠ .scan ∨ s.flag? c ≠ some false →
      (u ≠ .stopScan ∧ u ≠ .close ∧ u ≠ .drop) ∨ s.flag? c ≠ some true →
      s'.scans = s.scans → s.issued s' = [] → Counted s c u s'

variable {s s' s'' : Stack} {c : CentralId}

theorem issued_self (s : Stack) : s.issued s = [] := by simp [issued]

/-- What is read off the tasks that were started on the way from one stack to another, in the order in
which they were started, is read off those of each part of the way. -/
theorem filterMap_started_trans {β : Type} (f : Nat → Option Task → Option β) (h : s.Grows s')
    (h' : s'.Grows s'') :
    (List.range' s.nextTask (s''.nextTask - s.nextTask)).filterMap
        (fun i => f i (s''.tasks.get? i)) =
      (List.range' s.nextTask (s'.nextTask - s.nextTask)).filterMap
          (fun i => f i (s'.tasks.get? i)) ++
        (List.range' s'.nextTask (s''.nextTask - s'.nextTask)).filterMap
          fun i => f i (s''.tasks.get? i) := by
  have hle := h.nextTask_le
  have hle' := h'.nextTask_le
  have hrange : List.range' s.nextTask (s''.nextTask - s.nextTask) =
      List.range' s.nextTask (s'.nextTask - s.nextTask) ++
        List.range' s'.nextTask (s''.nextTask - s'.nextTask) := by
    have happend := List.range'_append_1 (s := s.nextTask) (m := s'.nextTask - s.nextTask)
      (n := s''.nextTask - s'.nextTask)
    rw [Nat.add_sub_cancel' hle] at happend
    rw [happend]
    congr 1
    omega
  rw [hrange, List.filterMap_append]
  congr 1
  refine List.filterMap_congr fun i hi => ?_
  have hlt : i < s'.nextTask := by
    have := (List.mem_range'_1.mp hi).2
    omega
  rw [h'.tasks i hlt]

theorem issued_trans (h : s.Grows s') (h' : s'.Grows s'') :
    s.issued s'' = s.issued s' ++ s'.issued s'' :=
  filterMap_started_trans (fun _ t => t.bind Task.operation?) h h'

theorem Called.issued {k : HostCall handles} (h : s.Called c k s') :
    s.issued s' = ((s.started? c k).bind Task.operation?).toList := by
  have hown : s'.tasks.get? s.nextTask = s.started? c k := by rw [h.tasks, if_pos rfl]
  rw [Stack.issued, h.nextTask, Nat.add_sub_cancel_left]
  cases ht : s.started? c k with
  | none => simp
  | some t =>
    rw [ht] at hown
    cases ho : t.operation? <;> simp [hown, ho]

/-- A use that starts no task and leaves the count alone. -/
theorem counted_of_same {u : SideUse} (hscan : u ≠ .scan ∨ s.flag? c ≠ some false)
    (hends : (u ≠ .stopScan ∧ u ≠ .close ∧ u ≠ .drop) ∨ s.flag? c ≠ some true)
    (hscans : s'.scans = s.scans) (hnext : s'.nextTask = s.nextTask) : s.Counted c u s' :=
  .kept hscan hends hscans (by simp [issued, hnext])

theorem counted_openSide (s : Stack) (c : CentralId) :
    s.Counted c .openSide (s.use c .openSide) := by
  have hends : (SideUse.openSide ≠ .stopScan ∧ SideUse.openSide ≠ .close ∧
      SideUse.openSide ≠ .drop) ∨ s.flag? c ≠ some true := .inl (by decide)
  simp only [use]
  split
  · exact counted_of_same (.inl (by decide)) hends rfl rfl
  · have hcalled := s.called_openCentral c
    refine .kept (.inl (by decide)) hends hcalled.scans ?_
    rw [hcalled.issued]
    rfl

theorem counted_scan (hs : s.Fresh) (c : CentralId) : s.Counted c .scan (s.use c .scan) := by
  have hcalled : s.Called c (.scan true) (s.use c .scan) := s.called_scan hs c true
  have hissued := hcalled.issued
  have hscans := hcalled.scans
  simp only [started?] at hissued
  by_cases hflag : s.flag? c = some false
  · rw [hflag] at hscans
    refine .acquired rfl hflag hscans ?_
    rw [hissued]
    by_cases hzero : s.scans = 0 <;> simp [hflag, hzero, Task.operation?]
  · refine .kept (.inr hflag) (.inl (by decide)) ?_ ?_
    · rw [hscans]
      cases hx : s.flag? c with
      | none => rfl
      | some on =>
        cases on with
        | true => rfl
        | false => exact absurd hx hflag
    · rw [hissued]
      simp [hflag]

/-- The end of a scan, by whichever of the calls that end it. -/
theorem counted_of_end {u : SideUse} (hu : u = .stopScan ∨ u = .close)
    (hcalled : s.Called c .stopScan (s.stopScan c).1)
    (hscans' : s'.scans = (s.stopScan c).1.scans)
    (hnext : s'.nextTask = (s.stopScan c).1.nextTask)
    (htasks : s'.tasks = (s.stopScan c).1.tasks) : s.Counted c u s' := by
  have hissued : s.issued s' =
      if s.flag? c = some true ∧ s.scans = 1 then [.stopScan] else [] := by
    have hsame : s.issued s' = s.issued (s.stopScan c).1 := by rw [issued, hnext, htasks, issued]
    rw [hsame, hcalled.issued]
    simp only [started?]
    split <;> simp [Task.operation?]
  have hscans := hscans'.trans hcalled.scans
  have hdrop : u ≠ .drop := by rcases hu with rfl | rfl <;> decide
  by_cases hflag : s.flag? c = some true
  · rw [hflag] at hscans
    refine .released (hu.imp_right .inl) hflag hscans ?_
    rw [hissued]
    simp [hflag, hdrop]
  · refine .kept (.inl ?_) (.inr hflag) ?_ ?_
    · rcases hu with rfl | rfl <;> decide
    · rw [hscans]
      cases hx : s.flag? c with
      | none => rfl
      | some on =>
        cases on with
        | true => exact absurd hx hflag
        | false => rfl
    · rw [hissued]
      simp [hflag]

theorem counted_stopScan (hs : s.Fresh) (c : CentralId) :
    s.Counted c .stopScan (s.use c .stopScan) :=
  counted_of_end (.inl rfl) (s.called_stopScan hs c) rfl rfl rfl

theorem counted_close (hs : s.Fresh) (c : CentralId) : s.Counted c .close (s.use c .close) := by
  obtain ⟨ready, hclose⟩ := s.close_eq c
  have huse : s.use c .close = _ := hclose
  exact counted_of_end (.inr rfl) (s.called_stopScan hs c) (by rw [huse]) (by rw [huse])
    (by rw [huse])

theorem drop_spec (s : Stack) (c : CentralId) : ∃ ready, s.drop c =
    { s with
      scans := if s.flag? c = some true then s.scans - 1 else s.scans
      sides := s.sides.erase c, ready := ready } := by
  have hflag : (s.sides.get? c).any Side.scanning = decide (s.flag? c = some true) := by
    cases hside : s.sides.get? c <;> simp [flag?, hside]
  obtain ⟨ready, hwake⟩ := Stack.wakeTasks_eq
    { s with
      scans := if s.flag? c = some true then s.scans - 1 else s.scans
      sides := s.sides.erase c } (watches c)
  exact ⟨ready, by simp only [drop, hflag, decide_eq_true_eq, hwake]⟩

theorem flag?_drop (s : Stack) (c c' : CentralId) :
    (s.drop c).flag? c' = if c' = c then none else s.flag? c' := by
  obtain ⟨ready, hdrop⟩ := s.drop_spec c
  simp only [flag?, hdrop, Table.get?_erase]
  split <;> rfl

theorem counted_drop (s : Stack) (c : CentralId) : s.Counted c .drop (s.use c .drop) := by
  obtain ⟨ready, hdrop⟩ := s.drop_spec c
  have huse : s.use c .drop = _ := hdrop
  have hissued : s.issued (s.use c .drop) = [] := by rw [huse]; simp [issued]
  have hscans : (s.use c .drop).scans =
      if s.flag? c = some true then s.scans - 1 else s.scans := by rw [huse]
  by_cases hflag : s.flag? c = some true
  · rw [if_pos hflag] at hscans
    exact .released (.inr (.inr rfl)) hflag hscans (by simpa using hissued)
  · rw [if_neg hflag] at hscans
    exact .kept (.inl (by decide)) (.inr hflag) hscans hissued

theorem counted_use (hs : s.Sound) (c : CentralId) (u : SideUse) : s.Counted c u (s.use c u) := by
  cases u with
  | openSide => exact s.counted_openSide c
  | scan => exact counted_scan hs.fresh c
  | stopScan => exact counted_stopScan hs.fresh c
  | close => exact counted_close hs.fresh c
  | drop => exact s.counted_drop c

/-- The tasks of one stack are those of another, and so is the count of links. -/
structure SameTasks (s s' : Stack) : Prop where
  tasks : s'.tasks = s.tasks
  nextTask : s'.nextTask = s.nextTask
  nextLink : s'.nextLink = s.nextLink
  suspended : s'.suspended = s.suspended

/-- A use starts the task that some call of the manager starts, or none. -/
theorem use_called (hs : s.Fresh) (c : CentralId) (u : SideUse) :
    s.SameTasks (s.use c u) ∨
      ∃ k s', s.Called c k s' ∧ (∀ n k', k ≠ .peer n k') ∧ s'.SameTasks (s.use c u) := by
  cases u with
  | openSide =>
    simp only [use]
    split
    · exact .inl ⟨rfl, rfl, rfl, rfl⟩
    · exact .inr ⟨_, _, s.called_openCentral c, by simp, rfl, rfl, rfl, rfl⟩
  | scan => exact .inr ⟨_, _, s.called_scan hs c true, by simp, rfl, rfl, rfl, rfl⟩
  | stopScan => exact .inr ⟨_, _, s.called_stopScan hs c, by simp, rfl, rfl, rfl, rfl⟩
  | close =>
    obtain ⟨ready, hclose⟩ := s.close_eq c
    have huse : s.use c .close = _ := hclose
    rw [huse]
    exact .inr ⟨_, _, s.called_stopScan hs c, by simp, rfl, rfl, rfl, rfl⟩
  | drop =>
    obtain ⟨ready, hdrop⟩ := s.drop_spec c
    have huse : s.use c .drop = _ := hdrop
    rw [huse]
    exact .inl ⟨rfl, rfl, rfl, rfl⟩

theorem SameTasks.sound (h : s.SameTasks s') (hs : s.Sound) : s'.Sound := by
  refine ⟨fun i hi => ?_, fun i hi => ?_⟩
  · rw [h.nextTask] at hi
    rw [h.tasks, hs.fresh i hi]
  · rw [h.suspended] at hi
    rw [h.nextTask]
    exact hs.suspended i hi

theorem SameTasks.grows (h : s.SameTasks s') : s.Grows s' :=
  ⟨Nat.le_of_eq h.nextTask.symm, fun i _ => by rw [h.tasks], h.suspended⟩

/-- A use keeps the tasks that there are. -/
theorem grows_use (hs : s.Sound) (c : CentralId) (u : SideUse) :
    (s.use c u).Sound ∧ s.Grows (s.use c u) := by
  rcases use_called hs.fresh c u with hsame | ⟨k, s', hcalled, -, hsame⟩
  · exact ⟨hsame.sound hs, hsame.grows⟩
  · exact ⟨hsame.sound (hcalled.sound hs), hcalled.grows.trans hsame.grows⟩

theorem Counts.congr (h : s.Counts) (hflag : ∀ c, s'.flag? c = s.flag? c)
    (hscans : s'.scans = s.scans) : s'.Counts := by
  obtain ⟨F, hF, hcard⟩ := h
  exact ⟨F, fun c => by rw [hF, hflag], hscans.trans hcard⟩

theorem Counts.drop (h : s.Counts) (c : CentralId) : (s.drop c).Counts := by
  obtain ⟨F, hF, hcard⟩ := h
  obtain ⟨ready, hdrop⟩ := s.drop_spec c
  have hscans : (s.drop c).scans = if s.flag? c = some true then s.scans - 1 else s.scans := by
    rw [hdrop]
  refine ⟨F.erase c, fun c' => ?_, ?_⟩
  · rw [Finset.mem_erase, hF, flag?_drop]
    by_cases hc : c' = c <;> simp [hc]
  · rw [hscans, hcard]
    split
    next hflag => exact (Finset.card_erase_of_mem ((hF c).mpr hflag)).symm
    next hflag => rw [Finset.erase_eq_of_notMem (mt (hF c).mp hflag)]

theorem Counts.use (h : s.Counts) (hs : s.Sound) (c : CentralId) (u : SideUse) :
    (s.use c u).Counts := by
  cases u with
  | openSide =>
    simp only [Stack.use]
    split
    · exact h
    next hnot =>
      refine (s.called_openCentral c).counts (fun _ => ?_) h
      simpa [Table.contains, flag?] using hnot
  | scan => exact Called.counts (s.called_scan hs.fresh c true) (by simp) h
  | stopScan => exact Called.counts (s.called_stopScan hs.fresh c) (by simp) h
  | close =>
    have hstop := (s.called_stopScan hs.fresh c).counts (by simp) h
    obtain ⟨ready, hclose⟩ := s.close_eq c
    refine Counts.congr hstop (fun c' => s.flag?_close c c') ?_
    rw [show s.use c .close = _ from hclose]
    rfl
  | drop => exact h.drop c

/-- The count is that of the sides that scan. -/
theorem Counts.scans_eq (h : s.Counts) : s.scans = s.sides.values.countP Side.scanning := by
  obtain ⟨F, hF, hcard⟩ := h
  let scanning := (s.sides.entries.filter fun e => e.2.scanning).map Prod.fst
  have hnodup : scanning.Nodup := s.sides.nodup_keys.sublist (List.filter_sublist.map _)
  have hmem (c : CentralId) : c ∈ scanning ↔ s.flag? c = some true := by
    constructor
    · intro hc
      obtain ⟨⟨c', side⟩, he, rfl⟩ := List.mem_map.mp hc
      obtain ⟨hentry, hon⟩ := List.mem_filter.mp he
      rw [flag?, Table.mem_entries_iff.mp hentry]
      exact congrArg some hon
    · intro hflag
      obtain ⟨side, hside, hon⟩ := Option.map_eq_some_iff.mp hflag
      exact List.mem_map.mpr
        ⟨(c, side), List.mem_filter.mpr ⟨Table.mem_entries_iff.mpr hside, hon⟩, rfl⟩
  have hall : F = scanning.toFinset := by
    ext c
    rw [hF, List.mem_toFinset, hmem]
  have hlength : scanning.length = s.sides.values.countP Side.scanning := by
    rw [List.length_map, ← List.countP_eq_length_filter, Table.values, List.countP_map]
    rfl
  rw [hcard, hall, List.toFinset_card_of_nodup hnodup, hlength]

theorem Counts.scans_pos (h : s.Counts) (hflag : s.flag? c = some true) : 0 < s.scans := by
  obtain ⟨F, hF, hcard⟩ := h
  rw [hcard]
  exact Finset.card_pos.mpr ⟨c, (hF c).mpr hflag⟩

section Uses

variable (platform : Platform) (us : List (CentralId × SideUse))

theorem afterUses_append_singleton (u : CentralId × SideUse) :
    afterUses platform (us ++ [u]) = (afterUses platform us).use u.1 u.2 := by
  simp [afterUses]

theorem uses_spec : (afterUses platform us).Sound ∧ (new platform).Grows (afterUses platform us) ∧
    (afterUses platform us).Counts := by
  induction us using List.reverseRecOn with
  | nil =>
    exact ⟨sound_new platform, .refl _, ∅, fun c => by simp [afterUses, new, flag?], rfl⟩
  | append_singleton us u ih =>
    obtain ⟨hs, hgrows, hcounts⟩ := ih
    obtain ⟨hs', hgrows'⟩ := grows_use hs u.1 u.2
    rw [afterUses_append_singleton]
    exact ⟨hs', hgrows.trans hgrows', hcounts.use hs u.1 u.2⟩

/-- The call that a radio with this count of scans has had last. -/
def lastCall (scans : Nat) : Operation := if scans = 0 then .stopScan else .startScan

/-- Whether a call for the scan undoes the one before it. -/
def Reverses (o o' : Operation) : Prop :=
  o = .stopScan ∧ o' = .startScan ∨ o = .startScan ∧ o' = .stopScan

theorem reverses_lastCall {n n' : Nat} (h : lastCall n' ≠ lastCall n) :
    Reverses (lastCall n) (lastCall n') := by
  unfold lastCall Reverses at *
  split at h <;> split at h <;> simp_all

/-- What a use asks of the radio turns its last call into the next, unless a scan is dropped. -/
theorem Counted.issued_eq {u : SideUse} (h : s.Counted c u s') (hcounts : s.Counts)
    (hdrop : u = .drop → s.flag? c ≠ some true) :
    s.issued s' = if lastCall s'.scans = lastCall s.scans then [] else [lastCall s'.scans] := by
  cases h with
  | acquired hu hflag hscans hissued =>
    rw [hissued, hscans]
    by_cases hzero : s.scans = 0 <;> simp [lastCall, hzero]
  | released hu hflag hscans hissued =>
    have hpos := hcounts.scans_pos hflag
    have hu' : u ≠ .drop := fun hu' => hdrop hu' hflag
    rw [hissued, hscans]
    by_cases hone : s.scans = 1
    · simp [lastCall, hone, hu']
    · have hmore : s.scans - 1 ≠ 0 := by omega
      simp [lastCall, hone, hmore, Nat.ne_of_gt hpos]
  | kept _ _ hscans hissued => rw [hissued, hscans, if_pos rfl]

/-- The calls for a radio's scan alternate, as long as none is lost by dropping a side that scans. -/
theorem issued_alternates
    (hdrop : ∀ vs c ws, us = vs ++ (c, .drop) :: ws →
      (afterUses platform vs).flag? c ≠ some true) :
    let calls := .stopScan :: (new platform).issued (afterUses platform us)
    calls.IsChain Reverses ∧ calls.getLast? = some (lastCall (afterUses platform us).scans) := by
  induction us using List.reverseRecOn with
  | nil => simp [afterUses, issued_self, new, lastCall]
  | append_singleton us u ih =>
    obtain ⟨hs, hgrows, hcounts⟩ := uses_spec platform us
    obtain ⟨hchain, hlast⟩ := ih fun vs c ws h => hdrop vs c (ws ++ [u]) (by rw [h]; simp)
    have hkeeps : u.2 = .drop → (afterUses platform us).flag? u.1 ≠ some true := fun hu =>
      hdrop us u.1 [] (by rw [← hu])
    have hissued := (counted_use hs u.1 u.2).issued_eq hcounts hkeeps
    rw [afterUses_append_singleton, issued_trans hgrows (grows_use hs u.1 u.2).2, hissued,
      ← List.cons_append]
    split
    next hsame => simpa [hsame] using And.intro hchain hlast
    next hne =>
      refine ⟨List.isChain_append.mpr ⟨hchain, List.isChain_singleton _, ?_⟩, ?_⟩
      · rintro x hx y hy
        rw [hlast] at hx
        cases hx
        cases hy
        exact reverses_lastCall hne
      · exact List.getLast?_concat

/-- What a use asks of the radio, by the counts of scans before it and after. -/
theorem Counted.issued_spec {u : SideUse} (h : s.Counted c u s') (hcounts : s.Counts) :
    s.issued s' =
      if u = .scan ∧ s.scans = 0 ∧ s'.scans = 1 then [.startScan]
      else if (u = .stopScan ∨ u = .close) ∧ s.scans = 1 ∧ s'.scans = 0 then [.stopScan]
      else [] := by
  cases h with
  | acquired hu hflag hscans hissued =>
    rw [hissued, hscans, hu]
    by_cases hzero : s.scans = 0 <;> simp [hzero]
  | released hu hflag hscans hissued =>
    have hpos := hcounts.scans_pos hflag
    rw [hissued, hscans]
    by_cases hone : s.scans = 1
    · rcases hu with rfl | rfl | rfl <;> simp [hone]
    · rcases hu with rfl | rfl | rfl <;> simp [hone, Nat.ne_of_gt hpos]
  | kept _ _ hscans hissued =>
    rw [hissued, hscans, if_neg (by omega), if_neg (by omega)]

theorem Counted.of_released {u : SideUse} (h : s.Counted c u s') (hcounts : s.Counts)
    (hu : u = .stopScan ∨ u = .close ∨ u = .drop) (hflag : s.flag? c = some true) :
    0 < s.scans ∧ s'.scans + 1 = s.scans := by
  have hpos := hcounts.scans_pos hflag
  cases h with
  | acquired hu' => rcases hu with rfl | rfl | rfl <;> cases hu'
  | released _ _ hscans => exact ⟨hpos, by omega⟩
  | kept _ hkept =>
    rcases hkept with ⟨hstop, hclose, hdrop⟩ | hother
    · rcases hu with rfl | rfl | rfl <;> contradiction
    · exact absurd hflag hother

/-- The managers of a radio share its scan. However they are used, the count of scans is that of the
managers that scan; it is never taken below zero; the radio is told to start by the use that takes the
count from zero to one and to stop by the one that takes it back, and by no other. What it is told
alternates, unless a manager is dropped in its scan. -/
theorem scan_shared :
    (afterUses platform us).scans =
      (afterUses platform us).sides.values.countP Side.scanning ∧
    (∀ vs c u ws, us = vs ++ (c, u) :: ws →
      let before := afterUses platform vs
      let after := before.use c u
      (u = .stopScan ∨ u = .close ∨ u = .drop → before.flag? c = some true →
        0 < before.scans ∧ after.scans + 1 = before.scans) ∧
      before.issued after =
        if u = .scan ∧ before.scans = 0 ∧ after.scans = 1 then [.startScan]
        else if (u = .stopScan ∨ u = .close) ∧ before.scans = 1 ∧ after.scans = 0 then [.stopScan]
        else []) ∧
    ((∀ vs c ws, us = vs ++ (c, .drop) :: ws → (afterUses platform vs).flag? c ≠ some true) →
      (.stopScan :: (new platform).issued (afterUses platform us)).IsChain Reverses) := by
  obtain ⟨-, -, hcounts⟩ := uses_spec platform us
  refine ⟨hcounts.scans_eq, fun vs c u ws _ => ?_, fun hdrop => ?_⟩
  · obtain ⟨hs, -, hbefore⟩ := uses_spec platform vs
    have hcounted := counted_use hs c u
    exact ⟨hcounted.of_released hbefore, hcounted.issued_spec hbefore⟩
  · exact (issued_alternates platform us hdrop).1

end Uses

/-- Two managers scan and stop, each of them once too often. One is closed twice and dropped; the other
scans on after its close and is dropped once it has stopped. -/
def redundant : List (CentralId × SideUse) :=
  [(⟨1⟩, .openSide), (⟨2⟩, .openSide), (⟨1⟩, .scan), (⟨1⟩, .scan), (⟨2⟩, .scan), (⟨1⟩, .stopScan),
    (⟨1⟩, .stopScan), (⟨2⟩, .close), (⟨2⟩, .close), (⟨2⟩, .drop), (⟨1⟩, .close), (⟨1⟩, .scan),
    (⟨1⟩, .stopScan), (⟨1⟩, .drop)]

theorem scan_shared_redundant :
    let platform : Platform := ⟨1, .poweredOn, ∅, ∅, []⟩
    (new platform).issued (afterUses platform redundant) =
      [.startScan, .stopScan, .startScan, .stopScan] ∧
    (∀ vs c ws, redundant = vs ++ (c, .drop) :: ws →
      (afterUses platform vs).flag? c ≠ some true) ∧
    (.stopScan :: (new platform).issued (afterUses platform redundant)).IsChain Reverses := by
  intro platform
  have hdrop : ∀ vs c ws, redundant = vs ++ (c, .drop) :: ws →
      (afterUses platform vs).flag? c ≠ some true := by
    have hall : ∀ n < redundant.length, (redundant.drop n).head?.all fun u =>
        u.2 = .drop → (afterUses platform (redundant.take n)).flag? u.1 ≠ some true := by
      decide +kernel
    intro vs c ws h
    have hn := hall vs.length (by rw [h]; simp)
    simpa [h] using hn
  exact ⟨by decide +kernel, hdrop, (scan_shared platform redundant).2.2 hdrop⟩

end Stack

end GattHub.Radio
