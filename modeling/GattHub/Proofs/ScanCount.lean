import GattHub.Proofs.ScanPeriod
import GattHub.Proofs.Schedule
import Mathlib.Data.Finset.Card

/-! How many managers a radio takes to be scanning. A manager that is told of the loss of power ends
its scan without a call, so the radio goes on counting that scan until the manager scans anew or is
closed. The radio is switched when this count leaves zero or falls to it. -/

namespace GattHub

variable {H : Handles}

/-- Whether the host still holds a scan for the manager after a moment that the manager has ended:
the loss of power leaves it there, and a new scan takes it over. -/
def Moment.abandons (t : Moment H) (c : CentralId) (left : Bool) : Bool :=
  match t.scanEvent? c with
  | some .powerOff => left || (t.scanBefore c).join.isSome
  | some (.begin _) | some .close => false
  | _ => left

/-- Whether the last scan of a manager was ended by the loss of power, and nothing took it over. -/
def abandoned (past : List (Moment H)) (c : CentralId) : Bool :=
  past.foldl (fun left t => t.abandons c left) false

theorem Moment.abandons_of_idle {t : Moment H} {c : CentralId} (h : (t.scanBefore c).join = none) :
    t.abandons c false = false := by
  simp only [abandons, h]
  split <;> rfl

theorem abandoned_append_singleton (past : List (Moment H)) (t : Moment H) (c : CentralId) :
    abandoned (past ++ [t]) c = t.abandons c (abandoned past c) := by
  simp [abandoned]

namespace Hub

/-- The managers that say that they scan. -/
def scanners (h : Hub H) : List CentralId :=
  h.centralIds.filter fun c => h.answer (.scanning c) = .ok (.scanning true)

theorem answer_scanning {h : Hub H} {c : CentralId} :
    h.answer (.scanning c) = .ok (.scanning true) ↔ ∃ s, h.scan? c = some (some s) := by
  simp only [answer, central, scan?]
  cases h.centrals.get? c with
  | none => simp [Except.map]
  | some m => cases hs : m.scan <;> simp [Except.map, Central.info, hs]

theorem mem_scanners {h : Hub H} {c : CentralId} :
    c ∈ h.scanners ↔ ∃ s, h.scan? c = some (some s) := by
  rw [scanners, List.mem_filter, decide_eq_true_eq, answer_scanning, mem_centralIds,
    and_iff_right_iff_imp]
  rintro ⟨s, hs⟩
  obtain ⟨m, hm, -⟩ := Option.map_eq_some_iff.mp hs
  rw [hm]
  rfl

/-- The managers whose last scan was ended by the loss of power. -/
def abandoners (h : Hub H) (past : List (Moment H)) : List CentralId :=
  h.centralIds.filter (abandoned past)

theorem mem_abandoners {h : Hub H} {past : List (Moment H)} {c : CentralId} :
    c ∈ h.abandoners past ↔ (h.scan? c).isSome ∧ abandoned past c = true := by
  simp [abandoners, mem_centralIds, scan?]

end Hub

namespace Moment

variable {t : Moment H}

theorem move_of_allocates (h : t.allocates = true) :
    ∃ answers, t.move = .request answers .allocate := by
  obtain ⟨hub, move⟩ := t
  cases move with
  | report | shutdown => cases h
  | request answers r =>
    cases r with
    | allocate => exact ⟨answers, rfl⟩
    | _ => cases h

theorem mem_scanCalls {e : CentralId × HostCall H} (he : e ∈ Effect.calls t.effects)
    (hk : e.2.shapesScan = true) : e.2 ∈ t.scanCalls e.1 :=
  List.mem_filterMap.mpr ⟨e, he, by simp [hk]⟩

theorem move_of_begin {c : CentralId} {b : Bool} (h : t.scanEvent? c = some (.begin b)) :
    ∃ answers, t.move = .request answers (.scan c b) := by
  obtain ⟨hub, move⟩ := t
  cases move with
  | shutdown => cases h
  | report c' r => cases r <;> simp [scanEvent?] at h
  | request answers r =>
    cases r with
    | scan c' b' =>
      obtain ⟨⟨rfl, -⟩, rfl⟩ : (c' = c ∧ _) ∧ b' = b := by simpa [scanEvent?] using h
      exact ⟨answers, rfl⟩
    | _ => simp [scanEvent?] at h

section Scans

variable {c : CentralId} {x y : Option (Option Scan)}

theorem Scans.of_open (h : t.Scans c x y) (hc : .openCentral ∈ t.scanCalls c) :
    ∃ answers, t.move = .request answers .allocate := by
  cases h with
  | opened hyes => exact move_of_allocates hyes
  | refused _ hno =>
    obtain ⟨answers, r, hm, -⟩ := hno
    exact ⟨answers, hm⟩
  | kept _ _ hcalls | begun _ _ hcalls | stopped _ _ hcalls | cut _ _ hcalls
  | advertised _ _ _ hcalls => simp [hcalls] at hc
  | closed x _ hcalls =>
    rw [hcalls] at hc
    cases x <;> simp at hc

theorem Scans.of_scan (h : t.Scans c x y) {b : Bool} (hc : .scan b ∈ t.scanCalls c) :
    t.scanEvent? c = some (.begin b) ∧ t.scanCalls c = [.scan b] := by
  cases h with
  | begun b' hevent hcalls =>
    have hb : b = b' := by simpa [hcalls] using hc
    rw [hb]
    exact ⟨hevent, hcalls⟩
  | kept _ _ hcalls | opened _ _ _ hcalls | refused _ _ _ _ hcalls | stopped _ _ hcalls
  | cut _ _ hcalls | advertised _ _ _ hcalls => simp [hcalls] at hc
  | closed x _ hcalls =>
    rw [hcalls] at hc
    cases x <;> simp at hc

theorem Scans.of_close (h : t.Scans c x y) (hc : .close ∈ t.scanCalls c) :
    t.scanEvent? c = some .close := by
  cases h with
  | closed _ he => exact he
  | kept _ _ hcalls | opened _ _ _ hcalls | refused _ _ _ _ hcalls | begun _ _ hcalls
  | stopped _ _ hcalls | cut _ _ hcalls | advertised _ _ _ hcalls => simp [hcalls] at hc

end Scans

/-- A manager is opened or begins to scan by a call that is made alone. -/
theorem calls_cases (hl : t.hub.Labelled)
    (hfree : t.allocates = true → t.hub.centrals.get? t.hub.next = none)
    (hagrees : ∀ answers r, t.move = .request answers r → ∀ c k, answers.refusal c k = none) :
    (∃ c, Effect.calls t.effects = [(c, .openCentral)] ∧ t.scanBefore c = none) ∨
      (∃ c b, Effect.calls t.effects = [(c, .scan b)]) ∨
      ∀ e ∈ Effect.calls t.effects, e.2 ≠ .openCentral ∧ ∀ b, e.2 ≠ .scan b := by
  have hallocate {answers : Answers H} (hm : t.move = .request answers .allocate) :
      ∃ c, Effect.calls t.effects = [(c, .openCentral)] ∧ t.scanBefore c = none := by
    have hr := hagrees answers _ hm t.hub.next .openCentral
    refine ⟨t.hub.next, ?_, ?_⟩
    · simp [effects, step, hm, Hub.request, Hub.reply, Hub.allocate, hr]
    · have hyes : t.allocates = true := by
        simp [allocates, hm, Hub.allocate, hr, Except.isOk, Except.toBool]
      simp [scanBefore, Hub.scan?, hfree hyes]
  by_cases hopen : ∃ c, HostCall.openCentral ∈ t.scanCalls c
  · obtain ⟨c, hc⟩ := hopen
    obtain ⟨answers, hm⟩ := (t.scans hl hfree c).of_open hc
    exact .inl (hallocate hm)
  by_cases hscan : ∃ c b, HostCall.scan b ∈ t.scanCalls c
  · obtain ⟨c, b, hc⟩ := hscan
    obtain ⟨hevent, hcalls⟩ := (t.scans hl hfree c).of_scan hc
    obtain ⟨answers, hm⟩ := move_of_begin hevent
    refine .inr (.inl ⟨c, b, ?_⟩)
    have heffects : t.effects = (t.hub.withCentral c (·.startScan answers b)).effects := by
      simp [effects, step, hm, Hub.request, Hub.reply]
    rcases t.hub.withCentral_cases c (·.startScan answers b) with
      ⟨-, -, -, he⟩ | ⟨m, hget, -, -, he⟩
    · rw [scanCalls, heffects, he] at hcalls
      cases hcalls
    · rw [heffects, he]
      cases hs : m.scan with
      | some s =>
        rw [scanCalls, heffects, he] at hcalls
        simp [Central.startScan, hs] at hcalls
      | none => simp [Central.startScan, hs, Central.call, hl.central_id hget]
  · refine .inr (.inr fun e he => ⟨fun hk => hopen ⟨e.1, ?_⟩, fun b hk => hscan ⟨e.1, b, ?_⟩⟩)
    · rw [← hk]
      exact mem_scanCalls he (by rw [hk]; rfl)
    · rw [← hk]
      exact mem_scanCalls he (by rw [hk]; rfl)

end Moment

namespace Radio

namespace Stack

variable {s s' s'' : Stack}

/-- A task is started on the way from one stack to another. -/
def Starts (s s' : Stack) (t : Task) : Prop := ∃ i, s.nextTask ≤ i ∧ s'.tasks.get? i = some t

theorem Starts.trans_iff (hs : s'.Sound) (h : s.Grows s') (h' : s'.Grows s'') (t : Task) :
    s.Starts s'' t ↔ s.Starts s' t ∨ s'.Starts s'' t := by
  constructor
  · rintro ⟨i, hi, ht⟩
    by_cases hlt : i < s'.nextTask
    · exact .inl ⟨i, hi, (h'.tasks i hlt).symm.trans ht⟩
    · exact .inr ⟨i, Nat.le_of_not_lt hlt, ht⟩
  · rintro (⟨i, hi, ht⟩ | ⟨i, hi, ht⟩)
    · exact ⟨i, hi, (h'.tasks i (hs.lt_nextTask ht)).trans ht⟩
    · exact ⟨i, h.nextTask_le.trans hi, ht⟩

theorem Called.starts_iff {c : CentralId} {k : HostCall handles} (h : s.Called c k s')
    (hs : s.Sound) (t : Task) : s.Starts s' t ↔ s.started? c k = some t := by
  constructor
  · rintro ⟨i, hi, ht⟩
    rw [h.tasks] at ht
    split at ht
    · exact ht
    · rw [hs.fresh i hi] at ht
      cases ht
  · intro ht
    exact ⟨s.nextTask, Nat.le_refl _, by rw [h.tasks, if_pos rfl, ht]⟩

/-- The radio is switched just if the count of scans leaves zero or falls to it. -/
structure Switches (s s' : Stack) : Prop where
  on : s.Starts s' (.switchScan true false) ↔ s.scans = 0 ∧ s'.scans ≠ 0
  off : s.Starts s' (.switchScan false false) ↔ s.scans ≠ 0 ∧ s'.scans = 0

theorem Switches.refl (hs : s.Sound) : s.Switches s := by
  have hno (t : Task) : ¬ s.Starts s t := fun ⟨i, hi, ht⟩ => by
    rw [hs.fresh i hi] at ht
    cases ht
  exact ⟨⟨fun h => absurd h (hno _), fun h => absurd h.1 h.2⟩,
    ⟨fun h => absurd h (hno _), fun h => absurd h.2 h.1⟩⟩

/-- A call that is neither for a scan nor for its end leaves the count alone. -/
theorem scansAfter_of_unshaped {k : HostCall handles} (hk : ∀ b, k ≠ .scan b)
    (hstop : k ≠ .stopScan) (hclose : k ≠ .close) (x : Option Bool) (n : Nat) :
    scansAfter k x n = n := by
  cases k with
  | scan b => exact absurd rfl (hk b)
  | stopScan => exact absurd rfl hstop
  | close => exact absurd rfl hclose
  | openCentral | lookup | peer => rfl

theorem scansAfter_le {k : HostCall handles} (hk : ∀ b, k ≠ .scan b) (x : Option Bool) (n : Nat) :
    scansAfter k x n ≤ n := by
  by_cases hends : k = .stopScan ∨ k = .close
  · rcases hends with rfl | rfl <;> (cases x with
      | none => exact Nat.le_refl _
      | some on => cases on <;> simp [scansAfter])
  · obtain ⟨hstop, hclose⟩ := not_or.mp hends
    exact (scansAfter_of_unshaped hk hstop hclose x n).le

theorem started?_ne_switchScan {k : HostCall handles} (hk : ∀ b, k ≠ .scan b)
    (hstop : k ≠ .stopScan) (hclose : k ≠ .close) (c : CentralId) (on begun : Bool) :
    s.started? c k ≠ some (.switchScan on begun) := by
  cases k with
  | scan b => exact absurd rfl (hk b)
  | stopScan => exact absurd rfl hstop
  | close => exact absurd rfl hclose
  | openCentral => simp [started?]
  | lookup => simp [started?]
  | peer n k => cases k <;> simp [started?, job?]

theorem Called.switches {c : CentralId} {k : HostCall handles} (h : s.Called c k s')
    (hs : s.Sound) : s.Switches s' := by
  have hends (hk : k = .stopScan ∨ k = .close) : s.Switches s' := by
    have hscans : s'.scans = if s.flag? c = some true then s.scans - 1 else s.scans := by
      rw [h.scans]
      rcases hk with rfl | rfl <;> (cases s.flag? c with
        | none => rfl
        | some on => cases on <;> rfl)
    have hstarted : s.started? c k =
        if s.flag? c = some true ∧ s.scans = 1 then some (.switchScan false false) else none := by
      rcases hk with rfl | rfl <;> rfl
    constructor
    · rw [h.starts_iff hs, hstarted]
      grind
    · rw [h.starts_iff hs, hstarted]
      grind
  cases k with
  | stopScan => exact hends (.inl rfl)
  | close => exact hends (.inr rfl)
  | scan b =>
    have hscans : s'.scans = if s.flag? c = some false then s.scans + 1 else s.scans := by
      rw [h.scans]
      cases s.flag? c with
      | none => rfl
      | some on => cases on <;> rfl
    have hstarted : s.started? c (.scan b) =
        if s.flag? c = some false ∧ s.scans = 0 then some (.switchScan true false) else none := rfl
    constructor
    · rw [h.starts_iff hs, hstarted]
      grind
    · rw [h.starts_iff hs, hstarted]
      grind
  | openCentral | lookup | peer =>
    have hscans : s'.scans = s.scans := by
      rw [h.scans]
      exact scansAfter_of_unshaped (by simp) (by simp) (by simp) _ _
    constructor
    · rw [h.starts_iff hs, hscans]
      exact ⟨fun ht =>
          absurd ht (started?_ne_switchScan (by simp) (by simp) (by simp) c true false),
        fun hn => absurd hn.1 hn.2⟩
    · rw [h.starts_iff hs, hscans]
      exact ⟨fun ht =>
          absurd ht (started?_ne_switchScan (by simp) (by simp) (by simp) c false false),
        fun hn => absurd hn.2 hn.1⟩

/-- Calls of which none begins a scan let the count fall only, and so switch the radio once at
most. -/
theorem switches_of_ends (hs : s.Sound) {ks : List (CentralId × HostCall handles)}
    (hks : ∀ e ∈ ks, ∀ b, e.2 ≠ .scan b) :
    (s.acceptAll ks).scans ≤ s.scans ∧ s.Switches (s.acceptAll ks) := by
  induction ks generalizing s with
  | nil => exact ⟨Nat.le_refl _, .refl hs⟩
  | cons e ks ih =>
    have hcalled := s.called_accept hs.fresh e.1 e.2
    have hsound := hcalled.sound hs
    obtain ⟨hle, hrest⟩ := ih hsound fun e' he' => hks e' (List.mem_cons_of_mem e he')
    have hfirst := hcalled.switches hs
    have hfalls : (s.accept e.1 e.2).state.scans ≤ s.scans := by
      rw [hcalled.scans]
      exact scansAfter_le (hks e List.mem_cons_self) _ _
    have hall : s.acceptAll (e :: ks) = (s.accept e.1 e.2).state.acceptAll ks := rfl
    rw [hall]
    have hgrows := grows_acceptAll hsound ks
    refine ⟨hle.trans hfalls, ?_, ?_⟩
    · rw [Starts.trans_iff hsound hcalled.grows hgrows, hfirst.on, hrest.on]
      omega
    · rw [Starts.trans_iff hsound hcalled.grows hgrows, hfirst.off, hrest.off]
      omega

/-- The count is the number of managers whose sides scan. -/
def Counts (s : Stack) : Prop :=
  ∃ F : Finset CentralId, (∀ c, c ∈ F ↔ s.flag? c = some true) ∧ s.scans = F.card

theorem Called.counts {c : CentralId} {k : HostCall handles} (h : s.Called c k s')
    (hk : k = .openCentral → s.flag? c = none) (hs : s.Counts) : s'.Counts := by
  obtain ⟨F, hF, hcard⟩ := hs
  have hmem := hF c
  by_cases hon : flagAfter k (s.flag? c) = some true
  · refine ⟨insert c F, fun c' => ?_, ?_⟩
    · rw [Finset.mem_insert, h.flag?, hF]
      split
      next hc => simp [hc, hon]
      next hc => simp [hc]
    · rw [h.scans, hcard]
      by_cases hc : c ∈ F
      · rw [Finset.insert_eq_of_mem hc]
        rw [hmem.mp hc] at hon ⊢
        cases k <;> simp [flagAfter] at hon <;> rfl
      · rw [Finset.card_insert_of_notMem hc]
        rw [hmem] at hc
        cases k <;> cases hx : s.flag? c with
        | none => simp [flagAfter, hx] at hon
        | some on => cases on <;> simp_all [flagAfter, scansAfter]
  · refine ⟨F.erase c, fun c' => ?_, ?_⟩
    · rw [Finset.mem_erase, h.flag?, hF]
      split
      next hc => simp [hc, hon]
      next hc => simp [hc]
    · rw [h.scans, hcard]
      by_cases hc : c ∈ F
      · rw [Finset.card_erase_of_mem hc]
        rw [hmem.mp hc] at hon hk ⊢
        cases k <;> simp_all [flagAfter, scansAfter]
      · rw [Finset.erase_eq_of_notMem hc]
        rw [hmem] at hc
        cases k <;> cases hx : s.flag? c with
        | none => rfl
        | some on => cases on <;> simp_all [flagAfter, scansAfter]

theorem counts_acceptAll (hs : s.Sound) {ks : List (CentralId × HostCall handles)}
    (hks : ∀ e ∈ ks, e.2 ≠ .openCentral) (h : s.Counts) : (s.acceptAll ks).Counts := by
  induction ks generalizing s with
  | nil => exact h
  | cons e ks ih =>
    have hcalled := s.called_accept hs.fresh e.1 e.2
    refine ih (hcalled.sound hs) (fun e' he' => hks e' (List.mem_cons_of_mem e he')) ?_
    exact hcalled.counts (fun hk => absurd hk (hks e List.mem_cons_self)) h

theorem flagAfter_of_unshaped {k : HostCall handles} (hk : k.shapesScan = false) (x : Option Bool) :
    flagAfter k x = x := by
  cases k with
  | lookup | peer => rfl
  | _ => cases hk

/-- The flag of a side follows from the calls of its manager alone. -/
theorem flag?_acceptAll (hs : s.Sound) (es : List (Effect handles)) (c : CentralId) :
    (s.acceptAll (Effect.calls es)).flag? c =
      (Effect.scanCalls c es).foldl (fun x k => flagAfter k x) (s.flag? c) := by
  rw [Effect.scanCalls]
  induction Effect.calls es generalizing s with
  | nil => rfl
  | cons e ks ih =>
    have hcalled := s.called_accept hs.fresh e.1 e.2
    have hall : s.acceptAll (e :: ks) = (s.accept e.1 e.2).state.acceptAll ks := rfl
    rw [hall, ih (hcalled.sound hs), hcalled.flag?]
    by_cases hc : e.1 = c
    · by_cases hk : e.2.shapesScan = true
      · simp [hc, hk]
      · rw [if_pos hc.symm, flagAfter_of_unshaped (Bool.eq_false_iff.mpr hk)]
        simp [hc, hk]
    · rw [if_neg (Ne.symm hc)]
      simp [hc]

end Stack

/-- What a side shows of the scan of its manager. -/
structure Flagged (f : Option Bool) (x : Option (Option Scan)) (left : Bool) : Prop where
  flag : f = x.map fun scan => scan.isSome || left
  idle : left = true → x = some none

/-- A side keeps up with its manager, but for the loss of power. -/
theorem Flagged.scans {t : Moment handles} {c : CentralId} {f : Option Bool}
    {x y : Option (Option Scan)} {left : Bool} (h : Flagged f x left) (hs : t.Scans c x y)
    (hx : t.scanBefore c = x)
    (hagrees : ∀ answers r, t.move = .request answers r → ∀ c k, answers.refusal c k = none) :
    Flagged ((t.scanCalls c).foldl (fun x k => Stack.flagAfter k x) f) y (t.abandons c left) := by
  obtain ⟨rfl, hidle⟩ := h
  have hnot {scan : Scan} (hscan : x = some (some scan)) : left = false :=
    Bool.eq_false_iff.mpr fun hleft => by
      rw [hidle hleft] at hscan
      cases hscan
  have hgone (hnone : x = none) : left = false :=
    Bool.eq_false_iff.mpr fun hleft => by
      rw [hidle hleft] at hnone
      cases hnone
  cases hs with
  | kept _ hno hcalls =>
    have hkept : t.abandons c left = left := by
      simp only [Moment.abandons]
      split
      next he => rw [hx, (hno _ he).1, Option.isSome_none, Bool.or_false]
      next b he => exact absurd rfl ((hno _ he).2.1 b)
      next he => exact (hgone ((hno _ he).2.2 rfl)).symm
      next => rfl
    rw [hcalls, hkept]
    exact ⟨rfl, hidle⟩
  | opened _ _ he hcalls =>
    rw [hcalls, Moment.abandons, he, hgone rfl]
    exact ⟨rfl, nofun⟩
  | refused _ hno =>
    obtain ⟨answers, r, hm, hr⟩ := hno
    rw [hagrees answers _ hm] at hr
    cases hr
  | begun b he hcalls =>
    rw [hcalls, Moment.abandons, he]
    exact ⟨rfl, nofun⟩
  | stopped scan he hcalls =>
    rw [hcalls, Moment.abandons, he, hnot rfl]
    exact ⟨rfl, nofun⟩
  | cut scan he hcalls =>
    rw [hcalls, Moment.abandons, he, hx, hnot rfl]
    exact ⟨rfl, fun _ => rfl⟩
  | advertised scan record he hcalls =>
    rw [hcalls, Moment.abandons, he, hnot rfl]
    exact ⟨rfl, nofun⟩
  | closed scan he hcalls =>
    rw [hcalls, Moment.abandons, he]
    refine ⟨?_, nofun⟩
    cases scan <;> rfl

namespace Scene

def scanners (s : Scene) : List CentralId := s.worker.hub.elim [] Hub.scanners

def abandoners (s : Scene) (past : List (Moment handles)) : List CentralId :=
  s.worker.hub.elim [] (·.abandoners past)

/-- The sides of the radio show the scans of the managers and the scans that these have abandoned,
and the radio counts them. -/
structure Tallies (s : Scene) (past : List (Moment handles)) : Prop where
  flagged : ∀ c, Flagged (s.host.flag? c) (s.worker.hub.bind (·.scan? c)) (abandoned past c)
  counts : s.host.Counts

section Tallies

variable {s : Scene} {past : List (Moment handles)}

theorem mem_scanners {c : CentralId} :
    c ∈ s.scanners ↔ ∃ scan, s.worker.hub.bind (·.scan? c) = some (some scan) := by
  cases hhub : s.worker.hub with
  | none => simp [scanners, hhub]
  | some h => simp [scanners, hhub, Hub.mem_scanners]

theorem Tallies.mem_abandoners (h : s.Tallies past) {c : CentralId} :
    c ∈ s.abandoners past ↔ abandoned past c = true := by
  have hidle := (h.flagged c).idle
  cases hhub : s.worker.hub with
  | none => simpa [abandoners, hhub] using hidle
  | some hub =>
    have hlive : abandoned past c = true → (hub.scan? c).isSome = true := fun hleft => by
      have hscan := hidle hleft
      rw [hhub] at hscan
      rw [show hub.scan? c = some none from hscan]
      rfl
    simpa [abandoners, hhub, Hub.mem_abandoners] using hlive

theorem Tallies.flag?_iff (h : s.Tallies past) {c : CentralId} :
    s.host.flag? c = some true ↔ c ∈ s.scanners ∨ c ∈ s.abandoners past := by
  rw [mem_scanners, h.mem_abandoners, (h.flagged c).flag]
  have hidle := (h.flagged c).idle
  generalize s.worker.hub.bind (·.scan? c) = x at hidle
  rcases x with _ | _ | scan
  · cases hleft : abandoned past c with
    | false => simp
    | true => cases hidle hleft
  · simp
  · simp

theorem Tallies.not_both (h : s.Tallies past) {c : CentralId} (hc : c ∈ s.scanners) :
    c ∉ s.abandoners past := by
  rw [h.mem_abandoners]
  intro hleft
  obtain ⟨scan, hscan⟩ := mem_scanners.mp hc
  rw [(h.flagged c).idle hleft] at hscan
  cases hscan

theorem nodup_scanners (s : Scene) : s.scanners.Nodup := by
  rw [scanners]
  cases s.worker.hub with
  | none => exact List.nodup_nil
  | some h => exact h.nodup_centralIds.filter _

theorem nodup_abandoners (s : Scene) (past : List (Moment handles)) :
    (s.abandoners past).Nodup := by
  rw [abandoners]
  cases s.worker.hub with
  | none => exact List.nodup_nil
  | some h => exact h.nodup_centralIds.filter _

theorem Tallies.scans_eq (h : s.Tallies past) :
    s.host.scans = s.scanners.length + (s.abandoners past).length := by
  obtain ⟨F, hF, hcard⟩ := h.counts
  have hnodup : (s.scanners ++ s.abandoners past).Nodup :=
    List.nodup_append.mpr ⟨s.nodup_scanners, s.nodup_abandoners past,
      fun c hc c' hc' heq => h.not_both hc (heq ▸ hc')⟩
  have hall : F = (s.scanners ++ s.abandoners past).toFinset := by
    ext c
    rw [hF, h.flag?_iff, List.mem_toFinset, List.mem_append]
  rw [hcard, hall, List.toFinset_card_of_nodup hnodup, List.length_append]

theorem Tallies.scans_eq_zero (h : s.Tallies past) :
    s.host.scans = 0 ↔ s.scanners = [] ∧ s.abandoners past = [] := by
  rw [h.scans_eq, Nat.add_eq_zero_iff, List.length_eq_zero_iff, List.length_eq_zero_iff]

end Tallies

end Scene

namespace Beat

variable {b : Beat}

/-- A task is started that switches the radio's scan as soon as it has its turn. -/
def Switches (b : Beat) (on : Bool) : Prop :=
  ∃ i, b.scene.host.nextTask ≤ i ∧ b.after.host.tasks.get? i = some (.switchScan on false) ∧
    (b.after.stepTask i).host.made = b.after.host.made ++ [if on then .startScan else .stopScan]

theorem suspended_lt (hs : b.scene.host.Sound) :
    ∀ i ∈ b.after.host.suspended, i < b.scene.host.nextTask := by
  intro i hi
  rcases b.cases with ⟨t, ht⟩ | ⟨j, task, next, post, closes, hsteps⟩ | hout
  · obtain ⟨-, -, -, -, hhost, -⟩ := of_moment ht
    rw [hhost, (Stack.grows_acceptAll hs _).suspended] at hi
    exact hs.suspended i hi
  · rcases hsteps.progress.suspended i hi with rfl | hi
    · exact hs.lt_nextTask hsteps.found
    · exact hs.suspended i hi
  · exact hs.suspended i (hout.suspended i hi)

theorem switches_iff (hs : b.scene.host.Sound) (on : Bool) :
    b.Switches on ↔ b.scene.host.Starts b.after.host (.switchScan on false) := by
  constructor
  · rintro ⟨i, hi, ht, -⟩
    exact ⟨i, hi, ht⟩
  · rintro ⟨i, hi, ht⟩
    refine ⟨i, hi, ht, ?_⟩
    have hnot : i ∉ b.after.host.suspended := fun hmem => Nat.not_lt.mpr hi (suspended_lt hs i hmem)
    cases on <;> simp [Scene.stepTask, ht, Stack.waits, hnot, Scene.go, Scene.begin, Scene.become,
      Scene.withStack, Operation.isOnAir]

/-- A radio turns no call down. -/
theorem agrees {t : Moment handles} (h : b.moment? = some t) :
    ∀ answers r, t.move = .request answers r → ∀ c k, answers.refusal c k = none := by
  obtain ⟨-, -, ⟨m, rest, -, hmove⟩, -⟩ := of_moment h
  intro answers r hm
  rw [hm] at hmove
  cases m with
  | request ticket r' =>
    cases hmove
    exact fun _ _ => rfl
  | _ => cases hmove

theorem tallies_of_moment (hs : b.scene.host.Sound) {past : List (Moment handles)}
    (h : b.scene.Tallies past) {t : Moment handles} (ht : b.moment? = some t) (hl : t.hub.Labelled)
    (hfree : t.allocates = true → t.hub.centrals.get? t.hub.next = none) :
    b.after.Tallies (past ++ [t]) ∧ b.scene.host.Switches b.after.host := by
  obtain ⟨-, hbefore, -, hafter, hhost, -⟩ := of_moment ht
  have hagrees := agrees ht
  have hflagged (c : CentralId) :
      Flagged (b.scene.host.flag? c) (t.scanBefore c) (abandoned past c) := by
    have hx := h.flagged c
    rwa [hbefore] at hx
  have hcalls := t.calls_cases hl hfree hagrees
  rw [hhost]
  refine ⟨⟨fun c => ?_, ?_⟩, ?_⟩
  · rw [hhost, Stack.flag?_acceptAll hs, hafter, abandoned_append_singleton]
    exact (hflagged c).scans (t.scans hl hfree c) rfl hagrees
  · rw [hhost]
    have hcounts (e : CentralId × HostCall handles)
        (hk : e.2 = .openCentral → b.scene.host.flag? e.1 = none) :
        (b.scene.host.acceptAll [e]).Counts :=
      (b.scene.host.called_accept hs.fresh e.1 e.2).counts hk h.counts
    rcases hcalls with ⟨c, hopen, hnone⟩ | ⟨c, a, hscan⟩ | hends
    · rw [hopen]
      refine hcounts (c, .openCentral) fun _ => ?_
      rw [(hflagged c).flag, hnone]
      rfl
    · rw [hscan]
      exact hcounts (c, .scan a) nofun
    · exact Stack.counts_acceptAll hs (fun e he => (hends e he).1) h.counts
  · rcases hcalls with ⟨c, hopen, -⟩ | ⟨c, a, hscan⟩ | hends
    · rw [hopen]
      exact (b.scene.host.called_accept hs.fresh c .openCentral).switches hs
    · rw [hscan]
      exact (b.scene.host.called_accept hs.fresh c (.scan a)).switches hs
    · exact (Stack.switches_of_ends hs fun e he => (hends e he).2).2

/-- A scan is abandoned only where one went on. -/
theorem abandoners_eq_nil {past : List (Moment handles)} (h : b.scene.Tallies past)
    (h' : b.after.Tallies (past ++ b.moment?.toList)) (hscanners : b.scene.scanners = [])
    (habandoners : b.scene.abandoners past = []) :
    b.after.abandoners (past ++ b.moment?.toList) = [] := by
  rw [List.eq_nil_iff_forall_not_mem]
  intro c hc
  have hleft : abandoned past c = false := by
    rw [Bool.eq_false_iff, ne_eq, ← h.mem_abandoners, habandoners]
    exact List.not_mem_nil
  rw [h'.mem_abandoners] at hc
  cases ht : b.moment? with
  | none =>
    rw [ht, Option.toList_none, List.append_nil, hleft] at hc
    cases hc
  | some t =>
    have hidle : (t.scanBefore c).join = none := by
      rw [Option.eq_none_iff_forall_ne_some]
      intro scan hscan
      have hmem : c ∈ b.scene.scanners := by
        rw [Scene.mem_scanners, (of_moment ht).2.1]
        exact ⟨scan, Option.join_eq_some_iff.mp hscan⟩
      rw [hscanners] at hmem
      cases hmem
    rw [ht, Option.toList_some, abandoned_append_singleton, hleft, t.abandons_of_idle hidle] at hc
    cases hc

/-- Without a moment of the hub nothing is counted and no switch is started. -/
theorem tallies_of_no_moment (hs : b.scene.host.Sound) {past : List (Moment handles)}
    (h : b.scene.Tallies past) (ht : b.moment? = none) :
    b.after.Tallies past ∧ b.scene.host.Switches b.after.host := by
  obtain ⟨hhub, hflag, hscans, hnew⟩ : b.after.worker.hub = b.scene.worker.hub ∧
      (∀ c, b.after.host.flag? c = b.scene.host.flag? c) ∧
      b.after.host.scans = b.scene.host.scans ∧
      ∀ t, ¬ b.scene.host.Starts b.after.host t := by
    rcases b.cases with ⟨t, ht'⟩ | ⟨j, task, next, post, closes, hsteps⟩ | hout
    · rw [ht] at ht'
      cases ht'
    · refine ⟨hsteps.progress.hub, hsteps.progress.flag?, hsteps.progress.scans, fun t => ?_⟩
      rintro ⟨i, hi, hstarted⟩
      have hne : i ≠ j := Nat.ne_of_gt (Nat.lt_of_lt_of_le (hs.lt_nextTask hsteps.found) hi)
      rw [hsteps.progress.tasks, if_neg hne, hs.fresh i hi] at hstarted
      cases hstarted
    · refine ⟨hout.hub, fun c => by rw [Stack.flag?, hout.sides]; rfl, hout.scans, fun t => ?_⟩
      rintro ⟨i, hi, hstarted⟩
      rcases hout.tasks i with hsame | ⟨t', -, ht', -⟩
      · rw [hsame, hs.fresh i hi] at hstarted
        cases hstarted
      · rw [hs.fresh i hi] at ht'
        cases ht'
  obtain ⟨hflagged, F, hF, hcard⟩ := h
  refine ⟨⟨fun c => ?_, F, fun c => ?_, hscans.trans hcard⟩, ?_, ?_⟩
  · rw [hflag, hhub]
    exact hflagged c
  · rw [hflag, hF]
  · exact ⟨fun ht => absurd ht (hnew _), fun hn => absurd (hscans.trans hn.1) hn.2⟩
  · exact ⟨fun ht => absurd ht (hnew _), fun hn => absurd (hscans.symm.trans hn.2) hn.1⟩

end Beat

namespace Course

variable (settings : Settings) (platform : Platform) (xs : List Happening)

theorem tallies_step {x : Happening} (hbound :
      ((of settings platform xs).take x).moments.countP Moment.allocates ≤ UInt64.size)
    (h : (of settings platform xs).scene.Tallies (of settings platform xs).moments) :
    ((of settings platform xs).take x).scene.Tallies ((of settings platform xs).take x).moments ∧
      (of settings platform xs).scene.host.Switches
        ((of settings platform xs).take x).scene.host := by
  have hs := sound settings platform xs
  obtain ⟨moves, hpast, hhub⟩ := exists_run settings platform xs
  rw [moments_take] at hbound ⊢
  rw [take_scene]
  set b : Beat := ⟨(of settings platform xs).scene, x⟩
  cases ht : b.moment? with
  | none =>
    rw [Option.toList_none, List.append_nil]
    exact Beat.tallies_of_no_moment (b := b) hs h ht
  | some t =>
    rw [ht, Option.toList_some, ← hpast] at hbound
    have hr : (Run.of settings moves).hub = some t.hub := hhub.trans (Beat.of_moment ht).2.1
    exact Beat.tallies_of_moment (b := b) hs h ht ((Run.labelled settings moves).2 _ hr)
      (Run.free_of_bound settings (m := t.move) hr (x := none) hbound)

theorem tallies
    (hbound : (of settings platform xs).moments.countP Moment.allocates ≤ UInt64.size) :
    (of settings platform xs).scene.Tallies (of settings platform xs).moments := by
  revert hbound
  refine of_induction (P := fun k => k.moments.countP Moment.allocates ≤ UInt64.size →
    k.scene.Tallies k.moments) settings platform ?_ ?_ xs
  · intro _
    exact ⟨fun c => ⟨rfl, nofun⟩, ∅, fun c => by simp [start, Stack.new, Stack.flag?], rfl⟩
  · intro ys x ih hbound
    refine (tallies_step settings platform ys hbound (ih ?_)).1
    rw [moments_take, List.countP_append] at hbound
    omega

/-- At every beat that is past the tally was right, and it was right afterwards. -/
theorem tallies_of_past_eq
    (hbound : (of settings platform xs).moments.countP Moment.allocates ≤ UInt64.size)
    {bs cs : List Beat} {b : Beat} (hpast : (of settings platform xs).past = bs ++ b :: cs) :
    b.scene.host.Sound ∧ b.scene.Tallies (bs.filterMap Beat.moment?) ∧
      b.after.Tallies (bs.filterMap Beat.moment? ++ b.moment?.toList) ∧
      b.scene.host.Switches b.after.host := by
  obtain ⟨ys, hbs, hscene⟩ := exists_of_past_eq settings platform xs hpast
  have hbefore : (of settings platform ys).moments = bs.filterMap Beat.moment? := congrArg _ hbs
  have hafter : ((of settings platform ys).take b.happening).moments =
      bs.filterMap Beat.moment? ++ b.moment?.toList := by
    rw [moments_take, hbefore, hscene]
  have hscene' : ((of settings platform ys).take b.happening).scene = b.after := by
    rw [take_scene, hscene]
  have hmoments : (of settings platform xs).moments =
      bs.filterMap Beat.moment? ++ b.moment?.toList ++ cs.filterMap Beat.moment? := by
    rw [moments, hpast, List.filterMap_append, List.append_assoc, List.append_cancel_left_eq]
    cases hb : b.moment? <;> simp [hb]
  rw [hmoments, List.countP_append] at hbound
  have hfirst : (of settings platform ys).moments.countP Moment.allocates ≤ UInt64.size := by
    rw [hbefore]
    rw [List.countP_append] at hbound
    omega
  have h := tallies settings platform ys hfirst
  have hstep := tallies_step settings platform ys (x := b.happening) (by rw [hafter]; omega) h
  have hs := sound settings platform ys
  rw [hscene', hafter, hscene] at hstep
  rw [hbefore, hscene] at h
  rw [hscene] at hs
  exact ⟨hs, h, hstep⟩

/-- The radio counts the managers that scan and those whose last scan was ended by the loss of power
and not taken over since. It is made to scan by the first scan that is granted while it counts none,
and made to stop when nothing is counted any more. -/
theorem scan_count
    (hbound : (of settings platform xs).moments.countP Moment.allocates ≤ UInt64.size) :
    let k := of settings platform xs
    k.scene.host.scans = k.scene.scanners.length + (k.scene.abandoners k.moments).length ∧
    ∀ bs b cs, k.past = bs ++ b :: cs →
      let before := bs.filterMap Beat.moment?
      let after := before ++ b.moment?.toList
      (b.Switches true ↔
        b.scene.scanners = [] ∧ b.scene.abandoners before = [] ∧ b.after.scanners ≠ []) ∧
      (b.Switches false ↔
        (b.scene.scanners ≠ [] ∨ b.scene.abandoners before ≠ []) ∧
          b.after.scanners = [] ∧ b.after.abandoners after = []) := by
  intro k
  refine ⟨(tallies settings platform xs hbound).scans_eq, fun bs b cs hpast => ?_⟩
  obtain ⟨hs, h, h', hswitches⟩ := tallies_of_past_eq settings platform xs hbound hpast
  constructor
  · rw [Beat.switches_iff hs, hswitches.on, ne_eq, h.scans_eq_zero, h'.scans_eq_zero, not_and_or,
      and_assoc]
    refine and_congr_right fun hscanners => and_congr_right fun habandoners => or_iff_left ?_
    exact not_not.mpr (Beat.abandoners_eq_nil h h' hscanners habandoners)
  · rw [Beat.switches_iff hs, hswitches.off, ne_eq, h.scans_eq_zero, h'.scans_eq_zero, not_and_or]

/-- A radio without devices that is on and refuses nothing. -/
def clear : Platform := ⟨1, .poweredOn, ∅, ∅, []⟩

/-- A manager scans, the adapter goes off and on again, and the manager asks to scan once more. -/
def powerCycle : List Happening :=
  [.work, .ask 0 .allocate, .work, .step 0, .step 0, .work, .ask 1 (.scan ⟨1⟩ false), .work,
    .step 1, .step 1, .adapter (.stateUpdated .poweredOff), .step 0, .work,
    .adapter (.stateUpdated .poweredOn), .step 0, .work, .ask 2 (.scan ⟨1⟩ false)]

/-- The scan after the loss of power is granted while no manager scans, and the radio is not made to
scan: it still counts the scan from before. -/
theorem scan_count_powerCycle :
    let k := of .default clear powerCycle
    let b : Beat := ⟨k.scene, .work⟩
    (k.take .work).moments.countP Moment.allocates ≤ UInt64.size ∧
      k.scene.host.scans = 1 ∧ k.scene.scanners = [] ∧ b.after.scanners = [⟨1⟩] ∧
      ¬ b.Switches true := by
  intro k b
  have hpast : (of .default clear (powerCycle ++ [.work])).past = k.past ++ b :: [] :=
    congrArg past (of_append_singleton ..)
  refine ⟨by decide, by decide, by decide +kernel, by decide +kernel, fun h => ?_⟩
  obtain ⟨-, habandoners, -⟩ :=
    ((scan_count .default clear (powerCycle ++ [.work]) (by decide)).2 _ _ _ hpast).1.mp h
  exact absurd habandoners (by decide +kernel)

end Course

end Radio

end GattHub
