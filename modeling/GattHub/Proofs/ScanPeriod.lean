import GattHub.Proofs.Scanning

/-! What a manager reports of advertisements. A scan period lasts from a granted scan to the first
stop, loss of power or end of the manager; in it every advertisement is passed on, or the first of
each peer, as the scan was asked for. Outside of periods nothing is passed on. -/

namespace GattHub

variable {H : Handles}

def ScanEvent.record? : ScanEvent → Option Advertisement
  | .advertisement record => some record
  | _ => none

/-- The moments of a scan period so far: a scan was granted, and nothing has ended it since. -/
structure ScanPeriod (c : CentralId) (allowDuplicates : Bool) (period : List (Moment H)) :
    Prop where
  begun : ∃ t ts, period = t :: ts ∧ t.scanEvent? c = some (.begin allowDuplicates)
  lasting : ∀ t ∈ period, ∀ e, t.scanEvent? c = some e → e.ends = false

/-- A scan period is open after these moments. -/
def ScanOpen (c : CentralId) (past : List (Moment H)) : Prop :=
  ∃ ts allowDuplicates period, past = ts ++ period ∧ ScanPeriod c allowDuplicates period

/-- The advertisements that a manager took in. -/
def advertisements (c : CentralId) (ts : List (Moment H)) : List Advertisement :=
  ts.filterMap fun t => (t.scanEvent? c).bind ScanEvent.record?

/-- The advertisements that a manager passed on. -/
def passedOn (c : CentralId) (ts : List (Moment H)) : List Advertisement := ts.flatMap (·.told c)

/-- What is passed on of the advertisements of a period: all of them, or the first of each peer. -/
def Reports (allowDuplicates : Bool) (ads told : List Advertisement) : Prop :=
  if allowDuplicates then told = ads
  else told.Sublist ads ∧ ∀ p, told.filter (·.peer = p) = (ads.filter (·.peer = p)).take 1

section Period

variable {c : CentralId} {b : Bool} {period : List (Moment H)} {t : Moment H}

theorem ScanPeriod.of_append_singleton (h : ScanPeriod c b (period ++ [t])) :
    t.scanEvent? c = some (.begin b) ∧ period = [] ∨
      ScanPeriod c b period ∧ ∀ e, t.scanEvent? c = some e → e.ends = false := by
  obtain ⟨u, us, heq, hu⟩ := h.begun
  cases period with
  | nil =>
    cases heq
    exact .inl ⟨hu, rfl⟩
  | cons v vs =>
    cases heq
    exact .inr ⟨⟨⟨_, _, rfl, hu⟩, fun x hx => h.lasting x (List.mem_append_left _ hx)⟩,
      h.lasting t (List.mem_append_right _ (List.mem_singleton.mpr rfl))⟩

theorem ScanPeriod.singleton (h : t.scanEvent? c = some (.begin b)) : ScanPeriod c b [t] := by
  refine ⟨⟨t, [], rfl, h⟩, fun u hu e he => ?_⟩
  rw [List.mem_singleton.mp hu, h] at he
  cases he
  rfl

theorem ScanPeriod.append_singleton (h : ScanPeriod c b period)
    (ht : ∀ e, t.scanEvent? c = some e → e.ends = false) : ScanPeriod c b (period ++ [t]) := by
  obtain ⟨u, us, rfl, hu⟩ := h.begun
  refine ⟨⟨u, us ++ [t], rfl, hu⟩, fun v hv => ?_⟩
  rcases List.mem_append.mp hv with hv | hv
  · exact h.lasting v hv
  · rwa [List.mem_singleton.mp hv]

theorem ScanOpen.append_singleton {past : List (Moment H)} (h : ScanOpen c past)
    (ht : ∀ e, t.scanEvent? c = some e → e.ends = false) : ScanOpen c (past ++ [t]) := by
  obtain ⟨ts, b, period, rfl, hperiod⟩ := h
  exact ⟨ts, b, period ++ [t], List.append_assoc .., hperiod.append_singleton ht⟩

theorem advertisements_append_singleton (ts : List (Moment H)) :
    advertisements c (ts ++ [t]) =
      advertisements c ts ++ ((t.scanEvent? c).bind ScanEvent.record?).toList := by
  cases hr : (t.scanEvent? c).bind ScanEvent.record? <;> simp [advertisements, hr]

theorem passedOn_append_singleton (ts : List (Moment H)) :
    passedOn c (ts ++ [t]) = passedOn c ts ++ t.told c := by
  simp [passedOn]

end Period

/-- A scan knows what was passed on since it began. -/
structure Scan.Recounts (s : Scan) (b : Bool) (ads told : List Advertisement) : Prop where
  mode : s.allowDuplicates = b
  reported : ∀ p, p ∈ s.reported ↔ ∃ a ∈ ads, a.peer = p
  reports : Reports b ads told

namespace Scan

theorem recounts_begin (b : Bool) : (Scan.begin b).Recounts b [] [] :=
  ⟨rfl, by simp [Scan.begin], by simp [Reports]⟩

theorem Recounts.note {s : Scan} {b : Bool} {ads told : List Advertisement}
    (h : s.Recounts b ads told) (r : Advertisement) :
    (s.note r.peer).Recounts b (ads ++ [r])
      (told ++ if s.reports r.peer then [r] else []) := by
  obtain ⟨hmode, hreported, hreports⟩ := h
  refine ⟨hmode, fun p => ?_, ?_⟩
  · have hp := hreported p
    simp only [Scan.note, List.mem_insert_iff, List.mem_append, List.mem_singleton, hp]
    constructor
    · rintro (rfl | ⟨a, ha, rfl⟩)
      · exact ⟨r, .inr rfl, rfl⟩
      · exact ⟨a, .inl ha, rfl⟩
    · rintro ⟨a, ha | rfl, rfl⟩
      · exact .inr ⟨a, ha, rfl⟩
      · exact .inl rfl
  · cases b with
    | true =>
      have hall : told = ads := hreports
      simp [Reports, Scan.reports, hmode, hall]
    | false =>
      obtain ⟨hsub, hfirst⟩ : told.Sublist ads ∧
        ∀ p, told.filter (·.peer = p) = (ads.filter (·.peer = p)).take 1 := hreports
      -- A record is passed on just if it is the first of its peer.
      have hnew : s.reports r.peer = true ↔ ads.filter (·.peer = r.peer) = [] := by
        have hr := hreported r.peer
        simp [Scan.reports, hmode, hr, List.filter_eq_nil_iff]
      simp only [Reports, Bool.false_eq_true, if_false]
      refine ⟨?_, fun p => ?_⟩
      · split
        · exact hsub.append (.refl _)
        · exact hsub.append (List.nil_sublist _)
      · have hp := hfirst p
        by_cases hrp : r.peer = p
        · subst hrp
          by_cases hs : s.reports r.peer = true
          · rw [hnew.mp hs] at hp
            simp [hs, hp, hnew.mp hs]
          · have hne : ads.filter (·.peer = r.peer) ≠ [] := fun h => hs (hnew.mpr h)
            obtain ⟨a, as, has⟩ := List.exists_cons_of_ne_nil hne
            rw [has] at hp
            simp [hs, hp, has]
        · have htold : (if s.reports r.peer = true then [r] else []).filter (·.peer = p) = [] := by
            split <;> simp [hrp]
          simp [htold, hp, hrp]

end Scan

namespace Moment

variable {t : Moment H} {c : CentralId} {x y : Option (Option Scan)} {b : Bool}

theorem Scans.of_begin (h : t.Scans c x y) (he : t.scanEvent? c = some (.begin b)) :
    x = some none ∧ y = some (some (.begin b)) ∧ t.told c = [] := by
  cases h with
  | kept _ hno => exact absurd rfl ((hno _ he).2.1 b)
  | begun b' he' _ htold =>
    rw [he'] at he
    cases he
    exact ⟨rfl, rfl, htold⟩
  | opened _ _ he' | refused _ _ _ he' | stopped _ he' | cut _ he' | advertised _ _ he'
  | closed _ he' =>
    rw [he'] at he
    cases he

/-- A message that does not end a scan leaves it to account for what it was told. -/
theorem Scans.recounts {s : Scan} {ads told : List Advertisement} (h : t.Scans c (some (some s)) y)
    (hlasts : ∀ e, t.scanEvent? c = some e → e.ends = false) (hs : s.Recounts b ads told) :
    ∃ s', y = some (some s') ∧
      s'.Recounts b (ads ++ ((t.scanEvent? c).bind ScanEvent.record?).toList)
        (told ++ t.told c) := by
  cases h with
  | kept _ hno _ htold =>
    have hevent : t.scanEvent? c = none := by
      cases he : t.scanEvent? c with
      | none => rfl
      | some e => cases (hno e he).1
    rw [hevent, htold]
    exact ⟨s, rfl, by simpa using hs⟩
  | refused _ _ _ he _ htold =>
    rw [he, htold]
    exact ⟨s, rfl, by simpa using hs⟩
  | advertised _ record he _ htold =>
    rw [he, htold]
    exact ⟨_, rfl, hs.note record⟩
  | stopped _ he | cut _ he | closed _ he => cases hlasts _ he

/-- A manager comes to scan only by being asked to, and goes on only if nothing ends the scan. -/
theorem Scans.scanning {s' : Scan} (h : t.Scans c x (some (some s'))) :
    (∃ b, t.scanEvent? c = some (.begin b)) ∨
      (∃ s, x = some (some s)) ∧ ∀ e, t.scanEvent? c = some e → e.ends = false := by
  cases h with
  | begun b he => exact .inl ⟨b, he⟩
  | kept _ hno => exact .inr ⟨⟨s', rfl⟩, fun e he => by cases (hno e he).1⟩
  | refused _ _ _ he => exact .inr ⟨⟨s', rfl⟩, by simp [he]⟩
  | advertised s record he =>
    refine .inr ⟨⟨s, rfl⟩, fun e he' => ?_⟩
    rw [he] at he'
    cases he'
    rfl

/-- A manager that is there stays until it is closed. -/
theorem Scans.live (h : t.Scans c x y) (hold : t.allocates = true → t.hub.next ≠ c) :
    y.isSome ↔ x.isSome ∧ t.scanEvent? c ≠ some .close := by
  cases h with
  | kept _ hno =>
    refine ⟨fun hx => ⟨hx, fun he => ?_⟩, fun h => h.1⟩
    rw [(hno _ he).2.2 rfl] at hx
    cases hx
  | opened hyes hnext => exact absurd hnext (hold hyes)
  | refused _ _ _ he | begun _ he | stopped _ he | cut _ he | advertised _ _ he => simp [he]
  | closed _ he => simp [he]

/-- A manager passes something on only as it takes in an advertisement while it scans. -/
theorem Scans.told_cases (h : t.Scans c x y) : t.told c = [] ∨
    ∃ s record, x = some (some s) ∧ t.scanEvent? c = some (.advertisement record) := by
  cases h with
  | kept _ _ _ htold | opened _ _ _ _ htold | refused _ _ _ _ _ htold | begun _ _ _ htold
  | stopped _ _ _ htold | cut _ _ _ htold | closed _ _ _ htold => exact .inl htold
  | advertised s record he => exact .inr ⟨s, record, rfl, he⟩

theorem Scans.told_eq_nil (h : t.Scans c x y) (hx : x.join = none) : t.told c = [] := by
  rcases h.told_cases with htold | ⟨s, record, rfl, -⟩
  · exact htold
  · cases hx

theorem Scans.told_eq_nil_of_ends (h : t.Scans c x y) {e : ScanEvent}
    (he : t.scanEvent? c = some e) (hends : e.ends = true) : t.told c = [] := by
  rcases h.told_cases with htold | ⟨s, record, -, hrecord⟩
  · exact htold
  · rw [hrecord] at he
    cases he
    cases hends

end Moment

namespace Run

variable (settings : Settings) (ms : List (Move H)) {c : CentralId}

/-- As long as a period is open the manager scans as it was asked to, and it has passed on what the
mode demands of the advertisements of the period. -/
theorem scan_recounts (hbound : (of settings ms).allocations ≤ UInt64.size) {b : Bool}
    {ts period : List (Moment H)} (hpast : (of settings ms).past = ts ++ period)
    (hperiod : ScanPeriod c b period) :
    ∃ s, (of settings ms).hub.bind (·.scan? c) = some (some s) ∧
      s.Recounts b (advertisements c period) (passedOn c period) := by
  revert ts period hbound
  refine of_induction (P := fun r => r.allocations ≤ UInt64.size → ∀ {ts period},
    r.past = ts ++ period → ScanPeriod c b period → ∃ s, r.hub.bind (·.scan? c) = some (some s) ∧
      s.Recounts b (advertisements c period) (passedOn c period)) settings ?_ ?_ ms
  · intro _ ts period hpast hperiod
    obtain ⟨t, us, rfl, -⟩ := hperiod.begun
    simp [start] at hpast
  · intro ms h m hr ih hbound ts period hpast hperiod
    have hscans := (Moment.mk h m).scans ((labelled settings ms).2 h hr)
      (free_of_bound settings hr hbound) c
    cases period using List.reverseRecOn with
    | nil =>
      obtain ⟨t, us, heq, -⟩ := hperiod.begun
      cases heq
    | append_singleton period t =>
      rw [← List.append_assoc] at hpast
      obtain ⟨hprior, ht⟩ := List.append_inj' hpast rfl
      cases ht
      rw [advertisements_append_singleton, passedOn_append_singleton]
      rcases hperiod.of_append_singleton with ⟨hbegin, rfl⟩ | ⟨hopen, hlasts⟩
      · obtain ⟨-, hafter, htold⟩ := hscans.of_begin hbegin
        rw [hbegin, htold]
        exact ⟨.begin b, hafter, Scan.recounts_begin b⟩
      · obtain ⟨s, hs, hrecounts⟩ := ih (Nat.le_trans allocations_le hbound) hprior hopen
        have hbefore : (Moment.mk h m).scanBefore c = some (some s) := by
          rw [hr] at hs
          exact hs
        rw [hbefore] at hscans
        exact hscans.recounts hlasts hrecounts

/-- A manager scans only if a period is open. -/
theorem scanOpen_of_scanning (hbound : (of settings ms).allocations ≤ UInt64.size) {s : Scan}
    (hs : (of settings ms).hub.bind (·.scan? c) = some (some s)) :
    ScanOpen c (of settings ms).past := by
  revert s hbound
  refine of_induction (P := fun r => r.allocations ≤ UInt64.size → ∀ {s},
    r.hub.bind (·.scan? c) = some (some s) → ScanOpen c r.past) settings ?_ ?_ ms
  · intro _ s hs
    cases hs
  · intro ms h m hr ih hbound s hs
    have hscans := (Moment.mk h m).scans ((labelled settings ms).2 h hr)
      (free_of_bound settings hr hbound) c
    rw [show (Moment.mk h m).scanAfter c = some (some s) from hs] at hscans
    rcases hscans.scanning with ⟨b, hbegin⟩ | ⟨⟨s', hs'⟩, hlasts⟩
    · exact ⟨_, b, _, rfl, .singleton hbegin⟩
    · refine (ih (Nat.le_trans allocations_le hbound) (s := s') ?_).append_singleton hlasts
      rw [hr]
      exact hs'

/-- A manager whose scan was once granted is live until it is closed, and never again. -/
theorem live_iff (hbound : (of settings ms).allocations ≤ UInt64.size) {b : Bool}
    {ts us : List (Moment H)} {u : Moment H} (hpast : (of settings ms).past = ts ++ u :: us)
    (hu : u.scanEvent? c = some (.begin b)) {h : Hub H} (hr : (of settings ms).hub = some h) :
    (h.scan? c).isSome ↔ ∀ v ∈ us, v.scanEvent? c ≠ some .close := by
  suffices hgen : (of settings ms).allocations ≤ UInt64.size → ∀ {ts us u},
      (of settings ms).past = ts ++ u :: us → u.scanEvent? c = some (.begin b) →
      (∃ i < (of settings ms).allocations, c = ⟨.ofNat (i + 1)⟩) ∧
        ∀ h, (of settings ms).hub = some h →
          ((h.scan? c).isSome ↔ ∀ v ∈ us, v.scanEvent? c ≠ some .close) from
    (hgen hbound hpast hu).2 h hr
  refine of_induction (P := fun r => r.allocations ≤ UInt64.size → ∀ {ts us u},
    r.past = ts ++ u :: us → u.scanEvent? c = some (.begin b) →
      (∃ i < r.allocations, c = ⟨.ofNat (i + 1)⟩) ∧
        ∀ h, r.hub = some h → ((h.scan? c).isSome ↔ ∀ v ∈ us, v.scanEvent? c ≠ some .close))
    settings ?_ ?_ ms
  · intro _ ts us u hpast
    simp [start] at hpast
  · intro ms h m hr ih hbound ts us u hpast hu
    have hle : (of settings ms).allocations ≤ UInt64.size := Nat.le_trans allocations_le hbound
    have hnumbered := numbered settings ms h hr
    have hscans := (Moment.mk h m).scans ((labelled settings ms).2 h hr)
      (free_of_bound settings hr hbound) c
    have hlater {h' : Hub H} (ha : (Moment.mk h m).after = some h') :
        (Moment.mk h m).scanAfter c = h'.scan? c := by
      simp [Moment.scanAfter, ha]
    cases us using List.reverseRecOn with
    | nil =>
      obtain ⟨-, ht⟩ := List.append_inj' hpast rfl
      cases ht
      obtain ⟨hbefore, hafter, -⟩ := hscans.of_begin hu
      obtain ⟨m', hm', -⟩ := Option.map_eq_some_iff.mp hbefore
      obtain ⟨i, hi, hc⟩ := hnumbered.central hm'
      refine ⟨⟨i, Nat.lt_of_lt_of_le hi allocations_le, hc⟩, fun h' ha => ?_⟩
      rw [← hlater ha, hafter]
      simp
    | append_singleton us v =>
      rw [← List.cons_append, ← List.append_assoc] at hpast
      obtain ⟨hprior, hv⟩ := List.append_inj' hpast rfl
      cases hv
      obtain ⟨⟨i, hi, hc⟩, hlive⟩ := ih hle hprior hu
      refine ⟨⟨i, Nat.lt_of_lt_of_le hi allocations_le, hc⟩, fun h' ha => ?_⟩
      have hbefore : ((Moment.mk h m).scanBefore c).isSome ↔
          ∀ v ∈ us, v.scanEvent? c ≠ some .close := hlive h hr
      -- The identity of a manager that was there before is not given out again.
      have hold : (Moment.mk h m).allocates = true → h.next ≠ c := by
        intro hyes hnext
        have hcount : (of settings ms).allocations + 1 ≤ UInt64.size := by
          simpa [allocations, List.countP_append, hyes] using hbound
        have hraw := congrArg UInt64.toNat
          (congrArg CentralId.raw ((hnumbered.next_eq.symm.trans hnext).trans hc))
        simp only [UInt64.toNat_ofNat'] at hraw
        rw [UInt64.size] at hcount
        omega
      rw [← hlater ha, hscans.live hold, hbefore]
      simp only [List.mem_append, List.mem_singleton, or_imp, forall_and, forall_eq]

theorem exists_of_past_append {ts us : List (Moment H)} (hpast : (of settings ms).past = ts ++ us) :
    ∃ ms', (of settings ms').past = ts := by
  cases us with
  | nil => exact ⟨ms, by simpa using hpast⟩
  | cons t us =>
    obtain ⟨ms', hts, -⟩ := exists_of_past_eq settings ms hpast
    exact ⟨ms', hts⟩

end Run

namespace Moment

variable {t : Moment H} {c : CentralId} {answers : Answers H} {b : Bool}

/-- A manager that scans turns a further scan down, and nothing else comes of the request. -/
theorem scan_refused (hm : t.move = .request answers (.scan c b)) {s : Scan}
    (hs : t.scanBefore c = some (some s)) :
    (t.hub.request answers (.scan c b)).result = .error .alreadyScanning ∧ t.effects = [] ∧
      t.after = some t.hub := by
  obtain ⟨m, hget, hscan⟩ := Option.map_eq_some_iff.mp hs
  have hrequest : t.hub.request answers (.scan c b) = ⟨t.hub, .error .alreadyScanning, []⟩ := by
    have hsame : t.hub.centrals.insert c m = t.hub.centrals := Table.insert_of_get? hget
    simp [Hub.request, Hub.reply, Hub.withCentral, Hub.central, hget, Central.startScan, hscan,
      hsame, Except.map]
  simp [effects, after, step, hm, hrequest]

theorem scan_granted (hm : t.move = .request answers (.scan c b))
    (hs : t.scanBefore c = some none) :
    (t.hub.request answers (.scan c b)).result = .ok .done ∧ ScanPeriod c b [t] := by
  obtain ⟨m, hget, hscan⟩ := Option.map_eq_some_iff.mp hs
  have hresult : (t.hub.request answers (.scan c b)).result = .ok .done := by
    simp [Hub.request, Hub.reply, Hub.withCentral, Hub.central, hget, Central.startScan, hscan,
      Except.map]
  refine ⟨hresult, .singleton ?_⟩
  simp [scanEvent?, hm, hresult, Except.isOk, Except.toBool]

theorem scan_unknown (hs : t.scanBefore c = none) :
    (t.hub.request answers (.scan c b)).result = .error (.unknownCentral c) := by
  have hget : t.hub.centrals.get? c = none := Option.map_eq_none_iff.mp hs
  simp [Hub.request, Hub.reply, Hub.withCentral, Hub.central, hget, Except.map]

end Moment

namespace Run

variable (settings : Settings) (ms : List (Move H))

/-- In every scan period the manager passes on all advertisements, or the first of each peer;
outside of periods, and in the moment that ends one, it passes on none. A scan within a period is
turned down and changes nothing. After a period a scan is granted, and so begins the next one,
unless the manager was closed meanwhile. -/
theorem scan_periods (hbound : (of settings ms).allocations ≤ UInt64.size) (c : CentralId) :
    (∀ pre b period post, (of settings ms).past = pre ++ period ++ post → ScanPeriod c b period →
      Reports b (advertisements c period) (passedOn c period)) ∧
    ∀ ts t us, (of settings ms).past = ts ++ t :: us →
      (¬ ScanOpen c ts → t.told c = []) ∧
      (∀ e, t.scanEvent? c = some e → e.ends = true → t.told c = []) ∧
      ∀ answers b, t.move = .request answers (.scan c b) →
        (ScanOpen c ts →
          (t.hub.request answers (.scan c b)).result = .error .alreadyScanning ∧ t.effects = [] ∧
            t.after = some t.hub) ∧
        (¬ ScanOpen c ts → ∀ ts₁ u ts₂ b', ts = ts₁ ++ u :: ts₂ →
          u.scanEvent? c = some (.begin b') →
          if ∃ v ∈ ts₂, v.scanEvent? c = some .close then
            (t.hub.request answers (.scan c b)).result = .error (.unknownCentral c)
          else (t.hub.request answers (.scan c b)).result = .ok .done ∧ ScanPeriod c b [t]) := by
  refine ⟨fun pre b period post hpast hperiod => ?_, fun ts t us hpast => ?_⟩
  · obtain ⟨ms', hpast'⟩ := exists_of_past_append settings ms hpast
    have hle : (of settings ms').allocations ≤ UInt64.size := by
      rw [allocations, hpast] at hbound
      rw [allocations, hpast']
      exact Nat.le_trans (allocations_le (x := none) (y := none)) hbound
    obtain ⟨s, -, hrecounts⟩ := scan_recounts settings ms' hle hpast' hperiod
    exact hrecounts.reports
  · obtain ⟨ms', rfl, hr⟩ := exists_of_past_eq settings ms hpast
    have hle : (of settings ms').allocations ≤ UInt64.size := by
      rw [allocations, hpast] at hbound
      exact Nat.le_trans (allocations_le (x := none) (y := none)) hbound
    have hopen : ScanOpen c (of settings ms').past ↔ ∃ s, t.scanBefore c = some (some s) := by
      constructor
      · rintro ⟨pre, b, period, hpast', hperiod⟩
        obtain ⟨s, hs, -⟩ := scan_recounts settings ms' hle hpast' hperiod
        rw [hr] at hs
        exact ⟨s, hs⟩
      · rintro ⟨s, hs⟩
        refine scanOpen_of_scanning settings ms' hle (s := s) ?_
        rw [hr]
        exact hs
    have hscans := t.scans ((labelled settings ms').2 _ hr)
      (free_of_past_eq settings ms hbound hpast) c
    rw [hopen]
    refine ⟨fun hidle => ?_, fun _ => hscans.told_eq_nil_of_ends, fun answers b hm => ⟨?_, ?_⟩⟩
    · refine hscans.told_eq_nil ?_
      cases hs : t.scanBefore c with
      | none => rfl
      | some x =>
        cases x with
        | none => rfl
        | some s => exact absurd ⟨s, hs⟩ hidle
    · rintro ⟨s, hs⟩
      exact Moment.scan_refused hm hs
    · intro hidle ts₁ u ts₂ b' hts hu
      have hlive := live_iff settings ms' hle hts hu hr
      split
      next hclosed =>
        obtain ⟨v, hv, hclose⟩ := hclosed
        refine Moment.scan_unknown (Option.not_isSome_iff_eq_none.mp fun h => ?_)
        exact hlive.mp h v hv hclose
      next hkept =>
        obtain ⟨x, hx⟩ := Option.isSome_iff_exists.mp
          (hlive.mpr fun v hv hclose => hkept ⟨v, hv, hclose⟩)
        cases x with
        | none => exact Moment.scan_granted hm hx
        | some s => exact absurd ⟨s, hx⟩ hidle

def heard : Advertisement := ⟨default, -60, none, .unknown, true, none, [], []⟩

/-- A manager scans without repetition, hears of a peer, is asked to scan again and hears of the
peer once more. -/
def scanMoves : List (Move .numbers) :=
  [.request .agreeing .allocate, .request .agreeing (.scan ⟨1⟩ false),
    .report ⟨1⟩ (.advertised heard), .request .agreeing (.scan ⟨1⟩ true),
    .report ⟨1⟩ (.advertised { heard with rssi := -40 })]

theorem scanPeriod_scanMoves : ScanPeriod ⟨1⟩ false ((of .default scanMoves).past.drop 1) :=
  ⟨⟨_, _, rfl, by decide⟩, by decide⟩

theorem scan_periods_scanMoves :
    let period := (of .default scanMoves).past.drop 1
    (of .default scanMoves).allocations ≤ UInt64.size ∧ ScanPeriod ⟨1⟩ false period ∧
      passedOn ⟨1⟩ period = [heard] ∧
      Reports false (advertisements ⟨1⟩ period) (passedOn ⟨1⟩ period) :=
  ⟨by decide, scanPeriod_scanMoves, by decide,
    (scan_periods .default scanMoves (by decide) ⟨1⟩).1 ((of .default scanMoves).past.take 1) false
      ((of .default scanMoves).past.drop 1) [] rfl scanPeriod_scanMoves⟩

def closedMoves : List (Move .numbers) :=
  [.request .agreeing .allocate, .request .agreeing (.scan ⟨1⟩ false),
    .request .agreeing (.destroy ⟨1⟩)]

/-- A scan that ended because its manager was closed is not followed by another. -/
theorem scan_after_close : ∃ t u h, (of .default closedMoves).past.drop 1 = [t, u] ∧
    ScanPeriod ⟨1⟩ false [t] ∧ u.scanEvent? ⟨1⟩ = some .close ∧
      (of .default closedMoves).hub = some h ∧
      (h.request .agreeing (.scan ⟨1⟩ false)).result = .error (.unknownCentral ⟨1⟩) :=
  ⟨_, _, _, rfl, .singleton (by decide), by decide, rfl, by decide⟩

end Run

end GattHub
