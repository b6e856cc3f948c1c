import GattHub.Proofs.ScanEffects

/-! What a moment makes of the scan of one manager: which calls go to the host for it, and which
advertisements are passed on. All that a run does to a scan is told by these few cases. -/

namespace GattHub

variable {H : Handles}

/-- What a message has to do with the scan of one manager. -/
inductive ScanEvent where
  /-- A scan is asked for and granted. -/
  | begin (allowDuplicates : Bool)
  | stop
  | powerOff
  /-- The manager goes away. -/
  | close
  | advertisement (record : Advertisement)
  deriving DecidableEq

/-- Whether no scan goes on beyond the event. -/
def ScanEvent.ends : ScanEvent → Bool
  | .stop | .powerOff | .close => true
  | .begin _ | .advertisement _ => false

namespace Moment

def scanEvent? (t : Moment H) (c : CentralId) : Option ScanEvent :=
  match t.move with
  | .request answers (.scan c' allowDuplicates) =>
    if c' = c ∧ (t.hub.request answers (.scan c' allowDuplicates)).result.isOk then
      some (.begin allowDuplicates)
    else none
  | .request _ (.stopScan c') => if c' = c then some .stop else none
  | .request _ (.destroy c') => if c' = c then some .close else none
  | .request .. => none
  | .report c' (.stateChanged on _) => if c' = c ∧ on = false then some .powerOff else none
  | .report c' (.advertised record) => if c' = c then some (.advertisement record) else none
  | .report _ (.peer ..) => none
  | .shutdown _ => some .close

def scanCalls (t : Moment H) (c : CentralId) : List (HostCall H) := Effect.scanCalls c t.effects

/-- The advertisements that are passed on for a manager. -/
def told (t : Moment H) (c : CentralId) : List Advertisement := Effect.records c t.effects

def scanBefore (t : Moment H) (c : CentralId) : Option (Option Scan) := t.hub.scan? c

def scanAfter (t : Moment H) (c : CentralId) : Option (Option Scan) := t.after.bind (·.scan? c)

/-- What becomes of a manager's scan in a moment, from before to after. -/
inductive Scans (t : Moment H) (c : CentralId) :
    Option (Option Scan) → Option (Option Scan) → Prop
  | kept (x : Option (Option Scan)) :
      (∀ e, t.scanEvent? c = some e →
        x.join = none ∧ (∀ b, e ≠ .begin b) ∧ (e = .close → x = none)) →
      t.scanCalls c = [] → t.told c = [] → Scans t c x x
  | opened : t.allocates = true → t.hub.next = c → t.scanEvent? c = none →
      t.scanCalls c = [.openCentral] → t.told c = [] → Scans t c none (some none)
  | refused (x : Option (Option Scan)) :
      (∃ answers r, t.move = .request answers .allocate ∧
        answers.refusal t.hub.next .openCentral = some r) →
      t.hub.next = c → t.scanEvent? c = none → t.scanCalls c = [.openCentral] → t.told c = [] →
      Scans t c x x
  | begun (allowDuplicates : Bool) : t.scanEvent? c = some (.begin allowDuplicates) →
      t.scanCalls c = [.scan allowDuplicates] → t.told c = [] →
      Scans t c (some none) (some (some (.begin allowDuplicates)))
  | stopped (s : Scan) : t.scanEvent? c = some .stop → t.scanCalls c = [.stopScan] →
      t.told c = [] → Scans t c (some (some s)) (some none)
  /-- A scan that the loss of power ends is not called off at the host. -/
  | cut (s : Scan) : t.scanEvent? c = some .powerOff → t.scanCalls c = [] → t.told c = [] →
      Scans t c (some (some s)) (some none)
  | advertised (s : Scan) (record : Advertisement) :
      t.scanEvent? c = some (.advertisement record) → t.scanCalls c = [] →
      t.told c = (if s.reports record.peer then [record] else []) →
      Scans t c (some (some s)) (some (some (s.note record.peer)))
  | closed (x : Option Scan) : t.scanEvent? c = some .close →
      t.scanCalls c = (if x.isSome then [.stopScan] else []) ++ [.close] → t.told c = [] →
      Scans t c (some x) none

variable {c : CentralId}

/-- A moment that means nothing to a manager leaves its scan as it is. -/
theorem scans_unmoved {t : Moment H} {x : Option (Option Scan)} (hevent : t.scanEvent? c = none)
    (hcalls : t.scanCalls c = []) (htold : t.told c = []) : t.Scans c x x :=
  .kept x (by simp [hevent]) hcalls htold

theorem scans_of_free {t : Moment H} (hevent : t.scanEvent? c = none)
    (hscan : t.scanAfter c = t.scanBefore c) (hfree : ∀ e ∈ t.effects, e.isOfScan = false) :
    t.Scans c (t.scanBefore c) (t.scanAfter c) := by
  rw [hscan]
  exact scans_unmoved hevent (Effect.scanCalls_eq_nil hfree c) (Effect.records_eq_nil hfree c)

/-- A request that a manager takes in without touching its scan. -/
theorem scans_withCentral {α : Type} (h : Hub H) {answers : Answers H} {r : Request PeerId}
    (c₀ : CentralId) (f : Central H → Response H (Central H) α)
    (hstate : (h.request answers r).state = (h.withCentral c₀ f).state)
    (heffects : ∀ e ∈ (h.request answers r).effects,
      e ∈ (h.withCentral c₀ f).effects ∨ e.isOfScan = false)
    (hevent : (Moment.mk h (.request answers r)).scanEvent? c = none)
    (hscan : ∀ m, (f m).state.scan = m.scan)
    (hfree : ∀ m, ∀ e ∈ (f m).effects, e.isOfScan = false) :
    (Moment.mk h (.request answers r)).Scans c ((Moment.mk h (.request answers r)).scanBefore c)
      ((Moment.mk h (.request answers r)).scanAfter c) := by
  have hafter :
      (Moment.mk h (.request answers r)).scanAfter c = (h.withCentral c₀ f).state.scan? c := by
    rw [← hstate]
    rfl
  refine scans_of_free hevent ?_ fun e he => (heffects e he).elim (fun he => ?_) id
  all_goals
    rcases h.withCentral_cases c₀ f with ⟨-, hs, -, heff⟩ | ⟨m, hm, hs, -, heff⟩
  · rw [hafter, hs]
    rfl
  · rw [hafter, hs]
    exact Hub.scan?_insert_self hm (hscan m) rfl c
  · rw [heff] at he
    cases he
  · rw [heff] at he
    exact hfree m e he

theorem effects_noting {α : Type} (c : CentralId) (p : PeerId) (r : Response H (Hub H) α) :
    ∀ e ∈ (Hub.noting c p r).effects, e ∈ r.effects ∨ e.isOfScan = false := by
  intro e he
  simp only [Hub.noting] at he
  split at he
  · exact .inl he
  · refine (List.mem_append.mp he).imp_right fun he => ?_
    rw [List.mem_singleton.mp he]
    rfl

theorem scans_allocate (h : Hub H) (answers : Answers H)
    (hfree : (Moment.mk h (.request answers .allocate)).allocates = true →
      h.centrals.get? h.next = none) (c : CentralId) :
    let t : Moment H := ⟨h, .request answers .allocate⟩
    t.Scans c (t.scanBefore c) (t.scanAfter c) := by
  intro t
  have hafter : t.scanAfter c = (h.allocate answers).state.scan? c := rfl
  have hcalls : t.scanCalls c = Effect.scanCalls c (h.allocate answers).effects := rfl
  have htold : t.told c = Effect.records c (h.allocate answers).effects := rfl
  have hallocates : t.allocates = (h.allocate answers).result.isOk := rfl
  cases hr : answers.refusal h.next .openCentral with
  | some r =>
    have hallocate : h.allocate answers =
        ⟨h, .error (.refused r), [.call h.next .openCentral (some r)]⟩ := by simp [Hub.allocate, hr]
    rw [hallocate] at hafter hcalls htold hallocates
    rw [hafter]
    by_cases hc : h.next = c
    · exact .refused _ ⟨answers, r, rfl, hr⟩ hc rfl (by simp [hcalls, hc, HostCall.shapesScan])
        htold
    · exact scans_unmoved rfl (by simp [hcalls, hc]) htold
  | none =>
    have hallocate : h.allocate answers =
        ⟨{ h with centrals := h.centrals.insert h.next (.new h.next), next := ⟨h.next.raw + 1⟩ },
          .ok h.next, [.call h.next .openCentral none, .log (.allocated h.next)]⟩ := by
      simp [Hub.allocate, hr]
    rw [hallocate] at hafter hcalls htold hallocates
    rw [Hub.scan?_of_insert rfl] at hafter
    rw [hafter]
    by_cases hc : h.next = c
    · have hbefore : t.scanBefore c = none := by
        rw [scanBefore, Hub.scan?, ← hc, show t.hub = h from rfl, hfree hallocates]
        rfl
      rw [if_pos hc.symm, hbefore]
      exact .opened hallocates hc rfl (by simp [hcalls, hc, HostCall.shapesScan]) htold
    · rw [if_neg (Ne.symm hc)]
      exact scans_unmoved rfl (by simp [hcalls, hc]) htold

theorem scans_scan (h : Hub H) (hl : h.Labelled) (answers : Answers H) (c₀ : CentralId)
    (allowDuplicates : Bool) (c : CentralId) :
    let t : Moment H := ⟨h, .request answers (.scan c₀ allowDuplicates)⟩
    t.Scans c (t.scanBefore c) (t.scanAfter c) := by
  intro t
  set r := h.withCentral c₀ (·.startScan answers allowDuplicates) with hr
  have hafter : t.scanAfter c = r.state.scan? c := rfl
  have hcalls : t.scanCalls c = Effect.scanCalls c r.effects := rfl
  have htold : t.told c = Effect.records c r.effects := rfl
  have hevent : t.scanEvent? c =
      if c₀ = c ∧ r.result.isOk then some (.begin allowDuplicates) else none := by
    rw [← Hub.isOk_reply r fun _ => .done]
    rfl
  -- Without effects the request was turned down.
  have hidle (hno : r.result.isOk = false) (hs : r.state.scan? c = h.scan? c)
      (he : r.effects = []) : t.Scans c (t.scanBefore c) (t.scanAfter c) := by
    rw [hafter, hs]
    rw [he] at hcalls htold
    exact .kept _ (by simp [hevent, hno]) hcalls htold
  rcases h.withCentral_cases c₀ (·.startScan answers allowDuplicates) with
    ⟨-, hs, hres, he⟩ | ⟨m, hm, hs, hres, he⟩
  · exact hidle hres (by rw [hr, hs]) he
  · rw [← hr] at hs hres he
    cases hscan : m.scan with
    | some s =>
      simp only [Central.startScan, hscan] at hs hres he
      refine hidle (by rw [hres]; rfl) ?_ he
      rw [hs]
      exact Hub.scan?_insert_self hm rfl rfl c
    | none =>
      simp only [Central.startScan, hscan] at hs hres he
      rw [hafter, hs, Hub.scan?_of_insert rfl]
      rw [he] at hcalls htold
      have hid := hl.central_id hm
      by_cases hc : c = c₀
      · subst hc
        have hbefore : t.scanBefore c = some none := by
          rw [← hscan]
          exact Hub.scan?_of_get? hm
        rw [if_pos rfl, hbefore]
        refine .begun allowDuplicates (by simp [hevent, hres, Except.isOk, Except.toBool]) ?_ htold
        simp [hcalls, Central.call, hid, HostCall.shapesScan]
      · rw [if_neg hc]
        refine .kept _ (by simp [hevent, Ne.symm hc]) ?_ htold
        simp [hcalls, Central.call, hid, Ne.symm hc]

theorem scans_stopScan (h : Hub H) (hl : h.Labelled) (answers : Answers H) (c₀ c : CentralId) :
    let t : Moment H := ⟨h, .request answers (.stopScan c₀)⟩
    t.Scans c (t.scanBefore c) (t.scanAfter c) := by
  intro t
  set r := h.withCentral c₀ fun m =>
    ⟨(m.stopScan answers).state, .ok (), (m.stopScan answers).effects⟩ with hr
  have hafter : t.scanAfter c = r.state.scan? c := rfl
  have hcalls : t.scanCalls c = Effect.scanCalls c r.effects := rfl
  have htold : t.told c = Effect.records c r.effects := rfl
  have hevent : t.scanEvent? c = if c₀ = c then some .stop else none := rfl
  have hidle (hx : c₀ = c → (h.scan? c).join = none) : ∀ e, t.scanEvent? c = some e →
      (h.scan? c).join = none ∧ (∀ b, e ≠ .begin b) ∧ (e = .close → h.scan? c = none) := by
    intro e he
    rw [hevent] at he
    split at he
    next hc =>
      cases he
      exact ⟨hx hc, by simp, by simp⟩
    next => cases he
  rcases h.withCentral_cases c₀ fun m =>
    (⟨(m.stopScan answers).state, .ok (), (m.stopScan answers).effects⟩ :
      Response H (Central H) Unit)
    with ⟨hm, hs, -, he⟩ | ⟨m, hm, hs, -, he⟩
  · rw [← hr] at hs he
    rw [hafter, hs]
    rw [he] at hcalls htold
    exact .kept _ (hidle fun hc => by simp [Hub.scan?, ← hc, hm]) hcalls htold
  · rw [← hr] at hs he
    cases hscan : m.scan with
    | none =>
      simp only [Central.stopScan, hscan] at hs he
      rw [hafter, hs, Hub.scan?_insert_self hm rfl rfl c]
      rw [he] at hcalls htold
      refine .kept _ (hidle fun hc => ?_) hcalls htold
      simp [Hub.scan?, ← hc, hm, hscan]
    | some s =>
      simp only [Central.stopScan, hscan] at hs he
      rw [hafter, hs, Hub.scan?_of_insert rfl]
      rw [he] at hcalls htold
      have hid := hl.central_id hm
      by_cases hc : c = c₀
      · subst hc
        have hbefore : t.scanBefore c = some (some s) := by
          rw [← hscan]
          exact Hub.scan?_of_get? hm
        rw [if_pos rfl, hbefore]
        refine .stopped s (if_pos rfl) ?_ htold
        simp [hcalls, Central.call, hid, HostCall.shapesScan]
      · rw [if_neg hc]
        refine .kept _ (hidle fun heq => absurd heq.symm hc) ?_ htold
        simp [hcalls, Central.call, hid, Ne.symm hc]

/-- What the end of a manager means for its scan. -/
theorem scans_of_closed {t : Moment H} (hevent : t.scanEvent? c = some .close)
    (hafter : t.scanAfter c = none)
    (hcalls : t.scanCalls c = (t.hub.centrals.get? c).elim [] Central.closingCalls)
    (htold : t.told c = []) : t.Scans c (t.scanBefore c) (t.scanAfter c) := by
  rw [hafter, scanBefore, Hub.scan?]
  cases hm : t.hub.centrals.get? c with
  | none =>
    rw [hm] at hcalls
    refine .kept none (fun e he => ?_) hcalls htold
    rw [hevent] at he
    cases he
    simp
  | some m =>
    rw [hm] at hcalls
    exact .closed m.scan hevent hcalls htold

theorem scans_destroy (h : Hub H) (hl : h.Labelled) (answers : Answers H) (c₀ c : CentralId) :
    let t : Moment H := ⟨h, .request answers (.destroy c₀)⟩
    t.Scans c (t.scanBefore c) (t.scanAfter c) := by
  intro t
  have hafter : t.scanAfter c = (h.destroy answers c₀).state.scan? c := rfl
  have hcalls : t.scanCalls c = Effect.scanCalls c (h.destroy answers c₀).effects := rfl
  have htold : t.told c = [] := h.records_destroy answers c₀ c
  rw [Hub.scanCalls_destroy hl] at hcalls
  by_cases hc : c₀ = c
  · subst hc
    rw [if_pos rfl] at hcalls
    refine scans_of_closed (if_pos rfl) ?_ hcalls htold
    rw [hafter, Hub.destroy, Hub.destroyIn, Hub.central]
    cases hm : h.centrals.get? c₀ with
    | none => simp [Hub.scan?, hm]
    | some m => simp [Hub.scan?, Table.get?_erase]
  · rw [if_neg hc] at hcalls
    have hsame : t.scanAfter c = t.scanBefore c := by
      rw [hafter, Hub.scan?, Hub.destroy, Hub.get?_destroyIn _ _ _ (Ne.symm hc)]
      rfl
    rw [hsame]
    exact scans_unmoved (if_neg hc) hcalls htold

section Report

variable {h : Hub H} {c₀ : CentralId} {m : Central H} {r : Report H}

theorem step_of_receive (hm : h.centrals.get? c₀ = some m) (c : CentralId) :
    let t : Moment H := ⟨h, .report c₀ r⟩
    let s := m.receive h.settings h.ids r
    t.scanAfter c = (if c = c₀ then some s.state.1.scan else t.scanBefore c) ∧
      t.scanCalls c = Effect.scanCalls c s.effects ∧ t.told c = Effect.records c s.effects := by
  intro t s
  have hreceive : h.receive c₀ r =
      ⟨{ h with centrals := h.centrals.insert c₀ s.state.1, ids := s.state.2 }, s.effects⟩ := by
    simp [Hub.receive, hm, s]
  have hafter : t.scanAfter c = (h.receive c₀ r).state.scan? c := rfl
  have heffects : t.effects = (h.receive c₀ r).effects := rfl
  rw [hreceive] at hafter heffects
  exact ⟨hafter.trans (Hub.scan?_of_insert rfl c), congrArg _ heffects, congrArg _ heffects⟩

theorem scans_powerChanged (hm : h.centrals.get? c₀ = some m) (on : Bool) (message : String)
    (c : CentralId) :
    let t : Moment H := ⟨h, .report c₀ (.stateChanged on message)⟩
    t.Scans c (t.scanBefore c) (t.scanAfter c) := by
  intro t
  obtain ⟨hafter, hcalls, htold⟩ := step_of_receive (r := .stateChanged on message) hm c
  have hevent : t.scanEvent? c = if c₀ = c ∧ on = false then some .powerOff else none := rfl
  rw [show t.scanAfter c = _ from hafter]
  have hfree : ∀ e ∈ (m.receive h.settings h.ids (.stateChanged on message)).effects,
      e.isOfScan = false := by
    simp [Central.receive, Central.powerChanged, Effect.isOfScan]
  have hcalls' : t.scanCalls c = [] := hcalls.trans (Effect.scanCalls_eq_nil hfree c)
  have htold' : t.told c = [] := htold.trans (Effect.records_eq_nil hfree c)
  by_cases hc : c = c₀
  · subst hc
    have hbefore : t.scanBefore c = some m.scan := Hub.scan?_of_get? hm
    have hscan : (m.receive h.settings h.ids (.stateChanged on message)).state.1.scan =
        if on then m.scan else none := rfl
    rw [if_pos rfl, hscan, hbefore]
    cases on with
    | true => exact .kept _ (by simp [hevent]) hcalls' htold'
    | false =>
      have hoff : t.scanEvent? c = some .powerOff := if_pos ⟨rfl, rfl⟩
      cases m.scan with
      | none => exact .kept _ (by simp [hoff]) hcalls' htold'
      | some s => exact .cut s hoff hcalls' htold'
  · rw [if_neg hc]
    exact .kept _ (by simp [hevent, Ne.symm hc]) hcalls' htold'

theorem scans_advertised (hl : h.Labelled) (hm : h.centrals.get? c₀ = some m)
    (record : Advertisement) (c : CentralId) :
    let t : Moment H := ⟨h, .report c₀ (.advertised record)⟩
    t.Scans c (t.scanBefore c) (t.scanAfter c) := by
  intro t
  obtain ⟨hafter, hcalls, htold⟩ := step_of_receive (r := .advertised record) hm c
  have hevent : t.scanEvent? c = if c₀ = c then some (.advertisement record) else none := rfl
  have hid := hl.central_id hm
  rw [show t.scanAfter c = _ from hafter]
  by_cases hc : c = c₀
  · subst hc
    have hevent : t.scanEvent? c = some (.advertisement record) := hevent.trans (if_pos rfl)
    have hbefore : t.scanBefore c = some m.scan := Hub.scan?_of_get? hm
    rw [if_pos rfl, hbefore]
    cases hscan : m.scan with
    | none =>
      simp only [Central.receive, Central.advertised, hscan] at hcalls htold ⊢
      exact .kept _ (by simp [hevent]) hcalls htold
    | some s =>
      by_cases hs : s.reports record.peer = true
      · simp only [Central.receive, Central.advertised, hscan, hs, if_true] at hcalls htold ⊢
        refine .advertised s record hevent hcalls ?_
        rw [if_pos hs]
        simpa [Effect.records, Notice.record?, hid] using htold
      · have hseen : s.note record.peer = s := by
          obtain ⟨-, hmem⟩ : s.allowDuplicates = false ∧ record.peer ∈ s.reported := by
            simpa [Scan.reports] using hs
          simp [Scan.note, List.insert_of_mem hmem]
        simp only [Central.receive, Central.advertised, hscan, if_neg hs] at hcalls htold ⊢
        have hadvertised := Scans.advertised (t := t) s record hevent hcalls
          (by rw [if_neg hs]; exact htold)
        rwa [hseen] at hadvertised
  · rw [if_neg hc]
    refine .kept _ (by simp [hevent, Ne.symm hc]) ?_ ?_
    · rw [show t.scanCalls c = _ from hcalls]
      simp only [Central.receive, Central.advertised]
      split
      · rfl
      · split <;> rfl
    · rw [show t.told c = _ from htold]
      simp only [Central.receive, Central.advertised]
      split
      · rfl
      · split <;> simp [Effect.records, Notice.record?, hid, Ne.symm hc]

theorem scans_peerReported (hm : h.centrals.get? c₀ = some m) (p : PeerId)
    (report : PeerReport H) (c : CentralId) :
    let t : Moment H := ⟨h, .report c₀ (.peer p report)⟩
    t.Scans c (t.scanBefore c) (t.scanAfter c) := by
  intro t
  obtain ⟨hafter, hcalls, htold⟩ := step_of_receive (r := .peer p report) hm c
  have hscan : (m.receive h.settings h.ids (.peer p report)).state.1.scan = m.scan := by
    simp only [Central.receive, Central.peerReported]
    split <;> rfl
  have hkept : t.scanAfter c = t.scanBefore c := by
    rw [show t.scanAfter c = _ from hafter, hscan]
    split
    next hc => rw [hc, scanBefore, Hub.scan?_of_get? hm]
    next => rfl
  rw [hkept]
  refine scans_unmoved rfl ?_ ?_
  · rw [show t.scanCalls c = _ from hcalls]
    simp only [Central.receive, Central.peerReported]
    split
    · rfl
    · simp [Effect.scanCalls, Peer.calls_receive]
  · rw [show t.told c = _ from htold]
    simp only [Central.receive, Central.peerReported]
    split
    · rfl
    next q hq =>
      have hreaction := q.reaction_receive h.settings h.ids report
      rw [Effect.records, Effect.notices_log, List.filterMap_eq_nil_iff]
      intro n hn
      obtain ⟨k, rfl⟩ := hreaction.notices_of_mem n hn
      rfl

theorem scans_report (hl : h.Labelled) (c₀ : CentralId) (r : Report H) (c : CentralId) :
    let t : Moment H := ⟨h, .report c₀ r⟩
    t.Scans c (t.scanBefore c) (t.scanAfter c) := by
  intro t
  cases hm : h.centrals.get? c₀ with
  | none =>
    have hreceive : h.receive c₀ r = ⟨h, [.log (.misrouted c₀ r)]⟩ := by simp [Hub.receive, hm]
    have hafter : t.scanAfter c = (h.receive c₀ r).state.scan? c := rfl
    have heffects : t.effects = (h.receive c₀ r).effects := rfl
    rw [hreceive] at hafter heffects
    have hnone : t.scanBefore c₀ = none := by simp [t, scanBefore, Hub.scan?, hm]
    rw [hafter]
    refine .kept _ (fun e he => ?_) (congrArg (Effect.scanCalls c) heffects)
      (congrArg (Effect.records c) heffects)
    have hc : c₀ = c ∧ ∀ b, e ≠ .begin b := by
      cases r with
      | stateChanged on message =>
        obtain ⟨⟨hc, -⟩, rfl⟩ : (c₀ = c ∧ on = false) ∧ .powerOff = e := by
          simpa [scanEvent?, t] using he
        exact ⟨hc, by simp⟩
      | advertised record =>
        obtain ⟨hc, rfl⟩ : c₀ = c ∧ .advertisement record = e := by simpa [scanEvent?, t] using he
        exact ⟨hc, by simp⟩
      | peer => cases he
    rw [← hc.1, hnone]
    exact ⟨rfl, hc.2, fun _ => rfl⟩
  | some m =>
    cases r with
    | stateChanged on message => exact scans_powerChanged hm on message c
    | advertised record => exact scans_advertised hl hm record c
    | peer p report => exact scans_peerReported hm p report c

end Report

/-- Whatever the moment, a manager's scan meets with one of the few fates. -/
theorem scans (t : Moment H) (hl : t.hub.Labelled)
    (hfree : t.allocates = true → t.hub.centrals.get? t.hub.next = none) (c : CentralId) :
    t.Scans c (t.scanBefore c) (t.scanAfter c) := by
  obtain ⟨h, m⟩ := t
  cases m with
  | report c₀ r => exact scans_report hl c₀ r c
  | shutdown answers =>
    exact scans_of_closed rfl rfl (Hub.scanCalls_shutdown hl answers c)
      (h.records_shutdown answers c)
  | request answers r =>
    cases r with
    | allocate => exact scans_allocate h answers hfree c
    | destroy c₀ => exact scans_destroy h hl answers c₀ c
    | scan c₀ allowDuplicates => exact scans_scan h hl answers c₀ allowDuplicates c
    | stopScan c₀ => exact scans_stopScan h hl answers c₀ c
    | forget c₀ p =>
      exact scans_withCentral h c₀ (·.forget p) (Hub.noting_spec _ _ _).1 (effects_noting _ _ _) rfl
        (fun m => m.scan_forget p) fun m => m.isOfScan_forget p
    | act c₀ p action =>
      exact scans_withCentral h c₀ (·.withPeer answers p (·.perform answers action))
        (Hub.noting_spec _ _ _).1 (effects_noting _ _ _) rfl (fun m => m.scan_withPeer answers p)
        fun m => m.isOfScan_withPeer answers p fun q => q.isOfScan_perform answers action
    | attMtu c₀ p =>
      exact scans_withCentral h c₀ (·.withPeer answers p (·.attMtu answers)) rfl
        (fun _ he => .inl he) rfl (fun m => m.scan_withPeer answers p)
        fun m => m.isOfScan_withPeer answers p fun q => q.isOfScan_attMtu answers
    | query q => exact scans_unmoved rfl rfl rfl

end Moment

end GattHub
