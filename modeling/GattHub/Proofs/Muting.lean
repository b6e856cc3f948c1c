import GattHub.Proofs.Deed
import GattHub.Proofs.Forwarding
import GattHub.Proofs.PeerCalls

/-! A hub that is set to pass no notified values on, beside one that is set to do so. Nothing but the
handling of a value looks at the setting, and a value that nobody asked for leaves no trace in the hub;
so the two stay alike all along, and those values are all that is missing. -/

namespace GattHub

variable {H : Handles}

section MapState

variable {σ τ α : Type}

/-- The same response, with the state seen in another way. -/
def Response.mapState (f : σ → τ) (r : Response H σ α) : Response H τ α :=
  ⟨f r.state, r.result, r.effects⟩

def Step.mapState (f : σ → τ) (s : Step H σ) : Step H τ := ⟨f s.state, s.effects⟩

end MapState

namespace Peer

variable {q : Peer H}

theorem receive_congr (settings settings' : Settings) (ids : IdSource) {report : PeerReport H}
    (h : ∀ status uuid value, report ≠ .characteristicRead status uuid value) :
    q.receive settings ids report = q.receive settings' ids report := by
  cases report with
  | characteristicRead status uuid value => exact absurd rfl (h status uuid value)
  | _ => rfl

/-- A value that is awaited completes its read whatever is set. -/
theorem receive_eq_of_awaited (settings settings' : Settings) (ids : IdSource) {status : Status}
    {uuid : Uuid} {value : Octets} (h : .readCharacteristic uuid ∈ q.pending) :
    q.receive settings ids (.characteristicRead status uuid value) =
      q.receive settings' ids (.characteristicRead status uuid value) := by
  obtain ⟨pre, post, -, -, htake⟩ := Pending.take?_of_mem h
  simp only [receive, characteristicRead, htake]

end Peer

namespace Hub

variable (s : Settings) (h : Hub H) (answers : Answers H)

/-- The hub with other settings. -/
def withSettings (h : Hub H) : Hub H := { h with settings := s }

theorem allocate_withSettings :
    (h.withSettings s).allocate answers = (h.allocate answers).mapState (withSettings s) := by
  simp only [allocate, show (h.withSettings s).next = h.next from rfl]
  cases answers.refusal h.next .openCentral <;> rfl

theorem withCentral_withSettings {α : Type} (c : CentralId)
    (f : Central H → Response H (Central H) α) :
    (h.withSettings s).withCentral c f = (h.withCentral c f).mapState (withSettings s) := by
  simp only [withCentral, show (h.withSettings s).central c = h.central c from rfl]
  cases h.central c <;> rfl

theorem destroyIn_withSettings (order : Central H → List PeerId) (c : CentralId) :
    (h.withSettings s).destroyIn order answers c =
      (h.destroyIn order answers c).mapState (withSettings s) := by
  simp only [destroyIn, show (h.withSettings s).central c = h.central c from rfl]
  cases h.central c <;> rfl

theorem shutdown_withSettings :
    (h.withSettings s).shutdown answers = (h.shutdown answers).mapState (withSettings s) := by
  have hfold (ids : List CentralId) (x : Step H (Hub H)) :
      ids.foldl (fun y c => Step.mk (y.state.destroyIn trackingOrder answers c).state
          (y.effects ++ (y.state.destroyIn trackingOrder answers c).effects))
          (x.mapState (withSettings s)) =
        (ids.foldl (fun y c => Step.mk (y.state.destroyIn trackingOrder answers c).state
          (y.effects ++ (y.state.destroyIn trackingOrder answers c).effects)) x).mapState
            (withSettings s) := by
    induction ids generalizing x with
    | nil => rfl
    | cons c ids ih =>
      rw [List.foldl_cons, List.foldl_cons, ← ih]
      simp only [Step.mapState, destroyIn_withSettings]
      rfl
  exact hfold h.centralIds ⟨h, []⟩

theorem noting_mapState {α : Type} (c : CentralId) (p : PeerId) (r : Response H (Hub H) α) :
    noting c p (r.mapState (withSettings s)) = (noting c p r).mapState (withSettings s) := by
  obtain ⟨state, result, effects⟩ := r
  cases result <;> rfl

/-- No request looks at the settings. -/
theorem request_withSettings (r : Request PeerId) :
    (h.withSettings s).request answers r = (h.request answers r).mapState (withSettings s) := by
  cases r with
  | allocate =>
    simp only [request, allocate_withSettings]
    rfl
  | destroy c =>
    simp only [request, destroy, destroyIn_withSettings]
    rfl
  | scan c allowDuplicates =>
    simp only [request, withCentral_withSettings]
    rfl
  | stopScan c =>
    simp only [request, withCentral_withSettings]
    rfl
  | forget c p =>
    simp only [request, withCentral_withSettings, ← noting_mapState]
    rfl
  | act c p action =>
    simp only [request, withCentral_withSettings, ← noting_mapState]
    rfl
  | attMtu c p =>
    simp only [request, withCentral_withSettings]
    rfl
  | query q => rfl

/-- A report to a peer comes out as it does at the peer. -/
theorem receive_withSettings {c : CentralId} {r : Report H}
    (hq : ∀ p report q, r = .peer p report → h.peer? c p = some q →
      q.receive s h.ids report = q.receive h.settings h.ids report) :
    (h.withSettings s).receive c r = (h.receive c r).mapState (withSettings s) := by
  simp only [receive, show (h.withSettings s).centrals = h.centrals from rfl]
  cases hm : h.centrals.get? c with
  | none => rfl
  | some m =>
    have hreceive : m.receive s h.ids r = m.receive h.settings h.ids r := by
      cases r with
      | stateChanged on message => rfl
      | advertised record => rfl
      | peer p report =>
        simp only [Central.receive, Central.peerReported]
        cases hp : m.peers.get? p with
        | none => rfl
        | some q => simp only [hq p report q rfl (peer?_eq_some.mpr ⟨m, hm, hp⟩)]
    simp only [show (h.withSettings s).settings = s from rfl,
      show (h.withSettings s).ids = h.ids from rfl, hreceive]
    rfl

end Hub

namespace Moment

variable {t : Moment H} {c : CentralId} {p : PeerId}

/-- A notice tells the value of a characteristic, and no read of it is pending. -/
def unawaited (t : Moment H) : Notice → Bool
  | .peer c p (.characteristicRead _ uuid _) =>
    (t.before c p).all fun q => .readCharacteristic uuid ∉ q.pending
  | _ => false

theorem unawaited_eq_true {n : Notice} (h : t.unawaited n = true) :
    ∃ c p status uuid value, n = .peer c p (.characteristicRead status uuid value) ∧
      ∀ q, t.before c p = some q → .readCharacteristic uuid ∉ q.pending := by
  cases n with
  | peer c p k =>
    cases k with
    | characteristicRead status uuid value =>
      refine ⟨c, p, status, uuid, value, rfl, fun q hq => ?_⟩
      simpa [unawaited, hq] using h
    | _ => cases h
  | _ => cases h

/-- A value is announced to whoever awaits it, or else because it was reported. -/
theorem awaited_or_reported (hl : t.hub.Labelled) {status : Status} {uuid : Uuid} {value : Octets}
    (hn : .peer c p (.characteristicRead status uuid value) ∈ t.notices) :
    ∃ q, t.before c p = some q ∧ (.readCharacteristic uuid ∈ q.pending ∨
      ∃ status value, t.move = .report c (.peer p (.characteristicRead status uuid value))) := by
  have hends {q : Peer H} {k : PeerNotice} (hk : k.operation? = none)
      (hmem : .peer c p (.characteristicRead status uuid value) ∈ q.cancelNotices ++ [q.notice k]) :
      .readCharacteristic uuid ∈ q.pending := by
    rcases List.mem_append.mp hmem with hmem | hmem
    · obtain ⟨op, hop, heq⟩ := List.mem_map.mp hmem
      cases op <;> cases heq
      exact hop
    · cases List.mem_singleton.mp hmem
      cases hk
  have hfate := t.fate hl c p
  generalize t.before c p = x, t.later c p = y at hfate
  cases hfate with
  | kept _ hsilent => exact absurd hn (hsilent _)
  | tracked _ hsilent => exact absurd hn (hsilent _)
  | observed _ _ _ _ hsilent => exact absurd hn (hsilent _)
  | accepted _ _ _ _ _ hquiet =>
    rw [hquiet] at hn
    cases hn
  | forgotten _ _ hquiet =>
    rw [hquiet] at hn
    cases hn
  | replaced _ _ _ hquiet =>
    rw [hquiet] at hn
    cases hn
  | closed q _ pre post _ hsplit hpre hpost =>
    refine ⟨q, rfl, .inl ?_⟩
    rw [hsplit, List.append_assoc] at hn
    rcases List.mem_append.mp hn with hn | hn
    · exact absurd hn (hpre _)
    rcases List.mem_append.mp hn with hn | hn
    · simp only [Peer.closingNotices] at hn
      split at hn
      · cases hn
      · exact hends rfl hn
    · exact absurd hn (hpost _)
  | reported q q' report hm _ hreaction =>
    refine ⟨q, rfl, ?_⟩
    generalize t.notices = ns at hreaction hn
    cases hreaction with
    | ignored => cases hn
    | established => cases List.mem_singleton.mp hn
    | passed => cases List.mem_singleton.mp hn
    | failed => exact .inl (hends rfl hn)
    | lost => exact .inl (hends rfl hn)
    | completed pre op post n _ _ _ hpending _ hop =>
      cases List.mem_singleton.mp hn
      have hread : op = .readCharacteristic uuid := by
        cases op <;> cases hop
        rfl
      rw [hpending, ← hread]
      exact .inl (List.mem_append_right _ List.mem_cons_self)
    | forwarded _ status uuid value hreport =>
      cases List.mem_singleton.mp hn
      exact .inr ⟨status, value, by rw [hm, hreport]⟩

/-- All that is announced is awaited, unless a value is reported that is not. -/
theorem filter_unawaited (hl : t.hub.Labelled)
    (hm : ∀ c p status uuid value q,
      t.move = .report c (.peer p (.characteristicRead status uuid value)) →
      t.before c p = some q → .readCharacteristic uuid ∈ q.pending) :
    t.notices.filter (fun n => !t.unawaited n) = t.notices := by
  refine List.filter_eq_self.mpr fun n hn => ?_
  by_contra hunawaited
  obtain ⟨c, p, status, uuid, value, rfl, hnone⟩ :=
    unawaited_eq_true (by simpa using hunawaited : t.unawaited n = true)
  obtain ⟨q, hq, hmem | ⟨status', value', hmove⟩⟩ := awaited_or_reported hl hn
  · exact hnone q hq hmem
  · exact hnone q hq (hm c p status' uuid value' q hmove hq)

/-- The same message, taken by two hubs of which the second passes no notified values on. -/
structure Muted (s : Settings) (t t' : Moment H) : Prop where
  hub_eq : t'.hub = t.hub.withSettings s
  move_eq : t'.move = t.move
  reply_eq : t'.reply? = t.reply?
  calls_eq : Effect.calls t'.effects = Effect.calls t.effects
  notices_eq : t'.notices = t.notices.filter fun n => !t.unawaited n
  after_eq : t'.after = t.after.map (·.withSettings s)

variable {s : Settings}

/-- What comes of a message that the settings do not matter to. -/
theorem muted_of_step (hl : t.hub.Labelled)
    (hm : ∀ c p status uuid value q,
      t.move = .report c (.peer p (.characteristicRead status uuid value)) →
      t.before c p = some q → .readCharacteristic uuid ∈ q.pending)
    (hreply : (Moment.mk (t.hub.withSettings s) t.move).reply? = t.reply?)
    (hstep : (Moment.mk (t.hub.withSettings s) t.move).step =
      t.step.mapState (Option.map (·.withSettings s))) :
    t.Muted s ⟨t.hub.withSettings s, t.move⟩ := by
  have heffects : (Moment.mk (t.hub.withSettings s) t.move).effects = t.effects := by
    rw [effects, hstep]
    rfl
  refine ⟨rfl, rfl, hreply, by rw [heffects], ?_, congrArg Step.state hstep⟩
  rw [filter_unawaited hl hm, notices, heffects]
  rfl

/-- A value that nobody asked for goes out, or does not; nothing else comes of it. -/
theorem muted_notified (hs : s.forwardNotifications = false) (hl : t.hub.Labelled) {status : Status}
    {uuid : Uuid} {value : Octets} {q : Peer H}
    (hm : t.move = .report c (.peer p (.characteristicRead status uuid value)))
    (hq : t.before c p = some q) (hno : .readCharacteristic uuid ∉ q.pending) :
    t.Muted s ⟨t.hub.withSettings s, t.move⟩ := by
  set t' : Moment H := ⟨t.hub.withSettings s, t.move⟩
  have hl' : t'.hub.Labelled := ⟨hl.central_id, hl.peer_central, hl.peer_id⟩
  obtain ⟨hafter, hyes, hnot⟩ := t.value_notified hl hm hq hno
  obtain ⟨hafter', -, hsilent⟩ := t'.value_notified hl' hm hq hno
  have hquiet : t'.notices = [] := hsilent fun hforwards => by
    have hon : s.forwardNotifications = true := (Peer.forwards_iff.mp hforwards).1
    rw [hs] at hon
    cases hon
  have hall : t.notices.filter (fun n => !t.unawaited n) = [] := by
    by_cases hforwards : q.forwards t.hub.settings status uuid = true
    · simp [hyes hforwards, unawaited, hq, hno]
    · rw [hnot hforwards]
      rfl
  refine ⟨rfl, rfl, by simp [reply?, t', hm], ?_, by rw [hquiet, hall], by rw [hafter, hafter']; rfl⟩
  rw [calls_report hm, calls_report (t := t') hm]

theorem muted (hs : s.forwardNotifications = false) (hl : t.hub.Labelled) :
    t.Muted s ⟨t.hub.withSettings s, t.move⟩ := by
  obtain ⟨h, move⟩ := t
  cases move with
  | request answers r =>
    have hrequest := h.request_withSettings s answers r
    refine muted_of_step hl (by simp) ?_ ?_
    · simp only [reply?, hrequest]
      rfl
    · simp only [step, hrequest]
      rfl
  | shutdown answers =>
    refine muted_of_step hl (by simp) rfl ?_
    simp only [step, h.shutdown_withSettings s answers]
    rfl
  | report c r =>
    by_cases hvalue : ∃ p status uuid value q, r = .peer p (.characteristicRead status uuid value) ∧
        h.peer? c p = some q ∧ .readCharacteristic uuid ∉ q.pending
    · obtain ⟨p, status, uuid, value, q, rfl, hq, hno⟩ := hvalue
      exact muted_notified hs hl rfl hq hno
    have hawaited {p : PeerId} {status : Status} {uuid : Uuid} {value : Octets} {q : Peer H}
        (hr : r = .peer p (.characteristicRead status uuid value)) (hq : h.peer? c p = some q) :
        .readCharacteristic uuid ∈ q.pending := by
      by_contra hno
      exact hvalue ⟨p, status, uuid, value, q, hr, hq, hno⟩
    have hreceive := h.receive_withSettings s (c := c) (r := r) fun p report q hr hq => by
      by_cases hread : ∃ status uuid value, report = .characteristicRead status uuid value
      · obtain ⟨status, uuid, value, rfl⟩ := hread
        exact q.receive_eq_of_awaited _ _ _ (hawaited hr hq)
      · exact q.receive_congr _ _ _ fun status uuid value heq => hread ⟨status, uuid, value, heq⟩
    refine muted_of_step hl ?_ rfl ?_
    · rintro c' p status uuid value q ⟨⟩ hq
      exact hawaited rfl hq
    · simp only [step, hreceive]
      rfl

end Moment

namespace Run

/-- The same run, with a hub that passes no notified values on. -/
structure Muted (s : Settings) (r r' : Run H) : Prop where
  hub_eq : r'.hub = r.hub.map (·.withSettings s)
  past : List.Forall₂ (Moment.Muted s) r.past r'.past

theorem muted (settings : Settings) {s : Settings} (hs : s.forwardNotifications = false)
    (ms : List (Move H)) : (of settings ms).Muted s (of s ms) := by
  induction ms using List.reverseRecOn with
  | nil => exact ⟨rfl, .nil⟩
  | append_singleton ms m ih =>
    have hhub := ih.hub_eq
    rw [of_append_singleton, of_append_singleton]
    cases hr : (of settings ms).hub with
    | none =>
      rw [hr] at hhub
      rwa [take_none hr, take_none hhub]
    | some h =>
      rw [hr] at hhub
      have hl := (labelled settings ms).2 h hr
      have hmoment := Moment.muted (t := ⟨h, m⟩) hs hl
      rw [take_some hr, take_some hhub]
      exact ⟨hmoment.after_eq, List.rel_append ih.past (.cons hmoment .nil)⟩

/-- Whether notified values are passed on changes nothing else. With the same messages and the same
answers of the host, a hub that passes none on has the same replies, calls and states at every step as
one that does, the setting apart, and of the notices just those are missing which tell the value of a
characteristic while no read of it is pending. -/
theorem forwarding_only_adds (settings : Settings) (ms : List (Move H)) :
    let on := of (settings.withForwardNotifications true) ms
    let off := of (settings.withForwardNotifications false) ms
    List.Forall₂ (fun t t' => t'.move = t.move ∧
        t'.hub = t.hub.withSettings (settings.withForwardNotifications false) ∧
        t'.reply? = t.reply? ∧ Effect.calls t'.effects = Effect.calls t.effects ∧
        t'.notices = t.notices.filter (fun n => !t.unawaited n) ∧
        t'.after = t.after.map (·.withSettings (settings.withForwardNotifications false)))
      on.past off.past ∧
    off.hub = on.hub.map (·.withSettings (settings.withForwardNotifications false)) ∧
    Effect.notices off.effects =
      on.past.flatMap fun t => t.notices.filter fun n => !t.unawaited n := by
  intro on off
  obtain ⟨hhub, hpast⟩ := muted (settings.withForwardNotifications true)
    (s := settings.withForwardNotifications false) rfl ms
  refine ⟨hpast.imp fun t t' ht => ⟨ht.move_eq, ht.hub_eq, ht.reply_eq, ht.calls_eq, ht.notices_eq,
    ht.after_eq⟩, hhub, ?_⟩
  have hnotices : Effect.notices off.effects = off.past.flatMap Moment.notices :=
    List.filterMap_flatMap
  rw [hnotices]
  generalize on.past = ts, off.past = ts' at hpast
  induction hpast with
  | nil => rfl
  | cons ht _ ih => rw [List.flatMap_cons, List.flatMap_cons, ht.notices_eq, ih]

end Run

end GattHub
