import GattHub.Proofs.PeerUpdate

/-! A request in the words of its caller, from the text that names a peer to the reply. One that is
turned down leaves no trace, but that its peer may have come to be tracked. -/

namespace GattHub

variable {H : Handles}

/-- What comes of a request as callers make it. A text that names no peer is turned down at once, and
so is every request when the hub is gone. -/
def Request.serve (answers : Answers H) (hub : Option (Hub H)) (r : Request String) :
    Response H (Option (Hub H)) Reply :=
  match r.resolve, hub with
  | .error reason, _ => ⟨hub, .error reason, []⟩
  | .ok _, none => ⟨none, .error .closed, []⟩
  | .ok r, some h =>
    ⟨some (h.request answers r).state, (h.request answers r).result, (h.request answers r).effects⟩

/-- The peer that a request is put to. If it is not tracked yet, the host is asked for it. -/
def Request.puts? : Request PeerId → Option (CentralId × PeerId)
  | .act c p _ | .attMtu c p => some (c, p)
  | _ => none

namespace Request

variable {answers : Answers H} {hub : Option (Hub H)} {r : Request String}

theorem serve_of_error {reason : Rejection} (hr : r.resolve = .error reason) :
    r.serve answers hub = ⟨hub, .error reason, []⟩ := by
  simp [serve, hr]

theorem serve_none {r' : Request PeerId} (hr : r.resolve = .ok r') :
    r.serve answers none = ⟨none, .error .closed, []⟩ := by
  simp [serve, hr]

theorem serve_some {r' : Request PeerId} (hr : r.resolve = .ok r') (h : Hub H) :
    r.serve answers (some h) = ⟨some (h.request answers r').state,
      (h.request answers r').result, (h.request answers r').effects⟩ := by
  simp [serve, hr]

end Request

namespace Turn

variable {σ : Type}

theorem replies_deliver (host : HostStack H σ) (t : Turn H σ) (e : Effect H) :
    (t.deliver host e).occurrences.filterMap Occurrence.reply? =
      t.occurrences.filterMap Occurrence.reply? := by
  cases e <;> simp [deliver, log, Occurrence.reply?]

theorem replies_advance (host : HostStack H σ) (t : Turn H σ) (s : Step H (Hub H)) :
    (t.advance host s).occurrences.filterMap Occurrence.reply? =
      t.occurrences.filterMap Occurrence.reply? := by
  have hfold (es : List (Effect H)) (t : Turn H σ) :
      (es.foldl (deliver host) t).occurrences.filterMap Occurrence.reply? =
        t.occurrences.filterMap Occurrence.reply? := by
    induction es generalizing t with
    | nil => rfl
    | cons e es ih => rw [List.foldl_cons, ih, replies_deliver]
  exact hfold s.effects _

/-- A queued request is served when its message is taken. -/
theorem take_request (t : Turn H σ) (host : HostStack H σ) (ticket : Nat) {r : Request String}
    {r' : Request PeerId} (hr : r.resolve = .ok r') :
    let s := r.serve (host.answers t.host) t.worker.hub
    (t.take host (.request ticket r')).worker.hub = s.state ∧
      Occurrence.effects (t.take host (.request ticket r')).occurrences =
        Occurrence.effects t.occurrences ++ s.effects ∧
      (t.take host (.request ticket r')).occurrences.filterMap Occurrence.reply? =
        t.occurrences.filterMap Occurrence.reply? ++ [(ticket, s.result)] := by
  cases hhub : t.worker.hub with
  | none =>
    simp only [take, hhub, Request.serve_none hr]
    exact ⟨hhub, effects_log _ _, List.filterMap_append⟩
  | some h =>
    simp only [take, hhub, Request.serve_some hr]
    obtain ⟨hstate, heffects⟩ := advance_spec host t ⟨(h.request (host.answers t.host) r').state,
      (h.request (host.answers t.host) r').effects⟩
    refine ⟨hstate, ?_, ?_⟩
    · rw [effects_log, heffects]
      simp [Occurrence.effects, Occurrence.effect?]
    · simp only [log, List.filterMap_append, replies_advance]
      rfl

/-- A request that a caller submits is turned down on the spot, or it is queued, and served by the
hub that is there when its message is taken. -/
theorem submitted (host : HostStack H σ) (w : Worker H) (ticket : Nat) (r : Request String) :
    (∃ reason, w.submit ticket r = .error reason ∧
      ∀ answers, r.serve answers w.hub = ⟨w.hub, .error reason, []⟩) ∨
    ∃ r', w.submit ticket r = .ok (w.post (.request ticket r')) ∧ ∀ t : Turn H σ,
      let s := r.serve (host.answers t.host) t.worker.hub
      (t.take host (.request ticket r')).worker.hub = s.state ∧
        Occurrence.effects (t.take host (.request ticket r')).occurrences =
          Occurrence.effects t.occurrences ++ s.effects ∧
        (t.take host (.request ticket r')).occurrences.filterMap Occurrence.reply? =
          t.occurrences.filterMap Occurrence.reply? ++ [(ticket, s.result)] := by
  cases hr : r.resolve with
  | error reason =>
    refine .inl ⟨reason, ?_, fun answers => Request.serve_of_error hr⟩
    simp [Worker.submit, hr, Except.bind]
  | ok r' =>
    cases hhub : w.hub with
    | none =>
      refine .inl ⟨.closed, ?_, fun answers => Request.serve_none hr⟩
      simp [Worker.submit, hr, Except.bind, Worker.running, hhub]
    | some h =>
      refine .inr ⟨r', ?_, fun t => t.take_request host ticket hr⟩
      simp [Worker.submit, hr, Except.bind, Worker.running, hhub]

end Turn

namespace Hub

variable {h : Hub H} {answers : Answers H}

/-- What a request that is turned down makes of the hub: nothing, or its peer is tracked from now
on, as one that the host has made known. -/
def Untouched (answers : Answers H) (h : Hub H) (r : Request PeerId) (h' : Hub H) : Prop :=
  h' = h ∨ ∃ c p native, r.puts? = some (c, p) ∧ (h.centrals.get? c).isSome ∧
    h.peer? c p = none ∧ answers.lookup c p = some native ∧ h' = h.setPeer c p (.new c p native)

theorem Untouched.kept {r : Request PeerId} {h' : Hub H} (hu : Untouched answers h r h') :
    h'.ids = h.ids ∧ h'.next = h.next ∧
      ∀ c p q, h.peer? c p = some q → h'.peer? c p = some q := by
  rcases hu with rfl | ⟨c, p, native, -, hm, hq, -, rfl⟩
  · exact ⟨rfl, rfl, fun _ _ _ hq => hq⟩
  · obtain ⟨m, hm⟩ := Option.isSome_iff_exists.mp hm
    refine ⟨rfl, rfl, fun c' p' q' hq' => ?_⟩
    rw [peer?_setPeer hm, if_neg]
    · exact hq'
    · rintro ⟨rfl, rfl⟩
      rw [hq] at hq'
      cases hq'

theorem untouched_withPeer {α : Type} (hl : h.Labelled) {r : Request PeerId} {c : CentralId}
    {p : PeerId} (hputs : r.puts? = some (c, p)) {f : Peer H → Response H (Peer H) α}
    (hquiet : ∀ q, Effect.notices (f q).effects = [])
    (hkept : ∀ q, (f q).result.isOk = false → (f q).state = q)
    (hno : (h.withCentral c (·.withPeer answers p f)).result.isOk = false) :
    Effect.notices (h.withCentral c (·.withPeer answers p f)).effects = [] ∧
      Untouched answers h r (h.withCentral c (·.withPeer answers p f)).state := by
  cases hq : h.peer? c p with
  | some q =>
    rw [withPeer_tracked hq] at hno ⊢
    refine ⟨hquiet q, .inl ?_⟩
    rw [hkept q hno, setPeer_self hq]
  | none =>
    cases hm : h.centrals.get? c with
    | none =>
      rw [withCentral_none hm]
      exact ⟨rfl, .inl rfl⟩
    | some m =>
      have hp : m.peers.get? p = none := (peer?_of_get? hm p).symm.trans hq
      cases hlookup : answers.lookup c p with
      | none =>
        rw [withPeer_unknown hm (hl.central_id hm) hp hlookup]
        exact ⟨rfl, .inl rfl⟩
      | some native =>
        rw [withPeer_known hm (hl.central_id hm) hp hlookup] at hno ⊢
        refine ⟨by simp [hquiet], .inr ⟨c, p, native, hputs, by simp [hm], hq, hlookup, ?_⟩⟩
        rw [hkept _ hno]

theorem untouched_withCentral {α : Type} {r : Request PeerId} {c : CentralId}
    {f : Central H → Response H (Central H) α}
    (hkept : ∀ m, (f m).result.isOk = false → Effect.notices (f m).effects = [] ∧ (f m).state = m)
    (hno : (h.withCentral c f).result.isOk = false) :
    Effect.notices (h.withCentral c f).effects = [] ∧
      Untouched answers h r (h.withCentral c f).state := by
  cases hm : h.centrals.get? c with
  | none =>
    rw [withCentral_none hm]
    exact ⟨rfl, .inl rfl⟩
  | some m =>
    rw [withCentral_some hm] at hno ⊢
    obtain ⟨hquiet, hstate⟩ := hkept m hno
    refine ⟨hquiet, .inl ?_⟩
    dsimp only
    rw [hstate, Table.insert_of_get? hm]

theorem isOk_noting {α : Type} (c : CentralId) (p : PeerId) (r : Response H (Hub H) α)
    (f : α → Reply) : (noting c p (reply r f)).result.isOk = r.result.isOk := by
  rw [(noting_spec c p _).2.1, isOk_reply]

theorem untouched_request (hl : h.Labelled) {r : Request PeerId}
    (hno : (h.request answers r).result.isOk = false) :
    Effect.notices (h.request answers r).effects = [] ∧
      Untouched answers h r (h.request answers r).state := by
  cases r with
  | allocate =>
    rw [request, isOk_reply] at hno
    simp only [request, reply, allocate] at hno ⊢
    split at hno
    next => exact ⟨rfl, .inl rfl⟩
    next => cases hno
  | destroy c =>
    rw [request, isOk_reply] at hno
    simp only [request, reply, destroy, destroyIn] at hno ⊢
    split at hno
    next => exact ⟨rfl, .inl rfl⟩
    next => cases hno
  | scan c allowDuplicates =>
    rw [request, isOk_reply] at hno
    refine untouched_withCentral (fun m hm => ?_) hno
    simp only [Central.startScan] at hm ⊢
    split at hm
    next => exact ⟨rfl, rfl⟩
    next => cases hm
  | stopScan c =>
    rw [request, isOk_reply] at hno
    exact untouched_withCentral (fun m hm => by cases hm) hno
  | forget c p =>
    rw [request, isOk_noting] at hno
    obtain ⟨hstate, -, hnotices⟩ := noting_spec c p
      (reply (h.withCentral c (·.forget p)) fun _ => .done)
    rw [request, hstate, hnotices]
    refine untouched_withCentral (fun m hm => ?_) hno
    simp only [Central.forget] at hm ⊢
    split at hm
    next => exact ⟨rfl, rfl⟩
    next =>
      split at hm
      next => cases hm
      next hup => rw [if_neg hup]; exact ⟨rfl, rfl⟩
  | act c p action =>
    rw [request, isOk_noting] at hno
    obtain ⟨hstate, -, hnotices⟩ := noting_spec c p
      (reply (h.withCentral c (·.withPeer answers p (·.perform answers action))) fun _ => .done)
    rw [request, hstate, hnotices]
    refine untouched_withPeer hl rfl (fun q => q.notices_perform answers action) (fun q hq => ?_) hno
    rcases q.perform_cases answers action with ⟨hkept, -⟩ | ⟨hyes, -⟩
    · exact hkept
    · rw [hyes] at hq
      cases hq
  | attMtu c p =>
    rw [request, isOk_reply] at hno
    exact untouched_withPeer hl rfl (fun q => (q.attMtu_spec answers).2)
      (fun q _ => (q.attMtu_spec answers).1) hno
  | query q => exact ⟨rfl, .inl rfl⟩

end Hub

namespace Run

variable (settings : Settings) (ms : List (Move H))

/-- A request that is turned down emits nothing, and leaves the hub as it was, but that the peer it
is put to may have come to be tracked. Such a peer is without a link; it knows and awaits nothing. -/
theorem rejected_leaves_no_trace (answers : Answers H) (r : Request String) {reason : Rejection}
    (hrejected : (r.serve answers (of settings ms).hub).result = .error reason) :
    Effect.notices (r.serve answers (of settings ms).hub).effects = [] ∧
      ((r.serve answers (of settings ms).hub).state = (of settings ms).hub ∨
        ∃ h c p native, (of settings ms).hub = some h ∧
          ((∃ action, r.resolve = .ok (.act c p action)) ∨ r.resolve = .ok (.attMtu c p)) ∧
          (h.centrals.get? c).isSome ∧ h.peer? c p = none ∧ answers.lookup c p = some native ∧
          (r.serve answers (of settings ms).hub).state = some (h.setPeer c p
            { central := c, id := p, native, state := .disconnected, rssi := none, tree := ∅,
              pending := [], subscriptions := [] })) ∧
      ∀ h h', (of settings ms).hub = some h →
        (r.serve answers (of settings ms).hub).state = some h' →
        h'.ids = h.ids ∧ h'.next = h.next ∧
          ∀ c p q, h.peer? c p = some q → h'.peer? c p = some q := by
  cases hr : r.resolve with
  | error reason' =>
    rw [Request.serve_of_error hr]
    refine ⟨rfl, .inl rfl, fun h h' hh hh' => ?_⟩
    cases hh.symm.trans hh'
    exact ⟨rfl, rfl, fun _ _ _ hq => hq⟩
  | ok r' =>
    cases hhub : (of settings ms).hub with
    | none =>
      rw [Request.serve_none hr]
      exact ⟨rfl, .inl rfl, nofun⟩
    | some h =>
      rw [hhub, Request.serve_some hr] at hrejected
      rw [Request.serve_some hr]
      have hl := (labelled settings ms).2 h hhub
      have hno : (h.request answers r').result.isOk = false := by rw [hrejected]; rfl
      obtain ⟨hquiet, hstate⟩ := Hub.untouched_request hl hno
      refine ⟨hquiet, ?_, ?_⟩
      · rcases hstate with hsame | ⟨c, p, native, hputs, hm, hq, hlookup, hnew⟩
        · exact .inl (congrArg some hsame)
        · refine .inr ⟨h, c, p, native, rfl, ?_, hm, hq, hlookup, congrArg some hnew⟩
          cases r' with
          | act c' p' action =>
            cases hputs
            exact .inl ⟨action, rfl⟩
          | attMtu c' p' =>
            cases hputs
            exact .inr rfl
          | _ => cases hputs
      · rintro _ _ ⟨⟩ ⟨⟩
        exact hstate.kept

/-- A host that knows every peer, but turns down every call. -/
def refusing : Answers .numbers := { Answers.agreeing with refusal := fun _ _ => some (.failed 7) }

/-- The host turns down a connect to a peer that was not tracked so far. -/
theorem rejected_leaves_no_trace_refused :
    let ms : List (Move .numbers) := [.request .agreeing .allocate]
    let r := Request.act ⟨1⟩ "00000000-0000-0000-0000-000000000000" .connect
    let s := r.serve refusing (of .default ms).hub
    s.result = .error (.refused (.failed 7)) ∧ Effect.notices s.effects = [] ∧
      (of .default ms).hub.bind (·.peer? ⟨1⟩ default) = none ∧
      s.state.bind (·.peer? ⟨1⟩ default) = some (.new ⟨1⟩ default 0) := by
  intro ms r s
  have hrejected : s.result = .error (.refused (.failed 7)) := by decide
  exact ⟨hrejected, (rejected_leaves_no_trace .default ms refusing r hrejected).1, rfl, rfl⟩

end Run

end GattHub
