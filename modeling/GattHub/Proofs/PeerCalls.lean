import GattHub.Proofs.Scanning

/-! The calls that are made about peers, and the native objects that they name. A peer keeps the
object under which the host knew it when it came to be tracked. -/

namespace GattHub

variable {H : Handles}

/-- Every tracked peer bears a native object of its own. -/
def Hub.Bears (R : PeerId → H.Peer → Prop) (h : Hub H) : Prop :=
  ∀ c p q, h.peer? c p = some q → R p q.native

/-- A host that knows peers by native objects of their own and turns no call down. -/
structure Answers.Serves (R : PeerId → H.Peer → Prop) (answers : Answers H) : Prop where
  lookup : ∀ c p n, answers.lookup c p = some n → R p n
  refusal : ∀ c k, answers.refusal c k = none

/-- The host serves while the message is handled. -/
def Moment.Served (R : PeerId → H.Peer → Prop) (t : Moment H) : Prop :=
  ∀ answers, (∃ r, t.move = .request answers r) ∨ t.move = .shutdown answers → answers.Serves R

namespace Peer

theorem native_perform (answers : Answers H) (q : Peer H) (action : PeerAction) :
    (q.perform answers action).state.native = q.native := by
  rcases q.perform_cases answers action with ⟨hsame, -⟩ | ⟨-, haccepts⟩
  · rw [hsame]
  · generalize (q.perform answers action).state = q' at haccepts
    cases haccepts <;> rfl

theorem Reaction.native {q q' : Peer H} {report : PeerReport H} {ns : List Notice}
    (h : q.Reaction report q' ns) : q'.native = q.native := by
  cases h <;> rfl

/-- A link is asked for, or asked to end, by the call of that name. -/
theorem call_of_prepare {q : Peer H} {action : PeerAction} {prepared : Prepared H}
    (h : q.prepare action = .ok prepared) :
    (prepared.call = .connect ↔ action = .connect) ∧
      (prepared.call = .cancelConnection ↔ action = .disconnect) := by
  cases action with
  | connect | disconnect | readRssi =>
    simp only [prepare] at h
    split at h
    all_goals cases h
    all_goals simp
  | discoverServices filter =>
    obtain ⟨-, hok⟩ := whenConnected_eq_ok h
    cases hok
    simp
  | _ =>
    obtain ⟨-, hok⟩ := whenConnected_eq_ok h
    obtain ⟨e, -, rfl⟩ := withEntry_eq_ok hok
    simp

theorem calls_map_log (l : List (LogEntry H)) : Effect.calls (l.map Effect.log) = [] := by
  simp [Effect.calls, List.filterMap_map, Function.comp_def, Effect.call?]

theorem calls_perform {answers : Answers H} (hagrees : ∀ c k, answers.refusal c k = none)
    (q : Peer H) (action : PeerAction) :
    (q.perform answers action).result.isOk = false ∧
        Effect.calls (q.perform answers action).effects = [] ∨
      ∃ prepared, q.prepare action = .ok prepared ∧ (q.perform answers action).result = .ok () ∧
        Effect.calls (q.perform answers action).effects =
          [(q.central, .peer q.native prepared.call)] := by
  simp only [perform]
  cases hp : q.prepare action with
  | error reason => exact .inl ⟨rfl, rfl⟩
  | ok prepared =>
    refine .inr ⟨prepared, rfl, ?_, ?_⟩
    · simp only [hagrees]
    · simp only [hagrees, Effect.calls_call, calls_map_log]

theorem calls_attMtu (answers : Answers H) (q : Peer H) :
    ∀ e ∈ Effect.calls (q.attMtu answers).effects, e = (q.central, .peer q.native .attMtu) := by
  simp only [attMtu]
  split
  · exact fun _ h => absurd h List.not_mem_nil
  · split <;> simp

theorem calls_linkLost (q : Peer H) (reason : Status) :
    Effect.calls (q.linkLost reason).effects = [] := by
  have hcancel : Effect.calls q.cancellations = [] := by
    rw [cancellations]
    induction q.pending with
    | nil => rfl
    | cons op ops ih => simpa using ih
  simp only [linkLost]
  split <;> simp [hcancel]

theorem calls_teardown (answers : Answers H) (q : Peer H) :
    ∀ e ∈ Effect.calls (q.teardown answers).effects,
      e = (q.central, .peer q.native .cancelConnection) := by
  have hlost := q.calls_linkLost .cancelled
  have hrefusal (r : Option Refusal) :
      Effect.calls (r.toList.map fun r => (.log (.cancelRefused q.id r) : Effect H)) = [] := by
    cases r <;> rfl
  simp only [teardown]
  cases q.state with
  | disconnected => exact fun _ h => absurd h List.not_mem_nil
  | disconnecting =>
    rw [hlost]
    exact fun _ h => absurd h List.not_mem_nil
  | connecting | connected => simp [hlost, hrefusal]

end Peer

namespace Central

/-- A request to a peer looks the peer up if it is not tracked, and then makes the peer's call. -/
theorem calls_withPeer {α : Type} (answers : Answers H) (m : Central H) (p : PeerId)
    (f : Peer H → Response H (Peer H) α) :
    ((m.withPeer answers p f).result.isOk = false ∧
        ∀ e ∈ Effect.calls (m.withPeer answers p f).effects, e = (m.id, .lookup p)) ∨
      ∃ q, (m.peers.get? p = some q ∨ m.peers.get? p = none ∧
          ∃ native, answers.lookup m.id p = some native ∧ q = .new m.id p native) ∧
        (m.withPeer answers p f).result = (f q).result ∧
        ∃ looks,
          Effect.calls (m.withPeer answers p f).effects = looks ++ Effect.calls (f q).effects ∧
          ∀ e ∈ looks, e = (m.id, .lookup p) := by
  simp only [withPeer, track]
  cases hq : m.peers.get? p with
  | some q => exact .inr ⟨q, .inl rfl, rfl, [], by simp, by simp⟩
  | none =>
    cases hl : answers.lookup m.id p with
    | none => exact .inl ⟨rfl, by simp [call]⟩
    | some native =>
      exact .inr ⟨_, .inr ⟨rfl, native, rfl, rfl⟩, rfl, [(m.id, .lookup p)], by simp [call], by simp⟩

theorem bears_withPeer {R : PeerId → H.Peer → Prop} {α : Type} {answers : Answers H}
    (hserves : answers.Serves R) {m : Central H}
    (hm : ∀ i q, m.peers.get? i = some q → R i q.native) (p : PeerId)
    {f : Peer H → Response H (Peer H) α} (hf : ∀ q, (f q).state.native = q.native) :
    ∀ i q, (m.withPeer answers p f).state.peers.get? i = some q → R i q.native := by
  simp only [withPeer, track]
  cases hq : m.peers.get? p with
  | some q =>
    intro i q' hi
    dsimp only at hi
    rw [Table.get?_insert] at hi
    split at hi
    next hip =>
      cases hi
      rw [hf, hip]
      exact hm p q hq
    next => exact hm i q' hi
  | none =>
    cases hl : answers.lookup m.id p with
    | none => exact hm
    | some native =>
      intro i q' hi
      dsimp only at hi
      rw [Table.get?_insert] at hi
      split at hi
      next hip =>
        cases hi
        rw [hf, hip]
        exact hserves.lookup _ _ _ hl
      next hip =>
        rw [Table.get?_insert, if_neg hip] at hi
        exact hm i q' hi

theorem calls_teardown (answers : Answers H) (m : Central H) (order : List PeerId) {c : CentralId}
    {n : H.Peer} {k : PeerCall H} (h : (c, .peer n k) ∈ Effect.calls (m.teardown answers order)) :
    k = .cancelConnection ∧ ∃ p q, m.peers.get? p = some q ∧ q.central = c ∧ q.native = n := by
  simp only [teardown, Effect.calls_append, List.mem_append] at h
  rcases h with (h | h) | h
  · exfalso
    split at h
    · simp only [stopScan] at h
      split at h <;> simp [call] at h
    · cases h
  · obtain ⟨e, he, hcall⟩ := List.mem_filterMap.mp h
    obtain ⟨q, hq, he⟩ := List.mem_flatMap.mp he
    obtain ⟨p, -, hq⟩ := List.mem_filterMap.mp hq
    have hmem := List.mem_filterMap.mpr ⟨e, he, hcall⟩
    obtain ⟨hc, hn⟩ := Prod.mk.inj (q.calls_teardown answers _ hmem)
    obtain ⟨hn, hk⟩ := HostCall.peer.inj hn
    exact ⟨hk, p, q, hq, hc.symm, hn.symm⟩
  · simp [call] at h

end Central

namespace Central

/-- No peer comes to be tracked, and those that stay keep their native objects. -/
def Retains (m m' : Central H) : Prop :=
  ∀ i q', m'.peers.get? i = some q' → ∃ q, m.peers.get? i = some q ∧ q'.native = q.native

theorem retains_of_peers {m m' : Central H} (h : m'.peers = m.peers) : m.Retains m' :=
  fun i q' hq => ⟨q', by rw [← h, hq], rfl⟩

theorem retains_forget (m : Central H) (p : PeerId) : m.Retains (m.forget p).state := by
  simp only [forget]
  split
  · exact retains_of_peers rfl
  · split
    · intro i q' hq
      dsimp only at hq
      rw [Table.get?_erase] at hq
      split at hq
      · cases hq
      · exact ⟨q', hq, rfl⟩
    · exact retains_of_peers rfl

theorem retains_receive (settings : Settings) (ids : IdSource) (m : Central H) (r : Report H) :
    m.Retains (m.receive settings ids r).state.1 := by
  cases r with
  | stateChanged on message => exact retains_of_peers rfl
  | advertised record =>
    have hpeers : (m.receive settings ids (.advertised record)).state.1.peers =
        m.peers.modify record.peer (·.observe record.rssi) := by
      simp only [receive, advertised]
      split
      · rfl
      · split <;> rfl
    intro i q' hq
    rw [hpeers, Table.get?_modify] at hq
    split at hq
    · obtain ⟨q, hbefore, rfl⟩ := Option.map_eq_some_iff.mp hq
      obtain ⟨rssi, hrssi⟩ := q.observe_eq record.rssi
      exact ⟨q, hbefore, by rw [hrssi]⟩
    · exact ⟨q', hq, rfl⟩
  | peer p report =>
    simp only [receive, peerReported]
    cases hp : m.peers.get? p with
    | none => exact retains_of_peers rfl
    | some q =>
      intro i q' hq
      dsimp only at hq
      rw [Table.get?_insert] at hq
      split at hq
      next hi =>
        cases hq
        exact ⟨q, by rw [hi, hp], (q.reaction_receive settings ids report).native⟩
      next => exact ⟨q', hq, rfl⟩

end Central

namespace Hub

variable {R : PeerId → H.Peer → Prop} {h : Hub H}

theorem bears_new (settings : Settings) : (Hub.new settings : Hub H).Bears R := nofun

theorem Bears.insert (hb : h.Bears R) {c : CentralId} {m : Central H}
    (hm : ∀ i q, m.peers.get? i = some q → R i q.native) {h' : Hub H}
    (hc : h'.centrals = h.centrals.insert c m) : h'.Bears R := by
  intro c' i q hq
  rw [peer?_of_insert hc] at hq
  split at hq
  · exact hm i q hq
  · exact hb c' i q hq

theorem Bears.central (hb : h.Bears R) {c : CentralId} {m : Central H}
    (hm : h.centrals.get? c = some m) : ∀ i q, m.peers.get? i = some q → R i q.native :=
  fun i q hq => hb c i q ((peer?_of_get? hm i).trans hq)

theorem Bears.retains (hb : h.Bears R) {c : CentralId} {m m' : Central H}
    (hm : h.centrals.get? c = some m) (hret : m.Retains m') {h' : Hub H}
    (hc : h'.centrals = h.centrals.insert c m') : h'.Bears R := by
  refine hb.insert (fun i q' hq' => ?_) hc
  obtain ⟨q, hq, hnative⟩ := hret i q' hq'
  rw [hnative]
  exact hb.central hm i q hq

theorem Bears.withCentral (hb : h.Bears R) {α : Type} (c : CentralId)
    {f : Central H → Response H (Central H) α} (hret : ∀ m : Central H, m.Retains (f m).state) :
    (h.withCentral c f).state.Bears R := by
  rcases h.withCentral_cases c f with ⟨-, hs, -⟩ | ⟨m, hm, hs, -⟩
  · rw [hs]
    exact hb
  · rw [hs]
    exact hb.retains hm (hret m) rfl

theorem Bears.withPeer (hb : h.Bears R) {answers : Answers H} (hserves : answers.Serves R)
    {α : Type} (c : CentralId) (p : PeerId) {f : Peer H → Response H (Peer H) α}
    (hf : ∀ q, (f q).state.native = q.native) :
    (h.withCentral c (·.withPeer answers p f)).state.Bears R := by
  rcases h.withCentral_cases c (·.withPeer answers p f) with ⟨-, hs, -⟩ | ⟨m, hm, hs, -⟩
  · rw [hs]
    exact hb
  · rw [hs]
    exact hb.insert (Central.bears_withPeer hserves (hb.central hm) p hf) rfl

end Hub

namespace Moment

variable {R : PeerId → H.Peer → Prop} {t : Moment H}

/-- A native object comes from the host and is kept. -/
theorem bears (hb : t.hub.Bears R) (hserved : t.Served R) {h : Hub H} (ha : t.after = some h) :
    h.Bears R := by
  obtain ⟨hub, move⟩ := t
  cases move with
  | shutdown answers => cases ha
  | report c r =>
    cases ha
    simp only [Hub.receive]
    split
    next => exact hb
    next m hm => exact hb.retains hm (m.retains_receive _ _ r) rfl
  | request answers r =>
    have hserves : answers.Serves R := hserved answers (.inl ⟨r, rfl⟩)
    cases ha
    cases r with
    | allocate =>
      have hstate : (hub.request answers .allocate).state =
          { hub with
            centrals := hub.centrals.insert hub.next (.new hub.next)
            next := ⟨hub.next.raw + 1⟩ } := by
        simp [Hub.request, Hub.reply, Hub.allocate, hserves.refusal]
      rw [hstate]
      exact hb.insert (fun i q hq => absurd hq (by simp [Central.new])) rfl
    | destroy c =>
      intro c' i q hq
      simp only [Hub.request, Hub.reply, Hub.destroy, Hub.destroyIn] at hq
      split at hq
      · exact hb c' i q hq
      · simp only [Hub.peer?, Table.get?_erase] at hq
        split at hq
        · cases hq
        · exact hb c' i q hq
    | scan c allowDuplicates =>
      refine hb.withCentral c (f := (·.startScan answers allowDuplicates)) fun m => ?_
      simp only [Central.startScan]
      split <;> exact Central.retains_of_peers rfl
    | stopScan c =>
      refine hb.withCentral c (f := fun m =>
        ⟨(m.stopScan answers).state, .ok (), (m.stopScan answers).effects⟩) fun m => ?_
      simp only [Central.stopScan]
      split <;> exact Central.retains_of_peers rfl
    | forget c p =>
      rw [show (hub.request answers (.forget c p)).state = _ from (Hub.noting_spec _ _ _).1]
      exact hb.withCentral c (f := (·.forget p)) fun m => m.retains_forget p
    | act c p action =>
      rw [show (hub.request answers (.act c p action)).state = _ from (Hub.noting_spec _ _ _).1]
      exact hb.withPeer hserves c p fun q => q.native_perform answers action
    | attMtu c p => exact hb.withPeer hserves c p fun q => by rw [(q.attMtu_spec answers).1]
    | query q => exact hb

theorem calls_noting {α : Type} (c : CentralId) (p : PeerId) (r : Response H (Hub H) α) :
    Effect.calls (Hub.noting c p r).effects = Effect.calls r.effects := by
  simp only [Hub.noting]
  split <;> simp

theorem accepted?_act {answers : Answers H} {c : CentralId} {p : PeerId} {action : PeerAction}
    (hm : t.move = .request answers (.act c p action)) : t.accepted? c p =
      if (t.hub.withCentral c (·.withPeer answers p (·.perform answers action))).result.isOk then
        some action
      else none := by
  obtain ⟨h, move⟩ := t
  cases hm
  have hresult := (Hub.noting_spec c p
    (Hub.reply (h.withCentral c (·.withPeer answers p (·.perform answers action)))
      fun _ => .done)).2.1
  rw [← Hub.isOk_reply _ fun _ => .done, ← hresult]
  simp only [accepted?, true_and]
  rfl

theorem move_of_accepted {c : CentralId} {p : PeerId} {action : PeerAction}
    (h : t.accepted? c p = some action) :
    ∃ answers, t.move = .request answers (.act c p action) := by
  cases hm : t.move with
  | report | shutdown => simp [accepted?, hm] at h
  | request answers r =>
    cases r with
    | act c' p' action' =>
      obtain ⟨⟨rfl, rfl, -⟩, rfl⟩ : (c' = c ∧ p' = p ∧ _) ∧ action' = action := by
        simpa [accepted?, hm] using h
      exact ⟨answers, rfl⟩
    | _ => simp [accepted?, hm] at h

/-- A request is accepted by live managers only. -/
theorem open_of_accepted {c : CentralId} {p : PeerId} {action : PeerAction}
    (h : t.accepted? c p = some action) : (t.hub.scan? c).isSome := by
  obtain ⟨answers, hm⟩ := move_of_accepted h
  rw [accepted?_act hm] at h
  rcases t.hub.withCentral_cases c (·.withPeer answers p (·.perform answers action)) with
    ⟨-, -, hno, -⟩ | ⟨m, hget, -⟩
  · rw [hno] at h
    cases h
  · rw [Hub.scan?_of_get? hget]
    rfl

/-- An accepted request makes the call that its session has prepared, after a lookup if the peer was
not tracked. One that is turned down makes no other call than that. -/
theorem calls_act {answers : Answers H} {c : CentralId} {p : PeerId} {action : PeerAction}
    (hl : t.hub.Labelled) (hb : t.hub.Bears R) (hserves : answers.Serves R)
    (hm : t.move = .request answers (.act c p action)) :
    (t.accepted? c p = none ∧ ∀ e ∈ Effect.calls t.effects, e = (c, .lookup p)) ∨
      ∃ q prepared looks, t.accepted? c p = some action ∧ R p q.native ∧
        (t.hub.peer? c p = some q ∨ t.hub.peer? c p = none) ∧ q.prepare action = .ok prepared ∧
        Effect.calls t.effects = looks ++ [(c, .peer q.native prepared.call)] ∧
        ∀ e ∈ looks, e = (c, .lookup p) := by
  obtain ⟨h, move⟩ := t
  cases hm
  set t : Moment H := ⟨h, .request answers (.act c p action)⟩
  set r := h.withCentral c (·.withPeer answers p (·.perform answers action)) with hr
  have hcalls : Effect.calls t.effects = Effect.calls r.effects :=
    calls_noting c p (Hub.reply r fun _ => .done)
  have hacc : t.accepted? c p = if r.result.isOk then some action else none := accepted?_act rfl
  rw [hcalls, hacc]
  rcases h.withCentral_cases c (·.withPeer answers p (·.perform answers action)) with
    ⟨-, -, hres, he⟩ | ⟨m, hget, -, hres, he⟩
  · rw [← hr] at hres he
    exact .inl ⟨by rw [hres]; rfl, by simp [he]⟩
  rw [← hr] at hres he
  have hid : m.id = c := hl.central_id hget
  rw [he, hres]
  rcases m.calls_withPeer answers p (·.perform answers action) with
    ⟨hno, hlooks⟩ | ⟨q, hq, hok, looks, hcalls', hlooks⟩
  · rw [hid] at hlooks
    exact .inl ⟨by rw [hno]; rfl, hlooks⟩
  rw [hid] at hlooks hq
  obtain ⟨hcentral, hnative, hsession⟩ : q.central = c ∧ R p q.native ∧
      (h.peer? c p = some q ∨ h.peer? c p = none) := by
    rw [Hub.peer?_of_get? hget p]
    rcases hq with hq | ⟨hnew, native, hlookup, rfl⟩
    · have hpeer := (Hub.peer?_of_get? hget p).trans hq
      exact ⟨hl.peer_central hpeer, hb c p q hpeer, .inl hq⟩
    · exact ⟨rfl, hserves.lookup c p native hlookup, .inr hnew⟩
  rw [hok, hcalls']
  rcases q.calls_perform hserves.refusal action with ⟨hno, hnone⟩ | ⟨prepared, hp, hyes, hone⟩
  · rw [hnone, List.append_nil]
    exact .inl ⟨by rw [hno]; rfl, hlooks⟩
  · rw [hone, hcentral]
    exact .inr ⟨q, prepared, looks, by rw [hyes]; rfl, hnative, hsession, hp, rfl, hlooks⟩

theorem calls_attMtu {answers : Answers H} {c : CentralId} {p : PeerId}
    (hm : t.move = .request answers (.attMtu c p)) {c' : CentralId} {n : H.Peer} {k : PeerCall H}
    (h : (c', .peer n k) ∈ Effect.calls t.effects) : k = .attMtu := by
  obtain ⟨hub, move⟩ := t
  cases hm
  have hcalls : (c', .peer n k) ∈
      Effect.calls (hub.withCentral c (·.withPeer answers p (·.attMtu answers))).effects := h
  rcases hub.withCentral_cases c (·.withPeer answers p (·.attMtu answers)) with
    ⟨-, -, -, he⟩ | ⟨m, -, -, -, he⟩
  · rw [he] at hcalls
    cases hcalls
  rw [he] at hcalls
  rcases m.calls_withPeer answers p (·.attMtu answers) with
    ⟨-, hlooks⟩ | ⟨q, -, -, looks, hcalls', hlooks⟩
  · cases hlooks _ hcalls
  · rw [hcalls'] at hcalls
    rcases List.mem_append.mp hcalls with hmem | hmem
    · cases hlooks _ hmem
    · cases q.calls_attMtu answers _ hmem
      rfl

theorem calls_destroy {h : Hub H} (hl : h.Labelled) (hb : h.Bears R) (answers : Answers H)
    {c c' : CentralId} {n : H.Peer} {k : PeerCall H}
    (hmem : (c', .peer n k) ∈ Effect.calls (h.destroy answers c).effects) :
    c' = c ∧ k = .cancelConnection ∧ ∃ p, R p n := by
  cases hm : h.centrals.get? c with
  | none =>
    simp only [Hub.destroy, Hub.destroyIn, Hub.central, hm] at hmem
    cases hmem
  | some m =>
    rw [Hub.destroy, Hub.destroyIn_effects _ _ hm, Effect.calls_append] at hmem
    rcases List.mem_append.mp hmem with hmem | hmem
    · obtain ⟨hk, p, q, hq, rfl, rfl⟩ := m.calls_teardown answers _ hmem
      have hpeer := (Hub.peer?_of_get? hm p).trans hq
      exact ⟨hl.peer_central hpeer, hk, p, hb c p q hpeer⟩
    · cases hmem

theorem calls_report {c : CentralId} {r : Report H} (hm : t.move = .report c r) :
    Effect.calls t.effects = [] := by
  obtain ⟨hub, move⟩ := t
  cases hm
  have heffects : (Moment.mk hub (.report c r)).effects = (hub.receive c r).effects := rfl
  rw [heffects, Hub.receive]
  split
  · rfl
  next m hm =>
    cases r with
    | stateChanged on message => rfl
    | advertised record =>
      simp only [Central.receive, Central.advertised]
      split
      · rfl
      · split <;> rfl
    | peer p report =>
      simp only [Central.receive, Central.peerReported]
      split
      · rfl
      · rw [Effect.calls_log]
        exact Peer.calls_receive _ _ _ _

/-- The other requests make no call to a peer. -/
theorem calls_request {answers : Answers H} {r : Request PeerId} (hm : t.move = .request answers r)
    (hact : ∀ c p action, r ≠ .act c p action) (hmtu : ∀ c p, r ≠ .attMtu c p)
    (hdestroy : ∀ c, r ≠ .destroy c) {c : CentralId} {n : H.Peer} {k : PeerCall H} :
    (c, .peer n k) ∉ Effect.calls t.effects := by
  obtain ⟨hub, move⟩ := t
  cases hm
  have hnone {α : Type} (c₀ : CentralId) (f : Central H → Response H (Central H) α)
      (hf : ∀ m, (c, .peer n k) ∉ Effect.calls (f m).effects) :
      (c, .peer n k) ∉ Effect.calls (hub.withCentral c₀ f).effects := by
    rcases hub.withCentral_cases c₀ f with ⟨-, -, -, he⟩ | ⟨m, -, -, -, he⟩
    · simp [he]
    · rw [he]
      exact hf m
  cases r with
  | allocate =>
    simp only [effects, step, Hub.request, Hub.reply, Hub.allocate]
    split <;> simp
  | destroy c₀ => exact absurd rfl (hdestroy c₀)
  | scan c₀ allowDuplicates =>
    refine hnone c₀ (·.startScan answers allowDuplicates) fun m => ?_
    simp only [Central.startScan]
    split <;> simp [Central.call]
  | stopScan c₀ =>
    refine hnone c₀ (fun m => ⟨(m.stopScan answers).state, .ok (), (m.stopScan answers).effects⟩)
      fun m => ?_
    simp only [Central.stopScan]
    split <;> simp [Central.call]
  | forget c₀ p₀ =>
    have hcalls : Effect.calls (Moment.mk hub (.request answers (.forget c₀ p₀))).effects =
        Effect.calls (hub.withCentral c₀ (·.forget p₀)).effects :=
      calls_noting c₀ p₀ (Hub.reply _ fun _ => .done)
    rw [hcalls]
    refine hnone c₀ (·.forget p₀) fun m => ?_
    simp only [Central.forget]
    split
    · simp
    · split <;> simp
  | act c₀ p₀ action => exact absurd rfl (hact c₀ p₀ action)
  | attMtu c₀ p₀ => exact absurd rfl (hmtu c₀ p₀)
  | query q => simp [effects, step, Hub.request]

/-- A call to a peer is the call of an accepted request, a question for the size of packets, or the
end of a connection because the manager goes away. -/
theorem mem_calls_peer (hl : t.hub.Labelled) (hb : t.hub.Bears R) (hserved : t.Served R)
    {c : CentralId} {n : H.Peer} {k : PeerCall H} (h : (c, .peer n k) ∈ Effect.calls t.effects) :
    k = .attMtu ∨ ∃ p, R p n ∧
      ((∃ action, t.accepted? c p = some action ∧ (k = .connect → action = .connect) ∧
          (k = .cancelConnection → action = .disconnect)) ∨
        k = .cancelConnection ∧ t.scanEvent? c = some .close) := by
  cases hm : t.move with
  | report c' r =>
    rw [calls_report hm] at h
    cases h
  | shutdown answers =>
    have heffects : t.effects = (t.hub.shutdown answers).effects := by simp [effects, step, hm]
    rw [heffects, Hub.shutdown_effects] at h
    obtain ⟨e, he, hcall⟩ := List.mem_filterMap.mp h
    obtain ⟨c₀, -, he⟩ := List.mem_flatMap.mp he
    obtain ⟨rfl, hk, p, hp⟩ :=
      calls_destroy hl hb answers (List.mem_filterMap.mpr ⟨e, he, hcall⟩)
    exact .inr ⟨p, hp, .inr ⟨hk, by simp [scanEvent?, hm]⟩⟩
  | request answers r =>
    have hserves := hserved answers (.inl ⟨r, hm⟩)
    by_cases hact : ∃ c p action, r = .act c p action
    · obtain ⟨c₀, p, action, rfl⟩ := hact
      rcases calls_act hl hb hserves hm with
        ⟨-, hlooks⟩ | ⟨q, prepared, looks, hacc, hn, -, hp, hcalls, hlooks⟩
      · cases hlooks _ h
      · rw [hcalls] at h
        rcases List.mem_append.mp h with h | h
        · cases hlooks _ h
        · cases List.mem_singleton.mp h
          obtain ⟨hconnect, hcancel⟩ := Peer.call_of_prepare hp
          exact .inr ⟨p, hn, .inl ⟨action, hacc, hconnect.mp, hcancel.mp⟩⟩
    by_cases hmtu : ∃ c p, r = .attMtu c p
    · obtain ⟨c₀, p, rfl⟩ := hmtu
      exact .inl (calls_attMtu hm h)
    by_cases hdestroy : ∃ c, r = .destroy c
    · obtain ⟨c₀, rfl⟩ := hdestroy
      have heffects : t.effects = (t.hub.destroy answers c₀).effects := by
        simp [effects, step, hm, Hub.request, Hub.reply]
      rw [heffects] at h
      obtain ⟨rfl, hk, p, hp⟩ := calls_destroy hl hb answers h
      exact .inr ⟨p, hp, .inr ⟨hk, by simp [scanEvent?, hm]⟩⟩
    · exact absurd h (calls_request hm (fun c p a hr => hact ⟨c, p, a, hr⟩)
        (fun c p hr => hmtu ⟨c, p, hr⟩) fun c hr => hdestroy ⟨c, hr⟩)

/-- An accepted request makes one call that is not a lookup, the one that its session has prepared. -/
theorem calls_of_accepted (hl : t.hub.Labelled) (hb : t.hub.Bears R) (hserved : t.Served R)
    {c : CentralId} {p : PeerId} {action : PeerAction} (hacc : t.accepted? c p = some action) :
    ∃ q prepared looks, R p q.native ∧ (t.hub.peer? c p = some q ∨ t.hub.peer? c p = none) ∧
      q.prepare action = .ok prepared ∧
      Effect.calls t.effects = looks ++ [(c, .peer q.native prepared.call)] ∧
      ∀ e ∈ looks, e = (c, .lookup p) := by
  obtain ⟨answers, hm⟩ := move_of_accepted hacc
  rcases calls_act hl hb (hserved answers (.inl ⟨_, hm⟩)) hm with
    ⟨hno, -⟩ | ⟨q, prepared, looks, -, hmade⟩
  · rw [hno] at hacc
    cases hacc
  · exact ⟨q, prepared, looks, hmade⟩

end Moment

end GattHub
