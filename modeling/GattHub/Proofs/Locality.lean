import GattHub.Proofs.Deed
import GattHub.Proofs.Origin

/-! A message that concerns one manager, or one of its peers, stays with it: all other peers and all
other managers are as before, and so is what is told and what is called. -/

namespace GattHub

variable {H : Handles}

/-- The manager that a question is about, and the peer if it is about one. -/
def Query.subject? {π : Type} : Query π → Option (CentralId × Option π)
  | .centrals => none
  | .central c | .scanning c => some (c, none)
  | .peer c p | .linkState c p | .rssi c p | .services c p | .characteristics c p _
  | .descriptors c p _ => some (c, some p)

/-- The manager that a request names, and the peer if it names one. -/
def Request.subject? {π : Type} : Request π → Option (CentralId × Option π)
  | .allocate => none
  | .destroy c | .scan c _ | .stopScan c => some (c, none)
  | .forget c p | .act c p _ | .attMtu c p => some (c, some p)
  | .query q => q.subject?

/-- The manager that a message concerns while it lives, and the peer if it concerns one. -/
def Move.subject? : Move H → Option (CentralId × Option PeerId)
  | .request _ (.destroy _) | .shutdown _ => none
  | .request _ r => r.subject?
  | .report c (.stateChanged ..) => some (c, none)
  | .report c (.advertised record) => some (c, some record.peer)
  | .report c (.peer p _) => some (c, some p)

/-- What is done names this manager, and no other peer than this one. The host's objects stand for
peers as `known` says. -/
def Deed.Concerns (c : CentralId) (p? : Option PeerId) (known : PeerId → H.Peer → Prop) :
    Deed H → Prop
  | .notice n => n.central = c ∧ ∀ p, n.peer? = some p → p? = some p
  | .call c' (.lookup p) => c' = c ∧ p? = some p
  | .call c' (.peer n _) => c' = c ∧ ∃ p, p? = some p ∧ known p n
  | .call c' _ => c' = c

namespace Effect

theorem mem_deeds_notice {n : Notice} {es : List (Effect H)} :
    .notice n ∈ deeds es ↔ n ∈ notices es := by
  rw [notices_eq_filterMap, List.mem_filterMap]
  constructor
  · intro h
    exact ⟨_, h, rfl⟩
  · rintro ⟨d, hd, hn⟩
    cases d <;> cases hn
    exact hd

theorem mem_deeds_call {c : CentralId} {k : HostCall H} {es : List (Effect H)} :
    .call c k ∈ deeds es ↔ (c, k) ∈ calls es := by
  rw [calls_eq_filterMap, List.mem_filterMap]
  constructor
  · intro h
    exact ⟨_, h, rfl⟩
  · rintro ⟨d, hd, hk⟩
    cases d <;> cases hk
    exact hd

end Effect

namespace Peer

theorem deeds_perform (answers : Answers H) (q : Peer H) (action : PeerAction) :
    ∀ d ∈ Effect.deeds (q.perform answers action).effects,
      ∃ k, d = .call q.central (.peer q.native k) := by
  simp only [perform]
  split
  · exact fun _ h => absurd h List.not_mem_nil
  · split <;> simp

theorem deeds_attMtu (answers : Answers H) (q : Peer H) :
    ∀ d ∈ Effect.deeds (q.attMtu answers).effects,
      ∃ k, d = .call q.central (.peer q.native k) := by
  simp only [attMtu]
  split
  · exact fun _ h => absurd h List.not_mem_nil
  · split <;> simp

/-- A report is answered with nothing but notices of the peer. -/
theorem deeds_receive (settings : Settings) (ids : IdSource) (q : Peer H)
    (report : PeerReport H) :
    ∀ d ∈ Effect.deeds (q.receive settings ids report).effects, ∃ n, d = .notice (q.notice n) := by
  intro d hd
  cases d with
  | call c k =>
    rw [Effect.mem_deeds_call, calls_receive] at hd
    cases hd
  | notice n =>
    obtain ⟨n', rfl⟩ := (reaction_receive settings ids q report).notices_of_mem n
      (Effect.mem_deeds_notice.mp hd)
    exact ⟨n', rfl⟩

end Peer

namespace Central

/-- The manager keeps all peers but this one, and what it does concerns no other. -/
structure Confined (m : Central H) (p? : Option PeerId) (m' : Central H)
    (es : List (Effect H)) : Prop where
  peers : ∀ i, p? ≠ some i → m'.peers.get? i = m.peers.get? i
  deeds : ∀ d ∈ Effect.deeds es,
    d.Concerns m.id p? fun i n => ∃ q, m'.peers.get? i = some q ∧ q.native = n

variable {m : Central H} {answers : Answers H} {p : PeerId}

theorem confined_startScan (answers : Answers H) (m : Central H) (allowDuplicates : Bool) :
    m.Confined none (m.startScan answers allowDuplicates).state
      (m.startScan answers allowDuplicates).effects := by
  simp only [startScan]
  split
  · exact ⟨fun _ _ => rfl, by simp⟩
  · exact ⟨fun _ _ => rfl, by simp [call, Deed.Concerns]⟩

theorem confined_stopScan (answers : Answers H) (m : Central H) :
    m.Confined none (m.stopScan answers).state (m.stopScan answers).effects := by
  simp only [stopScan]
  split
  · exact ⟨fun _ _ => rfl, by simp⟩
  · exact ⟨fun _ _ => rfl, by simp [call, Deed.Concerns]⟩

theorem confined_forget (m : Central H) (p : PeerId) :
    m.Confined (some p) (m.forget p).state (m.forget p).effects := by
  simp only [forget]
  split
  · exact ⟨fun _ _ => rfl, by simp⟩
  · split
    · refine ⟨fun i hi => ?_, by simp⟩
      rw [Table.get?_erase, if_neg fun h => hi (congrArg some h.symm)]
    · exact ⟨fun _ _ => rfl, by simp⟩

theorem deeds_track (answers : Answers H) (m : Central H) (p : PeerId) :
    ∀ d ∈ Effect.deeds (m.track answers p).effects, d = .call m.id (.lookup p) := by
  simp only [track]
  split
  · exact fun _ h => absurd h List.not_mem_nil
  · split <;> simp [call]

/-- A request to a peer calls the host about this peer alone, and by the object by which the peer is
tracked from then on. -/
theorem confined_withPeer (hm : m.Labelled) {α : Type} {f : Peer H → Response H (Peer H) α}
    (hnative : ∀ q, (f q).state.native = q.native)
    (hdeeds : ∀ q, ∀ d ∈ Effect.deeds (f q).effects, ∃ k, d = .call q.central (.peer q.native k)) :
    m.Confined (some p) (m.withPeer answers p f).state (m.withPeer answers p f).effects := by
  have hlookup {known : PeerId → H.Peer → Prop} :
      ∀ d ∈ Effect.deeds (m.track answers p).effects, d.Concerns m.id (some p) known := by
    intro d hd
    rw [m.deeds_track answers p d hd]
    exact ⟨rfl, rfl⟩
  rcases m.track_cases answers p with ⟨reason, hr, -, hs⟩ | ⟨q, hr, hq, hothers⟩
  · simp only [withPeer, hr, hs]
    exact ⟨fun _ _ => rfl, hlookup⟩
  -- the peer was tracked before, or is new and has the manager's identity
  · have hcentral : q.central = m.id := by
      rcases hq with hq | ⟨-, native, rfl⟩
      · exact (hm p q hq).1
      · rfl
    simp only [withPeer, hr]
    refine ⟨fun i hi => ?_, fun d hd => ?_⟩
    · have hne : i ≠ p := fun h => hi (congrArg some h.symm)
      rw [Table.get?_insert, if_neg hne, hothers i hne]
    · rw [Effect.deeds_append, List.mem_append] at hd
      rcases hd with hd | hd
      · exact hlookup d hd
      · obtain ⟨k, rfl⟩ := hdeeds q d hd
        exact ⟨hcentral, p, rfl, (f q).state, by simp [Table.get?_insert], hnative q⟩

theorem confined_powerChanged (m : Central H) (on : Bool) (message : String) :
    m.Confined none (m.powerChanged on message).state (m.powerChanged on message).effects :=
  ⟨fun _ _ => rfl, by simp [powerChanged, Deed.Concerns, Notice.central, Notice.peer?]⟩

theorem confined_advertised (m : Central H) (record : Advertisement) :
    m.Confined (some record.peer) (m.advertised record).state (m.advertised record).effects := by
  have hothers (i : PeerId) (hi : some record.peer ≠ some i) :
      (m.peers.modify record.peer fun p => p.observe record.rssi).get? i = m.peers.get? i := by
    rw [Table.get?_modify, if_neg fun h => hi (congrArg some h.symm)]
  simp only [advertised]
  split
  · exact ⟨hothers, by simp⟩
  · split
    · exact ⟨hothers, by simp [Deed.Concerns, Notice.central, Notice.peer?]⟩
    · exact ⟨hothers, by simp⟩

theorem confined_peerReported (hm : m.Labelled) (settings : Settings) (ids : IdSource)
    (p : PeerId) (report : PeerReport H) :
    m.Confined (some p) (m.peerReported settings ids p report).state.1
      (m.peerReported settings ids p report).effects := by
  simp only [peerReported]
  split
  · exact ⟨fun _ _ => rfl, by simp⟩
  next q hq =>
    obtain ⟨hcentral, hid⟩ := hm p q hq
    refine ⟨fun i hi => ?_, fun d hd => ?_⟩
    · rw [Table.get?_insert, if_neg fun h => hi (congrArg some h.symm)]
    · obtain ⟨n, rfl⟩ := q.deeds_receive settings ids report d hd
      refine ⟨hcentral, fun i hi => ?_⟩
      rw [← hi, Peer.notice, Notice.peer?, hid]

theorem confined_receive (hm : m.Labelled) (settings : Settings) (ids : IdSource) (r : Report H)
    {c : CentralId} {p? : Option PeerId} (hsubject : (Move.report c r).subject? = some (c, p?)) :
    m.Confined p? (m.receive settings ids r).state.1 (m.receive settings ids r).effects := by
  cases r with
  | stateChanged on message =>
    cases hsubject
    obtain ⟨hpeers, hdeeds⟩ := m.confined_powerChanged on message
    exact ⟨hpeers, hdeeds⟩
  | advertised record =>
    cases hsubject
    obtain ⟨hpeers, hdeeds⟩ := m.confined_advertised record
    exact ⟨hpeers, hdeeds⟩
  | peer p report =>
    cases hsubject
    obtain ⟨hpeers, hdeeds⟩ := confined_peerReported hm settings ids p report
    exact ⟨hpeers, hdeeds⟩

end Central

namespace Hub

/-- All peers but this one and all other managers are as before, and what is done concerns no
other. -/
structure Confined (h : Hub H) (c : CentralId) (p? : Option PeerId) (h' : Hub H)
    (es : List (Effect H)) : Prop where
  peers : ∀ c' p', ¬ (c' = c ∧ p? = some p') → h'.peer? c' p' = h.peer? c' p'
  centrals : ∀ c', c' ≠ c → h'.centrals.get? c' = h.centrals.get? c'
  deeds : ∀ d ∈ Effect.deeds es, d.Concerns c p? (h'.Knows c)

variable {h : Hub H} {c : CentralId} {p? : Option PeerId}

theorem Confined.refl (h : Hub H) (c : CentralId) (p? : Option PeerId) : h.Confined c p? h [] :=
  ⟨fun _ _ _ => rfl, fun _ _ => rfl, by simp⟩

theorem confined_of_insert (hl : h.Labelled) {m m' : Central H} (hm : h.centrals.get? c = some m)
    {es : List (Effect H)} (hconfined : m.Confined p? m' es) {h' : Hub H}
    (hc : h'.centrals = h.centrals.insert c m') : h.Confined c p? h' es := by
  have hm' : h'.centrals.get? c = some m' := by simp [hc, Table.get?_insert]
  refine ⟨fun c' p' hother => ?_, fun c' hne => ?_, ?_⟩
  · rw [peer?_of_insert hc]
    split
    next heq =>
      subst heq
      rw [peer?_of_get? hm, hconfined.peers p' fun hp => hother ⟨rfl, hp⟩]
    next => rfl
  · rw [hc, Table.get?_insert, if_neg hne]
  · have hdeeds := hconfined.deeds
    simp only [hl.central_id hm, ← peer?_of_get? hm'] at hdeeds
    exact hdeeds

theorem confined_withCentral (hl : h.Labelled) {α : Type} {f : Central H → Response H (Central H) α}
    (hf : ∀ m : Central H, m.Labelled → m.Confined p? (f m).state (f m).effects) :
    h.Confined c p? (h.withCentral c f).state (h.withCentral c f).effects := by
  rcases h.withCentral_cases c f with ⟨-, hs, -, he⟩ | ⟨m, hm, hs, -, he⟩
  · rw [hs, he]
    exact .refl h c p?
  · rw [hs, he]
    exact confined_of_insert hl hm (hf m (hl.central hm)) rfl

theorem deeds_noting {α : Type} (c : CentralId) (p : PeerId) (r : Response H (Hub H) α) :
    Effect.deeds (noting c p r).effects = Effect.deeds r.effects := by
  simp only [noting]
  split <;> simp

theorem confined_noting {α : Type} {p : PeerId} {r : Response H (Hub H) α}
    (hr : h.Confined c p? r.state r.effects) :
    h.Confined c p? (noting c p r).state (noting c p r).effects := by
  obtain ⟨hpeers, hcentrals, hdeeds⟩ := hr
  rw [(noting_spec c p r).1]
  exact ⟨hpeers, hcentrals, by rwa [deeds_noting]⟩

theorem confined_receive (hl : h.Labelled) {r : Report H}
    (hsubject : (Move.report c r).subject? = some (c, p?)) :
    h.Confined c p? (h.receive c r).state (h.receive c r).effects := by
  simp only [receive]
  split
  next => exact ⟨fun _ _ _ => rfl, fun _ _ => rfl, by simp⟩
  next m hm =>
    exact confined_of_insert hl hm (Central.confined_receive (hl.central hm) _ _ r hsubject) rfl

theorem confined_request (hl : h.Labelled) (answers : Answers H) {r : Request PeerId}
    (hsubject : (Move.request answers r).subject? = some (c, p?)) :
    h.Confined c p? (h.request answers r).state (h.request answers r).effects := by
  cases r with
  | allocate | destroy c₀ => cases hsubject
  | scan c₀ allowDuplicates =>
    cases hsubject
    exact confined_withCentral hl fun m _ => m.confined_startScan answers allowDuplicates
  | stopScan c₀ =>
    cases hsubject
    exact confined_withCentral hl
      (f := fun m => ⟨(m.stopScan answers).state, .ok (), (m.stopScan answers).effects⟩)
      fun m _ => m.confined_stopScan answers
  | forget c₀ p₀ =>
    cases hsubject
    exact confined_noting (r := reply (h.withCentral c (·.forget p₀)) fun _ => .done)
      (confined_withCentral hl fun m _ => m.confined_forget p₀)
  | act c₀ p₀ action =>
    cases hsubject
    exact confined_noting
      (r := reply (h.withCentral c (·.withPeer answers p₀ (·.perform answers action))) fun _ => .done)
      (confined_withCentral hl fun m hm => Central.confined_withPeer hm
        (fun q => q.native_perform answers action) fun q => q.deeds_perform answers action)
  | attMtu c₀ p₀ =>
    cases hsubject
    exact confined_withCentral hl fun m hm => Central.confined_withPeer hm
      (fun q => by rw [(q.attMtu_spec answers).1]) fun q => q.deeds_attMtu answers
  | query q => exact .refl h c p?

end Hub

namespace Run

variable (settings : Settings) (ms : List (Move H))

/-- A message that concerns a manager, or one of its peers, leaves all other peers and all other
managers as they were. What it makes known and what it calls names this manager, and no other peer
than this one, be it by the object that the host gave for it. -/
theorem change_is_local {h : Hub H} (hr : (of settings ms).hub = some h) {m : Move H}
    {c : CentralId} {p? : Option PeerId} (hsubject : m.subject? = some (c, p?)) :
    ∃ h', (of settings (ms ++ [m])).hub = some h' ∧
      (∀ c' p', ¬ (c' = c ∧ p? = some p') → h'.peer? c' p' = h.peer? c' p') ∧
      (∀ c', c' ≠ c → h'.centrals.get? c' = h.centrals.get? c') ∧
      ∀ d ∈ Effect.deeds (Moment.mk h m).effects, d.Concerns c p? fun p n =>
        h'.Knows c p n ∧ Introduced c p n (of settings (ms ++ [m])).past := by
  have hl := (labelled settings ms).2 h hr
  have hconfined : ∃ h', (Moment.mk h m).after = some h' ∧
      h.Confined c p? h' (Moment.mk h m).effects := by
    cases m with
    | request answers r => exact ⟨_, rfl, Hub.confined_request hl answers hsubject⟩
    | report c₀ r =>
      obtain rfl : c₀ = c := by cases r <;> cases hsubject <;> rfl
      exact ⟨_, rfl, Hub.confined_receive hl hsubject⟩
    | shutdown answers => cases hsubject
  obtain ⟨h', ha, hpeers, hcentrals, hdeeds⟩ := hconfined
  have hr' : (of settings (ms ++ [m])).hub = some h' := by
    rw [of_append_singleton, take_some hr, ha]
  refine ⟨h', hr', hpeers, hcentrals, fun d hd => ?_⟩
  have hd := hdeeds d hd
  cases d with
  | notice n => exact hd
  | call c' k =>
    cases k with
    | peer n k =>
      obtain ⟨hc, p, hp, q, hq, rfl⟩ := hd
      exact ⟨hc, p, hp, ⟨q, hq, rfl⟩, introduced settings (ms ++ [m]) hr' hq⟩
    | _ => exact hd

/-- Two managers are on their way to the same peer. -/
def twiceMoves : List (Move .numbers) :=
  [.request .agreeing .allocate, .request .agreeing .allocate,
    .request .agreeing (.act ⟨1⟩ default .connect), .request .agreeing (.act ⟨2⟩ default .connect)]

def twice : Hub .numbers := (of .default twiceMoves).hub.getD (.new .default)

/-- One of them is connected; the other is still on its way. -/
theorem change_is_local_twice :
    let m : Move .numbers := .report ⟨1⟩ (.peer default (.connected .ok))
    (of .default twiceMoves).hub = some twice ∧ m.subject? = some (⟨1⟩, some default) ∧
      ∃ h', (of .default (twiceMoves ++ [m])).hub = some h' ∧
        (h'.peer? ⟨1⟩ default).map Peer.state = some .connected ∧
        h'.peer? ⟨2⟩ default = twice.peer? ⟨2⟩ default ∧
        (h'.peer? ⟨2⟩ default).map Peer.state = some .connecting := by
  intro m
  obtain ⟨h', hr', hpeers, -, -⟩ :=
    change_is_local .default twiceMoves (h := twice) (m := m) rfl (show _ = some (⟨1⟩, _) from rfl)
  have hother : h'.peer? ⟨2⟩ default = twice.peer? ⟨2⟩ default := hpeers _ _ (by simp)
  refine ⟨rfl, rfl, h', hr', ?_, hother, ?_⟩
  · cases hr'
    rfl
  · rw [hother]
    rfl

end Run

end GattHub
