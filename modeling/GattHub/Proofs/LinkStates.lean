import GattHub.Proofs.Invariants

/-! The states of a link. Each moment leaves the link of a peer as it is, or moves it along one of
six edges; what a peer awaits and what it is subscribed to fit the state at every time. -/

namespace GattHub

variable {H : Handles}

namespace Moment

/-- The state of a peer's link ahead of a moment. A peer that is not tracked has no link. -/
def linkBefore (t : Moment H) (c : CentralId) (p : PeerId) : LinkState :=
  (t.before c p).elim .disconnected (·.state)

/-- What moves the link of a peer: from which state, to which, and at which word of the client or
the host. -/
inductive LinkEdge (t : Moment H) (c : CentralId) (p : PeerId) : LinkState → LinkState → Prop
  | connect : t.accepted? c p = some .connect → LinkEdge t c p .disconnected .connecting
  | established : t.move = .report c (.peer p (.connected .ok)) →
      LinkEdge t c p .connecting .connected
  | disconnect (s : LinkState) : t.accepted? c p = some .disconnect →
      s = .connecting ∨ s = .connected → LinkEdge t c p s .disconnecting
  | failed (status : Status) : t.move = .report c (.peer p (.connected status)) → status ≠ .ok →
      LinkEdge t c p .connecting .disconnected
  | lost (s : LinkState) (reason : Status) : t.move = .report c (.peer p (.disconnected reason)) →
      s ≠ .disconnected → LinkEdge t c p s .disconnected
  | closed (s : LinkState) (answers : Answers H) :
      t.move = .request answers (.destroy c) ∨ t.move = .shutdown answers →
      s ≠ .disconnected → LinkEdge t c p s .disconnected

/-- How a peer can go out of track. Its link is down then, or is taken down with its manager. An
identity that was given out again, after all others, drops the manager that had it. -/
inductive Drops (t : Moment H) (c : CentralId) (p : PeerId) (q : Peer H) : Prop
  | forgotten : q.state = .disconnected → Drops t c p q
  | closed (answers : Answers H) :
      t.move = .request answers (.destroy c) ∨ t.move = .shutdown answers →
      (q.teardown answers).state.state = .disconnected → (q.teardown answers).state.Consistent →
      q.state = .disconnected ∨ t.LinkEdge c p q.state .disconnected → Drops t c p q
  | replaced : t.allocates = true → t.hub.next = c → Drops t c p q

end Moment

namespace Peer

theorem teardown_state (answers : Answers H) (q : Peer H) :
    (q.teardown answers).state = if q.state = .disconnected then q else q.unlinked := by
  cases hs : q.state <;> simp [teardown, linkLost, hs]

theorem consistent_unlinked (q : Peer H) : q.unlinked.Consistent := ⟨fun _ => ⟨rfl, rfl⟩, nofun⟩

theorem Consistent.teardown {q : Peer H} (hq : q.Consistent) (answers : Answers H) :
    (q.teardown answers).state.Consistent := by
  rw [teardown_state]
  split
  · exact hq
  · exact q.consistent_unlinked

theorem teardown_disconnected (answers : Answers H) (q : Peer H) :
    (q.teardown answers).state.state = .disconnected := by
  rw [teardown_state]
  split
  next hs => exact hs
  next => rfl

end Peer

namespace Moment

variable {t : Moment H} {c : CentralId} {p : PeerId}

theorem linkEdge_of_accepts {q q' : Peer H} {action : PeerAction} (h : q.Accepts action q')
    (hacc : t.accepted? c p = some action) :
    q'.state = q.state ∨ t.LinkEdge c p q.state q'.state := by
  cases h with
  | connect hs => exact .inr (hs ▸ .connect hacc)
  | disconnect hs => exact .inr (.disconnect q.state hacc hs)
  | operate => exact .inl rfl

theorem linkEdge_of_reaction {q q' : Peer H} {report : PeerReport H} {ns : List Notice}
    (h : q.Reaction report q' ns) (hm : t.move = .report c (.peer p report)) :
    q'.state = q.state ∨ t.LinkEdge c p q.state q'.state := by
  cases h with
  | ignored | passed | forwarded | completed => exact .inl rfl
  | established hr hs => exact .inr (hs ▸ .established (hr ▸ hm))
  | failed status hr hbad hs => exact .inr (hs ▸ .failed status (hr ▸ hm) hbad)
  | lost reason hr hs => exact .inr (.lost q.state reason (hr ▸ hm) hs)

/-- What a moment makes of the link of a peer that is tracked after it. -/
theorem Fate.link {x : Option (Peer H)} {q' : Peer H} (h : t.Fate c p x (some q')) :
    let s := x.elim .disconnected (·.state)
    q'.state = s ∨ t.LinkEdge c p s q'.state := by
  cases h with
  | kept | tracked => exact .inl rfl
  | accepted _ q _ action hq _ hacc haccepts =>
    have hstate : x.elim .disconnected (·.state) = q.state := by
      rcases hq with rfl | ⟨rfl, native, rfl⟩ <;> rfl
    rw [hstate]
    exact linkEdge_of_accepts haccepts hacc
  | reported q _ report hm _ hreaction => exact linkEdge_of_reaction hreaction hm
  | observed q record =>
    obtain ⟨rssi, hrssi⟩ := q.observe_eq record.rssi
    exact .inl (by rw [hrssi]; rfl)

theorem Fate.drops {q : Peer H} (h : t.Fate c p (some q) none) (hq : q.Consistent) :
    t.Drops c p q := by
  cases h with
  | forgotten _ hs => exact .forgotten hs
  | closed _ answers _ _ hm =>
    refine .closed answers hm (q.teardown_disconnected answers) (hq.teardown answers) ?_
    by_cases hs : q.state = .disconnected
    · exact .inl hs
    · exact .inr (.closed q.state answers hm hs)
  | replaced _ hyes hnext => exact .replaced hyes hnext

end Moment

namespace Run

/-- At every time of a run, a peer without a link awaits nothing and is subscribed to nothing, and
one on the way to a link awaits signal levels only. From one moment to the next its link stays or
moves along an edge. A peer leaves the hub without a link. -/
theorem link_states (settings : Settings) (ms : List (Move H)) :
    (∀ h, (∃ t ∈ (of settings ms).past, t.hub = h) ∨ (of settings ms).hub = some h →
      ∀ c p q, h.peer? c p = some q →
        (q.state = .disconnected → q.pending = [] ∧ q.subscriptions = []) ∧
        (q.state = .connecting → q.subscriptions = [] ∧ ∀ op ∈ q.pending, op = .rssi)) ∧
    ∀ t ∈ (of settings ms).past, ∀ c p,
      (∀ q', t.later c p = some q' →
        q'.state = t.linkBefore c p ∨ t.LinkEdge c p (t.linkBefore c p) q'.state) ∧
      ∀ q, t.before c p = some q → t.later c p = none → t.Drops c p q := by
  obtain ⟨hpast, hlast⟩ := consistent settings ms
  refine ⟨?_, fun t ht c p => ?_⟩
  · intro h hh c p q hq
    have hconsistent : h.Consistent := by
      rcases hh with ⟨t, ht, rfl⟩ | hh
      · exact hpast t ht
      · exact hlast h hh
    exact ⟨(hconsistent c p q hq).disconnected, (hconsistent c p q hq).connecting⟩
  · have hfate := t.fate ((labelled settings ms).1 t ht) c p
    refine ⟨fun q' hq' => ?_, fun q hq hgone => ?_⟩
    · rw [hq'] at hfate
      exact hfate.link
    · rw [hq, hgone] at hfate
      exact hfate.drops (hpast t ht c p q hq)

/-- A link that fails, one that is asked for, used and ended, and one that ends with the manager. -/
def linkMoves : List (Move .numbers) :=
  [.request .agreeing .allocate, .request .agreeing (.act ⟨1⟩ default .connect),
    .request .agreeing (.act ⟨1⟩ default .readRssi),
    .report ⟨1⟩ (.peer default (.connected .cancelled)),
    .request .agreeing (.act ⟨1⟩ default .connect),
    .report ⟨1⟩ (.peer default (.connected .ok)),
    .request .agreeing (.act ⟨1⟩ default (.discoverServices [])),
    .request .agreeing (.act ⟨1⟩ default .disconnect),
    .report ⟨1⟩ (.peer default (.disconnected .ok)),
    .request .agreeing (.act ⟨1⟩ default .connect),
    .request .agreeing (.act ⟨1⟩ default .readRssi),
    .request .agreeing (.destroy ⟨1⟩)]

/-- The link is on its way when its manager is closed: it awaits a signal level only, and its end
is the edge of a closed manager. -/
theorem link_states_closed : ∃ t ∈ (of .default linkMoves).past, ∃ q,
    (of .default linkMoves).past.map (·.linkBefore ⟨1⟩ default) =
      [.disconnected, .disconnected, .connecting, .connecting, .disconnected, .connecting,
        .connected, .connected, .disconnecting, .disconnected, .connecting, .connecting] ∧
      t.before ⟨1⟩ default = some q ∧ t.later ⟨1⟩ default = none ∧ q.pending ≠ [] ∧
      (∀ op ∈ q.pending, op = .rssi) ∧ t.Drops ⟨1⟩ default q := by
  obtain ⟨hinv, hedges⟩ := link_states .default linkMoves
  have hlen : 11 < (of .default linkMoves).past.length := by decide
  have ht := List.getElem_mem hlen
  refine ⟨_, ht, _, by decide, rfl, rfl, by decide, ?_, ?_⟩
  · exact ((hinv _ (.inl ⟨_, ht, rfl⟩) ⟨1⟩ default _ rfl).2 (by decide)).2
  · exact (hedges _ ht ⟨1⟩ default).2 _ rfl rfl

end Run

end GattHub
