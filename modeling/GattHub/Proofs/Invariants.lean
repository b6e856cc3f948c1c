import GattHub.Proofs.Fate

/-! What holds of every hub that a run comes to: labels are right, identities of live managers are
taken, and a peer whose link is down awaits nothing. -/

namespace GattHub

variable {H : Handles}

namespace Moment

/-- What a moment leaves of the managers. -/
structure Manages (t : Moment H) (h : Hub H) : Prop where
  central : ∀ {c m'}, h.centrals.get? c = some m' →
    (∃ m, t.hub.centrals.get? c = some m ∧ m'.id = m.id) ∨
      t.allocates = true ∧ c = t.hub.next ∧ m' = .new c
  next_eq : h.next = if t.allocates then ⟨t.hub.next.raw + 1⟩ else t.hub.next
  settings_eq : h.settings = t.hub.settings

theorem manages_of_insert {t : Moment H} (hno : t.allocates = false) {h : Hub H} {c : CentralId}
    {m m' : Central H} (hm : t.hub.centrals.get? c = some m) (hid : m'.id = m.id)
    (hc : h.centrals = t.hub.centrals.insert c m') (hnext : h.next = t.hub.next)
    (hsettings : h.settings = t.hub.settings) : t.Manages h := by
  refine ⟨fun {c₁ m₁} hget => ?_, by simp [hno, hnext], hsettings⟩
  left
  rw [hc, Table.get?_insert] at hget
  split at hget
  next h =>
    cases hget
    exact ⟨m, h ▸ hm, hid⟩
  next => exact ⟨m₁, hget, rfl⟩

theorem manages_of_same {t : Moment H} (hno : t.allocates = false) : t.Manages t.hub :=
  ⟨fun hget => .inl ⟨_, hget, rfl⟩, by simp [hno], rfl⟩

theorem manages_withCentral {α : Type} (h : Hub H) {m : Move H}
    (hno : (Moment.mk h m).allocates = false) {c : CentralId}
    {f : Central H → Response H (Central H) α} {h' : Hub H}
    (hs : h' = (h.withCentral c f).state) (hid : ∀ m, (f m).state.id = m.id) :
    (Moment.mk h m).Manages h' := by
  rcases h.withCentral_cases c f with ⟨-, hs', -, -⟩ | ⟨central, hm, hs', -, -⟩
  · rw [hs, hs']
    exact manages_of_same hno
  · rw [hs, hs']
    exact manages_of_insert hno hm (hid central) rfl rfl rfl

theorem forget_id (m : Central H) (p : PeerId) : (m.forget p).state.id = m.id := by
  simp only [Central.forget]
  split
  · rfl
  · split <;> rfl

theorem withPeer_id {α : Type} (answers : Answers H) (m : Central H) (p : PeerId)
    (f : Peer H → Response H (Peer H) α) : (m.withPeer answers p f).state.id = m.id := by
  rcases m.withPeer_cases answers p f with ⟨hs, -⟩ | ⟨q, -, hid, -⟩
  · rw [hs]
  · exact hid

theorem receive_id (settings : Settings) (ids : IdSource) (m : Central H) (r : Report H) :
    (m.receive settings ids r).state.1.id = m.id := by
  cases r with
  | stateChanged on message => rfl
  | advertised record =>
    simp only [Central.receive, Central.advertised]
    split
    · rfl
    · split <;> rfl
  | peer p report =>
    simp only [Central.receive, Central.peerReported]
    split <;> rfl

theorem manages (t : Moment H) {h : Hub H} (ha : t.after = some h) : t.Manages h := by
  obtain ⟨h₀, m⟩ := t
  cases m with
  | shutdown answers => cases ha
  | report c r =>
    cases ha
    simp only [Hub.receive]
    split
    next => exact manages_of_same rfl
    next m hm => exact manages_of_insert rfl hm (receive_id _ _ m r) rfl rfl rfl
  | request answers r =>
    cases ha
    cases r with
    | allocate =>
      cases hr : answers.refusal h₀.next .openCentral with
      | some r =>
        have hsame : (h₀.request answers .allocate).state = h₀ := by
          simp [Hub.request, Hub.reply, Hub.allocate, hr]
        rw [hsame]
        exact manages_of_same (by simp [allocates, Hub.allocate, hr, Except.isOk, Except.toBool])
      | none =>
        have hyes : (Moment.mk h₀ (.request answers .allocate)).allocates = true := by
          simp [allocates, Hub.allocate, hr, Except.isOk, Except.toBool]
        have hstate : (h₀.request answers .allocate).state =
            { h₀ with
              centrals := h₀.centrals.insert h₀.next (.new h₀.next)
              next := ⟨h₀.next.raw + 1⟩ } := by
          simp [Hub.request, Hub.reply, Hub.allocate, hr]
        rw [hstate]
        refine ⟨fun {c m'} hget => ?_, by simp [hyes], rfl⟩
        dsimp only at hget
        rw [Table.get?_insert] at hget
        split at hget
        next hc =>
          cases hget
          exact .inr ⟨hyes, hc, by rw [hc]⟩
        next => exact .inl ⟨m', hget, rfl⟩
    | destroy c =>
      have hno : (Moment.mk h₀ (.request answers (.destroy c))).allocates = false := rfl
      refine ⟨fun {c' m'} hget => .inl ⟨m', ?_, rfl⟩, ?_, ?_⟩
      · simp only [Hub.request, Hub.reply, Hub.destroy, Hub.destroyIn] at hget
        split at hget
        next => exact hget
        next =>
          rw [Table.get?_erase] at hget
          split at hget
          · cases hget
          · exact hget
      all_goals
        simp only [Hub.request, Hub.reply, Hub.destroy, Hub.destroyIn, hno]
        split <;> rfl
    | scan c allowDuplicates =>
      refine manages_withCentral h₀ (c := c) (f := (·.startScan answers allowDuplicates)) rfl rfl
        fun m => ?_
      simp only [Central.startScan]
      split <;> rfl
    | stopScan c =>
      refine manages_withCentral h₀ (c := c) (f := fun m =>
        ⟨(m.stopScan answers).state, .ok (), (m.stopScan answers).effects⟩) rfl rfl fun m => ?_
      simp only [Central.stopScan]
      split <;> rfl
    | forget c p =>
      exact manages_withCentral h₀ (c := c) (f := (·.forget p)) rfl (Hub.noting_spec _ _ _).1
        fun m => forget_id m p
    | act c p action =>
      exact manages_withCentral h₀ (c := c) (f := (·.withPeer answers p (·.perform answers action)))
        rfl (Hub.noting_spec _ _ _).1 fun m => withPeer_id answers m p _
    | attMtu c p =>
      exact manages_withCentral h₀ (c := c) (f := (·.withPeer answers p (·.attMtu answers))) rfl rfl
        fun m => withPeer_id answers m p _
    | query q => exact manages_of_same rfl

end Moment

namespace Peer

theorem Accepts.label {q q' : Peer H} {action : PeerAction} (h : q.Accepts action q') :
    q'.central = q.central ∧ q'.id = q.id := by
  cases h <;> exact ⟨rfl, rfl⟩

theorem Reaction.label {q q' : Peer H} {report : PeerReport H} {ns : List Notice}
    (h : q.Reaction report q' ns) : q'.central = q.central ∧ q'.id = q.id := by
  cases h <;> exact ⟨rfl, rfl⟩

theorem observe_eq (q : Peer H) (level : Level) :
    ∃ rssi, q.observe level = { q with rssi := rssi } := by
  simp only [observe]
  split
  · exact ⟨q.rssi, rfl⟩
  · exact ⟨some level, rfl⟩

/-- A peer without a link awaits nothing and passes nothing on. Until a link is up only a signal
level can be awaited. -/
structure Consistent (q : Peer H) : Prop where
  disconnected : q.state = .disconnected → q.pending = [] ∧ q.subscriptions = []
  connecting : q.state = .connecting → q.subscriptions = [] ∧ ∀ op ∈ q.pending, op = .rssi

theorem Consistent.new (c : CentralId) (p : PeerId) (native : H.Peer) :
    (Peer.new c p native : Peer H).Consistent := ⟨fun _ => ⟨rfl, rfl⟩, nofun⟩

theorem Consistent.accepts {q q' : Peer H} {action : PeerAction} (hq : q.Consistent)
    (h : q.Accepts action q') : q'.Consistent := by
  cases h with
  | connect hs =>
    obtain ⟨hp, hsub⟩ := hq.disconnected hs
    exact ⟨nofun, fun _ => ⟨hsub, by simp [hp]⟩⟩
  | disconnect hs => exact ⟨nofun, nofun⟩
  | operate _ _ _ hs =>
    refine ⟨fun hd => ?_, fun hc => ?_⟩
    · dsimp only at hd
      rcases hs with hs | ⟨-, hs⟩
      · rw [hs] at hd
        cases hd
      · exact absurd hd hs
    · dsimp only at hc
      obtain ⟨hsub, hp⟩ := hq.connecting hc
      refine ⟨hsub, ?_⟩
      rcases hs with hs | ⟨rfl, -⟩
      · rw [hs] at hc
        cases hc
      · intro op hop
        rcases List.mem_append.mp hop with hop | hop
        · exact hp op hop
        · simpa [queued?] using hop

theorem Consistent.reaction {q q' : Peer H} {report : PeerReport H} {ns : List Notice}
    (hq : q.Consistent) (h : q.Reaction report q' ns) : q'.Consistent := by
  cases h with
  | ignored | passed | forwarded => exact hq
  | established _ hs => exact ⟨nofun, nofun⟩
  | failed | lost => exact ⟨fun _ => ⟨rfl, rfl⟩, nofun⟩
  | completed pre op post n rssi tree subscriptions hp _ _ hsub =>
    refine ⟨fun hd => ?_, fun hc => ?_⟩
    · have hnil := (hq.disconnected hd).1
      simp [hp] at hnil
    · obtain ⟨hnone, hrssi⟩ := hq.connecting hc
      have hop : op = .rssi := hrssi op (by simp [hp])
      refine ⟨?_, fun x hx => hrssi x ?_⟩
      · rcases hsub with hsub | ⟨uuid, hsub⟩
        · exact hsub.trans hnone
        · rw [hop] at hsub
          cases hsub
      · rw [hp]
        exact List.mem_append.mpr ((List.mem_append.mp hx).imp_right (List.mem_cons_of_mem op))

end Peer

namespace Moment

variable {t : Moment H} {c : CentralId} {p : PeerId}

/-- A property of new peers that requests and reports keep is kept by every moment. -/
theorem Fate.preserves {P : Peer H → Prop} {x y : Option (Peer H)} (h : t.Fate c p x y)
    (hnew : ∀ native, P (.new c p native))
    (haccepts : ∀ q q' action, P q → q.Accepts action q' → P q')
    (hreceive : ∀ q report ns, P q →
      q.Reaction report (q.receive t.hub.settings t.hub.ids report).state.1 ns →
      P (q.receive t.hub.settings t.hub.ids report).state.1)
    (hobserve : ∀ q rssi, P q → P { q with rssi := rssi }) (hx : ∀ q, x = some q → P q) :
    ∀ q, y = some q → P q := by
  rintro q' rfl
  cases h with
  | kept => exact hx q' rfl
  | tracked native => exact hnew native
  | accepted _ q _ action hq _ _ haccept =>
    refine haccepts q q' action ?_ haccept
    rcases hq with rfl | ⟨-, native, rfl⟩
    · exact hx q rfl
    · exact hnew native
  | reported q _ report _ hq' hreaction =>
    subst hq'
    exact hreceive q report _ (hx q rfl) hreaction
  | observed q record =>
    obtain ⟨rssi, hrssi⟩ := q.observe_eq record.rssi
    rw [hrssi]
    exact hobserve q rssi (hx q rfl)

theorem later_eq {h : Hub H} (ha : t.after = some h) (c : CentralId) (p : PeerId) :
    t.later c p = h.peer? c p := by
  simp [later, ha]

theorem forall_peer {P : Peer H → Prop} (hl : t.hub.Labelled)
    (hnew : ∀ c p native, P (.new c p native))
    (haccepts : ∀ q q' action, P q → q.Accepts action q' → P q')
    (hreceive : ∀ q report ns, P q →
      q.Reaction report (q.receive t.hub.settings t.hub.ids report).state.1 ns →
      P (q.receive t.hub.settings t.hub.ids report).state.1)
    (hobserve : ∀ q rssi, P q → P { q with rssi := rssi })
    (ht : ∀ c p q, t.hub.peer? c p = some q → P q) {h : Hub H} (ha : t.after = some h) (c : CentralId)
    (p : PeerId) : ∀ q, h.peer? c p = some q → P q := by
  rw [← later_eq ha]
  exact (t.fate hl c p).preserves (hnew c p) haccepts hreceive hobserve (ht c p)

theorem labelled (hl : t.hub.Labelled) {h : Hub H} (ha : t.after = some h) : h.Labelled := by
  have hpeer (c : CentralId) (p : PeerId) :
      ∀ q, h.peer? c p = some q → q.central = c ∧ q.id = p := by
    rw [← later_eq ha]
    refine (t.fate hl c p).preserves (fun _ => ⟨rfl, rfl⟩) ?_ ?_ (fun q rssi hq => hq)
      fun q hq => ⟨hl.peer_central hq, hl.peer_id hq⟩
    · intro q q' action hq haccept
      obtain ⟨hc, hp⟩ := haccept.label
      exact ⟨hc.trans hq.1, hp.trans hq.2⟩
    · intro q report ns hq hreaction
      obtain ⟨hc, hp⟩ := hreaction.label
      exact ⟨hc.trans hq.1, hp.trans hq.2⟩
  refine ⟨fun {c m'} hm' => ?_, fun hq => (hpeer _ _ _ hq).1, fun hq => (hpeer _ _ _ hq).2⟩
  rcases (t.manages ha).central hm' with ⟨m, hm, hid⟩ | ⟨-, -, rfl⟩
  · rw [hid, hl.central_id hm]
  · rfl

end Moment

theorem Hub.labelled_new (settings : Settings) : (Hub.new settings : Hub H).Labelled := by
  refine ⟨fun h => ?_, fun h => ?_, fun h => ?_⟩ <;> cases h

def Hub.Consistent (h : Hub H) : Prop := ∀ c p q, h.peer? c p = some q → q.Consistent

theorem Hub.consistent_new (settings : Settings) : (Hub.new settings : Hub H).Consistent := nofun

theorem Peer.Consistent.observe {q : Peer H} (hq : q.Consistent) (rssi : Option Level) :
    ({ q with rssi := rssi } : Peer H).Consistent := ⟨hq.disconnected, hq.connecting⟩

theorem Moment.consistent {t : Moment H} (hl : t.hub.Labelled) (hc : t.hub.Consistent)
    {h : Hub H} (ha : t.after = some h) : h.Consistent :=
  forall_peer hl Peer.Consistent.new (fun _ _ _ hq h => hq.accepts h)
    (fun _ _ _ hq h => hq.reaction h) (fun _ rssi hq => hq.observe rssi) hc ha

/-- The identities of the first managers are the numbers from one on, as far as 64 bits go. -/
structure Hub.Numbered (h : Hub H) (n : Nat) : Prop where
  next_eq : h.next = ⟨.ofNat (n + 1)⟩
  central : ∀ {c m}, h.centrals.get? c = some m → ∃ i < n, c = ⟨.ofNat (i + 1)⟩

namespace Hub

theorem numbered_new (settings : Settings) : (Hub.new settings : Hub H).Numbered 0 :=
  ⟨rfl, fun h => by cases h⟩

theorem Numbered.get?_next {h : Hub H} {n : Nat} (hn : h.Numbered n) (hbound : n < UInt64.size) :
    h.centrals.get? h.next = none := by
  cases hm : h.centrals.get? h.next with
  | none => rfl
  | some m =>
    obtain ⟨i, hi, heq⟩ := hn.central hm
    rw [hn.next_eq] at heq
    have hmod := congrArg UInt64.toNat (congrArg CentralId.raw heq)
    simp only [UInt64.toNat_ofNat'] at hmod
    rw [UInt64.size] at hbound
    omega

end Hub

theorem Moment.numbered {t : Moment H} {n : Nat} (hn : t.hub.Numbered n) {h : Hub H}
    (ha : t.after = some h) : h.Numbered (n + if t.allocates then 1 else 0) := by
  have hm := t.manages ha
  refine ⟨?_, fun {c m'} hm' => ?_⟩
  · rw [hm.next_eq, hn.next_eq]
    split <;> simp
  · rcases hm.central hm' with ⟨m, hget, -⟩ | ⟨hyes, rfl, -⟩
    · obtain ⟨i, hi, rfl⟩ := hn.central hget
      exact ⟨i, by omega, rfl⟩
    · exact ⟨n, by simp [hyes], hn.next_eq⟩

namespace Run

variable (settings : Settings) (ms : List (Move H))

theorem labelled : (∀ t ∈ (of settings ms).past, t.hub.Labelled) ∧
    ∀ h, (of settings ms).hub = some h → h.Labelled :=
  forall_hub settings (Hub.labelled_new settings) (fun _ _ hl ha => Moment.labelled hl ha) ms

theorem consistent : (∀ t ∈ (of settings ms).past, t.hub.Consistent) ∧
    ∀ h, (of settings ms).hub = some h → h.Consistent := by
  have hboth := forall_hub (P := fun h : Hub H => h.Labelled ∧ h.Consistent) settings
    ⟨Hub.labelled_new settings, Hub.consistent_new settings⟩
    (fun _ _ h ha => ⟨Moment.labelled h.1 ha, Moment.consistent h.1 h.2 ha⟩) ms
  exact ⟨fun t ht => (hboth.1 t ht).2, fun h hh => (hboth.2 h hh).2⟩

theorem numbered : ∀ h, (of settings ms).hub = some h → h.Numbered (of settings ms).allocations := by
  refine of_induction (P := fun r => ∀ h, r.hub = some h → h.Numbered r.allocations) settings
    ?_ ?_ ms
  · rintro h ⟨⟩
    exact Hub.numbered_new settings
  · intro ms h m hr hn h' ha
    have hstep := Moment.numbered (t := ⟨h, m⟩) (hn h hr) ha
    simpa [allocations, List.countP_append, List.countP_singleton] using hstep

theorem allocations_le {ts us : List (Moment H)} {x y : Option (Hub H)} :
    allocations ⟨ts, x⟩ ≤ allocations ⟨ts ++ us, y⟩ := by
  simp [allocations, List.countP_append]

/-- The identity of a new manager is free as long as no more managers were opened than there are
identities. -/
theorem free_of_bound {ms : List (Move H)} {h : Hub H} {m : Move H}
    (hr : (of settings ms).hub = some h) {x : Option (Hub H)}
    (hbound : allocations ⟨(of settings ms).past ++ [⟨h, m⟩], x⟩ ≤ UInt64.size) :
    (Moment.mk h m).allocates = true → h.centrals.get? h.next = none := by
  intro hyes
  refine (numbered settings ms h hr).get?_next ?_
  simp [allocations, List.countP_append, hyes] at hbound ⊢
  omega

theorem free_of_past_eq (hbound : (of settings ms).allocations ≤ UInt64.size)
    {ts us : List (Moment H)} {t : Moment H} (hpast : (of settings ms).past = ts ++ t :: us) :
    t.allocates = true → t.hub.centrals.get? t.hub.next = none := by
  obtain ⟨ms', rfl, hr⟩ := exists_of_past_eq settings ms hpast
  refine free_of_bound settings (m := t.move) hr (x := none) ?_
  rw [allocations, hpast, ← List.singleton_append, ← List.append_assoc] at hbound
  exact Nat.le_trans (allocations_le (x := none) (y := none)) hbound

end Run

end GattHub
