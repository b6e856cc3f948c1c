import GattHub.Proofs.Attempts
import GattHub.Proofs.Delivery
import GattHub.Proofs.Powering

/-! The listener of a manager. It subscribes to the events of the adapter, then reads the adapter's
state, and then takes in what has come in, one event at a time, for as long as its manager is open.
Nothing else speaks of power. -/

namespace GattHub.Radio

def AdapterState.isOn (s : AdapterState) : Bool := s = .poweredOn

def AdapterEvent.update? : AdapterEvent → Option AdapterState
  | .stateUpdated s => some s
  | _ => none

/-- The updates of the adapter's state that were not looked at yet. -/
def Inbox.updates (inbox : Inbox AdapterEvent) : List AdapterState :=
  inbox.items.filterMap AdapterEvent.update?

theorem Inbox.updates_cons (e : AdapterEvent) (items : List AdapterEvent) (ended : Bool) :
    (Inbox.mk (e :: items) ended).updates = e.update?.toList ++ (Inbox.mk items ended).updates := by
  cases he : e.update? <;> simp [updates, he]

namespace Task

/-- The manager for which a task listens to the adapter. -/
def listener? : Task → Option CentralId
  | listen c | readState c _ | listening c _ => some c
  | _ => none

/-- What a listener has got from the adapter and not looked at yet. -/
def heard? : Task → Option (Inbox AdapterEvent)
  | readState _ inbox | listening _ inbox => some inbox
  | _ => none

/-- The listener has read the adapter's state and has taken in every update that came after. -/
def isCaughtUp : Task → Bool
  | listening _ inbox => inbox.updates.isEmpty
  | _ => false

/-- A task that is no listener posts nothing but what becomes of a peer. -/
theorem Goes.peer_of_mem {t : Task} {next : Option Task} {post : Option (CentralId × Report handles)}
    {closes : Option (CentralId × PeerId)} (h : t.Goes next post closes) (hl : t.listener? = none)
    {x : CentralId × Report handles} (hx : x ∈ post) : ∃ p r, x.2 = .peer p r := by
  cases h with
  | answered c p d job r =>
    obtain ⟨report, -, rfl⟩ := Option.map_eq_some_iff.mp hx
    exact ⟨p, report, rfl⟩
  | listens | cannotListen | readsState | hears | hearsLoss | stopsListening => cases hl
  | switches | switched | requests | connects | subscribes | cannotSubscribe | stopsForwarding =>
    cases hx
  | connected | forwards =>
    cases hx
    exact ⟨_, _, rfl⟩

theorem eq_listen_of_started {s : Stack} {c c' : CentralId} {k : HostCall handles} {t : Task}
    (h : s.started? c k = some t) (hl : t.listener? = some c') : t = .listen c' := by
  cases k with
  | openCentral =>
    cases h
    cases hl
    rfl
  | scan | stopScan | close =>
    simp only [Stack.started?] at h
    split at h <;> cases h
    cases hl
  | lookup => cases h
  | peer n k =>
    cases k with
    | attMtu | discoverCharacteristics | discoverDescriptors => cases h
    | _ =>
      cases h
      cases hl

theorem listener?_of_brings {x : Happening} {t t' : Task} (h : x.brings t = some t') :
    t'.listener? = t.listener? := by
  cases x with
  | adapter | adapterEnds => cases t <;> cases h <;> rfl
  | notified d n | notificationsEnd d =>
    cases t with
    | forwarding a inbox =>
      simp only [Happening.brings, Stack.inForwarder] at h
      split at h <;> cases h
      rfl
    | _ => cases h
  | _ => cases h

end Task

/-- The update of the adapter's state that is given out. -/
def Beat.update? (b : Beat) : Option AdapterState :=
  match b.happening with
  | .adapter e => e.update?
  | _ => none

/-- What messages say of the power of a manager. -/
def powers (c : CentralId) (ms : List (Message handles)) : List Bool :=
  ms.filterMap (Message.power? c)

@[simp] theorem powers_append (c : CentralId) (ms ms' : List (Message handles)) :
    powers c (ms ++ ms') = powers c ms ++ powers c ms' := List.filterMap_append

theorem powers_eq_nil {c : CentralId} {ms : List (Message handles)}
    (h : ∀ on message, .report c (.stateChanged on message) ∉ ms) : powers c ms = [] := by
  rw [powers, List.filterMap_eq_nil_iff]
  intro m hm
  cases m with
  | report c' r =>
    cases r with
    | stateChanged on message =>
      refine if_neg fun hc => ?_
      subst hc
      exact h on message hm
    | advertised | peer => rfl
  | start | request | shutdown => rfl

namespace Stack

/-- What a task says of the power of a manager when it goes on. -/
def reports? (s : Stack) (c : CentralId) : Task → Option Bool
  | .listen c' =>
    if c' = c ∧ (s.platform.perform .events).isOk = false then some false else none
  | .readState c' _ =>
    if c' = c then
      some (match s.platform.perform .adapterState with
        | .ok state => state.isOn
        | .error _ => true)
    else none
  | .listening c' inbox =>
    if c' = c ∧ s.isOpen c' then (inbox.items.head?.bind AdapterEvent.update?).map AdapterState.isOn
    else none
  | _ => none

theorem reports?_eq_none {s : Stack} {c : CentralId} {t : Task} (h : t.listener? ≠ some c) :
    s.reports? c t = none := by
  have hne {c' : CentralId} (h : (some c' : Option CentralId) ≠ some c) : c' ≠ c :=
    fun heq => h (congrArg some heq)
  cases t with
  | listen c' | readState c' inbox | listening c' inbox => simp [reports?, hne h]
  | _ => rfl

end Stack

namespace Scene

variable {s : Scene} (hr : s.worker.running = true) (c : CentralId)
include hr

theorem powers_post (c' : CentralId) (r : Report handles) :
    powers c (s.post c' r).worker.queue = powers c s.worker.queue ++
      ((Message.report c' r : Message handles).power? c).toList := by
  rw [post, if_pos hr]
  cases hp : (Message.report c' r : Message handles).power? c <;>
    simp [Worker.post, hr, powers, hp]

theorem powers_hear (c' : CentralId) (e : AdapterEvent) :
    powers c (hear c' s e).worker.queue = powers c s.worker.queue ++
      (if c' = c then e.update?.map AdapterState.isOn else none).toList := by
  have hadvertise (d : DeviceId) :
      powers c (s.advertise c' d).worker.queue = powers c s.worker.queue := by
    simp only [advertise]
    split
    · exact (powers_post (s := s.withStack (s.host.noteDevice c' d)) hr c c' _).trans
        (List.append_nil _)
    · rfl
  cases e with
  | discovered d | updated d => simpa [hear, AdapterEvent.update?] using hadvertise d
  | disconnected d =>
    refine (powers_post (s := (s.enter (.linkLost d)).withStack (s.host.closeLink c' d.peer))
      hr c c' _).trans ?_
    simp [AdapterEvent.update?, Message.power?]
    rfl
  | stateUpdated st =>
    have hpower : (Message.report c' st.report : Message handles).power? c =
        if c' = c then some st.isOn else none := by cases st <;> rfl
    exact (powers_post (s := s.enter (.stateUpdated st)) hr c c' _).trans (by rw [hpower]; rfl)
  | connected d | servicesAdvertised d services => simp [hear, AdapterEvent.update?]

/-- Nothing but a listener says anything of power. -/
theorem powers_go {i : Nat} {t : Task} (hi : s.host.tasks.get? i = some t) :
    powers c (s.go i t).worker.queue = powers c s.worker.queue ++ (s.host.reports? c t).toList := by
  by_cases hl : t.listener? = none
  · -- what such a task posts is read off how tasks go on, and is about a peer
    obtain ⟨next, post, closes, hgoes, hprogress⟩ := s.go_progress hi
    have hpost : powers c (post.toList.map fun x => .report x.1 x.2) = [] := by
      refine powers_eq_nil fun on message hmem => ?_
      obtain ⟨x, hx, heq⟩ := List.mem_map.mp hmem
      obtain ⟨p, r, hpeer⟩ := hgoes.peer_of_mem hl (Option.mem_toList.mp hx)
      cases x
      cases heq
      cases hpeer
    rw [hprogress.queue, if_pos hr, powers_append, hpost, Stack.reports?_eq_none (by simp [hl])]
    rfl
  cases t with
  | listen c' =>
    simp only [go, listen, Stack.reports?]
    cases hevents : s.host.platform.perform .events with
    | ok u => simp [Except.isOk, Except.toBool, subscribed, become, withStack]
    | error e =>
      refine (powers_post (s := s.enter (.listenFailed e)) hr c c' _).trans ?_
      simp [Message.power?, Except.isOk, Except.toBool, enter, Turn.log]
  | readState c' inbox =>
    simp only [go, readState, Stack.reports?]
    cases hstate : s.host.platform.perform .adapterState with
    | ok state =>
      refine (powers_post hr c c' state.report).trans ?_
      cases state <;> rfl
    | error e => exact powers_post (s := s.enter (.stateUnavailable e)) hr c c' _
  | listening c' inbox =>
    obtain ⟨items, ended⟩ := inbox
    have hstop : powers c (s.stopListening i c').worker.queue = powers c s.worker.queue ++ [] :=
      (List.append_nil _).symm
    simp only [go, listening, Stack.reports?]
    cases items with
    | nil => simpa using hstop
    | cons e rest =>
      by_cases hopen : s.host.isOpen c' = true
      · simp only [hopen, if_true, and_true]
        exact powers_hear (s := s.become i (.listening c' ⟨rest, ended⟩)) hr c c' e
      · simpa [hopen] using hstop
  | _ => exact absurd rfl hl

end Scene

namespace Stack

variable {s : Stack} {c c' : CentralId}

theorem isOpen_iff : s.isOpen c = true ↔ s.closed? c = some false := by
  cases hside : s.sides.get? c with
  | none => simp [isOpen, closed?, hside]
  | some side => simp [isOpen, closed?, hside]

/-- No other call than the close of a manager closes it. -/
theorem isOpen_accept {k : HostCall handles} (hk : ¬ (c = c' ∧ k = .close))
    (h : s.isOpen c' = true) : (s.accept c k).state.isOpen c' = true := by
  rw [isOpen_iff] at h ⊢
  cases k with
  | openCentral =>
    rw [closed?_openCentral, h]
    split <;> rfl
  | scan b => exact (closed?_startScan s c c').trans h
  | stopScan => exact (closed?_stopScan s c c').trans h
  | close => exact (closed?_close s fun hc => hk ⟨hc.symm, rfl⟩).trans h
  | lookup p => exact h
  | peer n k => exact (closed?_acceptPeer s c n.1 n.2 k).trans h

theorem isOpen_acceptAll {ks : List (CentralId × HostCall handles)} (hks : (c, .close) ∉ ks)
    (h : s.isOpen c = true) : (s.acceptAll ks).isOpen c = true := by
  induction ks generalizing s with
  | nil => exact h
  | cons e ks ih =>
    refine ih (fun hk => hks (List.mem_cons_of_mem e hk)) (isOpen_accept ?_ h)
    rintro ⟨rfl, hk⟩
    exact hks (hk ▸ List.mem_cons_self)

end Stack

/-- What becomes of a listener in a beat, and what it says of the power of its manager. -/
inductive Beat.Fares (b : Beat) (i : Nat) : Task → Task → Option Bool → Prop
  | idles (c : CentralId) : Fares b i (.listen c) (.listen c) none
  | listens (c : CentralId) : b.happening = .step i →
      Fares b i (.listen c) (.readState c .empty) none
  | waits (c : CentralId) (inbox inbox' : Inbox AdapterEvent) :
      inbox'.updates = inbox.updates ++ b.update?.toList →
      (b.happening ≠ .adapterEnds → inbox'.ended = inbox.ended) →
      Fares b i (.readState c inbox) (.readState c inbox') none
  | reads (c : CentralId) (inbox : Inbox AdapterEvent) : b.happening = .step i →
      Fares b i (.readState c inbox) (.listening c inbox)
        (b.scene.host.reports? c (.readState c inbox))
  | receives (c : CentralId) (inbox inbox' : Inbox AdapterEvent) :
      inbox'.updates = inbox.updates ++ b.update?.toList →
      (b.happening ≠ .adapterEnds → inbox'.ended = inbox.ended) →
      Fares b i (.listening c inbox) (.listening c inbox') none
  | hears (c : CentralId) (e : AdapterEvent) (rest : List AdapterEvent) (ended : Bool) :
      b.happening = .step i →
      Fares b i (.listening c ⟨e :: rest, ended⟩) (.listening c ⟨rest, ended⟩)
        (e.update?.map AdapterState.isOn)

namespace Beat

variable {b : Beat} {i : Nat} {t t' : Task} {c : CentralId}

theorem update?_of_step (h : b.happening = .step i) : b.update? = none := by
  simp [update?, h]

theorem update?_of_moment {m : Moment handles} (h : b.moment? = some m) : b.update? = none := by
  simp [update?, (of_moment h).1]

theorem Fares.listener? {said : Option Bool} (h : b.Fares i t t' said) :
    t'.listener? = t.listener? := by
  cases h <;> rfl

/-- A listener to which nothing happens. -/
theorem fares_of_same (hl : t.listener? = some c) (hupdate : b.update? = none) :
    b.Fares i t t none := by
  cases t with
  | listen c => exact .idles c
  | readState c inbox => exact .waits c inbox inbox (by simp [hupdate]) fun _ => rfl
  | listening c inbox => exact .receives c inbox inbox (by simp [hupdate]) fun _ => rfl
  | _ => cases hl

/-- A listener gets what comes from the adapter, once it has subscribed. -/
theorem fares_of_brings (hl : t.listener? = some c) :
    b.Fares i t ((b.happening.brings t).getD t) none := by
  obtain ⟨s, x⟩ := b
  cases x with
  | adapter e =>
    have hpush (inbox : Inbox AdapterEvent) :
        (inbox.push e).updates = inbox.updates ++ e.update?.toList := by
      cases he : e.update? <;> simp [Inbox.updates, Inbox.push, he]
    cases t with
    | listen c => exact .idles c
    | readState c inbox => exact .waits c inbox _ (hpush inbox) fun _ => rfl
    | listening c inbox => exact .receives c inbox _ (hpush inbox) fun _ => rfl
    | _ => cases hl
  | adapterEnds =>
    have hending (inbox : Inbox AdapterEvent) :
        inbox.ending.updates = inbox.updates ++ (Beat.mk s .adapterEnds).update?.toList :=
      (List.append_nil _).symm
    cases t with
    | listen c => exact .idles c
    | readState c inbox => exact .waits c inbox _ (hending inbox) fun hne => absurd rfl hne
    | listening c inbox => exact .receives c inbox _ (hending inbox) fun hne => absurd rfl hne
    | _ => cases hl
  | notified d n | notificationsEnd d =>
    cases t with
    | listen | readState | listening => exact fares_of_same hl rfl
    | _ => cases hl
  | _ => exact fares_of_same hl rfl

theorem fares_of_goes {post : Option (CentralId × Report handles)}
    {closes : Option (CentralId × PeerId)} (hstep : b.happening = .step i)
    (h : t.Goes (some t') post closes) (hl : t'.listener? = some c) :
    ∃ said, b.Fares i t t' said := by
  cases h with
  | listens c => exact ⟨_, .listens c hstep⟩
  | readsState c inbox => exact ⟨_, .reads c inbox hstep⟩
  | hears c e rest ended => exact ⟨_, .hears c e rest ended hstep⟩
  | hearsLoss c d rest ended => exact ⟨_, .hears c _ rest ended hstep⟩
  | connected a status next hnext =>
    rcases hnext with hnext | hnext
    · cases hnext
      cases hl
    · cases hnext
  | _ => cases hl

end Beat

/-- A listener goes on as long as its manager is open and the adapter does not fail it. -/
theorem Scene.fares_stepTask {s : Scene} {i : Nat} {t : Task} {c : CentralId}
    (hi : s.host.tasks.get? i = some t) (hl : t.listener? = some c)
    (hr : s.worker.running = true) (hopen : s.host.isOpen c = true)
    (hevents : t = .listen c → s.host.platform.perform .events = .ok ())
    (hended : ∀ inbox ∈ t.heard?, inbox.ended = false) :
    ∃ t' said, (s.stepTask i).host.tasks.get? i = some t' ∧
      (Beat.mk s (.step i)).Fares i t t' said ∧
      powers c (s.stepTask i).worker.queue = powers c s.worker.queue ++ said.toList := by
  by_cases hwaits : s.host.waits i t = true
  · rw [stepTask_of_waits hi hwaits]
    exact ⟨t, none, hi, Beat.fares_of_same hl rfl, (List.append_nil _).symm⟩
  have hpowers := powers_go hr c hi
  rw [stepTask_of_not_waits hi hwaits]
  cases t with
  | listen c' =>
    cases hl
    refine ⟨_, none, ?_, .listens c rfl, ?_⟩
    · simp [go, listen, hevents rfl, Scene.subscribed, Scene.become, withStack, Table.get?_insert]
    · rw [hpowers]
      simp [Stack.reports?, hevents rfl, Except.isOk, Except.toBool]
  | readState c' inbox =>
    cases hl
    exact ⟨_, _, by simp [go, readState, Scene.become, withStack, Table.get?_insert],
      .reads c inbox rfl, hpowers⟩
  | listening c' inbox =>
    cases hl
    obtain ⟨items, ended⟩ := inbox
    cases hended _ rfl
    cases items with
    | nil => simp [Stack.waits, hopen] at hwaits
    | cons e rest =>
      obtain ⟨post, closes, -, hprogress⟩ := s.hear_progress i c e rest false hi
      refine ⟨_, _, ?_, .hears c e rest false rfl, ?_⟩
      · simp only [go, listening, hopen, if_true]
        exact (hprogress.tasks i).trans (if_pos rfl)
      · rw [hpowers]
        simp [Stack.reports?, hopen]
  | _ => cases hl

namespace Beat

variable {b : Beat} {i : Nat} {t t' : Task} {c : CentralId}

theorem powers_posted_of_moment {m : Moment handles} (h : b.moment? = some m) (c : CentralId) :
    powers c b.posted = [] := by
  refine powers_eq_nil fun on message hmem => ?_
  rw [posted_of_moment h] at hmem
  obtain ⟨⟨c', k⟩, -, hmem⟩ := List.mem_flatMap.mp hmem
  cases k with
  | peer n k =>
    obtain ⟨r, -, heq⟩ := List.mem_map.mp hmem
    cases heq
  | _ => cases hmem

theorem Outside.powers_posted (h : b.Outside) (c : CentralId) : powers c b.posted = [] :=
  powers_eq_nil fun on message => h.posted c (.stateChanged on message)

/-- A step of a task that does not listen for a manager says nothing of its power. -/
theorem Steps.powers_posted {next : Option Task} {post : Option (CentralId × Report handles)}
    {closes : Option (CentralId × PeerId)} (h : b.Steps i t next post closes)
    (hr : b.scene.worker.running = true) (hl : t.listener? ≠ some c) : powers c b.posted = [] := by
  have hqueue := b.left_append_posted
  rw [h.left, after_of_step h.happening] at hqueue
  have hpowers : powers c (b.scene.stepTask i).worker.queue = powers c b.scene.worker.queue := by
    simp only [Scene.stepTask, h.found]
    split
    · rfl
    · rw [Scene.powers_go hr c h.found, Stack.reports?_eq_none hl]
      exact List.append_nil _
  rw [hqueue, powers_append] at hpowers
  exact List.append_right_eq_self.mp hpowers

/-- The listener of an open manager is still there after a beat, and has spoken if it stepped. -/
theorem fares_of_listener (hs : b.scene.host.Sound) (ha : b.scene.host.Attentive)
    (hi : b.scene.host.tasks.get? i = some t) (hl : t.listener? = some c)
    (hr : b.scene.worker.running = true) (hopen : b.scene.host.isOpen c = true)
    (hevents : b.happening = .step i → t = .listen c →
      b.scene.host.platform.perform .events = .ok ())
    (hended : ∀ inbox ∈ t.heard?, inbox.ended = false) :
    ∃ t' said, b.after.host.tasks.get? i = some t' ∧ b.Fares i t t' said ∧
      (b.happening = .step i → powers c b.posted = said.toList) := by
  rcases b.cases with ⟨m, hm⟩ | ⟨j, task, next, post, closes, hsteps⟩ | hout
  · obtain ⟨-, -, -, -, hhost, -⟩ := of_moment hm
    refine ⟨t, none, ?_, fares_of_same hl (update?_of_moment hm), fun _ =>
      powers_posted_of_moment hm c⟩
    rw [hhost, (Stack.grows_acceptAll hs _).tasks i (hs.lt_nextTask hi), hi]
  · by_cases hij : i = j
    · subst hij
      have hqueue := b.left_append_posted
      rw [hsteps.left] at hqueue
      obtain ⟨s, x⟩ := b
      cases show x = .step i from hsteps.happening
      obtain ⟨t', said, hi', hfares, hpowers⟩ :=
        Scene.fares_stepTask hi hl hr hopen (hevents rfl) hended
      refine ⟨t', said, hi', hfares, fun _ => ?_⟩
      rw [show s.stepTask i = (Beat.mk s (.step i)).after from rfl, hqueue, powers_append] at hpowers
      exact List.append_cancel_left hpowers
    · refine ⟨t, none, ?_, fares_of_same hl (update?_of_step hsteps.happening), fun hstep => ?_⟩
      · rw [hsteps.progress.tasks, if_neg hij, hi]
      · rw [hsteps.happening] at hstep
        cases hstep
        exact absurd rfl hij
  · exact ⟨_, none, by rw [hout.get?_after ha, hi]; rfl, fares_of_brings hl, fun _ =>
      hout.powers_posted c⟩

/-- Where a listener is after a beat, it was before or was just started. -/
theorem fares_of_after (hs : b.scene.host.Sound) (ha : b.scene.host.Attentive)
    (hi : b.after.host.tasks.get? i = some t') (hl : t'.listener? = some c) :
    t' = .listen c ∨ ∃ t said, b.scene.host.tasks.get? i = some t ∧ b.Fares i t t' said := by
  rcases b.cases with ⟨m, hm⟩ | ⟨j, task, next, post, closes, hsteps⟩ | hout
  · obtain ⟨-, -, -, -, hhost, -⟩ := of_moment hm
    rw [hhost] at hi
    by_cases hnew : b.scene.host.nextTask ≤ i
    · left
      obtain ⟨e, -, s, hstarted⟩ := Stack.exists_started hs hnew hi
      exact Task.eq_listen_of_started hstarted hl
    · rw [(Stack.grows_acceptAll hs _).tasks i (Nat.lt_of_not_le hnew)] at hi
      exact .inr ⟨t', none, hi, fares_of_same hl (update?_of_moment hm)⟩
  · rw [hsteps.progress.tasks] at hi
    split at hi
    next hij =>
      subst hij hi
      obtain ⟨said, hfares⟩ := fares_of_goes hsteps.happening hsteps.goes hl
      exact .inr ⟨task, said, hsteps.found, hfares⟩
    next => exact .inr ⟨t', none, hi, fares_of_same hl (update?_of_step hsteps.happening)⟩
  · rw [hout.get?_after ha, Option.map_eq_some_iff] at hi
    obtain ⟨t, ht, rfl⟩ := hi
    refine .inr ⟨t, none, ht, fares_of_brings (c := c) ?_⟩
    cases hbrings : b.happening.brings t with
    | none => simpa [hbrings] using hl
    | some t' =>
      rw [← Task.listener?_of_brings hbrings]
      simpa [hbrings] using hl

end Beat

end GattHub.Radio
