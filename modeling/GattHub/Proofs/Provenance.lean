import GattHub.Proofs.PeerCalls
import GattHub.Proofs.Schedule

/-! Where the tasks of a radio come from: a task was there before a beat, or the beat changed one
that was there, or it was started by a call. So a task is as old as the call that started it, and a
report as old as the task that posts it. -/

namespace GattHub.Radio

/-- A radio names every peer by the peer's own identity. -/
def Names (p : PeerId) (n : handles.Peer) : Prop := n.1 = p

theorem names_device (p : PeerId) (d : DeviceId) : Names p (p, d) := rfl

/-- The events that a manager's listener has received and not taken in. -/
def Task.unread (c : CentralId) : Task → List AdapterEvent
  | .readState c' inbox | .listening c' inbox => if c' = c then inbox.items else []
  | _ => []

theorem Task.Goes.unread {t t' : Task} {post : Option (CentralId × Report handles)}
    {closes : Option (CentralId × PeerId)} (h : t.Goes (some t') post closes) {c : CentralId}
    {e : AdapterEvent} (he : e ∈ t'.unread c) : e ∈ t.unread c := by
  cases h with
  | readsState => exact he
  | hears c' _ rest _ _ | hearsLoss c' _ rest =>
    simp only [Task.unread] at he ⊢
    split
    next hc =>
      rw [if_pos hc] at he
      exact List.mem_cons_of_mem _ he
    next hc => rwa [if_neg hc] at he
  | listens c' =>
    simp only [Task.unread, Inbox.empty] at he
    split at he <;> cases he
  | connected a status next hnext => rcases hnext with hnext | hnext <;> cases hnext; cases he
  | switches | requests | connects | subscribes | forwards => cases he

theorem Happening.brings_unread {x : Happening} {t t' : Task} (h : x.brings t = some t')
    {c : CentralId} {e : AdapterEvent} (he : e ∈ t'.unread c) :
    e ∈ t.unread c ∨ x = .adapter e := by
  have hlistener {f : Inbox AdapterEvent → Inbox AdapterEvent}
      (hf : ∀ inbox, e ∈ (f inbox).items → e ∈ inbox.items ∨ x = .adapter e)
      (h : Stack.inListener f t = some t') : e ∈ t.unread c ∨ x = .adapter e := by
    cases t with
    | readState c' inbox | listening c' inbox =>
      cases h
      simp only [Task.unread] at he ⊢
      split at he
      next hc =>
        rw [if_pos hc]
        exact hf inbox he
      next => cases he
    | _ => cases h
  have hforwarder {d : DeviceId} {f : Inbox Notification → Inbox Notification}
      (h : Stack.inForwarder d f t = some t') : e ∈ t.unread c ∨ x = .adapter e := by
    cases t with
    | forwarding a inbox =>
      simp only [Stack.inForwarder] at h
      split at h <;> cases h
      cases he
    | _ => cases h
  cases x with
  | adapter e' =>
    refine hlistener (fun inbox hmem => ?_) h
    rcases List.mem_append.mp hmem with hmem | hmem
    · exact .inl hmem
    · exact .inr (by rw [List.mem_singleton.mp hmem])
  | adapterEnds => exact hlistener (f := Inbox.ending) (fun inbox hmem => .inl hmem) h
  | notified d n => exact hforwarder h
  | notificationsEnd d => exact hforwarder h
  | _ => cases h

theorem serves (s : Stack) : s.answers.Serves Names := by
  refine ⟨fun c p n h => ?_, fun _ _ => rfl⟩
  obtain ⟨d, -, rfl⟩ := Option.map_eq_some_iff.mp h
  rfl

namespace Stack

variable {s : Stack}

/-- A task that is new after some calls was started by one of them. -/
theorem exists_started (hs : s.Sound) {ks : List (CentralId × HostCall handles)} {i : Nat}
    (hi : s.nextTask ≤ i) {t : Task} (h : (s.acceptAll ks).tasks.get? i = some t) :
    ∃ e ∈ ks, ∃ s' : Stack, s'.started? e.1 e.2 = some t := by
  induction ks generalizing s with
  | nil =>
    rw [show s.acceptAll [] = s from rfl, hs.fresh i hi] at h
    cases h
  | cons e ks ih =>
    have hcalled := s.called_accept hs.fresh e.1 e.2
    have hsound := hcalled.sound hs
    have hall : s.acceptAll (e :: ks) = (s.accept e.1 e.2).state.acceptAll ks := rfl
    rw [hall] at h
    by_cases hlater : (s.accept e.1 e.2).state.nextTask ≤ i
    · obtain ⟨e', he', hstarted⟩ := ih hsound hlater h
      exact ⟨e', List.mem_cons_of_mem e he', hstarted⟩
    · rw [(grows_acceptAll hsound ks).tasks i (Nat.lt_of_not_le hlater), hcalled.tasks] at h
      split at h
      · exact ⟨e, List.mem_cons_self, s, h⟩
      · rw [hs.fresh i hi] at h
        cases h

theorem eq_connect_of_started {c : CentralId} {k : HostCall handles} {a : Attempt} {begun : Bool}
    (h : s.started? c k = some (.connect a begun)) :
    a.central = c ∧ k = .peer (a.peer, a.device) .connect := by
  cases k with
  | openCentral => cases h
  | scan | stopScan | close =>
    simp only [started?] at h
    split at h <;> cases h
  | lookup => cases h
  | peer n k =>
    cases k <;> cases h
    exact ⟨rfl, rfl⟩

theorem eq_cancel_of_started {c c' : CentralId} {k : HostCall handles} {p : PeerId} {d : DeviceId}
    {begun : Bool} (h : s.started? c' k = some (.request c p d .disconnect begun)) :
    c = c' ∧ k = .peer (p, d) .cancelConnection := by
  cases k with
  | openCentral => cases h
  | scan | stopScan | close =>
    simp only [started?] at h
    split at h <;> cases h
  | lookup => cases h
  | peer n k =>
    cases k <;> cases h
    exact ⟨rfl, rfl⟩

theorem unread_of_started {c c' : CentralId} {k : HostCall handles} {t : Task}
    (h : s.started? c' k = some t) : t.unread c = [] := by
  cases k with
  | openCentral =>
    cases h
    rfl
  | scan | stopScan | close =>
    simp only [started?] at h
    split at h <;> cases h
    rfl
  | lookup => cases h
  | peer n k =>
    cases k <;> cases h <;> rfl

end Stack

namespace Beat

variable {b : Beat} {c : CentralId} {p : PeerId}

/-- A request of the session is accepted. -/
def Accepts (b : Beat) (c : CentralId) (p : PeerId) (action : PeerAction) : Prop :=
  ∃ t, b.moment? = some t ∧ t.accepted? c p = some action

/-- The manager goes away. -/
def Closes (b : Beat) (c : CentralId) : Prop :=
  ∃ t, b.moment? = some t ∧ t.scanEvent? c = some .close

theorem accepts_iff {action : PeerAction} :
    b.Accepts c p action ↔ b.moment?.bind (·.accepted? c p) = some action :=
  Option.bind_eq_some_iff.symm

theorem closes_iff : b.Closes c ↔ b.moment?.bind (·.scanEvent? c) = some .close :=
  Option.bind_eq_some_iff.symm

instance {action : PeerAction} : Decidable (b.Accepts c p action) :=
  decidable_of_iff _ accepts_iff.symm

instance : Decidable (b.Closes c) := decidable_of_iff _ closes_iff.symm

/-- What holds of every beat of a course. -/
structure Proper (b : Beat) : Prop where
  sound : b.scene.host.Sound
  labelled : ∀ h, b.scene.worker.hub = some h → h.Labelled
  bears : ∀ h, b.scene.worker.hub = some h → h.Bears Names

theorem served {t : Moment handles} (h : b.moment? = some t) : t.Served Names := by
  obtain ⟨-, -, ⟨m, rest, -, hmove⟩, -⟩ := of_moment h
  intro answers hm
  have heq : answers = b.scene.host.answers := by
    cases m with
    | start => cases hmove
    | request ticket r =>
      rcases hm with ⟨r', hm⟩ | hm <;> rw [hm] at hmove <;> cases hmove
      rfl
    | report c r => rcases hm with ⟨r', hm⟩ | hm <;> rw [hm] at hmove <;> cases hmove
    | shutdown =>
      rcases hm with ⟨r', hm⟩ | hm <;> rw [hm] at hmove <;> cases hmove
      rfl
  rw [heq]
  exact serves _

theorem Proper.moment (hb : b.Proper) {t : Moment handles} (h : b.moment? = some t) :
    t.hub.Labelled ∧ t.hub.Bears Names ∧ t.Served Names := by
  have hhub := (of_moment h).2.1
  exact ⟨hb.labelled _ hhub, hb.bears _ hhub, served h⟩

theorem Proper.after (hb : b.Proper) :
    ∀ h, b.after.worker.hub = some h → h.Labelled ∧ h.Bears Names := by
  intro h hafter
  rcases b.cases with ⟨t, ht⟩ | ⟨i, task, next, post, closes, hsteps⟩ | hout
  · obtain ⟨hl, hbears, hserved⟩ := hb.moment ht
    have ha : t.after = some h := (of_moment ht).2.2.2.1.symm.trans hafter
    exact ⟨t.labelled hl ha, t.bears hbears hserved ha⟩
  · rw [hsteps.progress.hub] at hafter
    exact ⟨hb.labelled h hafter, hb.bears h hafter⟩
  · rw [hout.hub] at hafter
    exact ⟨hb.labelled h hafter, hb.bears h hafter⟩

/-- A task after a beat was there, or came of one that was there, or was started by a call. -/
theorem task_origin (hs : b.scene.host.Sound) {i : Nat} {t : Task}
    (h : b.after.host.tasks.get? i = some t) :
    b.scene.host.tasks.get? i = some t ∨
      (∃ t₀ post closes, b.Steps i t₀ (some t) post closes) ∨
      (∃ t₀, b.scene.host.tasks.get? i = some t₀ ∧ b.happening.brings t₀ = some t) ∨
      b.scene.host.nextTask ≤ i ∧ ∃ m, b.moment? = some m ∧
        ∃ e ∈ Effect.calls m.effects, ∃ s : Stack, s.started? e.1 e.2 = some t := by
  rcases b.cases with ⟨m, hm⟩ | ⟨j, task, next, post, closes, hsteps⟩ | hout
  · obtain ⟨-, -, -, -, hhost, -⟩ := of_moment hm
    rw [hhost] at h
    by_cases hi : b.scene.host.nextTask ≤ i
    · exact .inr (.inr (.inr ⟨hi, m, hm, Stack.exists_started hs hi h⟩))
    · rw [(Stack.grows_acceptAll hs _).tasks i (Nat.lt_of_not_le hi)] at h
      exact .inl h
  · rw [hsteps.progress.tasks] at h
    split at h
    next hij =>
      subst hij
      rw [h] at hsteps
      exact .inr (.inl ⟨task, post, closes, hsteps⟩)
    next => exact .inl h
  · rcases hout.tasks i with hsame | ⟨t₀, t', ht₀, hbrings, ht'⟩
    · exact .inl (hsame.symm.trans h)
    · rw [ht', Option.some.injEq] at h
      exact .inr (.inr (.inl ⟨t₀, ht₀, h ▸ hbrings⟩))

end Beat

namespace Scene

/-- A task is on its way to report the result of a connect. -/
def Connects (s : Scene) (c : CentralId) (p : PeerId) (i : Nat) : Prop :=
  ∃ a begun, s.host.tasks.get? i = some (.connect a begun) ∧ a.central = c ∧ a.peer = p

/-- A task is on its way to report the end that a session has asked for. -/
def Disconnects (s : Scene) (c : CentralId) (p : PeerId) (i : Nat) : Prop :=
  ∃ d begun, s.host.tasks.get? i = some (.request c p d .disconnect begun)

/-- A listener has yet to take in that a link of the peer was lost. -/
def Learns (s : Scene) (c : CentralId) (p : PeerId) (i : Nat) : Prop :=
  ∃ t d, s.host.tasks.get? i = some t ∧ .disconnected d ∈ t.unread c ∧ d.peer = p

end Scene

namespace Beat

variable {b : Beat} {c : CentralId} {p : PeerId} {i : Nat}

/-- The peer of which the adapter gives out that its link was lost. -/
def lost? (b : Beat) : Option PeerId :=
  match b.happening with
  | .adapter (.disconnected d) => some d.peer
  | _ => none

/-- A link is asked for at the host because a session asks for it. -/
theorem connects_of_call (hb : b.Proper) {t : Moment handles} (ht : b.moment? = some t)
    {n : handles.Peer} (hn : Names p n)
    (hk : (c, .peer n .connect) ∈ Effect.calls t.effects) : b.Accepts c p .connect := by
  obtain ⟨hl, hbears, hserved⟩ := hb.moment ht
  rcases t.mem_calls_peer hl hbears hserved hk with
    hmtu | ⟨p', hp, ⟨action, hacc, haction, -⟩ | hcancel⟩
  · cases hmtu
  · rw [← show n.1 = p' from hp, show n.1 = p from hn, haction rfl] at hacc
    exact ⟨t, ht, hacc⟩
  · cases hcancel.1

/-- A link is ended at the host because its session asks for it or its manager goes away. -/
theorem ends_of_call (hb : b.Proper) {t : Moment handles} (ht : b.moment? = some t)
    {n : handles.Peer} (hn : Names p n)
    (hk : (c, .peer n .cancelConnection) ∈ Effect.calls t.effects) :
    b.Accepts c p .disconnect ∨ b.Closes c := by
  obtain ⟨hl, hbears, hserved⟩ := hb.moment ht
  rcases t.mem_calls_peer hl hbears hserved hk with
    hmtu | ⟨p', hp, ⟨action, hacc, -, haction⟩ | hcancel⟩
  · cases hmtu
  · rw [← show n.1 = p' from hp, show n.1 = p from hn, haction rfl] at hacc
    exact .inl ⟨t, ht, hacc⟩
  · exact .inr ⟨t, ht, hcancel.2⟩

/-- A connect on its way was so before, or a session has just asked for it. -/
theorem connects_after (hb : b.Proper) (h : b.after.Connects c p i) :
    b.scene.Connects c p i ∨ b.scene.host.nextTask ≤ i ∧ b.Accepts c p .connect := by
  obtain ⟨a, begun, h, rfl, rfl⟩ := h
  rcases task_origin hb.sound h with hsame | ⟨t₀, post, closes, hsteps⟩ | ⟨t₀, -, hbrings⟩ |
    ⟨hi, m, hm, e, he, s, hstarted⟩
  · exact .inl ⟨a, begun, hsame, rfl, rfl⟩
  · obtain ⟨-, hfound, hgoes, -⟩ := hsteps
    cases hgoes with
    | connects => exact .inl ⟨a, false, hfound, rfl, rfl⟩
    | connected a' status next hnext => rcases hnext with hnext | hnext <;> cases hnext
  · exfalso
    cases hx : b.happening <;> rw [hx] at hbrings <;>
      (cases t₀ <;> simp [Happening.brings, Stack.inListener, Stack.inForwarder] at hbrings)
  · obtain ⟨hc, hk⟩ := Stack.eq_connect_of_started hstarted
    have hcall : (a.central, .peer (a.peer, a.device) .connect) ∈ Effect.calls m.effects := by
      rwa [hc, ← hk]
    exact .inr ⟨hi, connects_of_call hb hm (names_device _ _) hcall⟩

theorem disconnects_after (hb : b.Proper) (h : b.after.Disconnects c p i) :
    b.scene.Disconnects c p i ∨
      b.scene.host.nextTask ≤ i ∧ (b.Accepts c p .disconnect ∨ b.Closes c) := by
  obtain ⟨d, begun, h⟩ := h
  rcases task_origin hb.sound h with hsame | ⟨t₀, post, closes, hsteps⟩ | ⟨t₀, -, hbrings⟩ |
    ⟨hi, m, hm, e, he, s, hstarted⟩
  · exact .inl ⟨d, begun, hsame⟩
  · obtain ⟨-, hfound, hgoes, -⟩ := hsteps
    cases hgoes with
    | requests => exact .inl ⟨d, false, hfound⟩
    | connected a' status next hnext => rcases hnext with hnext | hnext <;> cases hnext
  · exfalso
    cases hx : b.happening <;> rw [hx] at hbrings <;>
      (cases t₀ <;> simp [Happening.brings, Stack.inListener, Stack.inForwarder] at hbrings)
  · obtain ⟨hc, hk⟩ := Stack.eq_cancel_of_started hstarted
    have hcall : (c, .peer (p, d) .cancelConnection) ∈ Effect.calls m.effects := by
      rwa [hc, ← hk]
    exact .inr ⟨hi, ends_of_call hb hm (names_device _ _) hcall⟩

theorem learns_after (hs : b.scene.host.Sound) (h : b.after.Learns c p i) :
    b.scene.Learns c p i ∨ b.lost? = some p := by
  obtain ⟨t, d, h, hd, hp⟩ := h
  rcases task_origin hs h with hsame | ⟨t₀, post, closes, hsteps⟩ | ⟨t₀, hfound, hbrings⟩ |
    ⟨-, m, -, e, -, s, hstarted⟩
  · exact .inl ⟨t, d, hsame, hd, hp⟩
  · exact .inl ⟨t₀, d, hsteps.found, hsteps.goes.unread hd, hp⟩
  · rcases Happening.brings_unread hbrings hd with hd | hx
    · exact .inl ⟨t₀, d, hfound, hd, hp⟩
    · exact .inr (by simp [lost?, hx, hp])
  · rw [Stack.unread_of_started hstarted] at hd
    cases hd

end Beat

namespace Course

variable (settings : Settings) (platform : Platform) (xs : List Happening)

theorem hub_proper : ∀ h, (of settings platform xs).scene.worker.hub = some h →
    h.Labelled ∧ h.Bears Names := by
  refine of_induction (P := fun k => ∀ h, k.scene.worker.hub = some h → h.Labelled ∧ h.Bears Names)
    settings platform ?_ ?_ xs
  · rintro h ⟨⟩
    exact ⟨Hub.labelled_new settings, Hub.bears_new settings⟩
  · intro ys x ih
    exact Beat.Proper.after (b := ⟨(of settings platform ys).scene, x⟩)
      ⟨sound settings platform ys, fun h hh => (ih h hh).1, fun h hh => (ih h hh).2⟩

theorem proper_of_past_eq {bs cs : List Beat} {b : Beat}
    (hpast : (of settings platform xs).past = bs ++ b :: cs) : b.Proper := by
  obtain ⟨ys, -, hscene⟩ := exists_of_past_eq settings platform xs hpast
  have hs := sound settings platform ys
  have hhub := hub_proper settings platform ys
  rw [hscene] at hs hhub
  exact ⟨hs, fun h hh => (hhub h hh).1, fun h hh => (hhub h hh).2⟩

theorem proper_of_mem {u : Beat} (hu : u ∈ (of settings platform xs).past) : u.Proper := by
  obtain ⟨bs, cs, hpast⟩ := List.append_of_mem hu
  exact proper_of_past_eq settings platform xs hpast

/-- What holds now held after some earlier beat, or it came to hold in a beat since. -/
theorem descends {F : Scene → Prop} {G : Beat → Prop} {bs seg : List Beat} {b : Beat}
    (hpast : (of settings platform xs).past = bs ++ b :: seg)
    (hbeat : ∀ u ∈ seg, F u.after → F u.scene ∨ G u) (h : F (of settings platform xs).scene) :
    F b.after ∨ ∃ u ∈ seg, G u := by
  refine since_induction (P := fun seg s => (∀ u ∈ seg, F u.after → F u.scene ∨ G u) → F s →
    F b.after ∨ ∃ u ∈ seg, G u) settings platform xs hpast (fun _ h => .inl h) ?_ hbeat h
  intro seg u ih hbeat h
  have hlast : u ∈ seg ++ [u] := List.mem_append_right _ (List.mem_singleton_self u)
  -- Either the last beat made it so, or it was so already when that beat began.
  rcases hbeat u hlast h with hbefore | hnew
  · refine (ih (fun v hv => hbeat v (List.mem_append_left _ hv)) hbefore).imp_right ?_
    rintro ⟨v, hv, hvi⟩
    exact ⟨v, List.mem_append_left _ hv, hvi⟩
  · exact .inr ⟨u, hlast, hnew⟩

/-- The same up to a beat that is past. -/
theorem descends_to {F : Scene → Prop} {G : Beat → Prop} {bs seg : List Beat} {b : Beat}
    (hpast : (of settings platform xs).past = bs ++ b :: seg)
    (hbeat : ∀ u ∈ seg, F u.after → F u.scene ∨ G u) {v : Beat} (hv : v ∈ seg) (h : F v.scene) :
    F b.after ∨ ∃ u ∈ seg, G u := by
  obtain ⟨front, back, rfl⟩ := List.append_of_mem hv
  rw [← List.cons_append, ← List.append_assoc] at hpast
  obtain ⟨ys, hys, hscene⟩ := exists_of_past_eq settings platform xs hpast
  rw [← hscene] at h
  refine (descends settings platform ys hys (fun u hu => hbeat u ?_) h).imp_right ?_
  · exact List.mem_append_left _ hu
  · rintro ⟨u, hu, hui⟩
    exact ⟨u, List.mem_append_left _ hu, hui⟩

end Course

end GattHub.Radio
