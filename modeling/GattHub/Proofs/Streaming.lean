import GattHub.Proofs.Relaying
import GattHub.Proofs.Delivery

/-! Streams of notifications. The task of a connect reports the result first and subscribes to the
notifications of the link in a later step. From then on it passes on all that comes in, as long as the
link is open; what came in before that step reaches nobody. -/

namespace GattHub.Radio

namespace Stack

variable {s : Stack} {c c' : CentralId} {p : PeerId} {l : LinkId} {i : Nat} {a : Attempt}

theorem linkAfter_cases {k : HostCall handles} (h : s.linkAfter c k p = some l) :
    s.link? c p = some l ∨ l = ⟨s.nextLink⟩ := by
  cases k with
  | openCentral | close => cases h
  | scan | stopScan | lookup => exact .inl h
  | peer n k =>
    cases k with
    | connect =>
      simp only [linkAfter] at h
      split at h
      · obtain ⟨-, -, hl⟩ := Option.map_eq_some_iff.mp h
        exact .inr hl.symm
      · exact .inl h
    | cancelConnection =>
      simp only [linkAfter] at h
      split at h
      · cases h
      · exact .inl h
    | _ => exact .inl h

/-- A call that leaves a manager with a link neither opens nor closes the manager. -/
theorem closed?_accept (hs : s.Fresh) {k : HostCall handles}
    (h : (s.accept c k).state.link? c' p = some l) :
    (s.accept c k).state.closed? c' = s.closed? c' := by
  have hlink := h
  rw [(s.called_accept hs c k).link?] at hlink
  cases k with
  | openCentral =>
    split at hlink
    · cases hlink
    next hc => rw [closed?_openCentral, if_neg hc]
  | close =>
    split at hlink
    · cases hlink
    next hc => exact closed?_close s hc
  | scan b => exact closed?_startScan s c c'
  | stopScan => exact closed?_stopScan s c c'
  | lookup q => rfl
  | peer n k => exact closed?_acceptPeer s c n.1 n.2 k

/-- A link that is open after a call was open before, or the call has opened it. -/
theorem live?_accept (hs : s.Fresh) {k : HostCall handles}
    (h : (s.accept c k).state.live? c' p = some l) : s.live? c' p = some l ∨ l = ⟨s.nextLink⟩ := by
  obtain ⟨hopen, hlink⟩ := live?_eq_some_iff.mp h
  rw [closed?_accept hs hlink] at hopen
  rw [(s.called_accept hs c k).link?] at hlink
  have hbefore : s.link? c' p = some l ∨ l = ⟨s.nextLink⟩ := by
    split at hlink
    next hc => exact hc ▸ linkAfter_cases hlink
    next => exact .inl hlink
  exact hbefore.imp_left fun hlink => live?_eq_some_iff.mpr ⟨hopen, hlink⟩

/-- No two attempts share a link, and none is at a link that is yet to come. -/
structure Unshared (s : Stack) : Prop where
  older : ∀ {i a}, s.attempt? i = some a → a.link.raw < s.nextLink
  apart : ∀ {i j a a'}, s.attempt? i = some a → s.attempt? j = some a' → a.link = a'.link → i = j

theorem unshared_new (platform : Platform) : (Stack.new platform).Unshared := ⟨nofun, nofun⟩

/-- What starts no attempt and takes no link back keeps the attempts apart. -/
theorem Unshared.of_attempts {s' : Stack} (h : s.Unshared)
    (hattempt : ∀ {i a}, s'.attempt? i = some a → s.attempt? i = some a)
    (hlink : s.nextLink ≤ s'.nextLink) : s'.Unshared :=
  ⟨fun ha => Nat.lt_of_lt_of_le (h.older (hattempt ha)) hlink,
    fun ha ha' => h.apart (hattempt ha) (hattempt ha')⟩

theorem Unshared.accept (hs : s.Fresh) (h : s.Unshared) (c : CentralId) (k : HostCall handles) :
    (s.accept c k).state.Unshared := by
  have hcalled := s.called_accept hs c k
  have hnext := hcalled.nextLink
  refine ⟨fun {i a} ha => ?_, fun {i j a a'} ha ha' hlink => ?_⟩
  · rw [hnext]
    rcases hcalled.attempt? ha with ha | ⟨n, rfl, -, rfl⟩
    · exact Nat.lt_of_lt_of_le (h.older ha) (Nat.le_add_right ..)
    · exact Nat.lt_succ_self _
  · rcases hcalled.attempt? ha with ha | ⟨n, -, hi, rfl⟩ <;>
      rcases hcalled.attempt? ha' with ha' | ⟨n', -, hj, rfl⟩
    · exact h.apart ha ha' hlink
    · exact absurd (h.older ha) (by simp [hlink])
    · exact absurd (h.older ha') (by simp [← hlink])
    · rw [hi, hj]

theorem Unshared.acceptAll (hs : s.Sound) (h : s.Unshared)
    (ks : List (CentralId × HostCall handles)) : (s.acceptAll ks).Unshared := by
  induction ks generalizing s with
  | nil => exact h
  | cons e ks ih =>
    exact ih ((s.called_accept hs.fresh e.1 e.2).sound hs) (h.accept hs.fresh e.1 e.2)

theorem nextLink_le_acceptAll (hs : s.Sound) (ks : List (CentralId × HostCall handles)) :
    s.nextLink ≤ (s.acceptAll ks).nextLink := by
  induction ks generalizing s with
  | nil => exact Nat.le_refl _
  | cons e ks ih =>
    have hcalled := s.called_accept hs.fresh e.1 e.2
    exact Nat.le_trans (hcalled.nextLink ▸ Nat.le_add_right ..) (ih (hcalled.sound hs))

/-- A link that is not a new one was open before the calls if it is open after them. -/
theorem isLive_of_acceptAll (hs : s.Sound) (ha : a.link.raw < s.nextLink)
    {ks : List (CentralId × HostCall handles)} (h : (s.acceptAll ks).isLive a = true) :
    s.isLive a = true := by
  induction ks generalizing s with
  | nil => exact h
  | cons e ks ih =>
    have hcalled := s.called_accept hs.fresh e.1 e.2
    have hnext := hcalled.nextLink
    have hlive := ih (hcalled.sound hs) (by omega) h
    rw [isLive_iff] at hlive ⊢
    refine (live?_accept hs.fresh hlive).resolve_right fun hl => ?_
    rw [hl] at ha
    exact Nat.lt_irrefl _ ha

/-- What holds of a radio all along. -/
structure Orderly (s : Stack) : Prop where
  sound : s.Sound
  attentive : s.Attentive
  unshared : s.Unshared

end Stack

namespace Task

def isForwarding : Task → Bool
  | .forwarding .. => true
  | _ => false

/-- Whether more can come in for a task that forwards. -/
def isLasting : Task → Bool
  | .forwarding _ inbox => !inbox.ended
  | _ => true

end Task

namespace Beat

variable {b : Beat} {i : Nat} {a : Attempt} {t : Task}

theorem unshared (hs : b.scene.host.Sound) (h : b.scene.host.Unshared) :
    b.after.host.Unshared := by
  obtain ⟨s, x⟩ := b
  by_cases hx : x = .work
  · cases hm : (Beat.mk s x).moment? with
    | some m =>
      rw [(of_moment hm).2.2.2.2.1]
      exact h.acceptAll hs _
    | none =>
      rw [(of_no_moment hm hx).2.1]
      exact h
  · refine h.of_attempts (fun ha => ?_) (Scene.nextLink_le_act hs (.happen x hx))
    exact (Scene.attempt?_act hs (x := .happen x hx) ha).resolve_right (by simp)

theorem orderly (h : b.scene.host.Orderly) : b.after.host.Orderly :=
  ⟨sound h.sound, attentive h.sound h.attentive, unshared h.sound h.unshared⟩

/-- A link that is open after a beat and not new was open before. -/
theorem isLive_of_after (hs : b.scene.host.Sound) (ha : a.link.raw < b.scene.host.nextLink)
    (h : b.after.host.isLive a = true) : b.scene.host.isLive a = true := by
  obtain ⟨s, x⟩ := b
  by_cases hx : x = .work
  · cases hm : (Beat.mk s x).moment? with
    | some m =>
      rw [(of_moment hm).2.2.2.2.1] at h
      exact Stack.isLive_of_acceptAll hs ha h
    | none =>
      rw [(of_no_moment hm hx).2.1] at h
      exact h
  · rw [Stack.isLive_iff] at h ⊢
    rcases Scene.live?_act hs (x := .happen x hx) h with ⟨d, hcall, -⟩ | ⟨hlive, -⟩
    · cases hcall
    · exact hlive

theorem running_of_after (h : b.after.worker.running = true) : b.scene.worker.running = true := by
  cases hm : b.moment? with
  | some m => simp [Worker.running, (of_moment hm).2.1]
  | none =>
    rcases b.cases with ⟨m, hm'⟩ | ⟨i, task, next, post, closes, hsteps⟩ | hout
    · cases hm.symm.trans hm'
    · rwa [Worker.running, hsteps.progress.hub] at h
    · rwa [Worker.running, hout.hub] at h

theorem nextLink_le (hs : b.scene.host.Sound) :
    b.scene.host.nextLink ≤ b.after.host.nextLink := by
  obtain ⟨s, x⟩ := b
  by_cases hx : x = .work
  · cases hm : (Beat.mk s x).moment? with
    | some m =>
      rw [(of_moment hm).2.2.2.2.1]
      exact Stack.nextLink_le_acceptAll hs _
    | none => rw [(of_no_moment hm hx).2.1]
  · exact Scene.nextLink_le_act hs (.happen x hx)

/-- What a beat passes on to a manager of what has come in over the link of a peer. -/
def relayed (b : Beat) (c : CentralId) (p : PeerId) : List Notification :=
  match b.happening with
  | .step i =>
    match b.scene.host.tasks.get? i with
    | some (.forwarding a _) =>
      if a.central = c ∧ a.peer = p then b.posted.filterMap notification? else []
    | _ => []
  | _ => []

/-- What a device notifies. -/
def notified? (b : Beat) (d : DeviceId) : Option Notification :=
  match b.happening with
  | .notified d' n => if d' = d then some n else none
  | _ => none

/-- The task of an attempt subscribes to the notifications of its link. -/
def Opens (b : Beat) (i : Nat) (a : Attempt) : Prop :=
  b.happening = .step i ∧ b.scene.host.tasks.get? i = some (.subscribe a) ∧
    b.after.host.tasks.get? i = some (.forwarding a .empty)

/-- The platform refuses an attempt the connect or the notifications. -/
def Fails (b : Beat) (i : Nat) (a : Attempt) : Prop :=
  b.happening = .step i ∧
    (b.scene.host.tasks.get? i = some (.connect a true) ∧
        (b.scene.host.platform.perform (.connect a.device)).isOk = false ∨
      b.scene.host.tasks.get? i = some (.subscribe a) ∧
        (b.scene.host.platform.perform (.notifications a.device)).isOk = false)

/-- A beat posts that the connect of an attempt has succeeded. -/
def Confirms (b : Beat) (a : Attempt) : Prop :=
  .report a.central (.peer a.peer (.connected .ok)) ∈ b.posted

/-- What becomes of the task of an open link in a beat, and what it passes on. -/
inductive Follows (b : Beat) (i : Nat) (a : Attempt) : Task → Task → List Notification → Prop
  | tries (begun begun' : Bool) : Follows b i a (.connect a begun) (.connect a begun') []
  | connects : b.Confirms a → Follows b i a (.connect a true) (.subscribe a) []
  | halts : Follows b i a (.subscribe a) (.subscribe a) []
  | opens : b.Opens i a → b.notified? a.device = none →
      Follows b i a (.subscribe a) (.forwarding a .empty) []
  | receives (items : List Notification) :
      Follows b i a (.forwarding a ⟨items, false⟩)
        (.forwarding a ⟨items ++ (b.notified? a.device).toList, false⟩) []
  | passes (n : Notification) (rest : List Notification) : b.notified? a.device = none →
      Follows b i a (.forwarding a ⟨n :: rest, false⟩) (.forwarding a ⟨rest, false⟩) [n]

variable {t : Task}

theorem relayed_of_step {s : Scene} {i : Nat} {t : Task} {a : Attempt}
    (hi : s.host.tasks.get? i = some t) (ha : t.attempt? = some a) :
    (Beat.mk s (.step i)).relayed a.central a.peer =
      if t.isForwarding then (Beat.mk s (.step i)).posted.filterMap notification? else [] := by
  simp only [relayed, hi]
  cases t with
  | forwarding a' inbox =>
    cases ha
    exact if_pos ⟨rfl, rfl⟩
  | _ => rfl

/-- Nobody but the task of an open link passes anything on over it. -/
theorem relayed_of_not_step (hb : b.scene.host.Orderly) (ha : b.scene.host.attempt? i = some a)
    (hlive : b.scene.host.isLive a = true) (hx : b.happening ≠ .step i) :
    b.relayed a.central a.peer = [] := by
  obtain ⟨s, x⟩ := b
  cases x with
  | step j =>
    simp only [relayed]
    split
    next a' inbox hj =>
      split
      next hcp =>
        rcases Scene.posted_forwarding hj (by simp) with hnone | ⟨hlive', -⟩
        · have hposted : (Beat.mk s (.step j)).posted = [] := hnone
          rw [hposted]
          rfl
        · -- Two forwarders of one open link are one.
          rw [Stack.isLive_iff] at hlive hlive'
          rw [hcp.1, hcp.2, hlive] at hlive'
          have ha' : s.host.attempt? j = some a' := Stack.attempt?_eq_some_iff.mpr ⟨_, hj, rfl⟩
          exact absurd (congrArg Happening.step
            (hb.unshared.apart ha' ha (Option.some.inj hlive').symm)) hx
      next => rfl
    next => rfl
  | _ => rfl

/-- A task that does not step takes in what comes from outside. -/
theorem get?_after_of_not_step (hb : b.scene.host.Orderly)
    (hi : b.scene.host.tasks.get? i = some t) (hx : b.happening ≠ .step i) :
    b.after.host.tasks.get? i = some ((b.happening.brings t).getD t) := by
  rcases b.cases with ⟨m, hm⟩ | ⟨j, task, next, post, closes, hsteps⟩ | hout
  · obtain ⟨hwork, -, -, -, hhost, -⟩ := of_moment hm
    rw [hhost, (Stack.grows_acceptAll hb.sound _).tasks i (hb.sound.lt_nextTask hi), hi, hwork]
    rfl
  · have hij : i ≠ j := fun hij => hx (hij ▸ hsteps.happening)
    rw [hsteps.progress.tasks, if_neg hij, hi, hsteps.happening]
    rfl
  · rw [hout.get?_after hb.attentive, hi]
    rfl

/-- A task to which nothing happens. -/
theorem follows_of_same (ha : t.attempt? = some a) (hlasting : t.isLasting = true)
    (hnone : b.notified? a.device = none) : b.Follows i a t t [] := by
  cases t with
  | connect a' begun =>
    cases ha
    exact .tries begun begun
  | subscribe a' =>
    cases ha
    exact .halts
  | forwarding a' inbox =>
    cases ha
    obtain ⟨items, ended⟩ := inbox
    cases ended with
    | true => cases hlasting
    | false => simpa [hnone] using Follows.receives (b := b) (i := i) (a := a) items
  | _ => cases ha

/-- The task of a link gets what its device notifies, once it has subscribed. -/
theorem follows_of_brings (ha : t.attempt? = some a) (hlasting : t.isLasting = true)
    (hends : b.happening ≠ .notificationsEnd a.device) :
    b.Follows i a t ((b.happening.brings t).getD t) [] := by
  obtain ⟨s, x⟩ := b
  cases x with
  | notified d n =>
    cases t with
    | connect a' begun =>
      cases ha
      exact .tries begun begun
    | subscribe a' =>
      cases ha
      exact .halts
    | forwarding a' inbox =>
      cases ha
      obtain ⟨items, ended⟩ := inbox
      cases ended with
      | true => cases hlasting
      | false =>
        by_cases hd : a.device = d
        · subst hd
          have hn : (Beat.mk s (.notified a.device n)).notified? a.device = some n := if_pos rfl
          have hbrings : (Happening.notified a.device n).brings (.forwarding a ⟨items, false⟩) =
              some (.forwarding a ⟨items ++ [n], false⟩) := if_pos rfl
          simpa [hbrings, hn] using
            Follows.receives (b := ⟨s, .notified a.device n⟩) (i := i) (a := a) items
        · have hbrings : (Happening.notified d n).brings (.forwarding a ⟨items, false⟩) = none :=
            if_neg hd
          rw [hbrings]
          exact follows_of_same rfl rfl (if_neg (Ne.symm hd))
    | _ => cases ha
  | notificationsEnd d =>
    cases t with
    | forwarding a' inbox =>
      cases ha
      have hd : a.device ≠ d := fun hd => hends (hd ▸ rfl)
      have hbrings : (Happening.notificationsEnd d).brings (.forwarding a inbox) = none := if_neg hd
      rw [hbrings]
      exact follows_of_same rfl hlasting rfl
    | _ => exact follows_of_same ha hlasting rfl
  | adapter | adapterEnds =>
    cases t with
    | connect | subscribe | forwarding => exact follows_of_same ha hlasting rfl
    | _ => cases ha
  | _ => exact follows_of_same ha hlasting rfl

theorem follows_of_step {s : Scene} {i : Nat} {t : Task} {a : Attempt}
    (hi : s.host.tasks.get? i = some t) (ha : t.attempt? = some a) (hlasting : t.isLasting = true)
    (hlive : s.host.isLive a = true) (hr : s.worker.running = true) :
    (Beat.mk s (.step i)).Fails i a ∨ ∃ t', (s.stepTask i).host.tasks.get? i = some t' ∧
      (Beat.mk s (.step i)).Follows i a t t' ((Beat.mk s (.step i)).relayed a.central a.peer) := by
  set b : Beat := ⟨s, .step i⟩ with hb
  have hposted {next : Option Task} {post : Option (CentralId × Report handles)}
      {closes : Option (CentralId × PeerId)} (h : s.Progress i next post closes (s.stepTask i)) :
      b.posted = post.toList.map fun e => .report e.1 e.2 := by
    refine (Scene.posted_step (by simp) h).trans ?_
    rw [if_pos hr]
  have hafter {next : Option Task} {post : Option (CentralId × Report handles)}
      {closes : Option (CentralId × PeerId)} (h : s.Progress i next post closes (s.stepTask i)) :
      (s.stepTask i).host.tasks.get? i = next := (h.tasks i).trans (if_pos rfl)
  rw [relayed_of_step hi ha]
  by_cases hwaits : s.host.waits i t = true
  · have hsame : s.stepTask i = s := Scene.stepTask_of_waits hi hwaits
    have hnone : b.posted = [] := Scene.posted_of_same (by simp) hsame
    refine .inr ⟨t, by rw [hsame, hi], ?_⟩
    rw [← hb, hnone]
    simpa using follows_of_same ha hlasting rfl
  have hgo : s.stepTask i = s.go i t := Scene.stepTask_of_not_waits hi hwaits
  cases t with
  | connect a' begun =>
    cases ha
    cases begun with
    | false =>
      have hprogress := s.begin_progress hi (.connect a.device) (.connect a true)
      rw [show s.begin i (.connect a.device) (.connect a true) = s.stepTask i from hgo.symm]
        at hprogress
      exact .inr ⟨_, hafter hprogress, .tries false true⟩
    | true =>
      have hprogress := s.connected_progress hi
      rw [show s.connected i a = s.stepTask i from hgo.symm] at hprogress
      cases hperform : s.host.platform.perform (.connect a.device) with
      | error e => exact .inl ⟨rfl, .inl ⟨hi, by rw [hperform]; rfl⟩⟩
      | ok u =>
        rw [hperform] at hprogress
        refine .inr ⟨.subscribe a, hafter hprogress, .connects ?_⟩
        rw [Confirms, hposted hprogress]
        exact List.mem_cons_self
  | subscribe a' =>
    cases ha
    cases hperform : s.host.platform.perform (.notifications a.device) with
    | error e => exact .inl ⟨rfl, .inr ⟨hi, by rw [hperform]; rfl⟩⟩
    | ok u =>
      have hopened : (s.stepTask i).host.tasks.get? i = some (.forwarding a .empty) := by
        rw [hgo]
        simp [Scene.go, Scene.subscribe, hperform, Scene.subscribed, Scene.become, Scene.withStack,
          Table.get?_insert]
      exact .inr ⟨_, hopened, .opens ⟨rfl, hi, hopened⟩ rfl⟩
  | forwarding a' inbox =>
    cases ha
    obtain ⟨items, ended⟩ := inbox
    cases ended with
    | true => cases hlasting
    | false =>
      cases items with
      | nil => simp [Stack.waits, hlive] at hwaits
      | cons n rest =>
        have hprogress := (((Scene.Progress.refl hi).become
          (.forwarding a ⟨rest, false⟩)).report a.central
            (.peer a.peer (.characteristicRead .ok n.uuid n.value)))
        have hgo : s.stepTask i = (s.become i (.forwarding a ⟨rest, false⟩)).post a.central
            (.peer a.peer (.characteristicRead .ok n.uuid n.value)) := by
          rw [hgo]
          simp [Scene.go, Scene.forwarding, hlive, hr]
        rw [← hgo] at hprogress
        refine .inr ⟨_, hafter hprogress, ?_⟩
        rw [if_pos (show Task.isForwarding _ = true from rfl), hposted hprogress]
        exact .passes n rest rfl
  | _ => cases ha

/-- The task of an open link goes on, unless the platform refuses it what it needs. -/
theorem follows (hb : b.scene.host.Orderly) (hi : b.scene.host.tasks.get? i = some t)
    (ha : t.attempt? = some a) (hlasting : t.isLasting = true)
    (hlive : b.scene.host.isLive a = true) (hr : b.scene.worker.running = true)
    (hends : b.happening ≠ .notificationsEnd a.device) :
    b.Fails i a ∨ ∃ t', b.after.host.tasks.get? i = some t' ∧
      b.Follows i a t t' (b.relayed a.central a.peer) := by
  by_cases hx : b.happening = .step i
  · obtain ⟨s, x⟩ := b
    cases hx
    exact follows_of_step hi ha hlasting hlive hr
  · have hattempt : b.scene.host.attempt? i = some a :=
      Stack.attempt?_eq_some_iff.mpr ⟨t, hi, ha⟩
    rw [relayed_of_not_step hb hattempt hlive hx]
    exact .inr ⟨_, get?_after_of_not_step hb hi hx, follows_of_brings ha hlasting hends⟩

end Beat

/-- How far the task of a link has come since the connect, and what it has passed on. -/
inductive Streams (i : Nat) (a : Attempt) (seg : List Beat) : Task → Prop
  | connecting (begun : Bool) : (∀ u ∈ seg, ¬ u.Opens i a) →
      seg.flatMap (·.relayed a.central a.peer) = [] → Streams i a seg (.connect a begun)
  | connected : (∀ u ∈ seg, ¬ u.Opens i a) → seg.flatMap (·.relayed a.central a.peer) = [] →
      (∃ v ∈ seg, v.Confirms a) → Streams i a seg (.subscribe a)
  | flowing (ds es : List Beat) (u : Beat) (waiting : List Notification) : seg = ds ++ u :: es →
      u.Opens i a → (∃ v ∈ ds, v.Confirms a) →
      seg.flatMap (·.relayed a.central a.peer) ++ waiting = es.filterMap (·.notified? a.device) →
      Streams i a seg (.forwarding a ⟨waiting, false⟩)

section Streams

variable {i : Nat} {a : Attempt} {seg : List Beat} {u : Beat} {t t' : Task}

theorem Streams.attempt? (h : Streams i a seg t) : t.attempt? = some a ∧ t.isLasting = true := by
  cases h <;> exact ⟨rfl, rfl⟩

theorem Streams.follow (h : Streams i a seg t) (hi : u.after.host.tasks.get? i = some t')
    (hu : u.Follows i a t t' (u.relayed a.central a.peer)) : Streams i a (seg ++ [u]) t' := by
  have hunopened (hseg : ∀ v ∈ seg, ¬ v.Opens i a) (hne : t' ≠ .forwarding a .empty) :
      ∀ v ∈ seg ++ [u], ¬ v.Opens i a := by
    intro v hv hopens
    rcases List.mem_append.mp hv with hv | hv
    · exact hseg v hv hopens
    · cases List.mem_singleton.mp hv
      exact hne (Option.some.inj (hi.symm.trans hopens.2.2))
  have hrelayed : (seg ++ [u]).flatMap (·.relayed a.central a.peer) =
      seg.flatMap (·.relayed a.central a.peer) ++ u.relayed a.central a.peer := by simp
  generalize hsent : u.relayed a.central a.peer = sent at hu hrelayed
  cases hu with
  | tries =>
    cases h with
    | connecting _ hopens hnone =>
      exact .connecting _ (hunopened hopens (by simp)) (by simp [hrelayed, hnone])
  | connects hconfirms =>
    cases h with
    | connecting _ hopens hnone =>
      exact .connected (hunopened hopens (by simp)) (by simp [hrelayed, hnone])
        ⟨u, List.mem_append_right _ (List.mem_singleton_self u), hconfirms⟩
  | halts =>
    cases h with
    | connected hopens hnone hconfirmed =>
      obtain ⟨v, hv, hconfirms⟩ := hconfirmed
      exact .connected (hunopened hopens (by simp)) (by simp [hrelayed, hnone])
        ⟨v, List.mem_append_left _ hv, hconfirms⟩
  | opens hopens =>
    cases h with
    | connected _ hnone hconfirmed =>
      exact .flowing seg [] u [] rfl hopens hconfirmed (by simp [hrelayed, hnone])
  | receives items =>
    cases h with
    | flowing ds es v _ hseg hopens hconfirmed heq =>
      refine .flowing ds (es ++ [u]) v _ (by simp [hseg]) hopens hconfirmed ?_
      rw [hrelayed, List.append_nil, ← List.append_assoc, heq]
      cases hn : u.notified? a.device <;> simp [hn]
  | passes n rest hn =>
    cases h with
    | flowing ds es v _ hseg hopens hconfirmed heq =>
      refine .flowing ds (es ++ [u]) v _ (by simp [hseg]) hopens hconfirmed ?_
      rw [hrelayed, List.append_assoc, List.singleton_append, heq]
      simp [hn]

end Streams

namespace Course

variable (settings : Settings) (platform : Platform) (xs : List Happening)

theorem orderly : (of settings platform xs).scene.host.Orderly :=
  of_induction (P := fun k => k.scene.host.Orderly) settings platform
    ⟨Stack.sound_new platform, Stack.attentive_new platform, Stack.unshared_new platform⟩
    (fun ys x h => Beat.orderly (b := ⟨(of settings platform ys).scene, x⟩) h) xs

/-- As long as the link of an attempt is open, its task has come this far. -/
theorem streams_of_live {bs seg : List Beat} {b : Beat} {i : Nat} {a : Attempt}
    (hpast : (of settings platform xs).past = bs ++ b :: seg)
    (hstart : b.after.host.tasks.get? i = some (.connect a false))
    (hlive : (of settings platform xs).scene.host.isLive a = true)
    (hr : (of settings platform xs).scene.worker.running = true)
    (hends : ∀ u ∈ seg, u.happening ≠ .notificationsEnd a.device) :
    (∃ u ∈ seg, u.Fails i a) ∨
      ∃ t, (of settings platform xs).scene.host.tasks.get? i = some t ∧ Streams i a seg t := by
  obtain ⟨ys, -, hys⟩ := exists_of_past_eq settings platform xs hpast
  have hordered : b.after.host.Orderly := Beat.orderly (hys ▸ orderly settings platform ys)
  have hattempt : b.after.host.attempt? i = some a :=
    Stack.attempt?_eq_some_iff.mpr ⟨_, hstart, rfl⟩
  -- The beats since the connect are taken one by one; a link that is open after the last of them was
  -- open after each, since its number is never given out again.
  refine (since_induction (P := fun seg s => (s.host.Orderly ∧ a.link.raw < s.host.nextLink) ∧
    (s.host.isLive a = true → s.worker.running = true →
      (∀ u ∈ seg, u.happening ≠ .notificationsEnd a.device) →
      (∃ u ∈ seg, u.Fails i a) ∨ ∃ t, s.host.tasks.get? i = some t ∧ Streams i a seg t))
    settings platform xs hpast ?_ ?_).2 hlive hr hends
  · exact ⟨⟨hordered, hordered.unshared.older hattempt⟩,
      fun _ _ _ => .inr ⟨_, hstart, .connecting false nofun rfl⟩⟩
  · rintro seg u ⟨⟨hu, hlink⟩, ih⟩
    refine ⟨⟨Beat.orderly hu, Nat.lt_of_lt_of_le hlink (Beat.nextLink_le hu.sound)⟩,
      fun hlive hr hends => ?_⟩
    have hlast : u ∈ seg ++ [u] := List.mem_append_right _ (List.mem_singleton_self u)
    have hlive := Beat.isLive_of_after hu.sound hlink hlive
    have hr := Beat.running_of_after hr
    rcases ih hlive hr fun v hv => hends v (List.mem_append_left _ hv) with
      ⟨v, hv, hfails⟩ | ⟨t, hi, hstreams⟩
    · exact .inl ⟨v, List.mem_append_left _ hv, hfails⟩
    · obtain ⟨ha, hlasting⟩ := hstreams.attempt?
      rcases Beat.follows hu hi ha hlasting hlive hr (hends u hlast) with hfails | ⟨t', hi', hfollows⟩
      · exact .inl ⟨u, hlast, hfails⟩
      · exact .inr ⟨t', hi', hstreams.follow hi' hfollows⟩

/-- A session asks for a link, and the link is still open. Unless the platform refuses what the task of
the link needs, one of two things is so. The task has not subscribed yet, and nothing was passed on of
whatever was notified. Or it has, in a step of its own after the one that reported the connect; then all
that the device has notified since was passed on in the order in which it came in, or is the next to be, and
nothing that came before that step was. -/
theorem notifications_relayed {c : CentralId} {p : PeerId} {bs seg : List Beat} {b : Beat}
    (hpast : (of settings platform xs).past = bs ++ b :: seg) (hconnect : b.Accepts c p .connect)
    (hlive : (of settings platform xs).scene.host.live? c p = some ⟨b.scene.host.nextLink⟩)
    (hr : (of settings platform xs).scene.worker.running = true) :
    let own := b.scene.host.nextTask
    let relayed := seg.flatMap (·.relayed c p)
    ∃ d, let a : Attempt := ⟨c, p, d, ⟨b.scene.host.nextLink⟩⟩
      b.after.host.tasks.get? own = some (.connect a false) ∧
      ((∀ u ∈ seg, u.happening ≠ .notificationsEnd d) →
        (∃ u ∈ seg, u.Fails own a) ∨
        (∀ u ∈ seg, ¬ u.Opens own a) ∧ relayed = [] ∨
        ∃ ds u es waiting, seg = ds ++ u :: es ∧ u.Opens own a ∧ (∃ v ∈ ds, v.Confirms a) ∧
          (of settings platform xs).scene.host.tasks.get? own =
            some (.forwarding a ⟨waiting, false⟩) ∧
          relayed ++ waiting = es.filterMap (·.notified? d)) := by
  intro own relayed
  have hb := proper_of_past_eq settings platform xs hpast
  obtain ⟨n, hn, hcalled⟩ := Beat.called_of_connect hconnect hb
  have hstart : b.after.host.tasks.get? own =
      some (.connect ⟨c, p, n.2, ⟨b.scene.host.nextLink⟩⟩ false) := by
    rw [hcalled.tasks, if_pos rfl, ← show n.1 = p from hn]
    rfl
  refine ⟨n.2, hstart, fun hends => ?_⟩
  rcases streams_of_live settings platform xs hpast hstart (Stack.isLive_iff.mpr hlive) hr hends with
    hfails | ⟨t, hi, hstreams⟩
  · exact .inl hfails
  cases hstreams with
  | connecting _ hopens hnone => exact .inr (.inl ⟨hopens, hnone⟩)
  | connected hopens hnone => exact .inr (.inl ⟨hopens, hnone⟩)
  | flowing ds es u waiting hseg hopens hconfirmed heq =>
    exact .inr (.inr ⟨ds, u, es, waiting, hseg, hopens, hconfirmed, hi, heq⟩)

/-- A radio with one device, which has a battery level to notify. -/
def metered : Platform :=
  let level : Characteristic := ⟨.ofShort 0x2a19, .ofShort 0x180f, 0x10, []⟩
  ⟨1, .poweredOn, Table.insert ∅ lamp
    ⟨some ⟨none, none, none, [], ∅, ∅⟩, [⟨.ofShort 0x180f, true, [level]⟩], ∅⟩, ∅, []⟩

/-- A session is about to ask for a link. -/
def approach : List Happening :=
  [.work, .ask 0 .allocate, .work, .step 0, .step 0, .work, .adapter (.discovered lamp), .step 0,
    .work, .ask 1 (.act ⟨1⟩ lamp.peer.text .connect)]

/-- Once the connect is reported, and before its task has subscribed, the caller finds the battery level
and enables its notifications. This is confirmed before the first value comes. -/
def hasty : List Happening :=
  [.step 1, .step 1, .work, .ask 2 (.act ⟨1⟩ lamp.peer.text (.discoverServices [])), .work, .step 2,
    .step 2, .work, .ask 3 (.act ⟨1⟩ lamp.peer.text (.discoverCharacteristics ⟨1⟩ [])), .work,
    .work, .ask 4 (.act ⟨1⟩ lamp.peer.text (.subscribe ⟨2⟩)), .work, .step 3, .step 3, .work,
    .notified lamp ⟨.ofShort 0x2a19, [1]⟩, .step 1, .notified lamp ⟨.ofShort 0x2a19, [2]⟩, .step 1]

/-- The first value is lost. -/
theorem notifications_relayed_hasty :
    let k := of .default metered approach
    let b : Beat := ⟨k.scene, .work⟩
    let seg := b.after.beats hasty
    let k' := of .default metered (approach ++ .work :: hasty)
    k'.past = k.past ++ b :: seg ∧ b.Accepts ⟨1⟩ lamp.peer .connect ∧
    k'.scene.host.live? ⟨1⟩ lamp.peer = some ⟨b.scene.host.nextLink⟩ ∧
    k'.scene.worker.running = true ∧
    (((seg.take 16).filterMap Beat.moment?).flatMap Moment.notices).getLast? =
      some (.peer ⟨1⟩ lamp.peer (.notificationStateChanged .ok (.ofShort 0x2a19) true)) ∧
    (seg.drop 16).filterMap (·.notified? lamp) =
      [⟨.ofShort 0x2a19, [1]⟩, ⟨.ofShort 0x2a19, [2]⟩] ∧
    seg.flatMap (·.relayed ⟨1⟩ lamp.peer) = [⟨.ofShort 0x2a19, [2]⟩] ∧
    ∃ a ds u es waiting, seg = ds ++ u :: es ∧ u.Opens 1 a ∧ (∃ v ∈ ds, v.Confirms a) ∧
      ⟨.ofShort 0x2a19, [2]⟩ :: waiting = es.filterMap (·.notified? a.device) := by
  intro k b seg k'
  have hpast : k'.past = k.past ++ b :: seg :=
    past_append_cons .default metered approach .work hasty
  have hconnect : b.Accepts ⟨1⟩ lamp.peer .connect := by decide +kernel
  have hlive : k'.scene.host.live? ⟨1⟩ lamp.peer = some ⟨b.scene.host.nextLink⟩ := by decide +kernel
  have hr : k'.scene.worker.running = true := by decide +kernel
  have hrelayed : seg.flatMap (·.relayed ⟨1⟩ lamp.peer) = [⟨.ofShort 0x2a19, [2]⟩] := by
    decide +kernel
  refine ⟨hpast, hconnect, hlive, hr, by decide +kernel, by decide +kernel, hrelayed, ?_⟩
  have hown : b.scene.host.nextTask = 1 := by decide +kernel
  have hdevice : (b.after.host.attempt? 1).map Attempt.device = some lamp := by decide +kernel
  have hlasting : ∀ u ∈ seg, (u.happening matches .notificationsEnd _) = false := by decide +kernel
  have hgranted : ∀ u ∈ seg, (u.scene.host.platform.perform (.connect lamp)).isOk = true ∧
      (u.scene.host.platform.perform (.notifications lamp)).isOk = true := by decide +kernel
  obtain ⟨d, hstart, hcases⟩ := notifications_relayed .default metered
    (approach ++ .work :: hasty) hpast hconnect hlive hr
  rw [hown] at hstart hcases
  obtain rfl : d = lamp := by
    rw [Stack.attempt?, hstart] at hdevice
    exact Option.some.inj hdevice
  have hends : ∀ u ∈ seg, u.happening ≠ .notificationsEnd lamp := by
    intro u hu hends
    have hlasts := hlasting u hu
    rw [hends] at hlasts
    cases hlasts
  rcases hcases hends with ⟨u, hu, -, ⟨-, hrefused⟩ | ⟨-, hrefused⟩⟩ | ⟨-, hnone⟩ |
    ⟨ds, u, es, waiting, hseg, hopens, hconfirmed, -, heq⟩
  · exact absurd (hgranted u hu).1 (by simp [hrefused])
  · exact absurd (hgranted u hu).2 (by simp [hrefused])
  · rw [hrelayed] at hnone
    cases hnone
  · rw [hrelayed] at heq
    exact ⟨_, ds, u, es, waiting, hseg, hopens, hconfirmed, heq⟩

end Course

end GattHub.Radio
