import GattHub.Proofs.Attempts

/-! Who passes the notifications of a peer on. Many tasks may have been started to forward what comes in
over the links of a peer, and some of them get to it late; the one that does forward is that of the link
which is open. -/

namespace GattHub.Radio

/-- A task can still take notifications of a peer, or will once the peer is connected. -/
def Stack.Takes (s : Stack) (c : CentralId) (p : PeerId) (i : Nat) : Prop :=
  ∃ a, s.attempt? i = some a ∧ a.central = c ∧ a.peer = p ∧ s.isLive a = true

theorem Task.Goes.forwarding {t : Task} {post : Option (CentralId × Report handles)}
    {closes : Option (CentralId × PeerId)} {a : Attempt} {inbox : Inbox Notification}
    (h : t.Goes (some (.forwarding a inbox)) post closes) :
    t = .subscribe a ∧ inbox = .empty ∨ ∃ inbox₀, t = .forwarding a inbox₀ := by
  cases h with
  | connected _ _ _ hnext => rcases hnext with hnext | hnext <;> cases hnext
  | subscribes => exact .inl ⟨rfl, rfl⟩
  | forwards _ inbox₀ => exact .inr ⟨inbox₀, rfl⟩

/-- The notification that a message passes on. -/
def notification? : Message handles → Option Notification
  | .report _ (.peer _ (.characteristicRead _ uuid value)) => some ⟨uuid, value⟩
  | _ => none

namespace Instant

/-- What a forwarder passes on to a manager of what a device has notified. -/
def relayed (o : Instant) (c : CentralId) (d : DeviceId) : List Notification :=
  match o.step?.bind o.scene.host.tasks.get? with
  | some (.forwarding a _) =>
    if a.central = c ∧ a.device = d then o.posted.filterMap notification? else []
  | _ => []

def notified? (o : Instant) (d : DeviceId) : Option Notification :=
  match o.act with
  | .happen (.notified d' n) _ => if d' = d then some n else none
  | _ => none

end Instant

/-- What has been passed on, with what the forwarder of an open link has yet to pass on, is part of
what was notified, in the same order. -/
structure Stack.Owes (s : Stack) (c : CentralId) (d : DeviceId) (sent notified : List Notification) :
    Prop where
  sublist : sent.Sublist notified
  pending : ∀ {i a inbox}, s.tasks.get? i = some (.forwarding a inbox) → a.central = c →
    a.device = d → s.isLive a = true → (sent ++ inbox.items).Sublist notified

namespace Scene

variable {s : Scene} {c : CentralId} {d : DeviceId} {i : Nat} {a : Attempt}
  {inbox : Inbox Notification} {x : Act}

/-- What is passed on is the oldest notification, and only while the link is open. -/
theorem forwarding_stepTask (s : Scene) {i : Nat} {a : Attempt} {inbox : Inbox Notification}
    (hi : s.host.tasks.get? i = some (.forwarding a inbox)) :
    s.stepTask i = s ∨ s.Progress i none none none (s.stepTask i) ∨
      ∃ n rest, inbox.items = n :: rest ∧ s.host.isLive a = true ∧ s.worker.running = true ∧
        s.Progress i (some (.forwarding a { inbox with items := rest }))
          (some (a.central, .peer a.peer (.characteristicRead .ok n.uuid n.value))) none
          (s.stepTask i) := by
  have hrefl := Progress.refl hi
  have hstop : s.Progress i none none none (s.stopForwarding i a) := (hrefl.enter _).finish
  obtain ⟨items, ended⟩ := inbox
  simp only [stepTask, hi]
  split
  · exact .inl rfl
  cases items with
  | nil => exact .inr (.inl hstop)
  | cons n rest =>
    simp only [go, forwarding]
    split
    next hlive =>
      obtain ⟨hlive, hrunning⟩ : s.host.isLive a = true ∧ s.worker.running = true := by
        simpa using hlive
      exact .inr (.inr ⟨n, rest, rfl, hlive, hrunning, (hrefl.become _).report _ _⟩)
    · exact .inr (.inl hstop)

theorem takes_unique (h : s.host.Attempting) (hi : s.host.Takes c p i) (hj : s.host.Takes c p j) :
    i = j := by
  obtain ⟨a, ha, rfl, rfl, hlive⟩ := hi
  obtain ⟨a', ha', hc, hp, hlive'⟩ := hj
  rw [Stack.isLive_iff] at hlive hlive'
  rw [hc, hp, hlive] at hlive'
  exact h.apart ha ha' (Option.some.inj hlive')

/-- A forwarder posts the oldest notification, or nothing. -/
theorem posted_forwarding (hi : s.host.tasks.get? i = some (.forwarding a inbox))
    (hstep : Happening.step i ≠ .work) :
    let o : Instant := ⟨s, .happen (.step i) hstep⟩
    o.posted = [] ∨ s.host.isLive a = true ∧ ∃ n rest, inbox.items = n :: rest ∧
      o.posted = [.report a.central (.peer a.peer (.characteristicRead .ok n.uuid n.value))] ∧
      s.Progress i (some (.forwarding a { inbox with items := rest }))
        (some (a.central, .peer a.peer (.characteristicRead .ok n.uuid n.value))) none o.after := by
  rcases s.forwarding_stepTask hi with hsame | hstop | ⟨n, rest, hitems, hlive, hrunning, hprogress⟩
  · exact .inl (posted_of_same hstep hsame)
  · left
    rw [posted_step hstep hstop]
    simp
  · refine .inr ⟨hlive, n, rest, hitems, ?_, hprogress⟩
    rw [posted_step hstep hprogress, if_pos hrunning]
    rfl

/-- Where a forwarder and its inbox come from. -/
theorem forwarding_origin (hs : s.host.Sound)
    (h : (s.act x).host.tasks.get? i = some (.forwarding a inbox)) :
    inbox.items = [] ∨ ∃ inbox₀, s.host.tasks.get? i = some (.forwarding a inbox₀) ∧
      (inbox₀.items = inbox.items ∨ (∃ n, inbox₀.items = n :: inbox.items) ∨
        ∃ n hx, x = .happen (.notified a.device n) hx ∧ inbox.items = inbox₀.items ++ [n]) := by
  have hattempt : (s.act x).host.attempt? i = some a :=
    Stack.attempt?_eq_some_iff.mpr ⟨_, h, rfl⟩
  rcases attempt?_act hs hattempt with hbefore | ⟨c, d, rfl, hi, -⟩
  · obtain ⟨t, ht, ha⟩ := Stack.attempt?_eq_some_iff.mp hbefore
    rcases get?_act hs ht x with hsame |
      ⟨x, hx, rfl, ⟨next, post, closes, hsteps⟩ | ⟨t', hbrings, ht'⟩⟩
    · cases hsame.symm.trans h
      exact .inr ⟨inbox, ht, .inl rfl⟩
    · obtain ⟨rfl, hfound, hgoes, hprogress⟩ := hsteps
      have hnext : (s.act (.happen (.step i) hx)).host.tasks.get? i = next :=
        (hprogress.tasks i).trans (if_pos rfl)
      rw [← hnext, h] at hgoes
      rcases hgoes.forwarding with ⟨-, rfl⟩ | ⟨inbox₀, rfl⟩
      · exact .inl rfl
      refine .inr ⟨inbox₀, hfound, ?_⟩
      rcases s.forwarding_stepTask hfound with hsame | hstop | ⟨n, rest, hitems, -, -, hprogress⟩
      · rw [act, show s.happen (.step i) = s from hsame, hfound] at h
        cases h
        exact .inl rfl
      · have hgone : (s.act (.happen (.step i) hx)).host.tasks.get? i = _ := hstop.tasks i
        rw [h, if_pos rfl] at hgone
        cases hgone
      · have hrest : (s.act (.happen (.step i) hx)).host.tasks.get? i = _ := hprogress.tasks i
        rw [h, if_pos rfl] at hrest
        cases hrest
        exact .inr (.inl ⟨n, hitems⟩)
    · cases ht'.symm.trans h
      rcases Happening.brings_cases hbrings with
        ⟨-, hnone⟩ | ⟨a', inbox₀, inbox', rfl, heq, hx'⟩
      · cases hnone
      · cases heq
        rcases hx' with ⟨n, rfl, rfl⟩ | ⟨rfl, rfl⟩
        · exact .inr ⟨inbox₀, ht, .inr (.inr ⟨n, hx, rfl, rfl⟩)⟩
        · exact .inr ⟨inbox₀, ht, .inl rfl⟩
  · have hcalled := (called_call hs c d .connect).tasks i
    rw [h, if_pos hi] at hcalled
    cases hcalled

/-- A forwarder passes the oldest notification on, or nothing is passed on. -/
theorem relayed_cases (s : Scene) (x : Act) (c : CentralId) (d : DeviceId) :
    (Instant.mk s x).relayed c d = [] ∨
      ∃ i hx a inbox n rest, x = .happen (.step i) hx ∧
        s.host.tasks.get? i = some (.forwarding a inbox) ∧ a.central = c ∧ a.device = d ∧
        s.host.isLive a = true ∧ inbox.items = n :: rest ∧
        (Instant.mk s x).relayed c d = [n] ∧
        ∀ j, (s.act x).host.tasks.get? j =
          if j = i then some (.forwarding a { inbox with items := rest })
          else s.host.tasks.get? j := by
  cases hstep : (Instant.mk s x).step? with
  | none => exact .inl (by simp [Instant.relayed, hstep])
  | some i =>
    obtain ⟨hx, rfl⟩ := eq_step_of_step? hstep
    have hrelayed : (Instant.mk s (.happen (.step i) hx)).relayed c d =
        match s.host.tasks.get? i with
        | some (.forwarding a _) =>
          if a.central = c ∧ a.device = d then
            (Instant.mk s (.happen (.step i) hx)).posted.filterMap notification?
          else []
        | _ => [] := rfl
    rw [hrelayed]
    split
    next a inbox hi =>
      split
      next hcd =>
        rcases posted_forwarding hi hx with hposted | ⟨hlive, n, rest, hitems, hposted, hprogress⟩
        · exact .inl (by rw [hposted]; rfl)
        · exact .inr ⟨i, hx, a, inbox, n, rest, rfl, hi, hcd.1, hcd.2, hlive, hitems,
            by rw [hposted]; rfl, hprogress.tasks⟩
      · exact .inl rfl
    · exact .inl rfl

theorem owes_act (hs : s.host.Sound) (hattempting : s.host.Attempting)
    {sent notified : List Notification} (h : s.host.Owes c d sent notified) (x : Act) :
    (s.act x).host.Owes c d (sent ++ (Instant.mk s x).relayed c d)
      (notified ++ ((Instant.mk s x).notified? d).toList) := by
  have hmore : notified.Sublist (notified ++ ((Instant.mk s x).notified? d).toList) :=
    List.sublist_append_left ..
  rcases relayed_cases s x c d with hnone |
    ⟨j, hx, b, inbox, n, rest, rfl, hj, rfl, rfl, hlive, hitems, hone, htasks⟩
  · rw [hnone, List.append_nil]
    refine ⟨h.sublist.trans hmore, fun {i a inbox} hi hc hd hlive => ?_⟩
    rcases forwarding_origin hs hi with hempty | ⟨inbox₀, hi₀, hinbox⟩
    · rw [hempty, List.append_nil]
      exact h.sublist.trans hmore
    have ha : s.host.attempt? i = some a := Stack.attempt?_eq_some_iff.mpr ⟨_, hi₀, rfl⟩
    have hpending := h.pending hi₀ hc hd (isLive_of_act hs hattempting ha hlive)
    rcases hinbox with hsame | ⟨n, hpopped⟩ | ⟨n, hx, rfl, hpushed⟩
    · rw [hsame] at hpending
      exact hpending.trans hmore
    · rw [hpopped] at hpending
      have hrest : (sent ++ inbox.items).Sublist (sent ++ n :: inbox.items) :=
        (List.sublist_cons_self ..).append_left sent
      exact (hrest.trans hpending).trans hmore
    · have hnotified :
          (Instant.mk s (.happen (.notified a.device n) hx)).notified? d = some n := if_pos hd
      rw [hnotified, hpushed, ← List.append_assoc]
      exact hpending.append_right [n]
  · have hpending := h.pending hj rfl rfl hlive
    rw [hitems, List.append_cons] at hpending
    rw [hone]
    refine ⟨((List.sublist_append_left ..).trans hpending).trans hmore,
      fun {i a inbox'} hi hc hd hlive' => ?_⟩
    rw [htasks] at hi
    split at hi
    next hij =>
      cases hi
      exact hpending.trans hmore
    next hij =>
      -- Another forwarder of the device would share the link.
      have ha : s.host.attempt? i = some a := Stack.attempt?_eq_some_iff.mpr ⟨_, hi, rfl⟩
      have hb : s.host.attempt? j = some b := Stack.attempt?_eq_some_iff.mpr ⟨_, hj, rfl⟩
      have hpeer : a.peer = b.peer := by rw [← hattempting.named ha, ← hattempting.named hb, hd]
      have hbefore := isLive_of_act hs hattempting ha hlive'
      exact absurd (takes_unique hattempting ⟨a, ha, hc, hpeer, hbefore⟩ ⟨b, hb, rfl, rfl, hlive⟩)
        hij

theorem owes_actAll (settings : Settings) (platform : Platform) (xs : List Act) (c : CentralId)
    (d : DeviceId) :
    ((start settings platform).actAll xs).host.Owes c d
      (((start settings platform).instants xs).flatMap (·.relayed c d))
      (((start settings platform).instants xs).filterMap (·.notified? d)) := by
  induction xs using List.reverseRecOn with
  | nil => exact ⟨List.Sublist.refl _, nofun⟩
  | append_singleton xs x ih =>
    have hact := owes_act (sound_actAll settings platform xs)
      (attempting_actAll settings platform xs) ih x
    rw [actAll_append_singleton, instants_append_singleton, List.flatMap_append,
      List.filterMap_append]
    cases hx : (Instant.mk ((start settings platform).actAll xs) x).notified? d <;>
      simpa [hx] using hact

/-- Of all the tasks that were started to forward the notifications of a peer to a manager, one at most
can still take any: that of the last connect, unless its link was closed, replaced or lost since, or
the manager closed. It passes on what comes in, one notification at a time and none twice. -/
theorem relayed_once (settings : Settings) (platform : Platform) (xs : List Act) :
    let s₀ := start settings platform
    let s := s₀.actAll xs
    (∀ c p i j, s.host.Takes c p i → s.host.Takes c p j → i = j) ∧
    (∀ c p i, s.host.Takes c p i → ∃ ys d zs, xs = ys ++ .call c d .connect :: zs ∧ d.peer = p ∧
      i = (s₀.actAll ys).host.nextTask ∧
      ∀ o ∈ (s₀.actAll (ys ++ [.call c d .connect])).instants zs, ¬ o.Ends c p) ∧
    (∀ ys c d zs, xs = ys ++ .call c d .connect :: zs →
      ∀ o ∈ (s₀.actAll (ys ++ [.call c d .connect])).instants zs, o.Ends c d.peer →
        ¬ s.host.Takes c d.peer (s₀.actAll ys).host.nextTask) ∧
    (∀ o ∈ s₀.instants xs, ∀ i a inbox, o.step? = some i →
      o.scene.host.tasks.get? i = some (.forwarding a inbox) →
      o.posted = [] ∨ o.scene.host.Takes a.central a.peer i ∧ ∃ n, inbox.items.head? = some n ∧
        o.posted = [.report a.central (.peer a.peer (.characteristicRead .ok n.uuid n.value))]) ∧
    ∀ c d, ((s₀.instants xs).flatMap (·.relayed c d)).Sublist
      ((s₀.instants xs).filterMap (·.notified? d)) := by
  intro s₀ s
  have hattempting := attempting_actAll settings platform xs
  have hsince : ∀ c p i, s.host.Takes c p i → ∃ ys d zs, xs = ys ++ .call c d .connect :: zs ∧
      d.peer = p ∧ i = (s₀.actAll ys).host.nextTask ∧
      ∀ o ∈ (s₀.actAll (ys ++ [.call c d .connect])).instants zs, ¬ o.Ends c p := by
    rintro c p i ⟨a, ha, rfl, rfl, hlive⟩
    obtain ⟨ys, d, zs, hxs, hd, hi, hsince⟩ := exists_connect settings platform xs ha
    exact ⟨ys, d, zs, hxs, hd, hi, hsince hlive⟩
  refine ⟨fun c p i j => takes_unique hattempting, hsince, ?_, ?_,
    fun c d => (owes_actAll settings platform xs c d).sublist⟩
  · intro ys c d zs hxs o ho hends htakes
    obtain ⟨ys', d', zs', hxs', -, htask, hnone⟩ := hsince _ _ _ htakes
    obtain rfl := connect_unique settings platform xs hxs hxs' htask
    cases List.append_cancel_left (hxs.symm.trans hxs')
    exact hnone o ho hends
  · rintro ⟨u, x⟩ - i a inbox hstep hi
    obtain ⟨hx, rfl⟩ := eq_step_of_step? hstep
    rcases posted_forwarding hi hx with hnone | ⟨hlive, n, rest, hitems, hposted, -⟩
    · exact .inl hnone
    · exact .inr ⟨⟨a, Stack.attempt?_eq_some_iff.mpr ⟨_, hi, rfl⟩, rfl, rfl, hlive⟩, n,
        by rw [hitems]; rfl, hposted⟩

/-- A manager gives a connect up before the platform is done with it and asks for another. Both then
succeed and both tasks go on to forward; the first one's link has been closed, and the second one's is
closed with the manager. -/
def twoConnects : List Act :=
  let lamp := Course.lamp
  [.use ⟨1⟩ .openSide, .call ⟨1⟩ lamp .connect, .happen (.step 1) (by simp),
    .call ⟨1⟩ lamp .cancelConnection, .call ⟨1⟩ lamp .connect, .happen (.step 3) (by simp),
    .happen (.goOn 1) (by simp), .happen (.step 1) (by simp), .happen (.step 1) (by simp),
    .happen (.goOn 3) (by simp), .happen (.step 3) (by simp), .happen (.step 3) (by simp),
    .happen (.notified lamp ⟨.ofShort 0x2a19, [1]⟩) (by simp), .happen (.step 1) (by simp),
    .happen (.step 3) (by simp), .happen (.notified lamp ⟨.ofShort 0x2a19, [2]⟩) (by simp)]

theorem relayed_once_twoConnects :
    let s₀ := start .default Course.slow
    let s := s₀.actAll twoConnects
    let last : Act := .use ⟨1⟩ .close
    s.host.Takes ⟨1⟩ Course.lamp.peer 3 ∧ ¬ s.host.Takes ⟨1⟩ Course.lamp.peer 1 ∧
    ¬ (s.act last).host.Takes ⟨1⟩ Course.lamp.peer 3 ∧
    (s₀.instants twoConnects).flatMap (·.relayed ⟨1⟩ Course.lamp) = [⟨.ofShort 0x2a19, [1]⟩] ∧
    ((s₀.instants twoConnects).flatMap (·.relayed ⟨1⟩ Course.lamp)).Sublist
      [⟨.ofShort 0x2a19, [1]⟩, ⟨.ofShort 0x2a19, [2]⟩] := by
  intro s₀ s last
  have htakes : s.host.Takes ⟨1⟩ Course.lamp.peer 3 :=
    ⟨⟨⟨1⟩, Course.lamp.peer, Course.lamp, ⟨1⟩⟩, by decide +kernel, rfl, rfl, by decide +kernel⟩
  obtain ⟨hunique, -, -, -, hrelayed⟩ := relayed_once .default Course.slow twoConnects
  obtain ⟨-, -, hends, -⟩ := relayed_once .default Course.slow (twoConnects ++ [last])
  refine ⟨htakes, fun h => absurd (hunique _ _ _ _ h htakes) (by decide), ?_, by decide +kernel,
    hrelayed ⟨1⟩ Course.lamp⟩
  have hlast : (⟨s, last⟩ : Instant) ∈ (s₀.actAll (twoConnects.take 4 ++
      [.call ⟨1⟩ Course.lamp .connect])).instants (twoConnects.drop 5 ++ [last]) := by
    rw [instants_append_singleton, ← actAll_append]
    exact List.mem_append_right _ (List.mem_singleton_self _)
  have hclosed := hends (twoConnects.take 4) ⟨1⟩ Course.lamp (twoConnects.drop 5 ++ [last]) rfl
    ⟨s, last⟩ hlast ⟨rfl, .inl rfl⟩
  rw [actAll_append_singleton] at hclosed
  exact hclosed

end Scene

end GattHub.Radio
