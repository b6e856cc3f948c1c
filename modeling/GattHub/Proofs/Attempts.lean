import GattHub.Proofs.Traffic
import GattHub.Proofs.Isolation

/-! Attempts at links. Every connect opens a link of its own and starts a task, which keeps to that link
up to the last notification. Long before it gets there the link may have been closed, lost or replaced,
or its manager closed. -/

namespace GattHub.Radio

namespace Stack

variable {s s' : Stack} {c c' : CentralId} {p p' : PeerId} {l : LinkId}

def attempt? (s : Stack) (i : Nat) : Option Attempt := (s.tasks.get? i).bind Task.attempt?

def closed? (s : Stack) (c : CentralId) : Option Bool := (s.sides.get? c).map Side.closed

/-- The open link of a peer. A manager that was closed has none. -/
def live? (s : Stack) (c : CentralId) (p : PeerId) : Option LinkId :=
  (s.sides.get? c).bind fun side => if side.closed then none else side.links.get? p

theorem live?_eq_some_iff :
    s.live? c p = some l ↔ s.closed? c = some false ∧ s.link? c p = some l := by
  cases hside : s.sides.get? c with
  | none => simp [live?, closed?, hside]
  | some side => cases hc : side.closed <;> simp [live?, closed?, link?, hside, hc]

theorem isLive_iff {a : Attempt} :
    s.isLive a = true ↔ s.live? a.central a.peer = some a.link := by
  cases hside : s.sides.get? a.central with
  | none => simp [isLive, live?, hside]
  | some side => cases hc : side.closed <;> simp [isLive, live?, hside, hc]

theorem live?_of_sides (h : s'.sides = s.sides) : s'.live? c p = s.live? c p := by
  rw [live?, h]
  rfl

theorem live?_of_insert {side : Side} {on : Bool} (hside : s.sides.get? c = some side)
    (h : s'.sides = s.sides.insert c { side with scanning := on }) :
    s'.live? c' p = s.live? c' p := by
  simp only [live?, h, Table.get?_insert]
  split
  next hc =>
    rw [hc, hside]
    rfl
  next => rfl

theorem sides_spawn (s : Stack) (t : Task) : (s.spawn t).sides = s.sides := by
  obtain ⟨ready, hspawn⟩ := s.spawn_eq t
  rw [hspawn]

theorem live?_startScan (s : Stack) (c : CentralId) :
    (s.startScan c).1.live? c' p = s.live? c' p := by
  simp only [startScan]
  split
  next side hside =>
    split
    · rfl
    · split
      · exact live?_of_insert hside (sides_spawn _ _)
      · exact live?_of_insert hside rfl
  next => rfl

theorem live?_stopScan (s : Stack) (c : CentralId) :
    (s.stopScan c).1.live? c' p = s.live? c' p := by
  simp only [stopScan]
  split
  next side hside =>
    split
    · split
      · exact live?_of_insert hside (sides_spawn _ _)
      · exact live?_of_insert hside rfl
    · rfl
  next => rfl

/-- No use of a manager opens a link, and its end leaves none open. -/
theorem live?_use {u : SideUse} (h : (s.use c u).live? c' p = some l) :
    s.live? c' p = some l ∧ (c' = c → u ≠ .close ∧ u ≠ .drop) := by
  cases u with
  | openSide =>
    refine ⟨?_, fun _ => by decide⟩
    simp only [use] at h
    split at h
    · exact h
    · have hsides : (s.accept c .openCentral).state.sides = s.sides.insert c .blank :=
        sides_spawn _ _
      simp only [live?, hsides, Table.get?_insert] at h ⊢
      split at h
      · cases h
      · exact h
  | scan =>
    rw [show s.use c .scan = (s.startScan c).1 from rfl, live?_startScan] at h
    exact ⟨h, fun _ => by decide⟩
  | stopScan =>
    rw [show s.use c .stopScan = (s.stopScan c).1 from rfl, live?_stopScan] at h
    exact ⟨h, fun _ => by decide⟩
  | close =>
    obtain ⟨ready, hclose⟩ := s.close_eq c
    have huse : s.use c .close = _ := hclose
    rw [huse] at h
    simp only [live?, Table.get?_modify] at h
    split at h
    · cases hside : (s.stopScan c).1.sides.get? c' <;> simp [hside] at h
    next hc =>
      have hstop : (s.stopScan c).1.live? c' p = some l := h
      exact ⟨by rwa [live?_stopScan] at hstop, fun heq => absurd heq hc⟩
  | drop =>
    obtain ⟨ready, hdrop⟩ := s.drop_spec c
    have huse : s.use c .drop = _ := hdrop
    rw [huse] at h
    simp only [live?, Table.get?_erase] at h
    split at h
    · cases h
    next hc => exact ⟨h, fun heq => absurd heq hc⟩

theorem closed?_modify_links {f : Table PeerId LinkId → Table PeerId LinkId}
    (h : s'.sides = s.sides.modify c fun side => { side with links := f side.links }) :
    s'.closed? c' = s.closed? c' := by
  simp only [closed?, h, Table.get?_modify]
  split <;> simp [Function.comp_def]

theorem closed?_openLink (s : Stack) (c : CentralId) (p : PeerId) :
    (s.openLink c p).2.closed? c' = s.closed? c' := by
  obtain ⟨ready, hwake⟩ := Stack.wakeTasks_eq
    { s with
      sides := s.sides.modify c fun side => { side with links := side.links.insert p ⟨s.nextLink⟩ }
      nextLink := s.nextLink + 1 } (forwards c p)
  simp only [openLink, hwake]
  exact closed?_modify_links (f := (·.insert p ⟨s.nextLink⟩)) rfl

theorem closed?_closeLink (s : Stack) (c : CentralId) (p : PeerId) :
    (s.closeLink c p).closed? c' = s.closed? c' := by
  obtain ⟨ready, hwake⟩ := Stack.wakeTasks_eq
    { s with sides := s.sides.modify c fun side => { side with links := side.links.erase p } }
    (forwards c p)
  rw [closeLink, hwake]
  exact closed?_modify_links (f := (·.erase p)) rfl

theorem closed?_noteDevice (s : Stack) (c : CentralId) (d : DeviceId) :
    (s.noteDevice c d).closed? c' = s.closed? c' := by
  simp only [closed?, noteDevice, Table.get?_modify]
  split <;> simp [Function.comp_def]

theorem closed?_spawn (s : Stack) (t : Task) : (s.spawn t).closed? c = s.closed? c := by
  rw [closed?, sides_spawn]
  rfl

/-- A call to a peer closes no manager. -/
theorem closed?_acceptPeer (s : Stack) (c : CentralId) (p : PeerId) (d : DeviceId)
    (k : PeerCall handles) : (s.acceptPeer c p d k).closed? c' = s.closed? c' := by
  cases k with
  | connect => exact (closed?_spawn _ _).trans (s.closed?_openLink c p)
  | cancelConnection => exact (closed?_spawn _ _).trans (s.closed?_closeLink c p)
  | attMtu | discoverCharacteristics | discoverDescriptors => rfl
  | _ => exact closed?_spawn _ _

theorem closed?_of_scanning {side : Side} {on : Bool} (hside : s.sides.get? c = some side)
    (h : s'.sides = s.sides.insert c { side with scanning := on }) :
    s'.closed? c' = s.closed? c' := by
  simp only [closed?, h, Table.get?_insert]
  split
  next hc => rw [hc, hside]; rfl
  next => rfl

theorem closed?_startScan (s : Stack) (c c' : CentralId) :
    (s.startScan c).1.closed? c' = s.closed? c' := by
  simp only [startScan]
  split
  next side hside =>
    split
    · rfl
    · split
      · exact closed?_of_scanning hside (sides_spawn _ _)
      · exact closed?_of_scanning hside rfl
  next => rfl

theorem closed?_stopScan (s : Stack) (c c' : CentralId) :
    (s.stopScan c).1.closed? c' = s.closed? c' := by
  simp only [stopScan]
  split
  next side hside =>
    split
    · split
      · exact closed?_of_scanning hside (sides_spawn _ _)
      · exact closed?_of_scanning hside rfl
    · rfl
  next => rfl

theorem closed?_openCentral (s : Stack) (c c' : CentralId) :
    (s.accept c .openCentral).state.closed? c' = if c' = c then some false else s.closed? c' := by
  have hsides : (s.accept c .openCentral).state.sides = s.sides.insert c .blank := sides_spawn _ _
  simp only [closed?, hsides, Table.get?_insert]
  split <;> rfl

theorem closed?_close (s : Stack) {c c' : CentralId} (hc : c' ≠ c) :
    (s.accept c .close).state.closed? c' = s.closed? c' := by
  obtain ⟨ready, hclose⟩ := s.close_eq c
  obtain ⟨ready', hdrop⟩ := Stack.drop_spec (s.close c).1 c
  have hstate : (s.accept c .close).state = _ := hdrop
  rw [hstate, ← closed?_stopScan s c c', closed?, closed?]
  simp only [hclose, Table.get?_erase, Table.get?_modify, if_neg hc]

/-- The links after a call to a peer. -/
theorem live?_call (hs : s.Fresh) {d : DeviceId} {k : PeerCall handles}
    (h : (s.acceptPeer c d.peer d k).live? c' p = some l) :
    (k = .connect ∧ c' = c ∧ d.peer = p ∧ l = ⟨s.nextLink⟩) ∨
      s.live? c' p = some l ∧
        ¬ (c = c' ∧ d.peer = p ∧ (k = .connect ∨ k = .cancelConnection)) := by
  have hcalled : s.Called c (.peer (d.peer, d) k) (s.acceptPeer c d.peer d k) :=
    s.called_accept hs c (.peer (d.peer, d) k)
  obtain ⟨hopen, hlink⟩ := live?_eq_some_iff.mp h
  rw [closed?_acceptPeer] at hopen
  have hkept (hsame : s.link? c' p = some l) : s.live? c' p = some l :=
    live?_eq_some_iff.mpr ⟨hopen, hsame⟩
  rw [hcalled.link?] at hlink
  split at hlink
  next hc =>
    subst hc
    cases k with
    | connect =>
      simp only [linkAfter] at hlink
      split at hlink
      next hp =>
        obtain ⟨-, -, hl⟩ := Option.map_eq_some_iff.mp hlink
        exact .inl ⟨rfl, rfl, hp.symm, hl.symm⟩
      next hp => exact .inr ⟨hkept hlink, fun heq => hp heq.2.1.symm⟩
    | cancelConnection =>
      simp only [linkAfter] at hlink
      split at hlink
      · cases hlink
      next hp => exact .inr ⟨hkept hlink, fun heq => hp heq.2.1.symm⟩
    | _ => exact .inr ⟨hkept hlink, fun heq => by simp at heq⟩
  next hc => exact .inr ⟨hkept hlink, fun heq => hc heq.1.symm⟩

end Stack

namespace Scene

theorem closed?_post (t : Scene) (c c' : CentralId) (r : Report handles) :
    (t.post c r).host.closed? c' = t.host.closed? c' := by
  obtain ⟨ready, hwake⟩ := t.host.wake_eq .worker
  simp only [post, hwake]
  split <;> rfl

theorem closed?_hear (t : Scene) (c c' : CentralId) (e : AdapterEvent) :
    (hear c t e).host.closed? c' = t.host.closed? c' := by
  have hadvertise (d : DeviceId) : (t.advertise c d).host.closed? c' = t.host.closed? c' := by
    simp only [advertise]
    split
    · exact (closed?_post _ _ _ _).trans (Stack.closed?_noteDevice _ _ _)
    · rfl
  cases e with
  | discovered d | updated d => exact hadvertise d
  | disconnected d => exact (closed?_post _ _ _ _).trans (Stack.closed?_closeLink _ _ _)
  | stateUpdated st => exact closed?_post _ _ _ _
  | connected d | servicesAdvertised d services => rfl

theorem closed?_begin (t : Scene) (i : Nat) (o : Operation) (next : Task) (c : CentralId) :
    (t.begin i o next).host.closed? c = t.host.closed? c := by
  simp only [begin]
  split <;> rfl

/-- No task closes a manager. -/
theorem closed?_stepTask (t : Scene) (i : Nat) (c : CentralId) :
    (t.stepTask i).host.closed? c = t.host.closed? c := by
  simp only [stepTask]
  split
  next task _ =>
    split
    · rfl
    cases task with
    | listen c' =>
      simp only [go, listen]
      split
      · rfl
      · exact closed?_post _ _ _ _
    | readState c' inbox =>
      simp only [go, readState]
      split <;> exact closed?_post _ _ _ _
    | listening c' inbox =>
      simp only [go, listening]
      split
      · split
        · exact closed?_hear _ _ _ _
        · rfl
      · rfl
    | switchScan on begun =>
      cases begun with
      | false => exact closed?_begin _ _ _ _ _
      | true =>
        simp only [go, switched]
        split <;> rfl
    | request c' p d job begun =>
      cases begun with
      | false => exact closed?_begin _ _ _ _ _
      | true =>
        simp only [go, answered]
        cases job.report d (t.host.platform.perform (job.operation d)) <;>
          cases job.entry p d (t.host.platform.perform (job.operation d))
        · rfl
        · rfl
        · exact closed?_post _ _ _ _
        · exact closed?_post _ _ _ _
    | connect a begun =>
      cases begun with
      | false => exact closed?_begin _ _ _ _ _
      | true =>
        simp only [go, connected]
        split <;> exact closed?_post _ _ _ _
    | subscribe a =>
      simp only [go, subscribe]
      split <;> rfl
    | forwarding a inbox =>
      simp only [go, forwarding]
      split
      · split
        · exact closed?_post _ _ _ _
        · rfl
      · rfl
  next => rfl

end Scene

namespace Task

theorem Goes.attempt? {t t' : Task} {post : Option (CentralId × Report handles)}
    {closes : Option (CentralId × PeerId)} (h : t.Goes (some t') post closes) {a : Attempt}
    (ha : t'.attempt? = some a) : t.attempt? = some a := by
  cases h with
  | connected a' status next hnext =>
    rcases hnext with hnext | hnext <;> cases hnext
    exact ha
  | listens | readsState | hears | hearsLoss | switches | requests => cases ha
  | connects | subscribes | forwards => exact ha

end Task

namespace Stack

variable {s s' : Stack} {c : CentralId} {i : Nat} {a : Attempt}

theorem attempt?_eq_some_iff :
    s.attempt? i = some a ↔ ∃ t, s.tasks.get? i = some t ∧ t.attempt? = some a :=
  Option.bind_eq_some_iff

/-- A call starts an attempt if it is a connect. -/
theorem Called.attempt? {k : HostCall handles} (hcalled : s.Called c k s')
    (h : s'.attempt? i = some a) :
    s.attempt? i = some a ∨
      ∃ n, k = .peer n .connect ∧ i = s.nextTask ∧ a = ⟨c, n.1, n.2, ⟨s.nextLink⟩⟩ := by
  obtain ⟨t, ht, ha⟩ := attempt?_eq_some_iff.mp h
  rw [hcalled.tasks] at ht
  split at ht
  next hi =>
    cases k with
    | openCentral =>
      cases ht
      cases ha
    | scan | stopScan | close =>
      simp only [started?] at ht
      split at ht <;> cases ht
      cases ha
    | lookup => cases ht
    | peer n k =>
      cases k with
      | connect =>
        cases ht
        cases ha
        exact .inr ⟨n, rfl, hi, rfl⟩
      | attMtu | discoverCharacteristics | discoverDescriptors => cases ht
      | _ =>
        cases ht
        cases ha
  next => exact .inl (attempt?_eq_some_iff.mpr ⟨t, ht, ha⟩)

/-- No use of a manager starts an attempt or opens a link. -/
theorem attempt?_use (hs : s.Sound) (c : CentralId) (u : SideUse)
    (h : (s.use c u).attempt? i = some a) : s.attempt? i = some a := by
  rcases use_called hs.fresh c u with hsame | ⟨k, s', hcalled, hk, hsame⟩
  · rwa [attempt?, hsame.tasks] at h
  · rw [attempt?, hsame.tasks] at h
    rcases hcalled.attempt? h with h | ⟨n, hn, -⟩
    · exact h
    · exact absurd hn (hk n _)

theorem nextLink_use (hs : s.Sound) (c : CentralId) (u : SideUse) :
    (s.use c u).nextLink = s.nextLink := by
  rcases use_called hs.fresh c u with hsame | ⟨k, s', hcalled, hk, hsame⟩
  · exact hsame.nextLink
  · rw [hsame.nextLink, hcalled.nextLink]
    cases k with
    | peer n k => exact absurd rfl (hk n k)
    | _ => rfl

end Stack

/-- The link of a peer is closed or replaced, or its manager is closed. -/
def Instant.Ends (o : Instant) (c : CentralId) (p : PeerId) : Prop :=
  match o.act with
  | .use c' u => c' = c ∧ (u = .close ∨ u = .drop)
  | .call c' d k => c' = c ∧ d.peer = p ∧ (k = .connect ∨ k = .cancelConnection)
  | .worker _ => False
  | .happen x _ => ∃ i, (Beat.mk o.scene x).Drops c p i

namespace Scene

variable {s : Scene} {c : CentralId} {p : PeerId} {i : Nat} {a : Attempt}

/-- Every attempt is that of a connect. -/
theorem attempt?_act (hs : s.host.Sound) {x : Act} (h : (s.act x).host.attempt? i = some a) :
    s.host.attempt? i = some a ∨
      ∃ c d, x = .call c d .connect ∧ i = s.host.nextTask ∧
        a = ⟨c, d.peer, d, ⟨s.host.nextLink⟩⟩ := by
  cases x with
  | use c u => exact .inl (Stack.attempt?_use hs c u h)
  | call c d k =>
    rcases (called_call hs c d k).attempt? h with h | ⟨n, hn, hi, ha⟩
    · exact .inl h
    · cases hn
      exact .inr ⟨c, d, rfl, hi, ha⟩
  | worker w => exact .inl h
  | happen x hx =>
    obtain ⟨t, ht, ha⟩ := Stack.attempt?_eq_some_iff.mp h
    rcases s.happen_cases hx with ⟨j, task, next, post, closes, hsteps⟩ | hout
    · have htasks : (s.act (.happen x hx)).host.tasks.get? i = _ := hsteps.progress.tasks i
      rw [htasks] at ht
      split at ht
      next hij =>
        subst hij
        rw [ht] at hsteps
        exact .inl (Stack.attempt?_eq_some_iff.mpr ⟨task, hsteps.found, hsteps.goes.attempt? ha⟩)
      next => exact .inl (Stack.attempt?_eq_some_iff.mpr ⟨t, ht, ha⟩)
    · rcases hout.tasks i with hsame | ⟨t₀, t', ht₀, hbrings, ht'⟩
      · exact .inl (Stack.attempt?_eq_some_iff.mpr ⟨t, hsame.symm.trans ht, ha⟩)
      · have htask : t = t' := Option.some.inj (ht.symm.trans ht')
        subst htask
        rcases Happening.brings_cases hbrings with ⟨-, hnone⟩ | ⟨a', inbox, inbox', rfl, rfl, -⟩
        · rw [hnone] at ha
          cases ha
        · exact .inl (Stack.attempt?_eq_some_iff.mpr ⟨_, ht₀, ha⟩)

theorem nextLink_call (hs : s.host.Sound) (c : CentralId) (d : DeviceId) (k : PeerCall handles) :
    (s.act (.call c d k)).host.nextLink = s.host.nextLink + if k = .connect then 1 else 0 := by
  rw [(called_call hs c d k).nextLink]
  cases k <;> rfl

theorem nextLink_le_act (hs : s.host.Sound) (x : Act) :
    s.host.nextLink ≤ (s.act x).host.nextLink := by
  cases x with
  | use c u => exact Nat.le_of_eq (Stack.nextLink_use hs c u).symm
  | call c d k =>
    rw [nextLink_call hs]
    exact Nat.le_add_right ..
  | worker w => exact Nat.le_refl _
  | happen x hx =>
    rcases s.happen_cases hx with ⟨j, task, next, post, closes, hsteps⟩ | hout
    · exact Nat.le_of_eq hsteps.progress.nextLink.symm
    · exact Nat.le_of_eq hout.nextLink.symm

/-- A link that is open was open before and is not ended, or a connect has just opened it. -/
theorem live?_act (hs : s.host.Sound) {x : Act} {l : LinkId}
    (h : (s.act x).host.live? c p = some l) :
    (∃ d, x = .call c d .connect ∧ d.peer = p ∧ l = ⟨s.host.nextLink⟩) ∨
      s.host.live? c p = some l ∧ ¬ (Instant.mk s x).Ends c p := by
  cases x with
  | use c' u =>
    obtain ⟨hbefore, hu⟩ := Stack.live?_use h
    exact .inr ⟨hbefore, fun hends => hends.2.elim (hu hends.1.symm).1 (hu hends.1.symm).2⟩
  | call c' d k =>
    rcases Stack.live?_call hs.fresh h with ⟨rfl, rfl, hp, hl⟩ | hkept
    · exact .inl ⟨d, rfl, hp, hl⟩
    · exact .inr hkept
  | worker w => exact .inr ⟨h, id⟩
  | happen x hx =>
    right
    obtain ⟨hopen, hlink⟩ := Stack.live?_eq_some_iff.mp h
    rcases s.happen_cases hx with ⟨j, task, next, post, closes, hsteps⟩ | hout
    · -- A step closes no manager; it ends the link just if it hears of the loss.
      have hstep : (s.act (.happen x hx)).host = (s.stepTask j).host := by
        rw [act, show x = .step j from hsteps.happening]
        rfl
      rw [hstep, closed?_stepTask] at hopen
      have hlinks : (s.act (.happen x hx)).host.link? c p = _ := hsteps.progress.link? c p
      rw [hlinks] at hlink
      split at hlink
      · cases hlink
      next hcloses =>
        refine ⟨Stack.live?_eq_some_iff.mpr ⟨hopen, hlink⟩, ?_⟩
        rintro ⟨i, task', next', post', hdrops⟩
        have hlost := (hdrops.progress.link? c p).symm.trans hlinks
        rw [if_pos rfl, if_neg hcloses, hlink] at hlost
        cases hlost
    · have hsame : (s.act (.happen x hx)).host.live? c p = s.host.live? c p :=
        Stack.live?_of_sides hout.sides
      refine ⟨hsame.symm.trans h, ?_⟩
      rintro ⟨i, task', next', post', hdrops⟩
      have hlost : (s.act (.happen x hx)).host.link? c p = _ := hdrops.progress.link? c p
      rw [hlink, if_pos rfl] at hlost
      cases hlost

end Scene

/-- Every attempt is at a link of its own, to the peer that its device is. -/
structure Stack.Attempting (s : Stack) : Prop where
  named : ∀ {i a}, s.attempt? i = some a → a.device.peer = a.peer
  older : ∀ {i a}, s.attempt? i = some a → a.link.raw < s.nextLink
  apart : ∀ {i j a a'}, s.attempt? i = some a → s.attempt? j = some a' → a.link = a'.link → i = j

theorem Stack.Attempting.link_ne {s : Stack} {i : Nat} {a : Attempt} (h : s.Attempting)
    (ha : s.attempt? i = some a) : a.link ≠ ⟨s.nextLink⟩ := by
  intro hl
  have hlt := h.older ha
  rw [hl] at hlt
  exact Nat.lt_irrefl _ hlt

namespace Scene

variable {s : Scene} {c : CentralId} {p : PeerId} {i j : Nat} {a : Attempt}

theorem attempting_act (hs : s.host.Sound) (h : s.host.Attempting) (x : Act) :
    (s.act x).host.Attempting := by
  refine ⟨fun {i a} ha => ?_, fun {i a} ha => ?_, fun {i j a a'} ha ha' hlink => ?_⟩
  · rcases attempt?_act hs ha with ha | ⟨c, d, -, -, rfl⟩
    · exact h.named ha
    · rfl
  · rcases attempt?_act hs ha with ha | ⟨c, d, rfl, -, rfl⟩
    · exact Nat.lt_of_lt_of_le (h.older ha) (nextLink_le_act hs x)
    · rw [nextLink_call hs]
      exact Nat.lt_succ_self _
  · rcases attempt?_act hs ha with ha | ⟨c, d, -, hi, rfl⟩ <;>
      rcases attempt?_act hs ha' with ha' | ⟨c', d', -, hj, rfl⟩
    · exact h.apart ha ha' hlink
    · exact absurd hlink (h.link_ne ha)
    · exact absurd hlink.symm (h.link_ne ha')
    · rw [hi, hj]

/-- A link that is open was so before, unless it was opened just now. -/
theorem isLive_of_act (hs : s.host.Sound) (hattempting : s.host.Attempting)
    (ha : s.host.attempt? i = some a) {x : Act} (h : (s.act x).host.isLive a = true) :
    s.host.isLive a = true := by
  rcases live?_act hs (Stack.isLive_iff.mp h) with ⟨-, -, -, hl⟩ | ⟨hlive, -⟩
  · exact absurd hl (hattempting.link_ne ha)
  · exact Stack.isLive_iff.mpr hlive

section Run

variable (settings : Settings) (platform : Platform) (xs : List Act)

theorem attempting_actAll : ((start settings platform).actAll xs).host.Attempting := by
  induction xs using List.reverseRecOn with
  | nil => exact ⟨nofun, nofun, nofun⟩
  | append_singleton xs x ih =>
    rw [actAll_append_singleton]
    exact attempting_act (sound_actAll settings platform xs) ih x

/-- An attempt was started by a connect. As long as its link is open, nothing has ended it since. -/
theorem exists_connect (ha : ((start settings platform).actAll xs).host.attempt? i = some a) :
    ∃ ys d zs, xs = ys ++ .call a.central d .connect :: zs ∧ d.peer = a.peer ∧
      i = ((start settings platform).actAll ys).host.nextTask ∧
      (((start settings platform).actAll xs).host.isLive a = true →
        ∀ o ∈ ((start settings platform).actAll (ys ++ [.call a.central d .connect])).instants zs,
          ¬ o.Ends a.central a.peer) := by
  induction xs using List.reverseRecOn with
  | nil => cases ha
  | append_singleton xs x ih =>
    have hs := sound_actAll settings platform xs
    rw [actAll_append_singleton] at ha ⊢
    rcases attempt?_act hs ha with ha | ⟨c, d, rfl, hi, rfl⟩
    · obtain ⟨ys, d, zs, hxs, hd, hi, hsince⟩ := ih ha
      refine ⟨ys, d, zs ++ [x], by rw [hxs]; simp, hd, hi, fun hlive o ho => ?_⟩
      rw [Stack.isLive_iff] at hlive
      rcases live?_act hs hlive with ⟨-, -, -, hl⟩ | ⟨hlive, hends⟩
      · exact absurd hl ((attempting_actAll settings platform xs).link_ne ha)
      · rw [instants_append_singleton, ← actAll_append, List.append_assoc, List.singleton_append,
          ← hxs] at ho
        rcases List.mem_append.mp ho with ho | ho
        · exact hsince (Stack.isLive_iff.mpr hlive) o ho
        · rw [List.mem_singleton.mp ho]
          exact hends
    · exact ⟨xs, d, [], rfl, rfl, hi, fun _ => List.forall_mem_nil _⟩

/-- No two connects start the same task. -/
theorem connect_unique {ys ys' zs zs' : List Act} {c c' : CentralId} {d d' : DeviceId}
    (hxs : xs = ys ++ .call c d .connect :: zs) (hxs' : xs = ys' ++ .call c' d' .connect :: zs')
    (htask : ((start settings platform).actAll ys).host.nextTask =
      ((start settings platform).actAll ys').host.nextTask) : ys = ys' := by
  -- A connect takes the next number, so the later of two starts a task with a higher one.
  have hlater {ys as : List Act} {c : CentralId} {d : DeviceId} :
      ((start settings platform).actAll ys).host.nextTask <
        ((start settings platform).actAll (ys ++ .call c d .connect :: as)).host.nextTask := by
    have hs := sound_actAll settings platform ys
    have hcalled := called_call hs c d .connect
    have hnext := hcalled.nextTask
    have hmono := nextTask_le_actAll (sound_act hs (.call c d .connect)) as
    rw [actAll_append]
    simp only [Stack.started?, Option.toList_some, List.length_singleton] at hnext
    have hall : (((start settings platform).actAll ys).actAll (.call c d .connect :: as)) =
      (((start settings platform).actAll ys).act (.call c d .connect)).actAll as := rfl
    rw [hall]
    omega
  rcases List.append_eq_append_iff.mp (hxs.symm.trans hxs') with ⟨as, rfl, has⟩ | ⟨as, rfl, has⟩
  · cases as with
    | nil => exact (List.append_nil _).symm
    | cons x as =>
      cases has
      exact absurd htask (Nat.ne_of_lt hlater)
  · cases as with
    | nil => exact List.append_nil _
    | cons x as =>
      cases has
      exact absurd htask.symm (Nat.ne_of_lt hlater)

end Run

end Scene

end GattHub.Radio
