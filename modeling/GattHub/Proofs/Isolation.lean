import GattHub.Proofs.Provenance
import GattHub.Proofs.ScanCount

/-! What decides a link of a peer over a radio: the results of connects and the ends of links that
are reported. Reports name the peer and not the link, so what is still under way when a link is
asked for decides that link as well. -/

namespace GattHub

variable {H : Handles}

namespace PeerReport

/-- Whether a report tells of the fate of a link. -/
def decides : PeerReport H → Bool
  | connected _ | disconnected _ => true
  | _ => false

/-- The state of a link after a report of its fate. -/
def ruling : PeerReport H → LinkState → LinkState
  | connected status, .connecting => if status = .ok then .connected else .disconnected
  | disconnected _, _ => .disconnected
  | _, state => state

end PeerReport

namespace Moment

variable {t : Moment H} {c : CentralId} {p : PeerId}

/-- The state of a link changes by a report that decides it, or because the session asks. -/
theorem Fate.decided {q q' : Peer H} (h : t.Fate c p (some q) (some q'))
    (hne : q'.state ≠ q.state) :
    (∃ r : PeerReport H, t.move = .report c (.peer p r) ∧ r.decides = true ∧
        q'.state = r.ruling q.state) ∨
      t.accepted? c p = some .connect ∨ t.accepted? c p = some .disconnect := by
  cases h with
  | kept => exact absurd rfl hne
  | accepted _ q₀ _ action hq _ hacc haccepts =>
    cases haccepts with
    | connect => exact .inr (.inl hacc)
    | disconnect => exact .inr (.inr hacc)
    | operate =>
      rcases hq with hq | ⟨hq, -⟩
      · cases hq
        exact absurd rfl hne
      · cases hq
  | reported _ _ report hm _ hreaction =>
    refine .inl ⟨report, hm, ?_⟩
    generalize t.notices = ns at hreaction
    cases hreaction with
    | ignored | passed | completed | forwarded => exact absurd rfl hne
    | established hreport hstate =>
      rw [hreport]
      exact ⟨rfl, by simp [PeerReport.ruling, hstate]⟩
    | failed status hreport hstatus hstate =>
      rw [hreport]
      exact ⟨rfl, by simp [PeerReport.ruling, hstate, hstatus, Peer.unlinked]⟩
    | lost _ hreport =>
      rw [hreport]
      exact ⟨rfl, rfl⟩
  | observed _ record =>
    obtain ⟨rssi, hrssi⟩ := q.observe_eq record.rssi
    rw [hrssi] at hne
    exact absurd rfl hne

end Moment

namespace Radio

/-- What a message tells of the fate of the link of a peer. -/
def verdict? (c : CentralId) (p : PeerId) : Message handles → Option (PeerReport handles)
  | .report c' (.peer p' r) => if c' = c ∧ p' = p ∧ r.decides then some r else none
  | _ => none

def verdicts (c : CentralId) (p : PeerId) (ms : List (Message handles)) :
    List (PeerReport handles) := ms.filterMap (verdict? c p)

theorem verdicts_append (c : CentralId) (p : PeerId) (ms ms' : List (Message handles)) :
    verdicts c p (ms ++ ms') = verdicts c p ms ++ verdicts c p ms' := List.filterMap_append

theorem Task.Goes.decides {t : Task} {next : Option Task} {closes : Option (CentralId × PeerId)}
    {c : CentralId} {p : PeerId} {r : PeerReport handles}
    (h : t.Goes next (some (c, .peer p r)) closes) (hr : r.decides = true) :
    (∃ a status, t = .connect a true ∧ a.central = c ∧ a.peer = p ∧ r = .connected status) ∨
      ∃ reason, r = .disconnected reason ∧ ((∃ d, t = .request c p d .disconnect true) ∨
        ∃ d, .disconnected d ∈ t.unread c ∧ d.peer = p) := by
  generalize hpost : some (c, Report.peer p r) = post at h
  cases h with
  | connected a status =>
    cases hpost
    exact .inl ⟨a, status, rfl, rfl, rfl, rfl⟩
  | answered c' p' d job outcome =>
    obtain ⟨report, hreport, heq⟩ := Option.map_eq_some_iff.mp hpost.symm
    cases heq
    cases job with
    | disconnect =>
      cases hreport
      exact .inr ⟨.ok, rfl, .inl ⟨d, rfl⟩⟩
    | write characteristic value noResponse =>
      cases noResponse <;> cases hreport
      cases hr
    | _ =>
      cases hreport
      cases hr
  | hearsLoss c' d rest ended =>
    cases hpost
    exact .inr ⟨.ok, rfl, .inr ⟨d, by simp [Task.unread], rfl⟩⟩
  | hears _ _ _ _ _ _ hnone => cases hnone _ hpost.symm
  | forwards =>
    cases hpost
    cases hr
  | _ => cases hpost

theorem Task.Goes.closes_unread {t : Task} {next : Option Task}
    {post : Option (CentralId × Report handles)} {c : CentralId} {p : PeerId}
    (h : t.Goes next post (some (c, p))) : ∃ d, .disconnected d ∈ t.unread c ∧ d.peer = p := by
  cases h with
  | hearsLoss _ d => exact ⟨d, by simp [Task.unread], rfl⟩

/-- The session of a peer. -/
def Scene.peer? (s : Scene) (c : CentralId) (p : PeerId) : Option (Peer handles) :=
  s.worker.hub.bind (·.peer? c p)

namespace Beat

variable {b : Beat} {c : CentralId} {p : PeerId} {i : Nat}

/-- The verdicts that a beat posts, each with the number of the task that it comes from. -/
def verdicts (b : Beat) (c : CentralId) (p : PeerId) : List (Nat × PeerReport handles) :=
  match b.happening with
  | .step i => (Radio.verdicts c p b.posted).map fun r => (i, r)
  | _ => []

/-- A step of a task closes the link of a peer. -/
def Drops (b : Beat) (c : CentralId) (p : PeerId) (i : Nat) : Prop :=
  ∃ task next post, b.Steps i task next post (some (c, p))

/-- Verdicts are posted by tasks alone. -/
theorem map_snd_verdicts (b : Beat) :
    (b.verdicts c p).map Prod.snd = Radio.verdicts c p b.posted := by
  rcases b.cases with ⟨t, ht⟩ | ⟨j, task, next, post, closes, hsteps⟩ | hout
  · have hnone : Radio.verdicts c p b.posted = [] := by
      rw [Radio.verdicts, posted_of_moment ht, List.filterMap_eq_nil_iff]
      intro m hm
      obtain ⟨⟨c', k⟩, -, hm⟩ := List.mem_flatMap.mp hm
      cases k with
      | peer n k =>
        cases k with
        | discoverCharacteristics | discoverDescriptors =>
          simp only [Stack.posts, Stack.report?, Option.toList_some, List.map_cons, List.map_nil,
            List.mem_singleton] at hm
          simp [hm, verdict?, PeerReport.decides]
        | _ => cases hm
      | _ => cases hm
    rw [hnone]
    simp [verdicts, (of_moment ht).1]
  · simp [verdicts, hsteps.happening, Function.comp_def]
  · have hnone : Radio.verdicts c p b.posted = [] := by
      rw [Radio.verdicts, List.filterMap_eq_nil_iff]
      intro m hm
      cases m with
      | report c' r => exact absurd hm (hout.posted c' r)
      | _ => rfl
    rw [hnone]
    cases hx : b.happening <;> simp [verdicts, hx, hnone]

/-- A verdict comes of a connect, of an end that was asked for, or of a loss that a listener takes
in. -/
theorem source {r : PeerReport handles} (h : (i, r) ∈ b.verdicts c p) :
    (∃ status, r = .connected status) ∧ b.scene.Connects c p i ∨
      (∃ reason, r = .disconnected reason) ∧
        (b.scene.Disconnects c p i ∨ b.scene.Learns c p i) := by
  cases hx : b.happening with
  | step j =>
    simp only [verdicts, hx, List.mem_map] at h
    obtain ⟨r', hr, heq⟩ := h
    cases heq
    obtain ⟨m, hm, hverdict⟩ := List.mem_filterMap.mp hr
    rcases b.cases with ⟨t, ht⟩ | ⟨j, task, next, post, closes, hsteps⟩ | hout
    · rw [(of_moment ht).1] at hx
      cases hx
    · cases hx.symm.trans hsteps.happening
      rw [hsteps.posted] at hm
      split at hm
      · obtain ⟨⟨c', report⟩, hpost, rfl⟩ := List.mem_map.mp hm
        obtain ⟨p', rfl, ⟨rfl, rfl, hdecides⟩⟩ : ∃ p', report = .peer p' r ∧ c' = c ∧ p' = p ∧
            r.decides = true := by
          cases report with
          | peer p' r' =>
            simp only [verdict?] at hverdict
            split at hverdict
            next hall =>
              cases hverdict
              exact ⟨p', rfl, hall⟩
            next => cases hverdict
          | _ => cases hverdict
        rw [Option.mem_toList] at hpost
        cases hpost
        obtain ⟨-, hfound, hgoes, -⟩ := hsteps
        rcases hgoes.decides hdecides with
          ⟨a, status, rfl, hc, hp, hr⟩ | ⟨reason, hr, ⟨d, rfl⟩ | ⟨d, hd⟩⟩
        · exact .inl ⟨⟨status, hr⟩, a, true, hfound, hc, hp⟩
        · exact .inr ⟨⟨reason, hr⟩, .inl ⟨d, true, hfound⟩⟩
        · exact .inr ⟨⟨reason, hr⟩, .inr ⟨task, d, hfound, hd⟩⟩
      · cases hm
    · cases m with
      | report c' r => exact absurd hm (hout.posted c' r)
      | _ => cases hverdict
  | _ => simp [verdicts, hx] at h

theorem learns_of_drops (h : b.Drops c p i) : b.scene.Learns c p i := by
  obtain ⟨task, next, post, hsteps⟩ := h
  obtain ⟨d, hd⟩ := hsteps.goes.closes_unread
  exact ⟨task, d, hsteps.found, hd⟩

/-- The report that the worker takes. -/
theorem taken_of_report {t : Moment handles} (ht : b.moment? = some t) {r : Report handles}
    (hm : t.move = .report c r) : b.taken = [.report c r] := by
  obtain ⟨hx, -, ⟨m, rest, hq, hmove⟩, -⟩ := of_moment ht
  rw [hm] at hmove
  have htaken : b.taken = [m] := by simp [taken, hx, hq]
  rw [htaken]
  cases m with
  | report c' r' =>
    cases hmove
    rfl
  | _ => cases hmove

theorem peer?_of_moment {t : Moment handles} (ht : b.moment? = some t) :
    b.scene.peer? c p = t.before c p ∧ b.after.peer? c p = t.later c p := by
  obtain ⟨-, hbefore, -, hafter, -⟩ := of_moment ht
  rw [Scene.peer?, Scene.peer?, hbefore, hafter]
  exact ⟨rfl, rfl⟩

theorem peer?_of_no_moment (ht : b.moment? = none) : b.after.peer? c p = b.scene.peer? c p := by
  have hhub : b.after.worker.hub = b.scene.worker.hub := by
    rcases b.cases with ⟨t, ht'⟩ | ⟨j, task, next, post, closes, hsteps⟩ | hout
    · rw [ht] at ht'
      cases ht'
    · exact hsteps.progress.hub
    · exact hout.hub
  rw [Scene.peer?, Scene.peer?, hhub]

/-- A session's link changes its state by a verdict that the worker takes, or because it was
asked. -/
theorem decided (hb : b.Proper) {q q' : Peer handles} (hq : b.scene.peer? c p = some q)
    (hq' : b.after.peer? c p = some q') (hne : q'.state ≠ q.state) :
    (∃ r ∈ Radio.verdicts c p b.taken, q'.state = r.ruling q.state) ∨
      b.Accepts c p .connect ∨ b.Accepts c p .disconnect := by
  cases ht : b.moment? with
  | none =>
    rw [peer?_of_no_moment ht, hq] at hq'
    cases hq'
    exact absurd rfl hne
  | some t =>
    obtain ⟨hbefore, hlater⟩ := peer?_of_moment (c := c) (p := p) ht
    have hfate := t.fate (hb.moment ht).1 c p
    rw [← hbefore, ← hlater, hq, hq'] at hfate
    rcases hfate.decided hne with ⟨r, hm, hr, hstate⟩ | hacc | hacc
    · refine .inl ⟨r, ?_, hstate⟩
      rw [taken_of_report ht hm]
      simp [Radio.verdicts, verdict?, hr]
    · exact .inr (.inl ⟨t, ht, hacc⟩)
    · exact .inr (.inr ⟨t, ht, hacc⟩)

end Beat

namespace Stack

variable {s : Stack} {c : CentralId} {p : PeerId}

theorem acceptAll_append (s : Stack) (ks ks' : List (CentralId × HostCall handles)) :
    s.acceptAll (ks ++ ks') = (s.acceptAll ks).acceptAll ks' := List.foldl_append

theorem acceptAll_of_lookups {ks : List (CentralId × HostCall handles)}
    (hks : ∀ e ∈ ks, ∃ p, e.2 = .lookup p) : s.acceptAll ks = s := by
  induction ks with
  | nil => rfl
  | cons e ks ih =>
    obtain ⟨p', hp⟩ := hks e List.mem_cons_self
    have hsame : (s.accept e.1 e.2).state = s := by rw [hp]; rfl
    rw [show s.acceptAll (e :: ks) = (s.accept e.1 e.2).state.acceptAll ks from rfl, hsame]
    exact ih fun e' he' => hks e' (List.mem_cons_of_mem e he')

theorem flag?_of_link? {link : LinkId} (h : s.link? c p = some link) : s.flag? c ≠ none := by
  intro hnone
  simp only [flag?, Option.map_eq_none_iff] at hnone
  simp [link?, hnone] at h

theorem linkAfter_of_apart {k : HostCall handles} (hopen : k ≠ .openCentral) (hclose : k ≠ .close)
    (hpeer : ∀ n, Names p n → k ≠ .peer n .connect ∧ k ≠ .peer n .cancelConnection) :
    s.linkAfter c k p = s.link? c p := by
  cases k with
  | openCentral => exact absurd rfl hopen
  | close => exact absurd rfl hclose
  | scan | stopScan | lookup => rfl
  | peer n k =>
    have hnot := hpeer n
    cases k with
    | connect =>
      simp only [linkAfter]
      exact if_neg fun hp => (hnot hp.symm).1 rfl
    | cancelConnection =>
      simp only [linkAfter]
      exact if_neg fun hp => (hnot hp.symm).2 rfl
    | _ => rfl

/-- Calls that neither open nor close the link of a peer leave it as it is. -/
theorem link?_acceptAll (hs : s.Sound) {link : LinkId} (h : s.link? c p = some link)
    {ks : List (CentralId × HostCall handles)}
    (hks : ∀ k, (c, k) ∈ ks → k ≠ .openCentral ∧ k ≠ .close ∧
      ∀ n, Names p n → k ≠ .peer n .connect ∧ k ≠ .peer n .cancelConnection) :
    (s.acceptAll ks).link? c p = some link := by
  induction ks generalizing s with
  | nil => exact h
  | cons e ks ih =>
    have hcalled := s.called_accept hs.fresh e.1 e.2
    refine ih (hcalled.sound hs) ?_ fun k hk => hks k (List.mem_cons_of_mem e hk)
    rw [hcalled.link?]
    split
    next hc =>
      obtain ⟨hopen, hclose, hpeer⟩ := hks e.2 (by rw [hc]; exact List.mem_cons_self)
      rw [← hc, linkAfter_of_apart hopen hclose hpeer, h]
    next => exact h

end Stack

namespace Beat

variable {b : Beat} {c : CentralId} {p : PeerId}

section Link

variable (hb : b.Proper) {past : List (Moment handles)} (htallies : b.scene.Tallies past)
  (hfree : ∀ t, b.moment? = some t → t.allocates = true → t.hub.centrals.get? t.hub.next = none)
include hb htallies hfree

/-- A manager is opened at the host only if the radio does not have it. -/
theorem flag?_of_call {t : Moment handles} (ht : b.moment? = some t)
    (hk : (c, .openCentral) ∈ Effect.calls t.effects) : b.scene.host.flag? c = none := by
  rcases t.calls_cases (hb.moment ht).1 (hfree t ht) (agrees ht) with
    ⟨c', hcalls, hnone⟩ | ⟨c', a, hcalls⟩ | hno
  · rw [hcalls] at hk
    cases List.mem_singleton.mp hk
    rw [(htallies.flagged c).flag, (of_moment ht).2.1, Option.bind_some,
      show t.hub.scan? c = none from hnone]
    rfl
  · rw [hcalls] at hk
    cases List.mem_singleton.mp hk
  · exact absurd rfl (hno _ hk).1

/-- The link of a peer stays until a session or the manager ends it, another is asked for, or a loss
is taken in. -/
theorem link?_after {link : LinkId} (h : b.scene.host.link? c p = some link) :
    b.after.host.link? c p = some link ∨ b.Accepts c p .connect ∨ b.Accepts c p .disconnect ∨
      b.Closes c ∨ ∃ i, b.Drops c p i := by
  rcases b.cases with ⟨t, ht⟩ | ⟨i, task, next, post, closes, hsteps⟩ | hout
  · by_contra hnone
    simp only [not_or] at hnone
    obtain ⟨hchanged, hconnect, hdisconnect, hclose, -⟩ := hnone
    refine hchanged ?_
    rw [(of_moment ht).2.2.2.2.1]
    -- No call of the moment touches the link: each that would is ruled out.
    refine Stack.link?_acceptAll hb.sound h fun k hk => ⟨?_, ?_, fun n hn => ⟨?_, ?_⟩⟩
    all_goals
      rintro rfl
    · exact Stack.flag?_of_link? h (flag?_of_call hb htallies hfree ht hk)
    · have hscans := t.scans (hb.moment ht).1 (hfree t ht) c
      exact hclose ⟨t, ht, hscans.of_close (Moment.mem_scanCalls hk rfl)⟩
    · exact hconnect (connects_of_call hb ht hn hk)
    · exact (ends_of_call hb ht hn hk).elim hdisconnect hclose
  · rw [hsteps.progress.link?]
    split
    next hcloses =>
      subst hcloses
      exact .inr (.inr (.inr (.inr ⟨i, task, next, post, hsteps⟩)))
    next => exact .inl h
  · left
    rw [Stack.link?, hout.sides]
    exact h

end Link

/-- An accepted request makes one call that counts, the one that its session has prepared. -/
theorem called_of_accepts (hb : b.Proper) {action : PeerAction} (h : b.Accepts c p action) :
    ∃ q prepared, Names p q.native ∧ (b.scene.peer? c p = some q ∨ b.scene.peer? c p = none) ∧
      q.prepare action = .ok prepared ∧
      b.scene.host.Called c (.peer q.native prepared.call) b.after.host := by
  obtain ⟨t, ht, hacc⟩ := h
  obtain ⟨hl, hbears, hserved⟩ := hb.moment ht
  obtain ⟨-, hhub, -, -, hhost, -⟩ := of_moment ht
  obtain ⟨q, prepared, looks, hn, hq, hp, hcalls, hlooks⟩ :=
    t.calls_of_accepted hl hbears hserved hacc
  refine ⟨q, prepared, hn, by rw [Scene.peer?, hhub]; exact hq, hp, ?_⟩
  have hstate : b.after.host =
      (b.scene.host.accept c (.peer q.native prepared.call)).state := by
    rw [hhost, hcalls, Stack.acceptAll_append,
      Stack.acceptAll_of_lookups fun e he => ⟨p, congrArg Prod.snd (hlooks e he)⟩]
    rfl
  rw [hstate]
  exact b.scene.host.called_accept hb.sound.fresh c _

section Connect

variable (hconnect : b.Accepts c p .connect)
include hconnect

theorem not_accepts_disconnect_of_connect : ¬ b.Accepts c p .disconnect := by
  rintro ⟨t', ht', hacc'⟩
  obtain ⟨t, ht, hacc⟩ := hconnect
  cases ht.symm.trans ht'
  cases hacc.symm.trans hacc'

theorem not_closes_of_connect : ¬ b.Closes c := by
  rintro ⟨t', ht', hclose⟩
  obtain ⟨t, ht, hacc⟩ := hconnect
  cases ht.symm.trans ht'
  obtain ⟨answers, hm⟩ := Moment.move_of_accepted hacc
  simp [Moment.scanEvent?, hm] at hclose

theorem verdicts_of_connect : b.verdicts c p = [] ∧ Radio.verdicts c p b.taken = [] := by
  obtain ⟨t, ht, hacc⟩ := hconnect
  obtain ⟨hx, -, ⟨m, rest, hq, hmove⟩, -⟩ := of_moment ht
  obtain ⟨answers, hm⟩ := Moment.move_of_accepted hacc
  rw [hm] at hmove
  refine ⟨by simp [verdicts, hx], ?_⟩
  have htaken : b.taken = [m] := by simp [taken, hx, hq]
  rw [htaken]
  cases m with
  | request ticket r => rfl
  | _ => cases hmove

/-- An accepted connect makes one call that counts. -/
theorem called_of_connect (hb : b.Proper) :
    ∃ n, Names p n ∧ b.scene.host.Called c (.peer n .connect) b.after.host := by
  obtain ⟨q, prepared, hn, -, hp, hcalled⟩ := called_of_accepts hb hconnect
  rw [(Peer.call_of_prepare hp).1.mpr rfl] at hcalled
  exact ⟨q.native, hn, hcalled⟩

/-- An accepted connect opens a link and starts the one task that reports its result. -/
theorem opens_of_connect (hb : b.Proper) {past : List (Moment handles)}
    (htallies : b.scene.Tallies past) :
    b.after.host.link? c p = some ⟨b.scene.host.nextLink⟩ ∧
      ∀ i, b.after.Connects c p i ↔ i = b.scene.host.nextTask ∨ b.scene.Connects c p i := by
  obtain ⟨n, hn, hcalled⟩ := called_of_connect hconnect hb
  obtain ⟨t, ht, hacc⟩ := hconnect
  obtain ⟨-, hhub, -⟩ := of_moment ht
  have hopen : (b.scene.host.flag? c).isSome := by
    rw [(htallies.flagged c).flag, hhub, Option.isSome_map]
    exact Moment.open_of_accepted hacc
  obtain ⟨on, hon⟩ := Option.isSome_iff_exists.mp hopen
  constructor
  · rw [hcalled.link?, if_pos rfl]
    simp [Stack.linkAfter, show n.1 = p from hn, hon]
  · intro i
    have hfresh : b.scene.host.tasks.get? b.scene.host.nextTask = none :=
      hb.sound.fresh.get?_nextTask
    constructor
    · rintro ⟨a, begun, hi, hac, hap⟩
      rw [hcalled.tasks] at hi
      split at hi
      next hnew => exact .inl hnew
      next => exact .inr ⟨a, begun, hi, hac, hap⟩
    · rintro (rfl | ⟨a, begun, hi, hac, hap⟩)
      · exact ⟨⟨c, n.1, n.2, ⟨b.scene.host.nextLink⟩⟩, false,
          by rw [hcalled.tasks, if_pos rfl]; rfl, rfl, hn⟩
      · refine ⟨a, begun, ?_, hac, hap⟩
        rw [hcalled.tasks, if_neg, hi]
        rintro rfl
        rw [hfresh] at hi
        cases hi

end Connect

end Beat

/-- A link of the peer is given up by its session or with its manager, or the adapter gives out that
it was lost. -/
def Beat.Severs (b : Beat) (c : CentralId) (p : PeerId) : Prop :=
  b.Accepts c p .disconnect ∨ b.Closes c ∨ b.lost? = some p

instance {b : Beat} {c : CentralId} {p : PeerId} : Decidable (b.Severs c p) :=
  inferInstanceAs (Decidable (_ ∨ _ ∨ _))

/-- Nothing is under way that tells of the fate of a link of the peer. -/
structure Scene.Settled (s : Scene) (c : CentralId) (p : PeerId) : Prop where
  queue : verdicts c p s.worker.queue = []
  connects : ∀ i, ¬ s.Connects c p i
  disconnects : ∀ i, ¬ s.Disconnects c p i
  learns : ∀ i, ¬ s.Learns c p i

namespace Course

variable (settings : Settings) (platform : Platform) (xs : List Happening)

theorem tallies_of_mem
    (hbound : (of settings platform xs).moments.countP Moment.allocates ≤ UInt64.size) {u : Beat}
    (hu : u ∈ (of settings platform xs).past) :
    (∃ past, u.scene.Tallies past) ∧ ∀ t, u.moment? = some t → t.allocates = true →
      t.hub.centrals.get? t.hub.next = none := by
  obtain ⟨bs, cs, hpast⟩ := List.append_of_mem hu
  refine ⟨⟨_, (tallies_of_past_eq settings platform xs hbound hpast).2.1⟩, fun t ht => ?_⟩
  obtain ⟨moves, hmoves, -⟩ := exists_run settings platform xs
  have hmoments : (Run.of settings moves).past =
      bs.filterMap Beat.moment? ++ t :: cs.filterMap Beat.moment? := by
    rw [hmoves, moments, hpast, List.filterMap_append, List.filterMap_cons_some ht]
  refine Run.free_of_past_eq settings moves ?_ hmoments
  rw [Run.allocations, hmoves]
  exact hbound

section Segment

variable {c : CentralId} {p : PeerId} {bs seg : List Beat} {b : Beat}
  (hpast : (of settings platform xs).past = bs ++ b :: seg)
include hpast

theorem mem_of_past_eq : ∀ u ∈ b :: seg, u ∈ (of settings platform xs).past := by
  intro u hu
  rw [hpast]
  exact List.mem_append_right _ hu

theorem proper_of_mem_seg : ∀ u ∈ seg, u.Proper := fun u hu =>
  proper_of_mem settings platform xs
    (mem_of_past_eq settings platform xs hpast u (List.mem_cons_of_mem b hu))

variable (hconnect : b.Accepts c p .connect)
include hconnect

/-- The verdicts are taken in the order in which they were posted, those before the others that were
under way when the link was asked for. -/
theorem verdicts_eq :
    verdicts c p b.scene.worker.queue ++ (seg.flatMap (·.verdicts c p)).map Prod.snd =
      verdicts c p (seg.flatMap Beat.taken) ++
        verdicts c p (of settings platform xs).scene.worker.queue := by
  obtain ⟨hposts, htakes⟩ := Beat.verdicts_of_connect hconnect
  have hown : verdicts c p b.posted = [] := by rw [← Beat.map_snd_verdicts, hposts, List.map_nil]
  have hposted : (seg.flatMap (·.verdicts c p)).map Prod.snd =
      verdicts c p (seg.flatMap Beat.posted) := by
    rw [List.map_flatMap, verdicts, List.filterMap_flatMap]
    exact List.flatMap_congr fun u _ => u.map_snd_verdicts
  -- The beat of the request itself neither posts nor takes a verdict.
  have hfifo := congrArg (verdicts c p) (queue_eq settings platform xs hpast)
  simpa only [List.flatMap_cons, verdicts_append, hown, htakes, List.nil_append, ← hposted]
    using hfifo

/-- The end of a link is on its way since the link was asked for, or was so before. -/
theorem disconnects_since {v : Beat} (hv : v ∈ seg) {i : Nat} (h : v.scene.Disconnects c p i) :
    b.scene.Disconnects c p i ∨ ∃ u ∈ seg, u.Accepts c p .disconnect ∨ u.Closes c := by
  have hbeat (u : Beat) (hu : u.Proper) (h : u.after.Disconnects c p i) :
      u.scene.Disconnects c p i ∨ u.Accepts c p .disconnect ∨ u.Closes c :=
    (Beat.disconnects_after hu h).imp_right And.right
  rcases descends_to settings platform xs (F := (·.Disconnects c p i)) hpast
    (fun u hu => hbeat u (proper_of_mem_seg settings platform xs hpast u hu)) hv h with hb | hseg
  · refine .inl ((hbeat b (proper_of_past_eq settings platform xs hpast) hb).resolve_right ?_)
    exact not_or.mpr ⟨Beat.not_accepts_disconnect_of_connect hconnect,
      Beat.not_closes_of_connect hconnect⟩
  · exact .inr hseg

/-- A loss that a listener has yet to take in was given out since the link was asked for, or
before. -/
theorem learns_since {v : Beat} (hv : v ∈ seg) {i : Nat} (h : v.scene.Learns c p i) :
    b.scene.Learns c p i ∨ ∃ u ∈ seg, u.lost? = some p := by
  have hbeat (u : Beat) (hu : u.Proper) :
      u.after.Learns c p i → u.scene.Learns c p i ∨ u.lost? = some p := Beat.learns_after hu.sound
  rcases descends_to settings platform xs (F := (·.Learns c p i)) hpast
    (fun u hu => hbeat u (proper_of_mem_seg settings platform xs hpast u hu)) hv h with hb | hseg
  · refine .inl ((hbeat b (proper_of_past_eq settings platform xs hpast) hb).resolve_right ?_)
    obtain ⟨t, ht, -⟩ := hconnect
    simp [Beat.lost?, (Beat.of_moment ht).1]
  · exact .inr hseg

variable (hlast : ∀ u ∈ seg, ¬ u.Accepts c p .connect)
include hlast

/-- A connect on its way is the last one, or was on its way before. -/
theorem connects_since
    (hbound : (of settings platform xs).moments.countP Moment.allocates ≤ UInt64.size)
    {v : Beat} (hv : v ∈ seg) {i : Nat} (h : v.scene.Connects c p i) :
    i = b.scene.host.nextTask ∨ b.scene.Connects c p i := by
  have hbeat : ∀ u ∈ seg, u.after.Connects c p i → u.scene.Connects c p i ∨ False := by
    intro u hu hafter
    have hproper := proper_of_mem_seg settings platform xs hpast u hu
    exact (Beat.connects_after hproper hafter).imp_right fun hnew => hlast u hu hnew.2
  rcases descends_to settings platform xs (F := (·.Connects c p i)) hpast hbeat hv h with
    hb | ⟨_, _, hfalse⟩
  · have htallies := (tallies_of_past_eq settings platform xs hbound hpast).2.1
    have hproper := proper_of_past_eq settings platform xs hpast
    exact ((Beat.opens_of_connect hconnect hproper htallies).2 i).mp hb
  · exact hfalse.elim

/-- The link that was asked for last stays until a session or the manager ends it, or a loss is
taken in. -/
theorem link?_of_connect
    (hbound : (of settings platform xs).moments.countP Moment.allocates ≤ UInt64.size) :
    (of settings platform xs).scene.host.link? c p = some ⟨b.scene.host.nextLink⟩ ∨
      ∃ u ∈ seg, u.Accepts c p .disconnect ∨ u.Closes c ∨ ∃ i, u.Drops c p i := by
  have hmem := mem_of_past_eq settings platform xs hpast
  by_contra hnone
  rw [not_or] at hnone
  obtain ⟨hgone, hends⟩ := hnone
  have hbeat : ∀ u ∈ seg, u.after.host.link? c p ≠ some ⟨b.scene.host.nextLink⟩ →
      u.scene.host.link? c p ≠ some ⟨b.scene.host.nextLink⟩ ∨
        u.Accepts c p .disconnect ∨ u.Closes c ∨ ∃ i, u.Drops c p i := by
    intro u hu hafter
    by_contra hnot
    rw [not_or, not_not] at hnot
    obtain ⟨⟨past, htallies⟩, hfree⟩ :=
      tallies_of_mem settings platform xs hbound (hmem u (List.mem_cons_of_mem b hu))
    rcases Beat.link?_after (proper_of_mem_seg settings platform xs hpast u hu) htallies hfree
      hnot.1 with hkept | hacc | hends
    · exact hafter hkept
    · exact hlast u hu hacc
    · exact hnot.2 hends
  rcases descends settings platform xs
    (F := fun s => s.host.link? c p ≠ some ⟨b.scene.host.nextLink⟩) hpast hbeat hgone with hb | hseg
  · have hbmem := hmem b List.mem_cons_self
    obtain ⟨⟨past, htallies⟩, -⟩ := tallies_of_mem settings platform xs hbound hbmem
    exact hb (Beat.opens_of_connect hconnect (proper_of_mem settings platform xs hbmem) htallies).1
  · exact hends hseg

/-- Where a verdict comes from that is posted after the link was asked for. -/
theorem source_since
    (hbound : (of settings platform xs).moments.countP Moment.allocates ≤ UInt64.size) {i : Nat}
    {r : PeerReport handles} (h : (i, r) ∈ seg.flatMap (·.verdicts c p)) :
    (∃ status, r = .connected status) ∧ (i = b.scene.host.nextTask ∨ b.scene.Connects c p i) ∨
      (∃ reason, r = .disconnected reason) ∧
        (b.scene.Disconnects c p i ∨ b.scene.Learns c p i ∨ ∃ u ∈ seg, u.Severs c p) := by
  obtain ⟨v, hv, hvi⟩ := List.mem_flatMap.mp h
  rcases Beat.source hvi with ⟨hr, hconnects⟩ | ⟨hr, hends | hlearns⟩
  · exact .inl ⟨hr, connects_since settings platform xs hpast hconnect hlast hbound hv hconnects⟩
  · refine .inr ⟨hr, ?_⟩
    rcases disconnects_since settings platform xs hpast hconnect hv hends with
      hbefore | ⟨u, hu, hsevers⟩
    · exact .inl hbefore
    · exact .inr (.inr ⟨u, hu, hsevers.imp_right .inl⟩)
  · refine .inr ⟨hr, ?_⟩
    rcases learns_since settings platform xs hpast hconnect hv hlearns with
      hbefore | ⟨u, hu, hloses⟩
    · exact .inr (.inl hbefore)
    · exact .inr (.inr ⟨u, hu, .inr (.inr hloses)⟩)

/-- A link that is gone was given up or lost since, or its peer was lost before and the listener
took it in since. -/
theorem link?_since
    (hbound : (of settings platform xs).moments.countP Moment.allocates ≤ UInt64.size) :
    (of settings platform xs).scene.host.link? c p = some ⟨b.scene.host.nextLink⟩ ∨
      (∃ u ∈ seg, u.Severs c p) ∨ ∃ u ∈ seg, ∃ i, u.Drops c p i ∧ b.scene.Learns c p i := by
  rcases link?_of_connect settings platform xs hpast hconnect hlast hbound with
    hkept | ⟨u, hu, hacc | hclose | ⟨i, hdrops⟩⟩
  · exact .inl hkept
  · exact .inr (.inl ⟨u, hu, .inl hacc⟩)
  · exact .inr (.inl ⟨u, hu, .inr (.inl hclose)⟩)
  · have hlearns := Beat.learns_of_drops hdrops
    rcases learns_since settings platform xs hpast hconnect hu hlearns with
      hbefore | ⟨v, hv, hloses⟩
    · exact .inr (.inr ⟨u, hu, i, hdrops, hbefore⟩)
    · exact .inr (.inl ⟨v, hv, .inr (.inr hloses)⟩)

end Segment

/-- What decides the link that a session asks for, as long as it does not ask anew. The verdicts
that the worker takes are those that were in the queue and those that are posted since, in this
order. A result is posted by the task that was started for the link or by one that was on its way
already; an end is posted because the session, its manager or the adapter has given it since, or
because it was on its way already. If nothing was under way when the link was asked for, only what
befalls this link decides it. -/
theorem link_verdicts
    (hbound : (of settings platform xs).moments.countP Moment.allocates ≤ UInt64.size)
    {c : CentralId} {p : PeerId} {bs seg : List Beat} {b : Beat}
    (hpast : (of settings platform xs).past = bs ++ b :: seg) (hconnect : b.Accepts c p .connect)
    (hlast : ∀ u ∈ seg, ¬ u.Accepts c p .connect) :
    let k := of settings platform xs
    let own := b.scene.host.nextTask
    let link : LinkId := ⟨b.scene.host.nextLink⟩
    let posted := seg.flatMap (·.verdicts c p)
    let taken := verdicts c p (seg.flatMap Beat.taken)
    (b.after.Connects c p own ∧ b.after.host.link? c p = some link) ∧
    verdicts c p b.scene.worker.queue ++ posted.map Prod.snd =
      taken ++ verdicts c p k.scene.worker.queue ∧
    (∀ i r, (i, r) ∈ posted →
      (∃ status, r = .connected status) ∧ (i = own ∨ b.scene.Connects c p i) ∨
      (∃ reason, r = .disconnected reason) ∧
        (b.scene.Disconnects c p i ∨ b.scene.Learns c p i ∨ ∃ u ∈ seg, u.Severs c p)) ∧
    (∀ u ∈ seg, ∀ q q', u.scene.peer? c p = some q → u.after.peer? c p = some q' →
      q'.state ≠ q.state →
        (∃ r ∈ verdicts c p u.taken, q'.state = r.ruling q.state) ∨ u.Accepts c p .disconnect) ∧
    (k.scene.host.link? c p = some link ∨ (∃ u ∈ seg, u.Severs c p) ∨
      ∃ u ∈ seg, ∃ i, u.Drops c p i ∧ b.scene.Learns c p i) ∧
    (b.scene.Settled c p →
      (∀ r ∈ taken, (∃ status, r = .connected status) ∧ (own, r) ∈ posted ∨
        (∃ reason, r = .disconnected reason) ∧ ∃ u ∈ seg, u.Severs c p) ∧
      (k.scene.host.link? c p = some link ∨ ∃ u ∈ seg, u.Severs c p)) := by
  intro k own link posted taken
  have hb := proper_of_past_eq settings platform xs hpast
  have htallies := (tallies_of_past_eq settings platform xs hbound hpast).2.1
  have hopens := Beat.opens_of_connect hconnect hb htallies
  have hfifo := verdicts_eq settings platform xs hpast hconnect
  have hlink := link?_since settings platform xs hpast hconnect hlast hbound
  have hsource (i : Nat) (r : PeerReport handles) (hir : (i, r) ∈ posted) :=
    source_since settings platform xs hpast hconnect hlast hbound hir
  refine ⟨⟨(hopens.2 own).mpr (.inl rfl), hopens.1⟩, hfifo, hsource, ?_, hlink,
    fun hsettled => ⟨?_, ?_⟩⟩
  · intro u hu q q' hq hq' hne
    rcases Beat.decided (proper_of_mem_seg settings platform xs hpast u hu) hq hq' hne with
      hr | hacc | hacc
    · exact .inl hr
    · exact absurd hacc (hlast u hu)
    · exact .inr hacc
  · intro r hr
    have hmem : r ∈ posted.map Prod.snd := by
      rw [hsettled.queue, List.nil_append] at hfifo
      rw [hfifo]
      exact List.mem_append_left _ hr
    obtain ⟨⟨i, r'⟩, hir, rfl⟩ := List.mem_map.mp hmem
    rcases hsource i r' hir with ⟨hstatus, hi | hi⟩ | ⟨hreason, hi | hi | hsevers⟩
    · exact .inl ⟨hstatus, hi ▸ hir⟩
    · exact absurd hi (hsettled.connects i)
    · exact absurd hi (hsettled.disconnects i)
    · exact absurd hi (hsettled.learns i)
    · exact .inr ⟨hreason, hsevers⟩
  · rcases hlink with hkept | hsevers | ⟨u, -, i, -, hi⟩
    · exact .inl hkept
    · exact .inr hsevers
    · exact absurd hi (hsettled.learns i)

def lamp : DeviceId := ⟨"d1"⟩

/-- A radio with one device, which holds up every connect. -/
def slow : Platform :=
  ⟨1, .poweredOn, Table.insert ∅ lamp ⟨some ⟨none, none, none, [], ∅, ∅⟩, [], ∅⟩, ∅, [.connect]⟩

/-- A session asks for a link, gives it up before the radio has answered, and asks for another. By
then the adapter has given out that the first was lost. -/
def reconnect : List Happening :=
  [.work, .ask 0 .allocate, .work, .step 0, .step 0, .work, .adapter (.discovered lamp), .step 0,
    .work, .ask 1 (.act ⟨1⟩ lamp.peer.text .connect), .work, .step 1,
    .ask 2 (.act ⟨1⟩ lamp.peer.text .disconnect), .work, .step 2, .step 2, .work,
    .adapter (.disconnected lamp), .ask 3 (.act ⟨1⟩ lamp.peer.text .connect)]

/-- The radio answers the first request for a link, and then the listener hears of the loss. -/
def lateAnswers : List Happening := [.goOn 1, .step 1, .work, .step 0, .work]

/-- The answer to the first request is taken for that to the second, and the loss of the first link
ends the second. -/
theorem link_verdicts_crossed :
    let k := of .default slow reconnect
    let b : Beat := ⟨k.scene, .work⟩
    let seg := b.after.beats lateAnswers
    let k' := of .default slow (reconnect ++ .work :: lateAnswers)
    k'.moments.countP Moment.allocates ≤ UInt64.size ∧
    k'.past = k.past ++ b :: seg ∧ b.Accepts ⟨1⟩ lamp.peer .connect ∧
    (∀ u ∈ seg, ¬ u.Accepts ⟨1⟩ lamp.peer .connect) ∧ (∀ u ∈ seg, ¬ u.Severs ⟨1⟩ lamp.peer) ∧
    k.scene.host.nextTask = 3 ∧ (seg.flatMap (·.verdicts ⟨1⟩ lamp.peer)).map Prod.fst = [1, 0] ∧
    seg.map (fun u => (u.after.peer? ⟨1⟩ lamp.peer).map Peer.state) =
      [some .connecting, some .connecting, some .connected, some .connected, some .disconnected] ∧
    k'.scene.host.link? ⟨1⟩ lamp.peer = none ∧
    ∃ i, b.scene.Learns ⟨1⟩ lamp.peer i := by
  intro k b seg k'
  have hpast : k'.past = k.past ++ b :: seg :=
    past_append_cons .default slow reconnect .work lateAnswers
  have hbound : k'.moments.countP Moment.allocates ≤ UInt64.size := by decide +kernel
  have hconnect : b.Accepts ⟨1⟩ lamp.peer .connect := by decide +kernel
  have hlast : ∀ u ∈ seg, ¬ u.Accepts ⟨1⟩ lamp.peer .connect := by decide +kernel
  have hsevers : ∀ u ∈ seg, ¬ u.Severs ⟨1⟩ lamp.peer := by decide +kernel
  have hgone : k'.scene.host.link? ⟨1⟩ lamp.peer = none := by decide +kernel
  refine ⟨hbound, hpast, hconnect, hlast, hsevers, by decide +kernel, by decide +kernel,
    by decide +kernel, hgone, ?_⟩
  obtain ⟨-, -, -, -, hlink, -⟩ := link_verdicts .default slow
    (reconnect ++ .work :: lateAnswers) hbound hpast hconnect hlast
  rcases hlink with hkept | ⟨u, hu, hends⟩ | ⟨u, -, i, -, hlearns⟩
  · rw [hgone] at hkept
    cases hkept
  · exact absurd hends (hsevers u hu)
  · exact ⟨i, hlearns⟩

end Course

end Radio

end GattHub
