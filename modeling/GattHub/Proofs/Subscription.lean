import GattHub.Proofs.Link

/-! Which values a peer passes on of itself. A subscription is a matter of the link alone: it is
what the last completion made of it that was successful and awaited. -/

namespace GattHub

variable {H : Handles}

/-- The values of these characteristics are passed on. -/
def Listening (x : Option (Peer H)) (uuid : Uuid) : Prop := ∃ q, x = some q ∧ uuid ∈ q.subscriptions

/-- Whether a report turns the notifications of these characteristics on or off. It has to be
successful, and it has to be awaited. -/
def Peer.switches? (q : Peer H) (uuid : Uuid) : PeerReport H → Option Bool
  | .notificationStateChanged status uuid' enabled =>
    if uuid' = uuid ∧ status = .ok ∧ .notifyState uuid ∈ q.pending then some enabled else none
  | _ => none

def Moment.switched? (t : Moment H) (c : CentralId) (p : PeerId) (uuid : Uuid) : Option Bool :=
  match t.move with
  | .report c' (.peer p' report) =>
    if c' = c ∧ p' = p then (t.before c p).bind (·.switches? uuid report) else none
  | _ => none

/-- The notifications of these characteristics were last turned on, on the link that is open. -/
def Subscribed (c : CentralId) (p : PeerId) (past : List (Moment H)) (uuid : Uuid) : Prop :=
  ∃ ts link, past = ts ++ link ∧ Link c p link ∧
    (link.filterMap (·.switched? c p uuid)).getLast? = some true

namespace Peer

variable {uuid : Uuid}

theorem listening_some {q : Peer H} : Listening (some q) uuid ↔ uuid ∈ q.subscriptions := by
  simp [Listening]

theorem mem_setSubscription {q : Peer H} {uuid' : Uuid} {enabled : Bool} :
    uuid ∈ (q.setSubscription uuid' enabled).subscriptions ↔
      if uuid' = uuid then enabled = true else uuid ∈ q.subscriptions := by
  by_cases h : uuid' = uuid
  · cases enabled <;> simp [setSubscription, h]
  · cases enabled <;> simp [setSubscription, h, Ne.symm h]

theorem Reaction.subscriptions_eq {q q' : Peer H} {report : PeerReport H} {ns : List Notice}
    (h : q.Reaction report q' ns)
    (hreport : ∀ status uuid enabled, report ≠ .notificationStateChanged status uuid enabled)
    (hup : q'.state ≠ .disconnected) : q'.subscriptions = q.subscriptions := by
  cases h with
  | ignored | established | passed | forwarded => rfl
  | failed | lost => exact absurd rfl hup
  | completed _ op _ _ _ _ _ _ hop _ hsub =>
    rcases hsub with hsub | ⟨uuid, rfl⟩
    · exact hsub
    · cases report with
      | notificationStateChanged status uuid enabled => exact absurd rfl (hreport status uuid enabled)
      | _ => cases hop

/-- Only a completion that switches the notifications of a characteristic changes whether its
values are passed on, as long as the link lasts. -/
theorem mem_subscriptions_receive (settings : Settings) (ids : IdSource) (q : Peer H)
    (report : PeerReport H)
    (hup : (q.receive settings ids report).state.1.state ≠ .disconnected) :
    uuid ∈ (q.receive settings ids report).state.1.subscriptions ↔
      q.switches? uuid report = some true ∨
        q.switches? uuid report = none ∧ uuid ∈ q.subscriptions := by
  -- Only reports of this one kind can switch; for the others the reaction tells that the set stays.
  by_cases hreport : ∃ status uuid' enabled, report = .notificationStateChanged status uuid' enabled
  · obtain ⟨status, uuid', enabled, rfl⟩ := hreport
    simp only [receive, complete, switches?]
    by_cases hmem : Pending.notifyState uuid' ∈ q.pending
    · obtain ⟨pre, post, -, -, htake⟩ := Pending.take?_of_mem hmem
      rw [htake]
      by_cases hok : status = .ok
      · by_cases hu : uuid' = uuid
        · subst hu
          simp [hok, mem_setSubscription, hmem]
        · simp [hok, mem_setSubscription, hu]
      · simp [hok]
    · have hno : ¬ (uuid' = uuid ∧ status = .ok ∧ Pending.notifyState uuid ∈ q.pending) := by
        rintro ⟨rfl, -, hawaited⟩
        exact hmem hawaited
      rw [Pending.take?_eq_none_iff_notMem.mpr hmem]
      simp [hno, unmatched]
  · have hnone : q.switches? uuid report = none := by
      cases report with
      | notificationStateChanged status uuid' enabled => exact absurd ⟨_, _, _, rfl⟩ hreport
      | _ => rfl
    rw [(q.reaction_receive settings ids report).subscriptions_eq
      (fun status uuid' enabled h => hreport ⟨status, uuid', enabled, h⟩) hup, hnone]
    simp

end Peer

namespace Moment

variable {t : Moment H} {c : CentralId} {p : PeerId} {uuid : Uuid}

theorem switched?_of_report {q : Peer H} {report : PeerReport H}
    (hm : t.move = .report c (.peer p report)) (hq : t.before c p = some q) :
    t.switched? c p uuid = q.switches? uuid report := by
  simp [switched?, hm, hq]

theorem switched?_eq_some {enabled : Bool} (h : t.switched? c p uuid = some enabled) :
    ∃ q, t.before c p = some q ∧ .notifyState uuid ∈ q.pending ∧
      t.move = .report c (.peer p (.notificationStateChanged .ok uuid enabled)) := by
  simp only [switched?] at h
  split at h
  next c' p' report hm =>
    split at h
    next hcp =>
      obtain ⟨rfl, rfl⟩ := hcp
      obtain ⟨q, hq, h⟩ := Option.bind_eq_some_iff.mp h
      cases report with
      | notificationStateChanged status uuid' enabled' =>
        simp only [Peer.switches?, Option.ite_none_right_eq_some, Option.some.injEq] at h
        obtain ⟨⟨rfl, rfl, hmem⟩, rfl⟩ := h
        exact ⟨q, hq, hmem, hm⟩
      | _ => cases h
    next => cases h
  next => cases h

theorem Fate.subscriptions_eq {x y : Option (Peer H)} (h : t.Fate c p x y)
    (hno : ∀ q report, x = some q → t.move ≠ .report c (.peer p report)) (hy : Engaged y) :
    Listening y uuid ↔ Listening x uuid := by
  cases h with
  | kept => exact Iff.rfl
  | tracked => exact absurd rfl (Peer.engaged_some.mp hy)
  | accepted _ q q' action hq _ _ haccepts =>
    have hsub : q'.subscriptions = q.subscriptions := by cases haccepts <;> rfl
    rcases hq with rfl | ⟨rfl, native, rfl⟩
    · rw [Peer.listening_some, Peer.listening_some, hsub]
    · rw [Peer.listening_some, hsub]
      simp [Listening, Peer.new]
  | reported q _ report hm => exact absurd hm (hno q report rfl)
  | observed q record =>
    obtain ⟨rssi, hrssi⟩ := q.observe_eq record.rssi
    rw [hrssi, Peer.listening_some, Peer.listening_some]
  | forgotten | closed | replaced =>
    obtain ⟨q, hq, -⟩ := hy
    cases hq

theorem listening_later (hl : t.hub.Labelled) (hlater : Engaged (t.later c p)) :
    Listening (t.later c p) uuid ↔ t.switched? c p uuid = some true ∨
      t.switched? c p uuid = none ∧ Listening (t.before c p) uuid := by
  by_cases hreport : ∃ q report, t.before c p = some q ∧ t.move = .report c (.peer p report)
  · obtain ⟨q, report, hq, hm⟩ := hreport
    rw [(t.reported_spec hm hq).1, Peer.engaged_some] at hlater
    rw [(t.reported_spec hm hq).1, switched?_of_report hm hq, hq, Peer.listening_some,
      Peer.listening_some]
    exact q.mem_subscriptions_receive _ _ report hlater
  · have hnone : t.switched? c p uuid = none := by
      cases hs : t.switched? c p uuid with
      | none => rfl
      | some enabled =>
        obtain ⟨q, hq, -, hm⟩ := switched?_eq_some hs
        exact absurd ⟨q, _, hq, hm⟩ hreport
    rw [(t.fate hl c p).subscriptions_eq (fun q report hq hm => hreport ⟨q, report, hq, hm⟩) hlater,
      hnone]
    simp

theorem not_listening_of_connect (hl : t.hub.Labelled) (hc : t.hub.Consistent)
    (hconnect : t.accepted? c p = some .connect) (hlater : Engaged (t.later c p)) :
    ¬ Listening (t.before c p) uuid := by
  rintro ⟨q, hq, hmem⟩
  obtain ⟨q', hq', -⟩ := hlater
  have hfate := t.fate hl c p
  rw [hq'] at hfate
  have hdown : q.state = .disconnected := by
    by_contra hup
    exact (hfate.of_connect hconnect).1 ⟨q, hq, hup⟩
  rw [((hc c p q hq).disconnected hdown).2] at hmem
  cases hmem

end Moment

namespace Run

variable (settings : Settings) (ms : List (Move H)) {c : CentralId} {p : PeerId}

/-- On a link, a subscription is what the last switch on this link made of it. -/
theorem listening_iff {ts link : List (Moment H)} (hpast : (of settings ms).past = ts ++ link)
    (hlink : Link c p link) (uuid : Uuid) :
    Listening ((of settings ms).hub.bind (·.peer? c p)) uuid ↔
      (link.filterMap (·.switched? c p uuid)).getLast? = some true := by
  revert ts link
  refine of_induction (P := fun r => ∀ {ts link}, r.past = ts ++ link → Link c p link →
    (Listening (r.hub.bind (·.peer? c p)) uuid ↔
      (link.filterMap (·.switched? c p uuid)).getLast? = some true)) settings ?_ ?_ ms
  · intro ts link hpast hlink
    obtain ⟨t, us, rfl, -⟩ := hlink.opened
    simp [start] at hpast
  · intro ms h m hr ih ts link hpast hlink
    have hl := (labelled settings ms).2 h hr
    cases link using List.reverseRecOn with
    | nil =>
      obtain ⟨t, us, heq, -⟩ := hlink.opened
      cases heq
    | append_singleton link t =>
      rw [← List.append_assoc] at hpast
      obtain ⟨hprior, ht⟩ := List.append_inj' hpast rfl
      cases ht
      have hlater : Engaged ((Moment.mk h m).later c p) := hlink.engaged _ (by simp)
      -- Either the link began with this moment, and nothing was subscribed, or it was open before.
      have hbefore : Listening ((Moment.mk h m).before c p) uuid ↔
          (link.filterMap (·.switched? c p uuid)).getLast? = some true := by
        rcases hlink.of_append_singleton with ⟨hconnect, rfl⟩ | hlink
        · simpa using Moment.not_listening_of_connect hl ((consistent settings ms).2 h hr) hconnect
            hlater
        · have hih := ih hprior hlink
          rw [hr] at hih
          exact hih
      refine (Moment.listening_later hl hlater).trans ?_
      rw [hbefore, List.filterMap_append]
      cases hs : (Moment.mk h m).switched? c p uuid with
      | none => simp [hs]
      | some enabled => simp [hs]

/-- A connected peer passes on the values of just those characteristics that are subscribed. -/
theorem subscribed_iff {h : Hub H} (hr : (of settings ms).hub = some h) {q : Peer H}
    (hq : h.peer? c p = some q) (hup : q.state ≠ .disconnected) (uuid : Uuid) :
    Subscribed c p (of settings ms).past uuid ↔ uuid ∈ q.subscriptions := by
  have hpeer : (of settings ms).hub.bind (·.peer? c p) = some q := by rw [hr]; exact hq
  constructor
  · rintro ⟨ts, link, hpast, hlink, hlast⟩
    have hlisten := (listening_iff settings ms hpast hlink uuid).mpr hlast
    rwa [hpeer, Peer.listening_some] at hlisten
  · intro hmem
    obtain ⟨ts, link, hpast, hlink⟩ := (linked_iff settings ms c p).mpr ⟨q, hpeer, hup⟩
    refine ⟨ts, link, hpast, hlink, (listening_iff settings ms hpast hlink uuid).mp ?_⟩
    rwa [hpeer, Peer.listening_some]

theorem settings_eq : (∀ t ∈ (of settings ms).past, t.hub.settings = settings) ∧
    ∀ h, (of settings ms).hub = some h → h.settings = settings :=
  forall_hub (P := fun h : Hub H => h.settings = settings) settings rfl
    (fun t _ ht ha => (t.manages ha).settings_eq.trans ht) ms

end Run

end GattHub
