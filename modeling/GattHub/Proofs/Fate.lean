import GattHub.Proofs.Tracking
import GattHub.Proofs.Run

/-! What a moment makes of one tracked peer, and which notices about the peer go out. All that a
run does to a peer is told by these few cases. -/

namespace GattHub

variable {H : Handles}

namespace Moment

def before (t : Moment H) (c : CentralId) (p : PeerId) : Option (Peer H) := t.hub.peer? c p

def later (t : Moment H) (c : CentralId) (p : PeerId) : Option (Peer H) :=
  t.after.bind (·.peer? c p)

/-- The operation that is left pending by a request accepted in this moment. -/
def queued? (t : Moment H) (c : CentralId) (p : PeerId) : Option Pending :=
  (t.accepted? c p).bind fun action => (t.before c p).bind (·.queued? action)

theorem queued?_of_none {t : Moment H} {c : CentralId} {p : PeerId}
    (h : t.accepted? c p = none) : t.queued? c p = none := by
  simp [queued?, h]

/-- What becomes of a peer in a moment: from how it was tracked before to how it is after. -/
inductive Fate (t : Moment H) (c : CentralId) (p : PeerId) :
    Option (Peer H) → Option (Peer H) → Prop
  | kept (x : Option (Peer H)) : Silent c p t.notices → t.accepted? c p = none → Fate t c p x x
  | tracked (native : H.Peer) : Silent c p t.notices → t.accepted? c p = none →
      Fate t c p none (some (.new c p native))
  | accepted (x : Option (Peer H)) (q q' : Peer H) (action : PeerAction) :
      x = some q ∨ x = none ∧ (∃ native, q = .new c p native) → t.notices = [] →
      t.accepted? c p = some action → q.Accepts action q' → Fate t c p x (some q')
  | reported (q q' : Peer H) (report : PeerReport H) : t.move = .report c (.peer p report) →
      q' = (q.receive t.hub.settings t.hub.ids report).state.1 →
      q.Reaction report q' t.notices → Fate t c p (some q) (some q')
  | observed (q : Peer H) (record : Advertisement) : t.move = .report c (.advertised record) →
      record.peer = p → Silent c p t.notices → Fate t c p (some q) (some (q.observe record.rssi))
  | forgotten (q : Peer H) : q.state = .disconnected → t.notices = [] →
      t.accepted? c p = none → Fate t c p (some q) none
  | closed (q : Peer H) (answers : Answers H) (pre post : List Notice) :
      t.move = .request answers (.destroy c) ∨ t.move = .shutdown answers →
      t.notices = pre ++ q.closingNotices ++ post → Silent c p pre → Silent c p post →
      Fate t c p (some q) none
  | replaced (q : Peer H) : t.allocates = true → t.hub.next = c → t.notices = [] →
      Fate t c p (some q) none

end Moment

namespace Moment

variable {t : Moment H} {c : CentralId} {p : PeerId}

theorem accepted?_eq_none_of_report {c' : CentralId} {r : Report H} (hm : t.move = .report c' r) :
    t.accepted? c p = none := by
  simp [accepted?, hm]

theorem fate_act (h : Hub H) (hl : h.Labelled) (answers : Answers H) (c₀ : CentralId)
    (p₀ : PeerId) (action : PeerAction) (c : CentralId) (p : PeerId) :
    let t : Moment H := ⟨h, .request answers (.act c₀ p₀ action)⟩
    t.Fate c p (t.before c p) (t.later c p) := by
  intro t
  set r := h.withCentral c₀ (·.withPeer answers p₀ (·.perform answers action)) with hr
  obtain ⟨hstate, hresult, hnotices⟩ := Hub.noting_spec c₀ p₀ (Hub.reply r fun _ => .done)
  have hlater : t.later c p = r.state.peer? c p := congrArg (Hub.peer? · c p) hstate
  have hns : t.notices = Effect.notices r.effects := hnotices
  have hacc : t.accepted? c p = if c₀ = c ∧ p₀ = p ∧ r.result.isOk then some action else none := by
    rw [← Hub.isOk_reply r fun _ => .done, ← hresult]
    rfl
  rw [hlater, show t.before c p = h.peer? c p from rfl]
  have hcases := Hub.withPeer_cases hl answers c₀ p₀ (·.perform answers action)
  rw [← hr] at hcases
  rcases hcases with ⟨hno, hquiet, hsame⟩ | ⟨q, hq, hres, hn, hsame⟩
  · rw [hsame]
    exact .kept _ (by rw [hns, hquiet]; exact .nil c p) (by simp [hacc, hno])
  have hquiet : t.notices = [] := by rw [hns, hn, q.notices_perform]
  rw [hsame]
  by_cases hcp : c = c₀ ∧ p = p₀
  · obtain ⟨rfl, rfl⟩ := hcp
    rw [if_pos ⟨rfl, rfl⟩]
    rcases q.perform_cases answers action with ⟨hkept, hno⟩ | ⟨hyes, haccepts⟩
    · have hnone : t.accepted? c p = none := by simp [hacc, hres, hno]
      rw [hkept]
      rcases hq with hq | ⟨hq, native, rfl⟩
      · rw [hq]
        exact .kept _ (hquiet ▸ .nil c p) hnone
      · rw [hq]
        exact .tracked native (hquiet ▸ .nil c p) hnone
    · exact .accepted _ q _ action hq hquiet (by simp [hacc, hres, hyes, Except.isOk,
        Except.toBool]) haccepts
  · rw [if_neg hcp]
    refine .kept _ (hquiet ▸ .nil c p) ?_
    rw [hacc, if_neg fun h => hcp ⟨h.1.symm, h.2.1.symm⟩]

theorem accepted?_eq_none_of_request {answers : Answers H} {r : Request PeerId}
    (hm : t.move = .request answers r) (hr : ∀ c p action, r ≠ .act c p action) :
    t.accepted? c p = none := by
  cases r with
  | act c' p' action => exact absurd rfl (hr c' p' action)
  | _ => simp [accepted?, hm]

theorem Fate.of_eq (hlater : t.later c p = t.before c p) (hns : Silent c p t.notices)
    (hacc : t.accepted? c p = none) : t.Fate c p (t.before c p) (t.later c p) := by
  rw [hlater]
  exact .kept _ hns hacc

theorem fate_attMtu (h : Hub H) (hl : h.Labelled) (answers : Answers H) (c₀ : CentralId)
    (p₀ : PeerId) (c : CentralId) (p : PeerId) :
    let t : Moment H := ⟨h, .request answers (.attMtu c₀ p₀)⟩
    t.Fate c p (t.before c p) (t.later c p) := by
  intro t
  have hacc : t.accepted? c p = none := accepted?_eq_none_of_request rfl nofun
  rcases Hub.withPeer_cases hl answers c₀ p₀ (·.attMtu answers) with
    ⟨-, hquiet, hsame⟩ | ⟨q, hq, -, hn, hsame⟩
  · have hns : t.notices = [] := hquiet
    exact .of_eq (hsame c p) (hns ▸ .nil c p) hacc
  obtain ⟨hstate, hns⟩ := q.attMtu_spec answers
  have hquiet : t.notices = [] := hn.trans hns
  have hlater : t.later c p = if c = c₀ ∧ p = p₀ then some q else h.peer? c p := by
    rw [← hstate]
    exact hsame c p
  by_cases hcp : c = c₀ ∧ p = p₀
  · obtain ⟨rfl, rfl⟩ := hcp
    rw [if_pos ⟨rfl, rfl⟩] at hlater
    rcases hq with hq | ⟨hq, native, rfl⟩
    · exact .of_eq (hlater.trans hq.symm) (hquiet ▸ .nil c p) hacc
    · rw [hlater, show t.before c p = none from hq]
      exact .tracked native (hquiet ▸ .nil c p) hacc
  · rw [if_neg hcp] at hlater
    exact .of_eq hlater (hquiet ▸ .nil c p) hacc

theorem fate_withCentral (h : Hub H) {answers : Answers H} {r : Request PeerId} {c₀ : CentralId}
    {f : Central H → Response H (Central H) Unit}
    (hr : h.request answers r = Hub.reply (h.withCentral c₀ f) fun _ => .done)
    (hact : ∀ c p action, r ≠ .act c p action) (hpeers : ∀ m, (f m).state.peers = m.peers)
    (hns : ∀ m, Effect.notices (f m).effects = []) (c : CentralId) (p : PeerId) :
    let t : Moment H := ⟨h, .request answers r⟩
    t.Fate c p (t.before c p) (t.later c p) := by
  intro t
  have hafter : t.later c p = (h.withCentral c₀ f).state.peer? c p := by
    simp [later, after, step, t, hr, Hub.reply]
  have hnotices : t.notices = Effect.notices (h.withCentral c₀ f).effects := by
    simp [notices, effects, step, t, hr, Hub.reply]
  rcases h.withCentral_cases c₀ f with ⟨-, hs, -, he⟩ | ⟨m, hm, hs, -, he⟩
  · refine .of_eq (by rw [hafter, hs]; rfl) ?_ (accepted?_eq_none_of_request rfl hact)
    rw [hnotices, he]
    exact .nil c p
  · refine .of_eq ?_ ?_ (accepted?_eq_none_of_request rfl hact)
    · rw [hafter, hs]
      exact Hub.peer?_insert_self hm (fun i => by rw [hpeers]) c p
    · rw [hnotices, he, hns]
      exact .nil c p

theorem fate_forget (h : Hub H) (answers : Answers H) (c₀ : CentralId) (p₀ : PeerId)
    (c : CentralId) (p : PeerId) :
    let t : Moment H := ⟨h, .request answers (.forget c₀ p₀)⟩
    t.Fate c p (t.before c p) (t.later c p) := by
  intro t
  have hacc : t.accepted? c p = none := accepted?_eq_none_of_request rfl nofun
  obtain ⟨hstate, -, hnoting⟩ := Hub.noting_spec c₀ p₀
    (Hub.reply (h.withCentral c₀ (·.forget p₀)) fun _ => .done)
  have hlater : t.later c p = (h.withCentral c₀ (·.forget p₀)).state.peer? c p :=
    congrArg (Hub.peer? · c p) hstate
  have hns : t.notices = Effect.notices (h.withCentral c₀ (·.forget p₀)).effects := hnoting
  rcases h.withCentral_cases c₀ (·.forget p₀) with ⟨-, hs, -, he⟩ | ⟨m, hm, hs, -, he⟩
  · refine .of_eq (by rw [hlater, hs]; rfl) ?_ hacc
    rw [hns, he]
    exact .nil c p
  have hquiet : t.notices = [] := by
    rw [hns, he]
    simp only [Central.forget]
    split
    · rfl
    · split <;> rfl
  have hkept (hsame : (m.forget p₀).state = m) : t.Fate c p (t.before c p) (t.later c p) := by
    refine .of_eq ?_ (hquiet ▸ .nil c p) hacc
    rw [hlater, hs, hsame]
    exact Hub.peer?_insert_self hm (fun _ => rfl) c p
  cases hq : m.peers.get? p₀ with
  | none => exact hkept (by simp [Central.forget, Central.peer, hq])
  | some q =>
    by_cases hdown : q.state = .disconnected
    · have hforget : (m.forget p₀).state = { m with peers := m.peers.erase p₀ } := by
        simp [Central.forget, Central.peer, hq, hdown]
      rw [hs, hforget, Hub.peer?_of_insert rfl] at hlater
      have hbefore (i : PeerId) : h.peer? c₀ i = m.peers.get? i := by simp [Hub.peer?, hm]
      by_cases hcp : c = c₀ ∧ p = p₀
      · obtain ⟨rfl, rfl⟩ := hcp
        rw [hlater, show t.before c p = some q from (hbefore p).trans hq]
        simpa [Table.get?_erase] using Fate.forgotten q hdown hquiet hacc
      · refine .of_eq (hlater.trans ?_) (hquiet ▸ .nil c p) hacc
        split
        next hc =>
          subst hc
          have hp : p ≠ p₀ := fun hp => hcp ⟨rfl, hp⟩
          rw [Table.get?_erase, if_neg hp]
          exact (hbefore p).symm
        next => rfl
    · exact hkept (by simp [Central.forget, Central.peer, hq, hdown])

theorem fate_allocate (h : Hub H) (answers : Answers H) (c : CentralId) (p : PeerId) :
    let t : Moment H := ⟨h, .request answers .allocate⟩
    t.Fate c p (t.before c p) (t.later c p) := by
  intro t
  have hacc : t.accepted? c p = none := accepted?_eq_none_of_request rfl nofun
  have hlater : t.later c p = (h.allocate answers).state.peer? c p := rfl
  cases hr : answers.refusal h.next .openCentral with
  | some r =>
    have hallocate : h.allocate answers =
        ⟨h, .error (.refused r), [.call h.next .openCentral (some r)]⟩ := by simp [Hub.allocate, hr]
    refine .of_eq (by rw [hlater, hallocate]; rfl) ?_ hacc
    simp [t, notices, effects, step, Hub.request, Hub.reply, hallocate, Silent]
  | none =>
    have hallocate : (h.allocate answers).state =
        { h with centrals := h.centrals.insert h.next (.new h.next), next := ⟨h.next.raw + 1⟩ } ∧
        (h.allocate answers).result = .ok h.next ∧
        Effect.notices (h.allocate answers).effects = [] := by simp [Hub.allocate, hr]
    obtain ⟨hstate, hresult, hns⟩ := hallocate
    have hquiet : t.notices = [] := hns
    rw [hstate, Hub.peer?_of_insert rfl] at hlater
    by_cases hc : c = h.next
    · rw [if_pos hc, show (Central.new h.next : Central H).peers.get? p = none from rfl] at hlater
      cases hq : t.before c p with
      | none =>
        rw [hlater]
        exact .kept none (hquiet ▸ .nil c p) hacc
      | some q =>
        rw [hlater]
        refine .replaced q ?_ hc.symm hquiet
        simp [t, allocates, hresult, Except.isOk, Except.toBool]
    · rw [if_neg hc] at hlater
      exact .of_eq hlater (hquiet ▸ .nil c p) hacc

theorem fate_destroy (h : Hub H) (hl : h.Labelled) (answers : Answers H) (c₀ : CentralId)
    (c : CentralId) (p : PeerId) :
    let t : Moment H := ⟨h, .request answers (.destroy c₀)⟩
    t.Fate c p (t.before c p) (t.later c p) := by
  intro t
  have hacc : t.accepted? c p = none := accepted?_eq_none_of_request rfl nofun
  have hns : t.notices = Effect.notices (h.destroy answers c₀).effects := rfl
  have hlater : t.later c p = (h.destroy answers c₀).state.peer? c p := rfl
  by_cases hc : c₀ = c
  · subst hc
    have hgone : t.later c₀ p = none := by
      rw [hlater, Hub.destroy, Hub.destroyIn, Hub.central]
      cases hm : h.centrals.get? c₀ with
      | none => simp [Hub.peer?, hm]
      | some m => simp [Hub.peer?, Table.get?_erase]
    cases hq : t.before c₀ p with
    | none =>
      rw [hgone]
      exact .kept none (hns ▸ Hub.silent_destroy hl answers fun _ => hq) hacc
    | some q =>
      rw [hgone]
      obtain ⟨pre, post, hsplit, hpre, hpost⟩ := Hub.notices_destroy_split hl answers hq
      exact .closed q answers pre post (.inl rfl) (hns.trans hsplit) hpre hpost
  · refine .of_eq ?_ (hns ▸ Hub.silent_destroy hl answers fun h => absurd h hc) hacc
    rw [hlater, Hub.peer?, Hub.destroy, Hub.get?_destroyIn _ _ _ (Ne.symm hc)]
    rfl

theorem fate_shutdown (h : Hub H) (hl : h.Labelled) (answers : Answers H) (c : CentralId)
    (p : PeerId) :
    let t : Moment H := ⟨h, .shutdown answers⟩
    t.Fate c p (t.before c p) (t.later c p) := by
  intro t
  have hns : t.notices = Effect.notices (h.shutdown answers).effects := rfl
  rw [show t.later c p = none from rfl]
  cases hq : t.before c p with
  | none =>
    refine .kept none ?_ rfl
    rw [hns, Hub.shutdown_effects]
    exact Hub.silent_flatMap_destroy hl answers _ fun _ => hq
  | some q =>
    obtain ⟨pre, post, hsplit, hpre, hpost⟩ := Hub.notices_shutdown_split hl answers hq
    exact .closed q answers pre post (.inr rfl) (hns.trans hsplit) hpre hpost

theorem reported_spec {q : Peer H} {report : PeerReport H}
    (hm : t.move = .report c (.peer p report)) (hq : t.before c p = some q) :
    t.later c p = some (q.receive t.hub.settings t.hub.ids report).state.1 ∧
      t.notices = Effect.notices (q.receive t.hub.settings t.hub.ids report).effects := by
  obtain ⟨h, m⟩ := t
  cases hm
  obtain ⟨m, hm, hq⟩ := Hub.peer?_eq_some.mp hq
  constructor
  · simp [later, after, step, Hub.receive, hm, Central.receive, Central.peerReported, hq,
      Hub.peer?, Table.get?_insert]
  · simp [notices, effects, step, Hub.receive, hm, Central.receive, Central.peerReported, hq]

section Report

variable {h : Hub H} {c₀ : CentralId} {m : Central H} {r : Report H}

/-- A report to a live manager changes only what that manager tracks. -/
theorem fate_of_receive (hm : h.centrals.get? c₀ = some m)
    (hother : c ≠ c₀ → Silent c p (Moment.mk h (.report c₀ r)).notices)
    (hsame : c = c₀ → (Moment.mk h (.report c₀ r)).Fate c p (m.peers.get? p)
      ((m.receive h.settings h.ids r).state.1.peers.get? p)) :
    (Moment.mk h (.report c₀ r)).Fate c p ((Moment.mk h (.report c₀ r)).before c p)
      ((Moment.mk h (.report c₀ r)).later c p) := by
  have hlater : (Moment.mk h (.report c₀ r)).later c p =
      if c = c₀ then (m.receive h.settings h.ids r).state.1.peers.get? p else h.peer? c p := by
    have hstate : (h.receive c₀ r).state.centrals =
        h.centrals.insert c₀ (m.receive h.settings h.ids r).state.1 := by simp [Hub.receive, hm]
    exact Hub.peer?_of_insert hstate c p
  by_cases hc : c = c₀
  · have hbefore : (Moment.mk h (.report c₀ r)).before c p = m.peers.get? p := by
      rw [hc]
      exact Hub.peer?_of_get? hm p
    rw [hlater, if_pos hc, hbefore]
    exact hsame hc
  · rw [hlater, if_neg hc]
    exact .kept _ (hother hc) (accepted?_eq_none_of_report rfl)

theorem notices_receive (hm : h.centrals.get? c₀ = some m) :
    (Moment.mk h (.report c₀ r)).notices =
      Effect.notices (m.receive h.settings h.ids r).effects := by
  simp [notices, effects, step, Hub.receive, hm]

theorem fate_advertised (hm : h.centrals.get? c₀ = some m) (record : Advertisement) (c : CentralId)
    (p : PeerId) :
    let t : Moment H := ⟨h, .report c₀ (.advertised record)⟩
    t.Fate c p (t.before c p) (t.later c p) := by
  intro t
  have hacc : t.accepted? c p = none := accepted?_eq_none_of_report rfl
  have hquiet : Silent c p t.notices := by
    rw [notices_receive hm]
    simp only [Central.receive, Central.advertised]
    split
    · simp [Silent]
    · split <;> simp [Silent]
  have hpeers : (m.receive h.settings h.ids (.advertised record)).state.1.peers =
      m.peers.modify record.peer (·.observe record.rssi) := by
    simp only [Central.receive, Central.advertised]
    split
    · rfl
    · split <;> rfl
  refine fate_of_receive hm (fun _ => hquiet) fun hc => ?_
  rw [hpeers, Table.get?_modify]
  by_cases hp : p = record.peer
  · rw [if_pos hp]
    cases m.peers.get? p with
    | none => exact .kept none hquiet hacc
    | some q => exact .observed q record (by rw [hc]) hp.symm hquiet
  · rw [if_neg hp]
    exact .kept _ hquiet hacc

theorem fate_peerReported (hl : h.Labelled) (hm : h.centrals.get? c₀ = some m) (p₀ : PeerId)
    (report : PeerReport H) (c : CentralId) (p : PeerId) :
    let t : Moment H := ⟨h, .report c₀ (.peer p₀ report)⟩
    t.Fate c p (t.before c p) (t.later c p) := by
  intro t
  have hacc : t.accepted? c p = none := accepted?_eq_none_of_report rfl
  cases hq : m.peers.get? p₀ with
  | none =>
    have hns : t.notices = [] := by
      rw [notices_receive hm]
      simp [Central.receive, Central.peerReported, hq]
    refine fate_of_receive hm (fun _ => hns ▸ .nil c p) fun _ => ?_
    simp only [Central.receive, Central.peerReported, hq]
    exact .kept _ (hns ▸ .nil c p) hacc
  | some q =>
    have hpeers : (m.receive h.settings h.ids (.peer p₀ report)).state.1.peers =
        m.peers.insert p₀ (q.receive h.settings h.ids report).state.1 := by
      simp [Central.receive, Central.peerReported, hq]
    have hns : t.notices = Effect.notices (q.receive h.settings h.ids report).effects := by
      rw [notices_receive hm]
      simp [Central.receive, Central.peerReported, hq]
    have hreaction := q.reaction_receive h.settings h.ids report
    rw [← hns] at hreaction
    have hpeer : h.peer? c₀ p₀ = some q := (Hub.peer?_of_get? hm p₀).trans hq
    have hquiet (hne : c = c₀ → p ≠ p₀) : Silent c p t.notices := by
      intro n hn
      obtain ⟨k, hk⟩ := hreaction.notices_of_mem _ hn
      simp only [Peer.notice, Notice.peer.injEq, hl.peer_central hpeer, hl.peer_id hpeer] at hk
      exact hne hk.1 hk.2.1
    refine fate_of_receive hm (fun hc => hquiet fun h => absurd h hc) fun hc => ?_
    rw [hpeers, Table.get?_insert]
    by_cases hp : p = p₀
    · rw [if_pos hp, hp, hq, hc]
      exact .reported q _ report rfl rfl hreaction
    · rw [if_neg hp]
      exact .kept _ (hquiet fun _ => hp) hacc

theorem fate_report (h : Hub H) (hl : h.Labelled) (c₀ : CentralId) (r : Report H) (c : CentralId)
    (p : PeerId) :
    let t : Moment H := ⟨h, .report c₀ r⟩
    t.Fate c p (t.before c p) (t.later c p) := by
  intro t
  cases hm : h.centrals.get? c₀ with
  | none =>
    have hreceive : h.receive c₀ r = ⟨h, [.log (.misrouted c₀ r)]⟩ := by simp [Hub.receive, hm]
    have hlater : t.later c p = (h.receive c₀ r).state.peer? c p := rfl
    have hns : t.notices = Effect.notices (h.receive c₀ r).effects := rfl
    rw [hreceive] at hlater hns
    exact .of_eq hlater (hns ▸ .nil c p) (accepted?_eq_none_of_report rfl)
  | some m =>
    cases r with
    | stateChanged on message =>
      have hquiet : Silent c p t.notices := by
        rw [notices_receive hm]
        simp [Central.receive, Central.powerChanged, Silent]
      exact fate_of_receive hm (fun _ => hquiet) fun _ =>
        .kept _ hquiet (accepted?_eq_none_of_report rfl)
    | advertised record => exact fate_advertised hm record c p
    | peer p₀ report => exact fate_peerReported hl hm p₀ report c p

end Report

/-- Whatever the moment, a peer meets with one of the few fates. -/
theorem fate (t : Moment H) (hl : t.hub.Labelled) (c : CentralId) (p : PeerId) :
    t.Fate c p (t.before c p) (t.later c p) := by
  obtain ⟨h, m⟩ := t
  cases m with
  | report c₀ r => exact fate_report h hl c₀ r c p
  | shutdown answers => exact fate_shutdown h hl answers c p
  | request answers r =>
    cases r with
    | allocate => exact fate_allocate h answers c p
    | destroy c₀ => exact fate_destroy h hl answers c₀ c p
    | scan c₀ allowDuplicates =>
      refine fate_withCentral h rfl (by simp) (fun m => ?_) (fun m => ?_) c p <;>
        simp only [Central.startScan] <;> split <;> rfl
    | stopScan c₀ =>
      refine fate_withCentral h rfl (by simp) (fun m => ?_) (fun m => ?_) c p <;>
        simp only [Central.stopScan] <;> split <;> rfl
    | forget c₀ p₀ => exact fate_forget h answers c₀ p₀ c p
    | act c₀ p₀ action => exact fate_act h hl answers c₀ p₀ action c p
    | attMtu c₀ p₀ => exact fate_attMtu h hl answers c₀ p₀ c p
    | query q => exact .kept _ (.nil c p) rfl

end Moment

end GattHub
