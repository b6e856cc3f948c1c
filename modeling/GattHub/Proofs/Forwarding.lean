import GattHub.Proofs.PeerUpdate
import GattHub.Proofs.Subscription

/-! What comes of a reported value. It answers the oldest read of its identifier; without one it is
a notified value. A subscription goes by the identifier too, so characteristics that share one
share the subscription. -/

namespace GattHub

variable {H : Handles}

namespace Peer

variable {q : Peer H} {status : Status} {uuid : Uuid}

theorem forwards_iff {settings : Settings} :
    q.forwards settings status uuid = true ↔ settings.forwardNotifications = true ∧
      status = .ok ∧ q.state = .connected ∧ uuid ∈ q.subscriptions := by
  simp [forwards, and_assoc]

theorem receive_notified (settings : Settings) (ids : IdSource) (status : Status) (value : Octets)
    (hno : .readCharacteristic uuid ∉ q.pending) :
    (q.receive settings ids (.characteristicRead status uuid value)).state = (q, ids) ∧
      Effect.notices (q.receive settings ids (.characteristicRead status uuid value)).effects =
        if q.forwards settings status uuid then
          [q.notice (.characteristicRead status uuid (valueIfOk status value))]
        else [] := by
  simp only [receive, characteristicRead, Pending.take?_eq_none_iff_notMem.mpr hno]
  split
  · exact ⟨rfl, rfl⟩
  · exact ⟨rfl, rfl⟩

/-- A completion of this kind is awaited only for a characteristic with the identifier. -/
theorem queued?_eq_notifyState {action : PeerAction}
    (h : q.queued? action = some (.notifyState uuid)) :
    ∃ id e, q.tree.characteristics.get? id = some e ∧ e.value.uuid = uuid ∧
      (action = .subscribe id ∨ action = .unsubscribe id) := by
  cases action with
  | subscribe id =>
    obtain ⟨e, he, heq⟩ := Option.map_eq_some_iff.mp h
    exact ⟨id, e, he, Pending.notifyState.inj heq, .inl rfl⟩
  | unsubscribe id =>
    obtain ⟨e, he, heq⟩ := Option.map_eq_some_iff.mp h
    exact ⟨id, e, he, Pending.notifyState.inj heq, .inr rfl⟩
  | writeCharacteristic id value noResponse =>
    simp only [queued?] at h
    split at h
    · cases h
    · obtain ⟨e, -, heq⟩ := Option.map_eq_some_iff.mp h
      cases heq
  | readCharacteristic | readDescriptor | writeDescriptor =>
    obtain ⟨e, -, heq⟩ := Option.map_eq_some_iff.mp h
    cases heq
  | _ => cases h

theorem state_receive_notificationStateChanged (settings : Settings) (ids : IdSource)
    (enabled : Bool) :
    (q.receive settings ids (.notificationStateChanged status uuid enabled)).state.1.state =
      q.state := by
  simp only [receive, complete]
  split
  · rfl
  · split <;> rfl

end Peer

namespace Moment

variable {t : Moment H} {c : CentralId} {p : PeerId} {q : Peer H} {status : Status} {uuid : Uuid}
  {value : Octets}

theorem after_of_report {report : PeerReport H} (hm : t.move = .report c (.peer p report))
    (hq : t.before c p = some q) :
    t.after = some { t.hub.setPeer c p (q.receive t.hub.settings t.hub.ids report).state.1 with
      ids := (q.receive t.hub.settings t.hub.ids report).state.2 } := by
  rw [← Hub.receive_tracked hq report]
  simp [after, step, hm]

theorem value_awaited (hl : t.hub.Labelled)
    (hm : t.move = .report c (.peer p (.characteristicRead status uuid value)))
    (hq : t.before c p = some q) (hread : .readCharacteristic uuid ∈ q.pending) :
    ∃ pre post, q.pending = pre ++ .readCharacteristic uuid :: post ∧
      .readCharacteristic uuid ∉ pre ∧
      t.after = some (t.hub.setPeer c p { q with pending := pre ++ post }) ∧
      t.notices =
        [.peer c p (.characteristicRead status uuid (if status = .ok then value else []))] := by
  obtain ⟨pre, post, hp, hpre, htake⟩ := Pending.take?_of_mem hread
  have hafter := after_of_report hm hq
  have hns := (t.reported_spec hm hq).2
  simp only [Peer.receive, Peer.characteristicRead, htake] at hafter hns
  refine ⟨pre, post, hp, hpre, hafter, ?_⟩
  rw [hns]
  simp [Peer.notice, hl.peer_central hq, hl.peer_id hq, Peer.valueIfOk]

/-- A value that nobody asked for changes nothing, and goes out if it is passed on. -/
theorem value_notified (hl : t.hub.Labelled)
    (hm : t.move = .report c (.peer p (.characteristicRead status uuid value)))
    (hq : t.before c p = some q) (hno : .readCharacteristic uuid ∉ q.pending) :
    t.after = some t.hub ∧
      (q.forwards t.hub.settings status uuid = true →
        t.notices = [.peer c p (.characteristicRead .ok uuid value)]) ∧
      (¬ q.forwards t.hub.settings status uuid = true → t.notices = []) := by
  obtain ⟨hstate, hnotices⟩ := q.receive_notified t.hub.settings t.hub.ids status value hno
  have hafter := after_of_report hm hq
  have hns := (t.reported_spec hm hq).2.trans hnotices
  rw [hstate, Hub.setPeer_self hq] at hafter
  refine ⟨hafter, fun hyes => ?_, fun hnot => by rw [hns, if_neg hnot]⟩
  obtain ⟨-, hok, -⟩ := Peer.forwards_iff.mp hyes
  rw [hns, if_pos hyes]
  simp [Peer.notice, hl.peer_central hq, hl.peer_id hq, Peer.valueIfOk, hok]

theorem engaged_of_switched (hc : t.hub.Consistent) {enabled : Bool}
    (h : t.switched? c p uuid = some enabled) :
    Engaged (t.before c p) ∧ Engaged (t.later c p) := by
  obtain ⟨q, hq, hmem, hm⟩ := switched?_eq_some h
  have hup : q.state ≠ .disconnected := by
    intro hdown
    rw [((hc c p q hq).disconnected hdown).1] at hmem
    cases hmem
  refine ⟨⟨q, hq, hup⟩, _, (t.reported_spec hm hq).1, ?_⟩
  rwa [Peer.state_receive_notificationStateChanged]

end Moment

/-- The last of what a list brings up is what it brought up once and never other since. -/
theorem getLast?_filterMap_of_forall {α β : Type} {f : α → Option β} {l l' : List α} {a : α} {b : β}
    (ha : f a = some b) (hl' : ∀ x ∈ l', ∀ b', f x = some b' → b' = b) :
    ((l ++ a :: l').filterMap f).getLast? = some b := by
  have hlast : ∀ x ∈ l'.filterMap f, x = b := by
    intro x hx
    obtain ⟨y, hy, hfy⟩ := List.mem_filterMap.mp hx
    exact hl' y hy x hfy
  rw [List.filterMap_append, List.filterMap_cons_some ha,
    List.getLast?_append_of_ne_nil _ (List.cons_ne_nil _ _), List.getLast?_cons]
  cases h : (l'.filterMap f).getLast? with
  | none => rfl
  | some x => rw [hlast x (List.mem_of_getLast? h)]; rfl

namespace Run

variable (settings : Settings) (ms : List (Move H)) {c : CentralId} {p : PeerId}

/-- A reported value answers the oldest read of its identifier. If none is pending nothing changes,
and the value is passed on just if that is set, it was read successfully, the link is up, and the
last successful and awaited completion on this link turned the notifications on. -/
theorem value_reported {ts us : List (Moment H)} {t : Moment H} {q : Peer H} {status : Status}
    {uuid : Uuid} {value : Octets} (hpast : (of settings ms).past = ts ++ t :: us)
    (hm : t.move = .report c (.peer p (.characteristicRead status uuid value)))
    (hq : t.before c p = some q) :
    (.readCharacteristic uuid ∈ q.pending →
      ∃ pre post, q.pending = pre ++ .readCharacteristic uuid :: post ∧
        .readCharacteristic uuid ∉ pre ∧
        t.after = some (t.hub.setPeer c p { q with pending := pre ++ post }) ∧
        t.notices =
          [.peer c p (.characteristicRead status uuid (if status = .ok then value else []))]) ∧
    (.readCharacteristic uuid ∉ q.pending → t.after = some t.hub ∧
      (settings.forwardNotifications = true ∧ status = .ok ∧ q.state = .connected ∧
          Subscribed c p ts uuid →
        t.notices = [.peer c p (.characteristicRead .ok uuid value)]) ∧
      (¬ (settings.forwardNotifications = true ∧ status = .ok ∧ q.state = .connected ∧
          Subscribed c p ts uuid) →
        t.notices = [])) := by
  have hsettings := (settings_eq settings ms).1 t (by simp [hpast])
  obtain ⟨ms', rfl, hr⟩ := exists_of_past_eq settings ms hpast
  have hl := (labelled settings ms').2 t.hub hr
  refine ⟨t.value_awaited hl hm hq, fun hno => ?_⟩
  have hforwards : q.forwards t.hub.settings status uuid = true ↔
      settings.forwardNotifications = true ∧ status = .ok ∧ q.state = .connected ∧
        Subscribed c p (of settings ms').past uuid := by
    rw [Peer.forwards_iff, hsettings]
    refine and_congr_right fun _ => and_congr_right fun _ => and_congr_right fun hup => ?_
    exact (subscribed_iff settings ms' hr hq (by simp [hup]) uuid).symm
  rw [← hforwards]
  exact t.value_notified hl hm hq hno

/-- A service has two characteristics of one identifier. Both are subscribed to, and then the second
is unsubscribed from. -/
def sharedIdentifier : List (Move .numbers) :=
  [.request .agreeing .allocate, .request .agreeing (.act ⟨1⟩ default .connect),
    .report ⟨1⟩ (.peer default (.connected .ok)),
    .request .agreeing (.act ⟨1⟩ default (.discoverServices [])),
    .report ⟨1⟩ (.peer default (.servicesDiscovered .ok [⟨1, default⟩])),
    .request .agreeing (.act ⟨1⟩ default (.discoverCharacteristics ⟨1⟩ [])),
    .report ⟨1⟩ (.peer default (.characteristicsDiscovered .ok 1
      [⟨10, default, 16⟩, ⟨11, default, 16⟩])),
    .request .agreeing (.act ⟨1⟩ default (.subscribe ⟨2⟩)),
    .report ⟨1⟩ (.peer default (.notificationStateChanged .ok default true)),
    .request .agreeing (.act ⟨1⟩ default (.subscribe ⟨3⟩)),
    .report ⟨1⟩ (.peer default (.notificationStateChanged .ok default true)),
    .request .agreeing (.act ⟨1⟩ default (.unsubscribe ⟨3⟩)),
    .report ⟨1⟩ (.peer default (.notificationStateChanged .ok default false))]

/-- The hub after the first so many messages takes another one. -/
def sharedAt (n : Nat) (m : Move .numbers) : Moment .numbers :=
  ⟨(of .default (sharedIdentifier.take n)).hub.getD (.new .default), m⟩

/-- A value comes after the first so many messages. -/
def notifiedAt (n : Nat) : Moment .numbers :=
  sharedAt n (.report ⟨1⟩ (.peer default (.characteristicRead .ok default [1])))

def peerAfter (n : Nat) : Peer .numbers :=
  ((notifiedAt n).before ⟨1⟩ default).getD (.new ⟨1⟩ default 0)

/-- The value comes right after the first subscription was confirmed. -/
theorem value_reported_subscribed :
    let ts := (of .default (sharedIdentifier.take 9)).past
    (of .default (sharedIdentifier.take 9 ++ [(notifiedAt 9).move])).past = ts ++ [notifiedAt 9] ∧
      (notifiedAt 9).before ⟨1⟩ default = some (peerAfter 9) ∧
      .readCharacteristic default ∉ (peerAfter 9).pending ∧ (peerAfter 9).state = .connected ∧
      Subscribed ⟨1⟩ default ts default ∧
      (notifiedAt 9).notices = [.peer ⟨1⟩ default (.characteristicRead .ok default [1])] := by
  intro ts
  have hq : (notifiedAt 9).before ⟨1⟩ default = some (peerAfter 9) := rfl
  have hsubscribed : Subscribed ⟨1⟩ default ts default :=
    (subscribed_iff .default (sharedIdentifier.take 9) rfl hq (by decide) default).mpr (by decide)
  have hpast : (of .default (sharedIdentifier.take 9 ++ [(notifiedAt 9).move])).past =
      ts ++ [notifiedAt 9] := rfl
  have hvalue := (value_reported .default _ hpast rfl hq).2 (by decide)
  exact ⟨hpast, hq, by decide, by decide, hsubscribed,
    hvalue.2.1 ⟨rfl, rfl, by decide, hsubscribed⟩⟩

/-- What turned the notifications of an identifier on or off was asked for on the same link, of any
characteristic that has the identifier. It holds for all of them until it is turned over or the
link ends, whatever else is asked for meanwhile. -/
theorem subscription_by_identifier {ts us vs : List (Moment H)} {t₀ t : Moment H} {q : Peer H}
    {uuid : Uuid} {enabled : Bool} {value : Octets}
    (hpast : (of settings ms).past = ts ++ t₀ :: us ++ t :: vs)
    (hswitch : t₀.switched? c p uuid = some enabled) (hlink : ∀ v ∈ us, Engaged (v.later c p))
    (hsame : ∀ v ∈ us, v.switched? c p uuid ≠ some (!enabled))
    (hm : t.move = .report c (.peer p (.characteristicRead .ok uuid value)))
    (hq : t.before c p = some q) (hup : q.state = .connected)
    (hforward : settings.forwardNotifications = true) :
    (∃ pre link, ts = pre ++ link ∧ Link c p link ∧ ∃ w ∈ link, ∃ q₀ id e,
      w.before c p = some q₀ ∧ q₀.tree.characteristics.get? id = some e ∧ e.value.uuid = uuid ∧
      (w.accepted? c p = some (.subscribe id) ∨ w.accepted? c p = some (.unsubscribe id))) ∧
    (enabled = true → t.notices = [.peer c p (.characteristicRead .ok uuid value)]) ∧
    (enabled = false → .readCharacteristic uuid ∉ q.pending → t.notices = []) := by
  have hsettings := (settings_eq settings ms).1 t (by simp [hpast])
  obtain ⟨ms₁, hpast₁, hr₁⟩ := exists_of_past_eq settings ms hpast
  obtain ⟨ms₀, rfl, hr₀⟩ := exists_of_past_eq settings ms₁ hpast₁
  have hl₀ := (labelled settings ms₀).2 t₀.hub hr₀
  obtain ⟨hbefore, hlater⟩ := t₀.engaged_of_switched ((consistent settings ms₀).2 t₀.hub hr₀) hswitch
  obtain ⟨pre, link, hpre, hopen⟩ : Linked c p (of settings ms₀).past := by
    rw [linked_iff, hr₀]
    exact hbefore
  refine ⟨⟨pre, link, hpre, hopen, ?_⟩, ?_⟩
  · -- A switch is awaited, and all that is awaited was asked for since the link began.
    obtain ⟨q₀, hq₀, hmem, -⟩ := Moment.switched?_eq_some hswitch
    have hpeer : (of settings ms₀).hub.bind (·.peer? c p) = some q₀ := by rw [hr₀]; exact hq₀
    obtain ⟨w, hw, hqueued⟩ := List.mem_filterMap.mp
      ((pending_sublist_queued settings ms₀ c p hpre hopen hpeer).subset hmem)
    obtain ⟨action, hacc, hqueued⟩ := Option.bind_eq_some_iff.mp hqueued
    obtain ⟨q₁, hq₁, hqueued⟩ := Option.bind_eq_some_iff.mp hqueued
    obtain ⟨id, e, he, huuid, haction⟩ := Peer.queued?_eq_notifyState hqueued
    refine ⟨w, hw, q₁, id, e, hq₁, he, huuid, ?_⟩
    rw [hacc, Option.some.injEq, Option.some.injEq]
    exact haction
  · -- The link has lasted up to the value, and its last switch went the way that `t₀` did.
    have hwhole : Link c p (link ++ t₀ :: us) := by
      refine hopen.append fun v hv => ?_
      rcases List.mem_cons.mp hv with rfl | hv
      · exact hlater
      · exact hlink v hv
    have hlast : ((link ++ t₀ :: us).filterMap (·.switched? c p uuid)).getLast? = some enabled := by
      refine getLast?_filterMap_of_forall hswitch fun v hv b hb => ?_
      by_contra hne
      exact hsame v hv (by rw [hb, Bool.eq_not_of_ne hne])
    have hlisten := listening_iff settings ms₁ (c := c) (p := p)
      (by rw [hpast₁, hpre, List.append_assoc]) hwhole uuid
    rw [hr₁, hlast] at hlisten
    have hlisten : uuid ∈ q.subscriptions ↔ enabled = true := by
      simpa [Listening, show t.hub.peer? c p = some q from hq] using hlisten
    have hl := (labelled settings ms₁).2 t.hub hr₁
    have hforwards : q.forwards t.hub.settings .ok uuid = true ↔ enabled = true := by
      rw [Peer.forwards_iff, hsettings, hlisten]
      simp [hforward, hup]
    refine ⟨fun hon => ?_, fun hoff hno => ?_⟩
    · by_cases hread : .readCharacteristic uuid ∈ q.pending
      · obtain ⟨-, -, -, -, -, hns⟩ := t.value_awaited hl hm hq hread
        exact hns
      · exact (t.value_notified hl hm hq hread).2.1 (hforwards.mpr hon)
    · refine (t.value_notified hl hm hq hno).2.2 fun hyes => ?_
      rw [hforwards.mp hyes] at hoff
      cases hoff

/-- The value comes while the first characteristic is subscribed to and the second is not. -/
theorem subscription_by_identifier_shared :
    let t₀ := sharedAt 12 (.report ⟨1⟩ (.peer default (.notificationStateChanged .ok default false)))
    let ts := (of .default (sharedIdentifier.take 12)).past
    (of .default (sharedIdentifier ++ [(notifiedAt 13).move])).past =
        ts ++ t₀ :: [] ++ notifiedAt 13 :: [] ∧
      t₀.switched? ⟨1⟩ default default = some false ∧
      (notifiedAt 13).before ⟨1⟩ default = some (peerAfter 13) ∧
      (peerAfter 13).state = .connected ∧ .readCharacteristic default ∉ (peerAfter 13).pending ∧
      (ts.filterMap (·.accepted? ⟨1⟩ default)).drop 3 =
        [.subscribe ⟨2⟩, .subscribe ⟨3⟩, .unsubscribe ⟨3⟩] ∧
      (notifiedAt 13).notices = [] := by
  intro t₀ ts
  have hpast : (of .default (sharedIdentifier ++ [(notifiedAt 13).move])).past =
      ts ++ t₀ :: [] ++ notifiedAt 13 :: [] := rfl
  have hswitch : t₀.switched? ⟨1⟩ default default = some false := by decide
  have hq : (notifiedAt 13).before ⟨1⟩ default = some (peerAfter 13) := rfl
  have hshared := subscription_by_identifier .default _ hpast hswitch nofun nofun rfl hq (by decide)
    rfl
  exact ⟨hpast, hswitch, hq, by decide, by decide, by decide, hshared.2.2 rfl (by decide)⟩

end Run

end GattHub
