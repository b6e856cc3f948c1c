import GattHub.Central.Basic

/-! What an accepted request leaves behind and what its outcome has in common with it. -/

namespace GattHub

/-- What the outcome of an operation tells about which operation it was. -/
inductive Operation where
  | services | characteristics | descriptors
  | readCharacteristic (uuid : Uuid)
  | writeCharacteristic (uuid : Uuid)
  | readDescriptor (uuid : Uuid)
  | writeDescriptor (uuid : Uuid)
  | notifyState (uuid : Uuid)
  | rssi
  deriving DecidableEq

variable {H : Handles}

def Pending.operation : Pending → Operation
  | .services => .services
  | .characteristics _ => .characteristics
  | .descriptors _ => .descriptors
  | .readCharacteristic uuid => .readCharacteristic uuid
  | .writeCharacteristic uuid => .writeCharacteristic uuid
  | .readDescriptor uuid => .readDescriptor uuid
  | .writeDescriptor uuid => .writeDescriptor uuid
  | .notifyState uuid => .notifyState uuid
  | .rssi => .rssi

/-- The operation whose outcome a notice may be. -/
def PeerNotice.operation? : PeerNotice → Option Operation
  | .connected _ | .disconnected _ => none
  | .servicesDiscovered .. => some .services
  | .characteristicsDiscovered .. => some .characteristics
  | .descriptorsDiscovered .. => some .descriptors
  | .characteristicRead _ uuid _ => some (.readCharacteristic uuid)
  | .characteristicWritten _ uuid => some (.writeCharacteristic uuid)
  | .descriptorRead _ uuid _ => some (.readDescriptor uuid)
  | .descriptorWritten _ uuid => some (.writeDescriptor uuid)
  | .notificationStateChanged _ uuid _ => some (.notifyState uuid)
  | .rssiRead .. => some .rssi

def PeerNotice.status : PeerNotice → Status
  | .connected status | .disconnected status | .servicesDiscovered status _
  | .characteristicsDiscovered status _ | .descriptorsDiscovered status _
  | .characteristicRead status _ _ | .characteristicWritten status _
  | .descriptorRead status _ _ | .descriptorWritten status _
  | .notificationStateChanged status _ _ | .rssiRead status _ => status

def PeerReport.operation? : PeerReport H → Option Operation
  | .connected _ | .disconnected _ => none
  | .servicesDiscovered .. => some .services
  | .characteristicsDiscovered .. => some .characteristics
  | .descriptorsDiscovered .. => some .descriptors
  | .characteristicRead _ uuid _ => some (.readCharacteristic uuid)
  | .characteristicWritten _ uuid => some (.writeCharacteristic uuid)
  | .descriptorRead _ uuid _ => some (.readDescriptor uuid)
  | .descriptorWritten _ uuid => some (.writeDescriptor uuid)
  | .notificationStateChanged _ uuid _ => some (.notifyState uuid)
  | .rssiRead .. => some .rssi

namespace Pending

theorem operation?_cancelled (op : Pending) : op.cancelled.operation? = some op.operation := by
  cases op <;> rfl

theorem status_cancelled (op : Pending) : op.cancelled.status = .cancelled := by
  cases op <;> rfl

theorem service?_eq_some {op : Pending} {id : AttrId} :
    op.service? = some id ↔ op = .characteristics id := by
  cases op <;> simp [service?]

theorem characteristic?_eq_some {op : Pending} {id : AttrId} :
    op.characteristic? = some id ↔ op = .descriptors id := by
  cases op <;> simp [characteristic?]

theorem take?_eq_none {f : Pending → Bool} {queue : List Pending} :
    take? f queue = none ↔ ∀ op ∈ queue, f op = false := by
  simp [take?, List.find?_eq_none]

theorem take?_eq_some {f : Pending → Bool} {queue rest : List Pending} {op : Pending}
    (h : take? f queue = some (op, rest)) :
    f op = true ∧ ∃ pre post, queue = pre ++ op :: post ∧ rest = pre ++ post := by
  simp only [take?, Option.map_eq_some_iff, Prod.mk.injEq] at h
  obtain ⟨op', hfind, rfl, rfl⟩ := h
  obtain ⟨hop, pre, post, rfl, hpre⟩ := List.find?_eq_some_iff_append.mp hfind
  refine ⟨hop, pre, post, rfl, ?_⟩
  rw [List.eraseP_append_right _ fun x hx => by simpa using hpre x hx, List.eraseP_cons_of_pos hop]

theorem take?_eq_none_iff_notMem {op : Pending} {queue : List Pending} :
    take? (· = op) queue = none ↔ op ∉ queue := by
  simp only [take?_eq_none, decide_eq_false_iff_not]
  exact ⟨fun h hmem => h op hmem rfl, fun h x hx hop => h (hop ▸ hx)⟩

theorem eq_of_take?_eq_some {op op' : Pending} {queue rest : List Pending}
    (h : take? (· = op) queue = some (op', rest)) :
    op' = op ∧ ∃ pre post, queue = pre ++ op :: post ∧ rest = pre ++ post := by
  obtain ⟨hop, pre, post, hq, hrest⟩ := take?_eq_some h
  obtain rfl : op' = op := of_decide_eq_true hop
  exact ⟨rfl, pre, post, hq, hrest⟩

/-- Of several pending operations that are the same, the oldest is taken. -/
theorem take?_of_mem {op : Pending} {queue : List Pending} (h : op ∈ queue) :
    ∃ pre post, queue = pre ++ op :: post ∧ op ∉ pre ∧
      take? (· = op) queue = some (op, pre ++ post) := by
  obtain ⟨pre, post, rfl, hpre⟩ := List.eq_append_cons_of_mem h
  have hnot : ∀ x ∈ pre, ¬ decide (x = op) = true := by
    intro x hx hxop
    exact hpre (of_decide_eq_true hxop ▸ hx)
  refine ⟨pre, post, rfl, hpre, ?_⟩
  rw [take?, List.find?_append, List.find?_eq_none.mpr hnot, List.eraseP_append_right _ hnot]
  simp

theorem takeDiscovery?_eq_none {parent? : Pending → Option AttrId} {current : Option AttrId}
    {queue : List Pending} :
    takeDiscovery? parent? current queue = none ↔ queue.filterMap parent? = [] := by
  simp only [takeDiscovery?, Option.map_eq_none_iff, Option.or_eq_none_iff]
  constructor
  · intro h
    exact List.head?_eq_none_iff.mp h.2
  · intro h
    cases current <;> simp [h, Option.filter]

/-- The discovery that is taken out is one of the present identity of the parent. Without one
it is the oldest. -/
theorem takeDiscovery?_eq_some {parent? : Pending → Option AttrId} {current : Option AttrId}
    {queue rest : List Pending} {id : AttrId}
    (h : takeDiscovery? parent? current queue = some (id, rest)) :
    (current = some id ∨ (∀ i, current = some i → i ∉ queue.filterMap parent?) ∧
      (queue.filterMap parent?).head? = some id) ∧
    ∃ pre op post, queue = pre ++ op :: post ∧ rest = pre ++ post ∧ parent? op = some id ∧
      ∀ x ∈ pre, parent? x ≠ some id := by
  simp only [takeDiscovery?, Option.map_eq_some_iff, Prod.mk.injEq] at h
  obtain ⟨requested, hreq, rfl, rfl⟩ := h
  have hwhich : (current = some requested ∧ requested ∈ queue.filterMap parent?) ∨
      (∀ i, current = some i → i ∉ queue.filterMap parent?) ∧
        (queue.filterMap parent?).head? = some requested := by
    cases current with
    | none => exact .inr ⟨by simp, by simpa using hreq⟩
    | some i =>
      by_cases hi : i ∈ queue.filterMap parent?
      · left
        rw [Option.filter_some_pos (by simpa using hi)] at hreq
        cases hreq
        exact ⟨rfl, hi⟩
      · right
        rw [Option.filter_some_neg (by simpa using hi)] at hreq
        exact ⟨by simpa using hi, by simpa using hreq⟩
  have hmem : requested ∈ queue.filterMap parent? := by
    rcases hwhich with ⟨-, hmem⟩ | ⟨-, hhead⟩
    · exact hmem
    · exact List.mem_of_mem_head? hhead
  refine ⟨hwhich.imp_left And.left, ?_⟩
  obtain ⟨op, hop, hparent⟩ := List.mem_filterMap.mp hmem
  obtain ⟨x, pre, post, hpre, hx, hq, he⟩ := List.exists_of_eraseP (p := (parent? · = some requested))
    hop (by simpa using hparent)
  exact ⟨pre, x, post, hq, he, by simpa using hx, fun y hy => by simpa using hpre y hy⟩

end Pending

namespace Peer

/-- The operation that awaits an outcome once a request has been accepted. -/
def queued? (p : Peer H) : PeerAction → Option Pending
  | .connect | .disconnect => none
  | .discoverServices _ => some .services
  | .discoverCharacteristics service _ => some (.characteristics service)
  | .discoverDescriptors characteristic => some (.descriptors characteristic)
  | .readCharacteristic characteristic =>
    (p.tree.characteristics.get? characteristic).map fun e => .readCharacteristic e.value.uuid
  | .writeCharacteristic characteristic _ noResponse =>
    if noResponse then none
    else (p.tree.characteristics.get? characteristic).map fun e =>
      .writeCharacteristic e.value.uuid
  | .readDescriptor descriptor =>
    (p.tree.descriptors.get? descriptor).map fun e => .readDescriptor e.value
  | .writeDescriptor descriptor _ =>
    (p.tree.descriptors.get? descriptor).map fun e => .writeDescriptor e.value
  | .subscribe characteristic | .unsubscribe characteristic =>
    (p.tree.characteristics.get? characteristic).map fun e => .notifyState e.value.uuid
  | .readRssi => some .rssi

/-- The peer after an accepted request: a connect or disconnect moves its link on, any other
request is queued. -/
inductive Accepts (p : Peer H) : PeerAction → Peer H → Prop
  | connect : p.state = .disconnected → Accepts p .connect { p with state := .connecting }
  | disconnect : p.state = .connecting ∨ p.state = .connected →
      Accepts p .disconnect { p with state := .disconnecting }
  | operate (action : PeerAction) : action ≠ .connect → action ≠ .disconnect →
      p.state = .connected ∨ action = .readRssi ∧ p.state ≠ .disconnected →
      Accepts p action { p with pending := p.pending ++ (p.queued? action).toList }

theorem whenConnected_eq_ok {α : Type} {p : Peer H} {x : Except Rejection α} {a : α}
    (h : p.whenConnected x = .ok a) : p.state = .connected ∧ x = .ok a := by
  simp only [whenConnected] at h
  split at h
  next hs => exact ⟨hs, h⟩
  next => cases h

theorem withEntry_eq_ok {κ τ α : Type} {t : Gatt.HandleTable κ τ} {id : AttrId}
    {f : Gatt.Entry κ τ → α} {a : α} (h : withEntry t id f = .ok a) :
    ∃ e, t.get? id = some e ∧ f e = a := by
  simp only [withEntry, Gatt.HandleTable.get] at h
  cases he : t.get? id with
  | none => simp [he] at h
  | some e => exact ⟨e, rfl, by simpa [he] using h⟩

theorem accepts_of_entry {κ τ : Type} {p : Peer H} {action : PeerAction} {q : Prepared H}
    {t : Gatt.HandleTable κ τ} {id : AttrId} {call : Gatt.Entry κ τ → PeerCall H}
    {op : Gatt.Entry κ τ → Pending} {log : Gatt.Entry κ τ → List (LogEntry H)}
    (hconnect : action ≠ .connect) (hdisconnect : action ≠ .disconnect)
    (hop : ∀ e, t.get? id = some e → p.queued? action = some (op e))
    (h : p.whenConnected (withEntry t id fun e => Prepared.mk (call e) (p.await (op e)) (log e)) =
      .ok q) : p.Accepts action q.next := by
  obtain ⟨hs, h⟩ := whenConnected_eq_ok h
  obtain ⟨e, he, rfl⟩ := withEntry_eq_ok h
  simpa [hop e he, await] using Accepts.operate (p := p) action hconnect hdisconnect (.inl hs)

theorem accepts_of_prepare {p : Peer H} {action : PeerAction} {q : Prepared H}
    (h : p.prepare action = .ok q) : p.Accepts action q.next := by
  cases action with
  | connect =>
    simp only [prepare] at h
    split at h
    next hs =>
      cases h
      exact .connect hs
    next => cases h
  | disconnect =>
    simp only [prepare] at h
    split at h
    next hs =>
      cases h
      exact .disconnect hs
    next => cases h
  | readRssi =>
    simp only [prepare] at h
    split at h
    next => cases h
    next hs =>
      cases h
      exact .operate _ (by simp) (by simp) (.inr ⟨rfl, hs⟩)
  | discoverServices filter =>
    obtain ⟨hs, h⟩ := whenConnected_eq_ok h
    cases h
    exact .operate _ (by simp) (by simp) (.inl hs)
  | writeCharacteristic id value noResponse =>
    cases noResponse with
    | false => exact accepts_of_entry (by simp) (by simp) (fun e he => by simp [queued?, he]) h
    | true =>
      obtain ⟨hs, h⟩ := whenConnected_eq_ok h
      obtain ⟨e, -, rfl⟩ := withEntry_eq_ok h
      simpa [queued?] using
        Accepts.operate (p := p) (.writeCharacteristic id value true) (by simp) (by simp) (.inl hs)
  | discoverCharacteristics id filter => exact accepts_of_entry (by simp) (by simp) (fun _ _ => rfl) h
  | discoverDescriptors id => exact accepts_of_entry (by simp) (by simp) (fun _ _ => rfl) h
  | readCharacteristic id => exact accepts_of_entry (by simp) (by simp) (fun e he => by simp [queued?, he]) h
  | readDescriptor id => exact accepts_of_entry (by simp) (by simp) (fun e he => by simp [queued?, he]) h
  | writeDescriptor id value =>
    exact accepts_of_entry (by simp) (by simp) (fun e he => by simp [queued?, he]) h
  | subscribe id => exact accepts_of_entry (by simp) (by simp) (fun e he => by simp [queued?, he]) h
  | unsubscribe id => exact accepts_of_entry (by simp) (by simp) (fun e he => by simp [queued?, he]) h

theorem Accepts.of_new {c : CentralId} {p : PeerId} {native : H.Peer} {action : PeerAction} {q' : Peer H}
    (h : (Peer.new c p native).Accepts action q') : action = .connect := by
  cases h with
  | connect => rfl
  | disconnect hs => rcases hs with hs | hs <;> cases hs
  | operate _ _ _ hs =>
    rcases hs with hs | ⟨-, hs⟩
    · cases hs
    · exact absurd rfl hs

end Peer

end GattHub
