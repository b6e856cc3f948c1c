import GattHub.Proofs.Operation
import Mathlib.Tactic.SplitIfs

/-! What a report does to a tracked peer. Every report is ignored, moves the link, completes one
pending operation or is passed on as a notified value. -/

namespace GattHub

variable {H : Handles}

namespace Effect

@[simp] theorem notices_nil : notices ([] : List (Effect H)) = [] := rfl

@[simp] theorem notices_append (es es' : List (Effect H)) :
    notices (es ++ es') = notices es ++ notices es' := List.filterMap_append

@[simp] theorem notices_notice (n : Notice) (es : List (Effect H)) :
    notices (.notice n :: es) = n :: notices es := rfl

@[simp] theorem notices_log (l : LogEntry H) (es : List (Effect H)) :
    notices (.log l :: es) = notices es := rfl

@[simp] theorem notices_call (c : CentralId) (k : HostCall H) (r : Option Refusal)
    (es : List (Effect H)) : notices (.call c k r :: es) = notices es := rfl

@[simp] theorem notices_map_log (ls : List (LogEntry H)) :
    notices (ls.map (Effect.log (H := H))) = [] := by
  simp [notices, List.filterMap_map, Function.comp_def, notice?]

end Effect

namespace Peer

/-- The notices that cancel what is pending. -/
def cancelNotices (p : Peer H) : List Notice := p.pending.map fun op => p.notice op.cancelled

theorem notices_cancellations (p : Peer H) : Effect.notices p.cancellations = p.cancelNotices := by
  simp only [cancellations, cancelNotices]
  induction p.pending with
  | nil => rfl
  | cons op ops ih => simpa using ih

/-- What a report makes of a peer, and the notices that go out. -/
inductive Reaction (p : Peer H) (report : PeerReport H) : Peer H → List Notice → Prop
  | ignored : Reaction p report p []
  | established : report = .connected .ok → p.state = .connecting →
      Reaction p report { p with state := .connected } [p.notice (.connected .ok)]
  | failed (status : Status) : report = .connected status → status ≠ .ok →
      p.state = .connecting →
      Reaction p report p.unlinked (p.cancelNotices ++ [p.notice (.connected status)])
  | passed (status : Status) : report = .connected status → p.state = .disconnecting →
      Reaction p report p [p.notice (.connected status)]
  | lost (reason : Status) : report = .disconnected reason → p.state ≠ .disconnected →
      Reaction p report p.unlinked (p.cancelNotices ++ [p.notice (.disconnected reason)])
  | completed (pre : List Pending) (op : Pending) (post : List Pending) (n : PeerNotice)
      (rssi : Option Level) (tree : Gatt.Tree H.Service H.Characteristic H.Descriptor)
      (subscriptions : List Uuid) :
      p.pending = pre ++ op :: post → report.operation? = some op.operation →
      n.operation? = some op.operation →
      (subscriptions = p.subscriptions ∨ ∃ uuid, op = .notifyState uuid) →
      Reaction p report { p with
        rssi := rssi, tree := tree, pending := pre ++ post, subscriptions := subscriptions }
        [p.notice n]
  | forwarded (settings : Settings) (status : Status) (uuid : Uuid) (value : Octets) :
      report = .characteristicRead status uuid value → .readCharacteristic uuid ∉ p.pending →
      p.forwards settings status uuid = true →
      Reaction p report p [p.notice (.characteristicRead status uuid (valueIfOk status value))]

theorem reaction_connectResult (p : Peer H) (status : Status) :
    p.Reaction (.connected status) (p.connectResult status).state
      (Effect.notices (p.connectResult status).effects) := by
  simp only [connectResult]
  cases hs : p.state with
  | connecting =>
    by_cases hok : status = .ok
    · subst hok
      simpa using Reaction.established rfl hs
    · simpa [hok, notices_cancellations] using Reaction.failed status rfl hok hs
  | disconnecting => exact .passed status rfl hs
  | connected => exact .ignored
  | disconnected => exact .ignored

theorem reaction_linkLost (p : Peer H) (reason : Status) :
    p.Reaction (.disconnected reason) (p.linkLost reason).state
      (Effect.notices (p.linkLost reason).effects) := by
  simp only [linkLost]
  by_cases hs : p.state = .disconnected
  · simpa [hs] using Reaction.ignored
  · simpa [hs, notices_cancellations] using Reaction.lost reason rfl hs

theorem reaction_complete (p : Peer H) {report : PeerReport H} {op : Pending} {n : PeerNotice}
    {effect : Peer H → Peer H} (hreport : report.operation? = some op.operation)
    (hn : n.operation? = some op.operation)
    (heffect : ∀ q : Peer H, ∃ rssi subscriptions,
      effect q = { q with rssi := rssi, subscriptions := subscriptions } ∧
        (subscriptions = q.subscriptions ∨ ∃ uuid, op = .notifyState uuid)) :
    p.Reaction report (p.complete report op n effect).state
      (Effect.notices (p.complete report op n effect).effects) := by
  simp only [complete]
  cases ht : Pending.take? (· = op) p.pending with
  | none => exact .ignored
  | some taken =>
    obtain ⟨op', rest⟩ := taken
    obtain ⟨rfl, pre, post, hq, rfl⟩ := Pending.eq_of_take?_eq_some ht
    obtain ⟨rssi, subscriptions, he, hsub⟩ := heffect { p with pending := pre ++ post }
    simp only [he]
    exact .completed pre op' post n rssi p.tree subscriptions hq hreport hn hsub

theorem reaction_characteristicRead (settings : Settings) (p : Peer H) (status : Status)
    (uuid : Uuid) (value : Octets) :
    p.Reaction (.characteristicRead status uuid value)
      (p.characteristicRead settings status uuid value).state
      (Effect.notices (p.characteristicRead settings status uuid value).effects) := by
  simp only [characteristicRead]
  cases ht : Pending.take? (· = .readCharacteristic uuid) p.pending with
  | none =>
    by_cases hf : p.forwards settings status uuid = true
    · have hnot := Pending.take?_eq_none_iff_notMem.mp ht
      simpa [hf] using Reaction.forwarded settings status uuid value rfl hnot hf
    · simpa [hf, unmatched] using Reaction.ignored
  | some taken =>
    obtain ⟨op, rest⟩ := taken
    obtain ⟨rfl, pre, post, hq, rfl⟩ := Pending.eq_of_take?_eq_some ht
    exact .completed pre _ post _ p.rssi p.tree p.subscriptions hq rfl rfl (.inl rfl)

theorem reaction_servicesDiscovered (p : Peer H) (ids : IdSource) (status : Status)
    (found : List (Gatt.Found H.Service)) :
    p.Reaction (.servicesDiscovered status found) (p.servicesDiscovered ids status found).state.1
      (Effect.notices (p.servicesDiscovered ids status found).effects) := by
  simp only [servicesDiscovered]
  cases ht : Pending.take? (· = .services) p.pending with
  | none => exact .ignored
  | some taken =>
    obtain ⟨op, rest⟩ := taken
    obtain ⟨rfl, pre, post, hq, rfl⟩ := Pending.eq_of_take?_eq_some ht
    dsimp only
    split_ifs
    · exact .completed pre _ post _ p.rssi _ p.subscriptions hq rfl rfl (.inl rfl)
    · exact .completed pre _ post _ p.rssi p.tree p.subscriptions hq rfl rfl (.inl rfl)

section Discovers

variable {α : Type} {p p' : Peer H} {ids ids' : IdSource} {status : Status}
  {parent? : Pending → Option AttrId} {current : Option AttrId}
  {rebuild : AttrId →
    Except Gatt.Unresolved (Gatt.Tree H.Service H.Characteristic H.Descriptor × IdSource)}
  {listing : Gatt.Tree H.Service H.Characteristic H.Descriptor → AttrId → List α}
  {outcome : Status → List α → PeerNotice} {ns : List Notice}

variable (p ids status parent? current rebuild listing outcome) in
/-- How the completion of a discovery below a parent comes out, whichever the tier. -/
inductive Discovers : Peer H → IdSource → List Notice → Prop
  | unmatched : Pending.takeDiscovery? parent? current p.pending = none → Discovers p ids []
  | rebuilt (id : AttrId) (rest : List Pending)
      (built : Gatt.Tree H.Service H.Characteristic H.Descriptor × IdSource) :
      Pending.takeDiscovery? parent? current p.pending = some (id, rest) → current = some id →
      status = .ok → rebuild id = .ok built →
      Discovers { p with tree := built.1, pending := rest } built.2
        [p.notice (outcome .ok (listing built.1 id))]
  | failed (id : AttrId) (rest : List Pending) :
      Pending.takeDiscovery? parent? current p.pending = some (id, rest) → current = some id →
      status ≠ .ok → Discovers { p with pending := rest } ids [p.notice (outcome status [])]
  | stale (id : AttrId) (rest : List Pending) :
      Pending.takeDiscovery? parent? current p.pending = some (id, rest) →
      (current = some id → ∃ u, rebuild id = .error u) →
      Discovers { p with pending := rest } ids [p.notice (outcome .stale [])]

theorem discovers_characteristicsDiscovered (p : Peer H) (ids : IdSource) (status : Status)
    (service : H.Service) (found : List (Gatt.FoundCharacteristic H.Characteristic)) :
    p.Discovers ids status Pending.service? (p.tree.services.idOf? service)
      (p.tree.rebuildCharacteristics ids · found)
      (fun t s => (t.characteristicsOf s).toOption.getD []) .characteristicsDiscovered
      (p.characteristicsDiscovered ids status service found).state.1
      (p.characteristicsDiscovered ids status service found).state.2
      (Effect.notices (p.characteristicsDiscovered ids status service found).effects) := by
  simp only [characteristicsDiscovered]
  cases ht : Pending.takeDiscovery? Pending.service? (p.tree.services.idOf? service) p.pending with
  | none => exact .unmatched ht
  | some taken =>
    obtain ⟨id, rest⟩ := taken
    dsimp only
    split_ifs with hid hok
    · subst hok
      split
      next built hbuilt => exact .rebuilt id rest built ht hid rfl hbuilt
      next u hu => exact .stale id rest ht fun _ => ⟨u, hu⟩
    · exact .failed id rest ht hid hok
    · exact .stale id rest ht fun h => absurd h hid

theorem discovers_descriptorsDiscovered (p : Peer H) (ids : IdSource) (status : Status)
    (characteristic : H.Characteristic) (found : List (Gatt.Found H.Descriptor)) :
    p.Discovers ids status Pending.characteristic? (p.tree.characteristics.idOf? characteristic)
      (p.tree.rebuildDescriptors ids · found)
      (fun t c => (t.descriptorsOf c).toOption.getD []) .descriptorsDiscovered
      (p.descriptorsDiscovered ids status characteristic found).state.1
      (p.descriptorsDiscovered ids status characteristic found).state.2
      (Effect.notices (p.descriptorsDiscovered ids status characteristic found).effects) := by
  simp only [descriptorsDiscovered]
  cases ht : Pending.takeDiscovery? Pending.characteristic?
      (p.tree.characteristics.idOf? characteristic) p.pending with
  | none => exact .unmatched ht
  | some taken =>
    obtain ⟨id, rest⟩ := taken
    dsimp only
    split_ifs with hid hok
    · subst hok
      split
      next built hbuilt => exact .rebuilt id rest built ht hid rfl hbuilt
      next u hu => exact .stale id rest ht fun _ => ⟨u, hu⟩
    · exact .failed id rest ht hid hok
    · exact .stale id rest ht fun h => absurd h hid

/-- A completed discovery takes out one pending discovery of its tier. -/
theorem Discovers.reaction (h : p.Discovers ids status parent? current rebuild listing outcome p' ids' ns)
    {report : PeerReport H} {asked : AttrId → Pending}
    (hasked : ∀ {op id}, parent? op = some id ↔ op = asked id)
    (hreport : ∀ id, report.operation? = some (asked id).operation)
    (houtcome : ∀ id status list, (outcome status list).operation? = some (asked id).operation) :
    p.Reaction report p' ns := by
  have hsplit {id : AttrId} {rest : List Pending}
      (ht : Pending.takeDiscovery? parent? current p.pending = some (id, rest)) :
      ∃ pre post, p.pending = pre ++ asked id :: post ∧ rest = pre ++ post := by
    obtain ⟨-, pre, op, post, hq, hrest, hop, -⟩ := Pending.takeDiscovery?_eq_some ht
    exact ⟨pre, post, by rw [hq, hasked.mp hop], hrest⟩
  cases h with
  | unmatched => exact .ignored
  | rebuilt id rest built ht =>
    obtain ⟨pre, post, hq, rfl⟩ := hsplit ht
    exact .completed pre _ post _ p.rssi built.1 p.subscriptions hq (hreport id) (houtcome id _ _)
      (.inl rfl)
  | failed id rest ht | stale id rest ht =>
    obtain ⟨pre, post, hq, rfl⟩ := hsplit ht
    exact .completed pre _ post _ p.rssi p.tree p.subscriptions hq (hreport id) (houtcome id _ _)
      (.inl rfl)

end Discovers

theorem reaction_receive (settings : Settings) (ids : IdSource) (p : Peer H)
    (report : PeerReport H) :
    p.Reaction report (p.receive settings ids report).state.1
      (Effect.notices (p.receive settings ids report).effects) := by
  cases report with
  | connected status => exact p.reaction_connectResult status
  | disconnected reason => exact p.reaction_linkLost reason
  | servicesDiscovered status found => exact p.reaction_servicesDiscovered ids status found
  | characteristicsDiscovered status service found =>
    exact (p.discovers_characteristicsDiscovered ids status service found).reaction
      Pending.service?_eq_some (fun _ => rfl) fun _ _ _ => rfl
  | descriptorsDiscovered status characteristic found =>
    exact (p.discovers_descriptorsDiscovered ids status characteristic found).reaction
      Pending.characteristic?_eq_some (fun _ => rfl) fun _ _ _ => rfl
  | characteristicRead status uuid value =>
    exact p.reaction_characteristicRead settings status uuid value
  | characteristicWritten status uuid =>
    exact p.reaction_complete rfl rfl fun q => ⟨q.rssi, q.subscriptions, rfl, .inl rfl⟩
  | descriptorRead status uuid value =>
    exact p.reaction_complete rfl rfl fun q => ⟨q.rssi, q.subscriptions, rfl, .inl rfl⟩
  | descriptorWritten status uuid =>
    exact p.reaction_complete rfl rfl fun q => ⟨q.rssi, q.subscriptions, rfl, .inl rfl⟩
  | notificationStateChanged status uuid enabled =>
    refine p.reaction_complete rfl rfl fun q => ?_
    split
    · exact ⟨q.rssi, _, rfl, .inr ⟨uuid, rfl⟩⟩
    · exact ⟨q.rssi, q.subscriptions, rfl, .inl rfl⟩
  | rssiRead status rssi =>
    refine p.reaction_complete rfl rfl fun q => ?_
    split
    · simp only [observe]
      split
      · exact ⟨q.rssi, q.subscriptions, rfl, .inl rfl⟩
      · exact ⟨some rssi, q.subscriptions, rfl, .inl rfl⟩
    · exact ⟨q.rssi, q.subscriptions, rfl, .inl rfl⟩

end Peer

end GattHub
