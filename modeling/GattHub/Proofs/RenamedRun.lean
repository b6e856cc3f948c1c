import GattHub.Proofs.Deed
import GattHub.Proofs.Naming
import GattHub.Proofs.Renaming
import Mathlib.Logic.Equiv.Basic

/-! A run whose native handles are others takes the same course: replies, identities and notices are
the same, and the calls name the new handles. Nothing of a handle counts but which it is. -/

namespace GattHub

variable {H : Handles} (ρ : Renaming H)

def PeerCall.rename : PeerCall H → PeerCall H
  | .discoverCharacteristics s filter => .discoverCharacteristics (ρ.service s) filter
  | .discoverDescriptors c => .discoverDescriptors (ρ.characteristic c)
  | .readCharacteristic c => .readCharacteristic (ρ.characteristic c)
  | .writeCharacteristic c value noResponse =>
    .writeCharacteristic (ρ.characteristic c) value noResponse
  | .readDescriptor d => .readDescriptor (ρ.descriptor d)
  | .writeDescriptor d value => .writeDescriptor (ρ.descriptor d) value
  | .subscribe c => .subscribe (ρ.characteristic c)
  | .unsubscribe c => .unsubscribe (ρ.characteristic c)
  | k => k

def HostCall.rename : HostCall H → HostCall H
  | .peer native k => .peer native (k.rename ρ)
  | k => k

def Gatt.Native.rename :
    Native H.Service H.Characteristic H.Descriptor → Native H.Service H.Characteristic H.Descriptor
  | .service k => .service (ρ.service k)
  | .characteristic k => .characteristic (ρ.characteristic k)
  | .descriptor k => .descriptor (ρ.descriptor k)

def PeerReport.rename : PeerReport H → PeerReport H
  | .servicesDiscovered status services =>
    .servicesDiscovered status (services.map (·.rename ρ.service))
  | .characteristicsDiscovered status service characteristics =>
    .characteristicsDiscovered status (ρ.service service)
      (characteristics.map (·.rename ρ.characteristic))
  | .descriptorsDiscovered status characteristic descriptors =>
    .descriptorsDiscovered status (ρ.characteristic characteristic)
      (descriptors.map (·.rename ρ.descriptor))
  | report => report

def Report.rename : Report H → Report H
  | .peer p report => .peer p (report.rename ρ)
  | report => report

def LogEntry.rename : LogEntry H → LogEntry H
  | .reported c report => .reported c (report.rename ρ)
  | .untracked c p report => .untracked c p (report.rename ρ)
  | .misrouted c report => .misrouted c (report.rename ρ)
  | .unmatched report p => .unmatched (report.rename ρ) p
  | entry => entry

def Effect.rename : Effect H → Effect H
  | .call c k refusal => .call c (k.rename ρ) refusal
  | .notice n => .notice n
  | .log entry => .log (entry.rename ρ)

/-- The same step with the new handles, given what becomes of the state. -/
def Step.rename {σ : Type} (f : σ → σ) (s : Step H σ) : Step H σ :=
  ⟨f s.state, s.effects.map (·.rename ρ)⟩

def Response.rename {σ α : Type} (f : σ → σ) (r : Response H σ α) : Response H σ α :=
  ⟨f r.state, r.result, r.effects.map (·.rename ρ)⟩

def Peer.rename (q : Peer H) : Peer H := { q with tree := q.tree.rename ρ }

def Central.rename (m : Central H) : Central H := { m with peers := m.peers.map (·.rename ρ) }

def Hub.rename (h : Hub H) : Hub H := { h with centrals := h.centrals.map (·.rename ρ) }

/-- The host answers the same when the calls that it gets name the new handles. -/
structure Answers.Renamed (answers answers' : Answers H) : Prop where
  refusal : ∀ c k, answers'.refusal c (k.rename ρ) = answers.refusal c k
  lookup : ∀ c p, answers'.lookup c p = answers.lookup c p
  attMtu : ∀ c native, answers'.attMtu c native = answers.attMtu c native

theorem PeerCall.rename_injective : Function.Injective (PeerCall.rename ρ) := by
  intro k k' h
  cases k <;> cases k' <;>
    simp_all [rename, ρ.service_injective.eq_iff, ρ.characteristic_injective.eq_iff,
      ρ.descriptor_injective.eq_iff]

theorem HostCall.rename_injective : Function.Injective (HostCall.rename ρ) := by
  intro k k' h
  cases k <;> cases k' <;> simp_all [rename, (PeerCall.rename_injective ρ).eq_iff]

/-- For every host there is one that answers so. -/
theorem Answers.exists_renamed (answers : Answers H) : ∃ answers', answers.Renamed ρ answers' := by
  refine ⟨⟨fun c k => (Function.partialInv (HostCall.rename ρ) k).bind (answers.refusal c),
    answers.lookup, answers.attMtu⟩, fun c k => ?_, fun _ _ => rfl, fun _ _ => rfl⟩
  simp only [Function.partialInv_left (HostCall.rename_injective ρ), Option.bind_some]

/-- An identity stands for the new handle just if it stood for the old one. -/
theorem Gatt.Tree.names_rename (t : Tree H.Service H.Characteristic H.Descriptor) {x : AttrId}
    {a : Native H.Service H.Characteristic H.Descriptor} :
    (t.rename ρ).Names x (a.rename ρ) ↔ t.Names x a := by
  have hiff {κ τ : Type} {f : κ → κ} (hf : Function.Injective f) (t : HandleTable κ τ) (k : κ) :
      (t.rename hf).handle? x = some (f k) ↔ t.handle? x = some k := by
    rw [HandleTable.handle?, HandleTable.get?_rename, HandleTable.handle?]
    cases t.get? x <;> simp [hf.eq_iff]
  cases a with
  | service k => exact hiff ρ.service_injective t.services k
  | characteristic k => exact hiff ρ.characteristic_injective t.characteristics k
  | descriptor k => exact hiff ρ.descriptor_injective t.descriptors k

namespace Peer

variable {answers answers' : Answers H} (q : Peer H)

@[simp] theorem state_rename : (q.rename ρ).state = q.state := rfl

@[simp] theorem central_rename : (q.rename ρ).central = q.central := rfl

@[simp] theorem id_rename : (q.rename ρ).id = q.id := rfl

@[simp] theorem native_rename : (q.rename ρ).native = q.native := rfl

@[simp] theorem pending_rename : (q.rename ρ).pending = q.pending := rfl

@[simp] theorem tree_rename : (q.rename ρ).tree = q.tree.rename ρ := rfl

@[simp] theorem notice_rename (n : PeerNotice) : (q.rename ρ).notice n = q.notice n := rfl

theorem map_whenConnected {α β : Type} (x : Except Rejection α) (f : α → β) :
    (q.whenConnected x).map f = q.whenConnected (x.map f) := by
  simp only [whenConnected]
  split <;> rfl

theorem map_withEntry {κ τ α β : Type} (t : Gatt.HandleTable κ τ) (id : AttrId)
    (g : Gatt.Entry κ τ → α) (f : α → β) :
    (withEntry t id g).map f = withEntry t id fun e => f (g e) := by
  simp only [withEntry]
  cases t.get id <;> rfl

theorem withEntry_rename {κ τ α : Type} {f : κ → κ} (hf : Function.Injective f)
    (t : Gatt.HandleTable κ τ) (id : AttrId) (g : Gatt.Entry κ τ → α) :
    withEntry (t.rename hf) id g = withEntry t id fun e => g (e.rename f) := by
  simp only [withEntry, Gatt.HandleTable.get_rename]
  cases t.get id <;> rfl

theorem prepare_rename (action : PeerAction) :
    (q.rename ρ).prepare action = (q.prepare action).map fun prepared =>
      ⟨prepared.call.rename ρ, prepared.next.rename ρ, prepared.log.map (·.rename ρ)⟩ := by
  cases action with
  | connect | disconnect | readRssi =>
    cases hs : q.state <;> simp only [prepare, state_rename, hs] <;> rfl
  | discoverServices filter =>
    simp only [prepare, map_whenConnected]
    rfl
  | writeCharacteristic characteristic value noResponse =>
    simp only [prepare, map_whenConnected, map_withEntry]
    -- the call depends on whether a response is awaited
    exact congrArg q.whenConnected ((withEntry_rename ρ.characteristic_injective _ _ _).trans
      (by cases noResponse <;> rfl))
  | discoverCharacteristics service =>
    simp only [prepare, map_whenConnected, map_withEntry]
    exact congrArg q.whenConnected (withEntry_rename ρ.service_injective _ _ _)
  | readDescriptor | writeDescriptor =>
    simp only [prepare, map_whenConnected, map_withEntry]
    exact congrArg q.whenConnected (withEntry_rename ρ.descriptor_injective _ _ _)
  | _ =>
    simp only [prepare, map_whenConnected, map_withEntry]
    exact congrArg q.whenConnected (withEntry_rename ρ.characteristic_injective _ _ _)

theorem perform_rename (hanswers : answers.Renamed ρ answers') (action : PeerAction) :
    (q.rename ρ).perform answers' action = (q.perform answers action).rename ρ (·.rename ρ) := by
  simp only [perform, prepare_rename]
  cases q.prepare action with
  | error reason => rfl
  | ok prepared =>
    have hrefusal := hanswers.refusal q.central (.peer q.native prepared.call)
    simp only [HostCall.rename] at hrefusal
    simp only [Except.map, rename, hrefusal]
    cases answers.refusal q.central (.peer q.native prepared.call) with
    | some r => rfl
    | none => simp [Response.rename, Effect.rename, HostCall.rename]

theorem attMtu_rename (hanswers : answers.Renamed ρ answers') :
    (q.rename ρ).attMtu answers' = (q.attMtu answers).rename ρ (·.rename ρ) := by
  have hrefusal : answers'.refusal q.central (.peer q.native .attMtu) =
      answers.refusal q.central (.peer q.native .attMtu) :=
    hanswers.refusal q.central (.peer q.native .attMtu)
  cases hs : q.state with
  | connected =>
    simp only [attMtu, whenConnected, state_rename, hs, central_rename, native_rename, hrefusal,
      hanswers.attMtu]
    cases answers.attMtu q.central q.native <;> rfl
  | _ =>
    simp only [attMtu, whenConnected, state_rename, hs]
    rfl

theorem cancellations_rename : (q.rename ρ).cancellations = q.cancellations.map (·.rename ρ) := by
  simp only [cancellations, List.map_flatMap]
  rfl

theorem connectResult_rename (status : Status) :
    (q.rename ρ).connectResult status = (q.connectResult status).rename ρ (·.rename ρ) := by
  cases hs : q.state with
  | connecting =>
    simp only [connectResult, state_rename, hs, cancellations_rename]
    split
    · rfl
    · simp [Step.rename, Effect.rename, LogEntry.rename]
      rfl
  | _ =>
    simp only [connectResult, state_rename, hs]
    rfl

theorem linkLost_rename (reason : Status) :
    (q.rename ρ).linkLost reason = (q.linkLost reason).rename ρ (·.rename ρ) := by
  simp only [linkLost, state_rename, cancellations_rename]
  split
  · rfl
  · simp [Step.rename, Effect.rename, LogEntry.rename]
    rfl

theorem teardown_rename (hanswers : answers.Renamed ρ answers') :
    (q.rename ρ).teardown answers' = (q.teardown answers).rename ρ (·.rename ρ) := by
  have hrefusal : answers'.refusal q.central (.peer q.native .cancelConnection) =
      answers.refusal q.central (.peer q.native .cancelConnection) :=
    hanswers.refusal q.central (.peer q.native .cancelConnection)
  cases hs : q.state with
  | disconnected =>
    simp only [teardown, state_rename, hs]
    rfl
  | disconnecting => simp only [teardown, state_rename, hs, linkLost_rename]
  | connecting | connected =>
    simp only [teardown, state_rename, hs, linkLost_rename, central_rename, native_rename, hrefusal]
    cases answers.refusal q.central (.peer q.native .cancelConnection) <;> rfl

theorem complete_rename {report : PeerReport H} (hreport : report.rename ρ = report) (op : Pending)
    (n : PeerNotice) {f : Peer H → Peer H} (hf : ∀ q, f (q.rename ρ) = (f q).rename ρ) :
    (q.rename ρ).complete report op n f = (q.complete report op n f).rename ρ (·.rename ρ) := by
  simp only [complete, pending_rename]
  cases Pending.take? (· = op) q.pending with
  | none => simp [unmatched, Step.rename, Effect.rename, LogEntry.rename, hreport]
  | some taken =>
    have hnext := hf { q with pending := taken.2 }
    simp only [Step.rename, ← hnext]
    rfl

theorem characteristicRead_rename (settings : Settings) (status : Status) (uuid : Uuid)
    (value : Octets) : (q.rename ρ).characteristicRead settings status uuid value =
      (q.characteristicRead settings status uuid value).rename ρ (·.rename ρ) := by
  simp only [characteristicRead, pending_rename]
  cases Pending.take? (· = .readCharacteristic uuid) q.pending with
  | some taken => rfl
  | none =>
    have hforwards : (q.rename ρ).forwards settings status uuid = q.forwards settings status uuid :=
      rfl
    cases hf : q.forwards settings status uuid <;> simp only [hforwards, hf] <;> rfl

theorem servicesDiscovered_rename (ids : IdSource) (status : Status)
    (found : List (Gatt.Found H.Service)) :
    (q.rename ρ).servicesDiscovered ids status (found.map (·.rename ρ.service)) =
      (q.servicesDiscovered ids status found).rename ρ fun s => (s.1.rename ρ, s.2) := by
  simp only [servicesDiscovered, pending_rename]
  cases Pending.take? (· = .services) q.pending with
  | none => rfl
  | some taken =>
    simp only [tree_rename, Gatt.Tree.rebuildServices_rename, Gatt.Tree.serviceList_rename]
    split <;> rfl

theorem characteristicsDiscovered_rename (ids : IdSource) (status : Status) (service : H.Service)
    (found : List (Gatt.FoundCharacteristic H.Characteristic)) :
    (q.rename ρ).characteristicsDiscovered ids status (ρ.service service)
        (found.map (·.rename ρ.characteristic)) =
      (q.characteristicsDiscovered ids status service found).rename ρ
        fun s => (s.1.rename ρ, s.2) := by
  have hcurrent : (q.rename ρ).tree.services.idOf? (ρ.service service) =
      q.tree.services.idOf? service := Gatt.HandleTable.idOf?_rename _ _ _
  simp only [characteristicsDiscovered, hcurrent, pending_rename]
  cases Pending.takeDiscovery? Pending.service? (q.tree.services.idOf? service) q.pending with
  | none => rfl
  | some taken =>
    simp only [tree_rename, Gatt.Tree.rebuildCharacteristics_rename]
    -- identities are compared here, and the new handle has the one of the old handle
    by_cases hlive : q.tree.services.idOf? service = some taken.1
    · simp only [if_pos hlive]
      split
      · cases q.tree.rebuildCharacteristics ids taken.1 found with
        | error u => rfl
        | ok built =>
          simp only [Except.map, Gatt.Tree.characteristicsOf_rename]
          rfl
      · rfl
    · simp only [if_neg hlive]
      rfl

theorem descriptorsDiscovered_rename (ids : IdSource) (status : Status)
    (characteristic : H.Characteristic) (found : List (Gatt.Found H.Descriptor)) :
    (q.rename ρ).descriptorsDiscovered ids status (ρ.characteristic characteristic)
        (found.map (·.rename ρ.descriptor)) =
      (q.descriptorsDiscovered ids status characteristic found).rename ρ
        fun s => (s.1.rename ρ, s.2) := by
  have hcurrent : (q.rename ρ).tree.characteristics.idOf? (ρ.characteristic characteristic) =
      q.tree.characteristics.idOf? characteristic := Gatt.HandleTable.idOf?_rename _ _ _
  simp only [descriptorsDiscovered, hcurrent, pending_rename]
  cases Pending.takeDiscovery? Pending.characteristic?
    (q.tree.characteristics.idOf? characteristic) q.pending with
  | none => rfl
  | some taken =>
    simp only [tree_rename, Gatt.Tree.rebuildDescriptors_rename]
    by_cases hlive : q.tree.characteristics.idOf? characteristic = some taken.1
    · simp only [if_pos hlive]
      split
      · cases q.tree.rebuildDescriptors ids taken.1 found with
        | error u => rfl
        | ok built =>
          simp only [Except.map, Gatt.Tree.descriptorsOf_rename]
          rfl
      · rfl
    · simp only [if_neg hlive]
      rfl

theorem observe_rename (level : Level) : (q.rename ρ).observe level = (q.observe level).rename ρ := by
  simp only [observe]
  split <;> rfl

theorem receive_rename (settings : Settings) (ids : IdSource) (report : PeerReport H) :
    (q.rename ρ).receive settings ids (report.rename ρ) =
      (q.receive settings ids report).rename ρ fun s => (s.1.rename ρ, s.2) := by
  have hkeep {s s' : Step H (Peer H)} (h : s' = s.rename ρ (·.rename ρ)) :
      Step.mk (s'.state, ids) s'.effects =
        (Step.mk (s.state, ids) s.effects).rename ρ fun s => (s.1.rename ρ, s.2) := by
    subst h
    rfl
  cases report with
  | connected status => exact hkeep (q.connectResult_rename ρ status)
  | disconnected reason => exact hkeep (q.linkLost_rename ρ reason)
  | servicesDiscovered status found => exact q.servicesDiscovered_rename ρ ids status found
  | characteristicsDiscovered status service found =>
    exact q.characteristicsDiscovered_rename ρ ids status service found
  | descriptorsDiscovered status characteristic found =>
    exact q.descriptorsDiscovered_rename ρ ids status characteristic found
  | characteristicRead status uuid value =>
    exact hkeep (q.characteristicRead_rename ρ settings status uuid value)
  | notificationStateChanged status uuid enabled =>
    refine hkeep (q.complete_rename ρ rfl _ _ fun q => ?_)
    split <;> rfl
  | rssiRead status rssi =>
    refine hkeep (q.complete_rename ρ rfl _ _ fun q => ?_)
    split
    · exact q.observe_rename ρ rssi
    · rfl
  | characteristicWritten | descriptorRead | descriptorWritten =>
    exact hkeep (q.complete_rename ρ rfl _ _ fun _ => rfl)

end Peer

namespace Central

variable {answers answers' : Answers H} (m : Central H)

@[simp] theorem id_rename : (m.rename ρ).id = m.id := rfl

@[simp] theorem scan_rename : (m.rename ρ).scan = m.scan := rfl

theorem get?_rename (p : PeerId) :
    (m.rename ρ).peers.get? p = (m.peers.get? p).map (·.rename ρ) := Table.get?_map _ _ _

theorem info_rename : (m.rename ρ).info = m.info := by
  simp only [info, rename, Table.keys_map]

theorem peer_rename (p : PeerId) : (m.rename ρ).peer p = (m.peer p).map (·.rename ρ) := by
  rw [peer, get?_rename, peer]
  cases m.peers.get? p <;> rfl

/-- The manager with a peer in the given state. -/
theorem insert_rename (p : PeerId) (q : Peer H) :
    ({ m.rename ρ with peers := (m.rename ρ).peers.insert p (q.rename ρ) } : Central H) =
      ({ m with peers := m.peers.insert p q } : Central H).rename ρ := by
  simp only [rename, Table.insert_map]

theorem call_rename (hanswers : answers.Renamed ρ answers') (k : HostCall H) :
    (m.rename ρ).call answers' (k.rename ρ) = (m.call answers k).rename ρ := by
  simp only [call, Effect.rename, hanswers.refusal]
  rfl

theorem startScan_rename (hanswers : answers.Renamed ρ answers') (allowDuplicates : Bool) :
    (m.rename ρ).startScan answers' allowDuplicates =
      (m.startScan answers allowDuplicates).rename ρ (·.rename ρ) := by
  have hcall := m.call_rename ρ hanswers (.scan allowDuplicates)
  simp only [HostCall.rename] at hcall
  simp only [startScan, hcall, scan_rename]
  cases m.scan <;> rfl

theorem stopScan_rename (hanswers : answers.Renamed ρ answers') :
    (m.rename ρ).stopScan answers' = (m.stopScan answers).rename ρ (·.rename ρ) := by
  have hcall := m.call_rename ρ hanswers .stopScan
  simp only [HostCall.rename] at hcall
  simp only [stopScan, hcall, scan_rename]
  cases m.scan <;> rfl

theorem withPeer_rename (hanswers : answers.Renamed ρ answers') (p : PeerId) {α : Type}
    {f f' : Peer H → Response H (Peer H) α}
    (hf : ∀ q, f' (q.rename ρ) = (f q).rename ρ (·.rename ρ)) :
    (m.rename ρ).withPeer answers' p f' = (m.withPeer answers p f).rename ρ (·.rename ρ) := by
  have hcall := m.call_rename ρ hanswers (.lookup p)
  simp only [HostCall.rename] at hcall
  simp only [withPeer, track, get?_rename]
  cases m.peers.get? p with
  | some q =>
    simp only [Option.map_some, hf, Response.rename, insert_rename]
    rfl
  | none =>
    simp only [Option.map_none, hcall, hanswers.lookup, id_rename]
    cases answers.lookup m.id p with
    | none => rfl
    | some native =>
      have hnew : (Peer.new m.id p native : Peer H).rename ρ = .new m.id p native := rfl
      have hnext := hf (.new m.id p native)
      have htracked : ((m.rename ρ).peers.insert p (.new m.id p native)) =
          (m.peers.insert p (.new m.id p native)).map (·.rename ρ) := by
        rw [← Table.insert_map, hnew]
        rfl
      rw [hnew] at hnext
      simp only [htracked, hnext, Response.rename, Table.insert_map, List.map_append]
      rfl

theorem forget_rename (p : PeerId) :
    (m.rename ρ).forget p = (m.forget p).rename ρ (·.rename ρ) := by
  simp only [forget, peer_rename]
  cases m.peer p with
  | error reason => rfl
  | ok q =>
    simp only [Except.map, Peer.state_rename]
    by_cases hdown : q.state = .disconnected
    · simp only [hdown, reduceIte, rename, Table.erase_map]
      rfl
    · simp only [hdown, reduceIte]
      rfl

theorem advertised_rename (record : Advertisement) :
    (m.rename ρ).advertised record = (m.advertised record).rename ρ (·.rename ρ) := by
  have hseen : (m.rename ρ).peers.modify record.peer (fun p => p.observe record.rssi) =
      (m.peers.modify record.peer fun p => p.observe record.rssi).map (·.rename ρ) :=
    Table.modify_map _ _ fun q => q.observe_rename ρ record.rssi
  simp only [advertised, hseen, scan_rename]
  cases m.scan with
  | none => rfl
  | some scan =>
    dsimp only
    split <;> rfl

theorem peerReported_rename (settings : Settings) (ids : IdSource) (p : PeerId)
    (report : PeerReport H) : (m.rename ρ).peerReported settings ids p (report.rename ρ) =
      (m.peerReported settings ids p report).rename ρ fun s => (s.1.rename ρ, s.2) := by
  simp only [peerReported, get?_rename]
  cases m.peers.get? p with
  | none => rfl
  | some q => simp only [Option.map_some, Peer.receive_rename, Step.rename, insert_rename]

theorem receive_rename (settings : Settings) (ids : IdSource) (report : Report H) :
    (m.rename ρ).receive settings ids (report.rename ρ) =
      (m.receive settings ids report).rename ρ fun s => (s.1.rename ρ, s.2) := by
  cases report with
  | stateChanged on message => rfl
  | advertised record =>
    have h := m.advertised_rename ρ record
    simp only [Report.rename, receive, h]
    rfl
  | peer p report =>
    have h := m.peerReported_rename ρ settings ids p report
    simp only [Report.rename, receive, h]
    rfl

theorem teardown_rename (hanswers : answers.Renamed ρ answers') (order : List PeerId) :
    (m.rename ρ).teardown answers' order = (m.teardown answers order).map (·.rename ρ) := by
  have hclose := m.call_rename ρ hanswers .close
  simp only [HostCall.rename] at hclose
  have hpeers : order.filterMap (m.rename ρ).peers.get? =
      (order.filterMap m.peers.get?).map (·.rename ρ) := by
    rw [List.map_filterMap]
    exact List.filterMap_congr fun p _ => m.get?_rename ρ p
  have hparts : (order.filterMap (m.rename ρ).peers.get?).flatMap
        (fun q => (q.teardown answers').effects) =
      ((order.filterMap m.peers.get?).flatMap fun q => (q.teardown answers).effects).map
        (·.rename ρ) := by
    rw [hpeers, List.flatMap_map, List.map_flatMap]
    exact List.flatMap_congr fun q _ => by rw [q.teardown_rename ρ hanswers]; rfl
  simp only [teardown, hparts, hclose, m.stopScan_rename ρ hanswers, scan_rename, List.map_append]
  cases m.scan <;> rfl

end Central

namespace Hub

variable {answers answers' : Answers H} (h : Hub H)

@[simp] theorem next_rename : (h.rename ρ).next = h.next := rfl

@[simp] theorem settings_rename : (h.rename ρ).settings = h.settings := rfl

@[simp] theorem ids_rename : (h.rename ρ).ids = h.ids := rfl

theorem get?_rename (c : CentralId) :
    (h.rename ρ).centrals.get? c = (h.centrals.get? c).map (·.rename ρ) := Table.get?_map _ _ _

theorem peer?_rename (c : CentralId) (p : PeerId) :
    (h.rename ρ).peer? c p = (h.peer? c p).map (·.rename ρ) := by
  rw [peer?, get?_rename, peer?]
  cases h.centrals.get? c with
  | none => rfl
  | some m => exact m.get?_rename ρ p

theorem names_rename {c : CentralId} {p : PeerId} {x : AttrId}
    {a : Gatt.Native H.Service H.Characteristic H.Descriptor} :
    (h.rename ρ).Names c p x (a.rename ρ) ↔ h.Names c p x a := by
  simp only [Names, peer?_rename]
  cases h.peer? c p with
  | none => simp
  | some q => simp [q.tree.names_rename ρ]

theorem central_rename (c : CentralId) :
    (h.rename ρ).central c = (h.central c).map (·.rename ρ) := by
  rw [central, get?_rename, central]
  cases h.centrals.get? c <;> rfl

theorem centralIds_rename : (h.rename ρ).centralIds = h.centralIds := by
  simp only [centralIds, rename, Table.keys_map]

theorem insert_rename (c : CentralId) (m : Central H) :
    ({ h.rename ρ with centrals := (h.rename ρ).centrals.insert c (m.rename ρ) } : Hub H) =
      ({ h with centrals := h.centrals.insert c m } : Hub H).rename ρ := by
  simp only [rename, Table.insert_map]

/-- Questions are answered the same. -/
theorem answer_rename (q : Query PeerId) : (h.rename ρ).answer q = h.answer q := by
  have hpeer (c : CentralId) (p : PeerId) :
      (h.rename ρ).peer c p = (h.peer c p).map (·.rename ρ) := by
    simp only [Hub.peer, central_rename]
    cases h.central c with
    | error reason => rfl
    | ok m => exact m.peer_rename ρ p
  cases q with
  | centrals => simp only [answer, centralIds_rename]
  | central c | scanning c =>
    simp only [answer, central_rename]
    cases h.central c with
    | error reason => rfl
    | ok m => simp only [Except.map, Central.info_rename]
  | peer c p | linkState c p | rssi c p =>
    simp only [answer, hpeer]
    cases h.peer c p <;> rfl
  | services c p =>
    simp only [answer, hpeer]
    cases h.peer c p with
    | error reason => rfl
    | ok q => simp only [Except.map, Peer.tree_rename, Gatt.Tree.serviceList_rename]
  | characteristics c p id =>
    simp only [answer, hpeer]
    cases h.peer c p with
    | error reason => rfl
    | ok q =>
      simp only [Except.map, Except.bind, Peer.tree_rename, Gatt.Tree.characteristicsOf_rename]
  | descriptors c p id =>
    simp only [answer, hpeer]
    cases h.peer c p with
    | error reason => rfl
    | ok q => simp only [Except.map, Except.bind, Peer.tree_rename, Gatt.Tree.descriptorsOf_rename]

theorem allocate_rename (hanswers : answers.Renamed ρ answers') :
    (h.rename ρ).allocate answers' = (h.allocate answers).rename ρ (·.rename ρ) := by
  have hrefusal : answers'.refusal h.next .openCentral = answers.refusal h.next .openCentral :=
    hanswers.refusal h.next .openCentral
  simp only [allocate, next_rename, hrefusal]
  cases answers.refusal h.next .openCentral with
  | some r => rfl
  | none =>
    have hnew : (Central.new h.next : Central H).rename ρ = .new h.next := rfl
    simp only [Response.rename, rename, ← Table.insert_map, hnew]
    rfl

theorem withCentral_rename (c : CentralId) {α : Type} {f f' : Central H → Response H (Central H) α}
    (hf : ∀ m, f' (m.rename ρ) = (f m).rename ρ (·.rename ρ)) :
    (h.rename ρ).withCentral c f' = (h.withCentral c f).rename ρ (·.rename ρ) := by
  simp only [withCentral, central_rename]
  cases h.central c with
  | error reason => rfl
  | ok m => simp only [Except.map, hf, Response.rename, insert_rename]

theorem destroy_rename (hanswers : answers.Renamed ρ answers') (c : CentralId) :
    (h.rename ρ).destroy answers' c = (h.destroy answers c).rename ρ (·.rename ρ) := by
  simp only [destroy, destroyIn, central_rename]
  cases h.central c with
  | error reason => rfl
  | ok m =>
    have horder : trackingOrder (m.rename ρ) = trackingOrder m := m.peers.keys_map _
    simp only [Except.map, horder, m.teardown_rename ρ hanswers, Response.rename, rename,
      Table.erase_map, List.map_append]
    rfl

theorem shutdown_rename (hanswers : answers.Renamed ρ answers') :
    (h.rename ρ).shutdown answers' = (h.shutdown answers).rename ρ (·.rename ρ) := by
  have hfold (ids : List CentralId) (s : Step H (Hub H)) :
      ids.foldl (fun s c => Step.mk (s.state.destroy answers' c).state
          (s.effects ++ (s.state.destroy answers' c).effects)) (s.rename ρ (·.rename ρ)) =
        (ids.foldl (fun s c => Step.mk (s.state.destroy answers c).state
          (s.effects ++ (s.state.destroy answers c).effects)) s).rename ρ (·.rename ρ) := by
    induction ids generalizing s with
    | nil => rfl
    | cons c ids ih =>
      rw [List.foldl_cons, List.foldl_cons, ← ih]
      simp only [Step.rename, destroy_rename ρ _ hanswers, List.map_append]
      rfl
  simp only [shutdown, shutdownIn, centralIds_rename]
  exact hfold h.centralIds ⟨h, []⟩

theorem noting_rename {α : Type} (c : CentralId) (p : PeerId) (r : Response H (Hub H) α) :
    noting c p (r.rename ρ (·.rename ρ)) = (noting c p r).rename ρ (·.rename ρ) := by
  obtain ⟨state, result, effects⟩ := r
  cases result with
  | ok a => rfl
  | error reason => simp [noting, Response.rename, Effect.rename, LogEntry.rename]

theorem reply_rename {α : Type} (r : Response H (Hub H) α) (f : α → Reply) :
    reply (r.rename ρ (·.rename ρ)) f = (reply r f).rename ρ (·.rename ρ) := rfl

theorem request_rename (hanswers : answers.Renamed ρ answers') (r : Request PeerId) :
    (h.rename ρ).request answers' r = (h.request answers r).rename ρ (·.rename ρ) := by
  cases r with
  | allocate => simp only [request, h.allocate_rename ρ hanswers, reply_rename]
  | destroy c => simp only [request, h.destroy_rename ρ hanswers, reply_rename]
  | scan c allowDuplicates =>
    simp only [request, ← reply_rename]
    rw [h.withCentral_rename ρ c fun m => m.startScan_rename ρ hanswers allowDuplicates]
  | stopScan c =>
    have hstop (m : Central H) :
        Response.mk ((m.rename ρ).stopScan answers').state (.ok ())
            ((m.rename ρ).stopScan answers').effects =
          (Response.mk (m.stopScan answers).state (.ok ()) (m.stopScan answers).effects).rename ρ
            (·.rename ρ) := by
      rw [m.stopScan_rename ρ hanswers]
      rfl
    simp only [request, ← reply_rename]
    rw [h.withCentral_rename ρ c hstop]
  | forget c p =>
    simp only [request, ← reply_rename, ← noting_rename]
    rw [h.withCentral_rename ρ c fun m => m.forget_rename ρ p]
  | act c p action =>
    simp only [request, ← reply_rename, ← noting_rename]
    rw [h.withCentral_rename ρ c fun m => m.withPeer_rename ρ hanswers p fun q =>
      q.perform_rename ρ hanswers action]
  | attMtu c p =>
    simp only [request, ← reply_rename]
    rw [h.withCentral_rename ρ c fun m => m.withPeer_rename ρ hanswers p fun q =>
      q.attMtu_rename ρ hanswers]
  | query q => simp only [request, Response.rename, answer_rename, List.map_nil]

theorem receive_rename (c : CentralId) (report : Report H) :
    (h.rename ρ).receive c (report.rename ρ) = (h.receive c report).rename ρ (·.rename ρ) := by
  simp only [receive, get?_rename]
  cases h.centrals.get? c with
  | none => rfl
  | some m =>
    have hreceive := m.receive_rename ρ h.settings h.ids report
    simp only [Option.map_some, settings_rename, ids_rename, hreceive]
    simp only [Step.rename, rename, Table.insert_map]

end Hub

/-- The same message with the new handles. Requests name no handles. -/
inductive Move.Renamed : Move H → Move H → Prop
  | request (answers answers' : Answers H) (r : Request PeerId) : answers.Renamed ρ answers' →
      Move.Renamed (.request answers r) (.request answers' r)
  | report (c : CentralId) (r : Report H) : Move.Renamed (.report c r) (.report c (r.rename ρ))
  | shutdown (answers answers' : Answers H) : answers.Renamed ρ answers' →
      Move.Renamed (.shutdown answers) (.shutdown answers')

/-- The same moment with the new handles: the reply is the same, and so is what happens but for the
handles that are named. -/
structure Moment.Renamed (t t' : Moment H) : Prop where
  hub_eq : t'.hub = t.hub.rename ρ
  move : t.move.Renamed ρ t'.move
  reply_eq : t'.reply? = t.reply?
  effects_eq : t'.effects = t.effects.map (·.rename ρ)

theorem Moment.renamed {h : Hub H} {m m' : Move H} (hm : m.Renamed ρ m') :
    (Moment.mk h m).Renamed ρ ⟨h.rename ρ, m'⟩ ∧
      (Moment.mk (h.rename ρ) m').after = (Moment.mk h m).after.map (·.rename ρ) := by
  cases hm with
  | request answers answers' r hanswers =>
    have hrequest := h.request_rename ρ hanswers r
    have hresult : ((h.rename ρ).request answers' r).result = (h.request answers r).result := by
      rw [hrequest]
      rfl
    exact ⟨⟨rfl, .request answers answers' r hanswers, congrArg some hresult,
      congrArg Response.effects hrequest⟩, congrArg some (congrArg Response.state hrequest)⟩
  | report c r =>
    have hreceive := h.receive_rename ρ c r
    exact ⟨⟨rfl, .report c r, rfl, congrArg Step.effects hreceive⟩,
      congrArg some (congrArg Step.state hreceive)⟩
  | shutdown answers answers' hanswers =>
    have hshutdown := h.shutdown_rename ρ hanswers
    exact ⟨⟨rfl, .shutdown answers answers' hanswers, rfl, congrArg Step.effects hshutdown⟩, rfl⟩

namespace Effect

theorem notices_rename (es : List (Effect H)) : notices (es.map (·.rename ρ)) = notices es := by
  rw [notices, List.filterMap_map, notices]
  congr 1
  funext e
  cases e <;> rfl

theorem calls_rename (es : List (Effect H)) :
    calls (es.map (·.rename ρ)) = (calls es).map fun k => (k.1, k.2.rename ρ) := by
  rw [calls, List.filterMap_map, calls, List.map_filterMap]
  congr 1
  funext e
  cases e <;> rfl

end Effect

namespace Run

/-- The same run with the new handles. -/
structure Renamed (r r' : Run H) : Prop where
  hub_eq : r'.hub = r.hub.map (·.rename ρ)
  past : List.Forall₂ (Moment.Renamed ρ) r.past r'.past

variable {ρ}

theorem Renamed.take {r r' : Run H} (hr : r.Renamed ρ r') {m m' : Move H}
    (hm : m.Renamed ρ m') : (r.take m).Renamed ρ (r'.take m') := by
  have hhub := hr.hub_eq
  cases hh : r.hub with
  | none =>
    rw [hh] at hhub
    rwa [take_none hh, take_none hhub]
  | some h =>
    rw [hh] at hhub
    obtain ⟨hmoment, hafter⟩ := Moment.renamed ρ (h := h) hm
    rw [take_some hh, take_some hhub]
    exact ⟨hafter, List.rel_append hr.past (.cons hmoment .nil)⟩

theorem renamed (settings : Settings) {ms ms' : List (Move H)}
    (hms : List.Forall₂ (Move.Renamed ρ) ms ms') :
    (of settings ms).Renamed ρ (of settings ms') := by
  have hfold {r r' : Run H} (hr : r.Renamed ρ r') :
      (ms.foldl Run.take r).Renamed ρ (ms'.foldl Run.take r') := by
    induction hms generalizing r r' with
    | nil => exact hr
    | cons hm _ ih => exact ih (hr.take hm)
  exact hfold ⟨rfl, .nil⟩

/-- Every run can take new handles. -/
theorem exists_renamed (ρ : Renaming H) (ms : List (Move H)) :
    ∃ ms', List.Forall₂ (Move.Renamed ρ) ms ms' := by
  have hmove (m : Move H) : ∃ m', m.Renamed ρ m' := by
    cases m with
    | request answers r =>
      obtain ⟨answers', hanswers⟩ := answers.exists_renamed ρ
      exact ⟨_, .request answers answers' r hanswers⟩
    | report c r => exact ⟨_, .report c r⟩
    | shutdown answers =>
      obtain ⟨answers', hanswers⟩ := answers.exists_renamed ρ
      exact ⟨_, .shutdown answers answers' hanswers⟩
  induction ms with
  | nil => exact ⟨[], .nil⟩
  | cons m ms ih =>
    obtain ⟨m', hm⟩ := hmove m
    obtain ⟨ms', hms⟩ := ih
    exact ⟨m' :: ms', .cons hm hms⟩

/-- The native handles of services, characteristics and descriptors can be replaced by any others, as
long as different ones stay different: a run with the others in their place exists, and step by step
it has the same replies and notices, and the same calls with the handles in them replaced. Managers
and attributes have the same identities. -/
theorem handles_only_compared (ρ : Renaming H) (settings : Settings) (ms : List (Move H)) :
    (∃ ms', List.Forall₂ (Move.Renamed ρ) ms ms') ∧
    ∀ ms', List.Forall₂ (Move.Renamed ρ) ms ms' →
      List.Forall₂ (fun t t' => t'.reply? = t.reply? ∧ t'.notices = t.notices ∧
        Effect.calls t'.effects = (Effect.calls t.effects).map (fun k => (k.1, k.2.rename ρ)) ∧
        t'.effects = t.effects.map (·.rename ρ)) (of settings ms).past (of settings ms').past ∧
      (of settings ms').hub = (of settings ms).hub.map (·.rename ρ) ∧
      ∀ h h', (of settings ms).hub = some h → (of settings ms').hub = some h' →
        h'.next = h.next ∧ h'.ids = h.ids ∧
        ∀ c p x a, h'.Names c p x (a.rename ρ) ↔ h.Names c p x a := by
  refine ⟨exists_renamed ρ ms, fun ms' hms => ?_⟩
  obtain ⟨hhub, hpast⟩ := renamed settings hms
  refine ⟨hpast.imp fun t t' ht => ?_, hhub, fun h h' hh hh' => ?_⟩
  · have heffects := ht.effects_eq
    refine ⟨ht.reply_eq, ?_, ?_, heffects⟩
    · rw [Moment.notices, heffects, Effect.notices_rename]
      rfl
    · rw [heffects, Effect.calls_rename]
  · rw [hh, hh'] at hhub
    cases hhub
    exact ⟨rfl, rfl, fun c p x a => h.names_rename ρ⟩

/-- Two services are discovered, then two characteristics of the first of them, and the first of
these is read. -/
def readMoves (s₁ s₂ c₁ c₂ : Nat) : List (Move .numbers) :=
  [.request .agreeing .allocate, .request .agreeing (.act ⟨1⟩ default .connect),
    .report ⟨1⟩ (.peer default (.connected .ok)),
    .request .agreeing (.act ⟨1⟩ default (.discoverServices [])),
    .report ⟨1⟩ (.peer default (.servicesDiscovered .ok [⟨s₁, default⟩, ⟨s₂, default⟩])),
    .request .agreeing (.act ⟨1⟩ default (.discoverCharacteristics ⟨1⟩ [])),
    .report ⟨1⟩ (.peer default
      (.characteristicsDiscovered .ok s₁ [⟨c₁, default, 0⟩, ⟨c₂, default, 0⟩])),
    .request .agreeing (.act ⟨1⟩ default (.readCharacteristic ⟨3⟩))]

/-- Handles change places with their neighbours. -/
def swapping : Renaming .numbers where
  service := Equiv.swap 1 2
  characteristic := Equiv.swap 10 11
  descriptor := id
  service_injective := Equiv.injective _
  characteristic_injective := Equiv.injective _
  descriptor_injective := Function.injective_id

/-- The characteristic that is read has the identity 3 in both runs. -/
theorem handles_only_compared_swapped :
    let calls : List (Move .numbers) → List (CentralId × HostCall .numbers) := fun ms =>
      (of .default ms).past.flatMap fun t => Effect.calls t.effects
    List.Forall₂ (Move.Renamed swapping) (readMoves 1 2 10 11) (readMoves 2 1 11 10) ∧
      (of .default (readMoves 2 1 11 10)).past.map Moment.notices =
        (of .default (readMoves 1 2 10 11)).past.map Moment.notices ∧
      (calls (readMoves 1 2 10 11)).drop 4 =
        [(⟨1⟩, .peer 0 (.discoverCharacteristics 1 [])), (⟨1⟩, .peer 0 (.readCharacteristic 10))] ∧
      (calls (readMoves 2 1 11 10)).drop 4 =
        [(⟨1⟩, .peer 0 (.discoverCharacteristics 2 [])),
          (⟨1⟩, .peer 0 (.readCharacteristic 11))] := by
  intro calls
  have hsame : Answers.agreeing.Renamed swapping .agreeing :=
    ⟨fun _ _ => rfl, fun _ _ => rfl, fun _ _ => rfl⟩
  have hmoves : List.Forall₂ (Move.Renamed swapping) (readMoves 1 2 10 11) (readMoves 2 1 11 10) :=
    .cons (.request _ _ _ hsame) <| .cons (.request _ _ _ hsame) <| .cons (.report _ _) <|
      .cons (.request _ _ _ hsame) <| .cons (.report _ _) <| .cons (.request _ _ _ hsame) <|
      .cons (.report _ _) <| .cons (.request _ _ _ hsame) .nil
  obtain ⟨hpast, -⟩ := (handles_only_compared swapping .default (readMoves 1 2 10 11)).2 _ hmoves
  have hmap {α : Type} {f g : Moment .numbers → α} {ts ts' : List (Moment .numbers)}
      (h : List.Forall₂ (fun t t' => f t' = g t) ts ts') : ts'.map f = ts.map g := by
    induction h with
    | nil => rfl
    | cons ht _ ih => rw [List.map_cons, List.map_cons, ht, ih]
  refine ⟨hmoves, hmap (hpast.imp fun _ _ h => h.2.1), by decide, ?_⟩
  have hcalls := hmap (hpast.imp fun _ _ h => h.2.2.1)
  simp only [calls, List.flatMap_def, hcalls]
  decide

end Run

end GattHub
