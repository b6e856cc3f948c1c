import GattHub.Effect
import GattHub.Settings

/-! How a tracked peer takes in what the host reports. A completion goes with a pending
operation of its kind; without one it is dropped, unless it is a notified value. The end of a
link cancels whatever is still pending, oldest first, before it is announced. -/

namespace GattHub

namespace Peer

variable {H : Handles}

/-- The cancellation of what is pending, with the journal's line ahead of each notice. -/
def cancellations (p : Peer H) : List (Effect H) :=
  p.pending.flatMap fun op => [.log (.cancelling op p.id), .notice (p.notice op.cancelled)]

def unlinked (p : Peer H) : Peer H :=
  { p with state := .disconnected, pending := [], subscriptions := [] }

/-- Takes in the result of a connect. While a disconnect is under way the result is passed on
and the link stays as it is. -/
def connectResult (p : Peer H) (status : Status) : Step H (Peer H) :=
  let result := Effect.notice (p.notice (.connected status))
  match p.state with
  | .connecting =>
    if status = .ok then ⟨{ p with state := .connected }, [.log (.connected p.id), result]⟩
    else ⟨p.unlinked, .log (.connectFailed p.id status) :: p.cancellations ++ [result]⟩
  | .disconnecting => ⟨p, [result]⟩
  | .connected | .disconnected => ⟨p, [.log (.connectIgnored p.id p.state)]⟩

def linkLost (p : Peer H) (reason : Status) : Step H (Peer H) :=
  if p.state = .disconnected then ⟨p, [.log (.disconnectIgnored p.id)]⟩
  else ⟨p.unlinked, p.cancellations ++
    [.log (.disconnected p.id reason), .notice (p.notice (.disconnected reason))]⟩

/-- Drops the link because the manager goes away. A host that will not cancel the connection
is only noted. -/
def teardown (answers : Answers H) (p : Peer H) : Step H (Peer H) :=
  let lost := p.linkLost .cancelled
  match p.state with
  | .disconnected => ⟨p, []⟩
  | .disconnecting => lost
  | .connecting | .connected =>
    let call := HostCall.peer p.native .cancelConnection
    let refusal := answers.refusal p.central call
    ⟨lost.state, .call p.central call refusal ::
      (refusal.toList.map fun r => .log (.cancelRefused p.id r)) ++ lost.effects⟩

/-- A completion that nothing waits for. -/
def unmatched (p : Peer H) (report : PeerReport H) : Step H (Peer H) :=
  ⟨p, [.log (.unmatched report p.id)]⟩

def complete (p : Peer H) (report : PeerReport H) (operation : Pending) (outcome : PeerNotice)
    (effect : Peer H → Peer H) : Step H (Peer H) :=
  match Pending.take? (· = operation) p.pending with
  | none => p.unmatched report
  | some (_, rest) =>
    ⟨effect { p with pending := rest }, [.notice (p.notice outcome)]⟩

/-- The value that goes with a status: none unless the status is success. -/
def valueIfOk (status : Status) (value : Octets) : Octets := if status = .ok then value else []

def servicesDiscovered (p : Peer H) (ids : IdSource) (status : Status)
    (services : List (Gatt.Found H.Service)) : Step H (Peer H × IdSource) :=
  match Pending.take? (· = .services) p.pending with
  | none => ⟨(p, ids), (p.unmatched (.servicesDiscovered status services)).effects⟩
  | some (_, rest) =>
    let p := { p with pending := rest }
    if status = .ok then
      let built := p.tree.rebuildServices ids services
      ⟨({ p with tree := built.1 }, built.2),
        [.notice (p.notice (.servicesDiscovered status built.1.serviceList))]⟩
    else ⟨(p, ids), [.notice (p.notice (.servicesDiscovered status []))]⟩

/-- A discovery completes for the identity that the service has now. If that is not the identity
asked for, the service was rediscovered meanwhile and the outcome is stale. -/
def characteristicsDiscovered (p : Peer H) (ids : IdSource) (status : Status)
    (service : H.Service) (found : List (Gatt.FoundCharacteristic H.Characteristic)) :
    Step H (Peer H × IdSource) :=
  let current := p.tree.services.idOf? service
  match Pending.takeDiscovery? Pending.service? current p.pending with
  | none => ⟨(p, ids), (p.unmatched (.characteristicsDiscovered status service found)).effects⟩
  | some (requested, rest) =>
    let p := { p with pending := rest }
    let outcome := fun status list =>
      Effect.notice (p.notice (.characteristicsDiscovered status list))
    if current = some requested then
      if status = .ok then
        match p.tree.rebuildCharacteristics ids requested found with
        | .ok built =>
          ⟨({ p with tree := built.1 }, built.2),
            [outcome status ((built.1.characteristicsOf requested).toOption.getD [])]⟩
        | .error _ => ⟨(p, ids), [outcome .stale []]⟩
      else ⟨(p, ids), [outcome status []]⟩
    else ⟨(p, ids), [.log (.staleService requested p.id), outcome .stale []]⟩

def descriptorsDiscovered (p : Peer H) (ids : IdSource) (status : Status)
    (characteristic : H.Characteristic) (found : List (Gatt.Found H.Descriptor)) :
    Step H (Peer H × IdSource) :=
  let current := p.tree.characteristics.idOf? characteristic
  match Pending.takeDiscovery? Pending.characteristic? current p.pending with
  | none => ⟨(p, ids), (p.unmatched (.descriptorsDiscovered status characteristic found)).effects⟩
  | some (requested, rest) =>
    let p := { p with pending := rest }
    let outcome := fun status list => Effect.notice (p.notice (.descriptorsDiscovered status list))
    if current = some requested then
      if status = .ok then
        match p.tree.rebuildDescriptors ids requested found with
        | .ok built =>
          ⟨({ p with tree := built.1 }, built.2),
            [outcome status ((built.1.descriptorsOf requested).toOption.getD [])]⟩
        | .error _ => ⟨(p, ids), [outcome .stale []]⟩
      else ⟨(p, ids), [outcome status []]⟩
    else ⟨(p, ids), [.log (.staleCharacteristic requested p.id), outcome .stale []]⟩

/-- Whether a value that nobody asked for is passed on. -/
def forwards (settings : Settings) (p : Peer H) (status : Status) (uuid : Uuid) : Bool :=
  settings.forwardNotifications && status = .ok && p.state = .connected &&
    p.subscriptions.contains uuid

/-- Takes in a value: the answer to the oldest pending read of it, else a notified value. -/
def characteristicRead (settings : Settings) (p : Peer H) (status : Status) (uuid : Uuid)
    (value : Octets) : Step H (Peer H) :=
  let outcome := Effect.notice (p.notice (.characteristicRead status uuid (valueIfOk status value)))
  match Pending.take? (· = .readCharacteristic uuid) p.pending with
  | some (_, rest) => ⟨{ p with pending := rest }, [outcome]⟩
  | none =>
    if p.forwards settings status uuid then ⟨p, [outcome]⟩
    else p.unmatched (.characteristicRead status uuid value)

def setSubscription (p : Peer H) (uuid : Uuid) (enabled : Bool) : Peer H :=
  { p with subscriptions :=
      if enabled then p.subscriptions.insert uuid else p.subscriptions.filter (· ≠ uuid) }

/-- Takes in a report. Only a completed discovery draws on the source of identities. -/
def receive (settings : Settings) (ids : IdSource) (p : Peer H) (report : PeerReport H) :
    Step H (Peer H × IdSource) :=
  let keep := fun (s : Step H (Peer H)) => Step.mk (s.state, ids) s.effects
  match report with
  | .connected status => keep (p.connectResult status)
  | .disconnected reason => keep (p.linkLost reason)
  | .servicesDiscovered status services => p.servicesDiscovered ids status services
  | .characteristicsDiscovered status service found =>
    p.characteristicsDiscovered ids status service found
  | .descriptorsDiscovered status characteristic found =>
    p.descriptorsDiscovered ids status characteristic found
  | .characteristicRead status uuid value =>
    keep (p.characteristicRead settings status uuid value)
  | .characteristicWritten status uuid =>
    keep (p.complete report (.writeCharacteristic uuid) (.characteristicWritten status uuid)
      fun q => q)
  | .descriptorRead status uuid value =>
    keep (p.complete report (.readDescriptor uuid)
      (.descriptorRead status uuid (valueIfOk status value)) fun q => q)
  | .descriptorWritten status uuid =>
    keep (p.complete report (.writeDescriptor uuid) (.descriptorWritten status uuid) fun q => q)
  | .notificationStateChanged status uuid enabled =>
    keep (p.complete report (.notifyState uuid) (.notificationStateChanged status uuid enabled)
      fun q => if status = .ok then q.setSubscription uuid enabled else q)
  | .rssiRead status rssi =>
    keep (p.complete report .rssi
      (.rssiRead status (if status = .ok then rssi else .unknown))
      fun q => if status = .ok then q.observe rssi else q)

end Peer

end GattHub
