import GattHub.Effect

/-! Requests to a tracked peer. A request is checked first; it then makes exactly one call to
the host, and takes effect only if the host does not turn that call down. -/

namespace GattHub

inductive PeerAction where
  | connect
  | disconnect
  | discoverServices (filter : List Uuid)
  | discoverCharacteristics (service : AttrId) (filter : List Uuid)
  | discoverDescriptors (characteristic : AttrId)
  | readCharacteristic (characteristic : AttrId)
  | writeCharacteristic (characteristic : AttrId) (value : Octets) (noResponse : Bool)
  | readDescriptor (descriptor : AttrId)
  | writeDescriptor (descriptor : AttrId) (value : Octets)
  | subscribe (characteristic : AttrId)
  | unsubscribe (characteristic : AttrId)
  | readRssi
  deriving DecidableEq

/-- A request that passed its checks: the call to make, the peer once the host has taken the
call, and what to enter in the journal then. -/
structure Prepared (H : Handles) where
  call : PeerCall H
  next : Peer H
  log : List (LogEntry H)

namespace Peer

variable {H : Handles}

def await (p : Peer H) (operation : Pending) : Peer H :=
  { p with pending := p.pending ++ [operation] }

/-- Goes on only over an established link. -/
def whenConnected {α : Type} (p : Peer H) (x : Except Rejection α) : Except Rejection α :=
  if p.state = .connected then x else .error (.notConnected p.id)

def withEntry {κ τ α : Type} (t : Gatt.HandleTable κ τ) (id : AttrId)
    (f : Gatt.Entry κ τ → α) : Except Rejection α :=
  match t.get id with
  | .ok e => .ok (f e)
  | .error u => .error (.ofUnresolved u)

/-- Checks a request: the state of the link first, then the identity it names. -/
def prepare (p : Peer H) : PeerAction → Except Rejection (Prepared H)
  | .connect =>
    if p.state = .disconnected then
      .ok ⟨.connect, { p with state := .connecting }, [.connecting p.id]⟩
    else .error (.wrongState p.id p.state)
  | .disconnect =>
    if p.state = .connecting ∨ p.state = .connected then
      .ok ⟨.cancelConnection, { p with state := .disconnecting }, [.disconnecting p.id]⟩
    else .error (.wrongState p.id p.state)
  | .discoverServices filter => p.whenConnected <|
    .ok ⟨.discoverServices filter, p.await .services, [.discoveringServices p.id]⟩
  | .discoverCharacteristics service filter => p.whenConnected <|
    withEntry p.tree.services service fun e =>
      ⟨.discoverCharacteristics e.handle filter, p.await (.characteristics service),
        [.discoveringCharacteristics e.value.uuid p.id]⟩
  | .discoverDescriptors characteristic => p.whenConnected <|
    withEntry p.tree.characteristics characteristic fun e =>
      ⟨.discoverDescriptors e.handle, p.await (.descriptors characteristic),
        [.discoveringDescriptors e.value.uuid p.id]⟩
  | .readCharacteristic characteristic => p.whenConnected <|
    withEntry p.tree.characteristics characteristic fun e =>
      ⟨.readCharacteristic e.handle, p.await (.readCharacteristic e.value.uuid),
        [.reading e.value.uuid p.id]⟩
  | .writeCharacteristic characteristic value noResponse => p.whenConnected <|
    withEntry p.tree.characteristics characteristic fun e =>
      -- A write without response has no outcome to wait for.
      ⟨.writeCharacteristic e.handle value noResponse,
        if noResponse then p else p.await (.writeCharacteristic e.value.uuid),
        [.writing value.length e.value.uuid p.id]⟩
  | .readDescriptor descriptor => p.whenConnected <|
    withEntry p.tree.descriptors descriptor fun e =>
      ⟨.readDescriptor e.handle, p.await (.readDescriptor e.value),
        [.readingDescriptor e.value p.id]⟩
  | .writeDescriptor descriptor value => p.whenConnected <|
    withEntry p.tree.descriptors descriptor fun e =>
      ⟨.writeDescriptor e.handle value, p.await (.writeDescriptor e.value),
        [.writingDescriptor value.length e.value p.id]⟩
  | .subscribe characteristic => p.whenConnected <|
    withEntry p.tree.characteristics characteristic fun e =>
      ⟨.subscribe e.handle, p.await (.notifyState e.value.uuid),
        [.notifying true e.value.uuid p.id]⟩
  | .unsubscribe characteristic => p.whenConnected <|
    withEntry p.tree.characteristics characteristic fun e =>
      ⟨.unsubscribe e.handle, p.await (.notifyState e.value.uuid),
        [.notifying false e.value.uuid p.id]⟩
  | .readRssi =>
    if p.state = .disconnected then .error (.notConnected p.id)
    else .ok ⟨.readRssi, p.await .rssi, []⟩

def perform (answers : Answers H) (p : Peer H) (action : PeerAction) :
    Response H (Peer H) Unit :=
  match p.prepare action with
  | .error reason => ⟨p, .error reason, []⟩
  | .ok q =>
    let call := HostCall.peer p.native q.call
    match answers.refusal p.central call with
    | some r => ⟨p, .error (.refused r), [.call p.central call (some r)]⟩
    | none => ⟨q.next, .ok (), .call p.central call none :: q.log.map .log⟩

/-- The ATT MTU of the link, where the host knows it. -/
def attMtu (answers : Answers H) (p : Peer H) : Response H (Peer H) UInt16 :=
  match p.whenConnected (.ok ()) with
  | .error reason => ⟨p, .error reason, []⟩
  | .ok () =>
    let call := HostCall.peer p.native .attMtu
    let effects := [Effect.call p.central call (answers.refusal p.central call)]
    match answers.attMtu p.central p.native with
    | some mtu => ⟨p, .ok mtu, effects⟩
    | none => ⟨p, .error (.refused (.notSupported "ATT MTU unavailable")), effects⟩

end Peer

end GattHub
