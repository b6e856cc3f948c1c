import GattHub.Central.Basic

/-! What callers can ask of a hub, and what it replies. Peers are named by texts from outside
and by identities inside. -/

namespace GattHub

/-- A question about the present state. It tracks no peer and calls no host. -/
inductive Query (π : Type) where
  | centrals
  | central (c : CentralId)
  | scanning (c : CentralId)
  | peer (c : CentralId) (p : π)
  | linkState (c : CentralId) (p : π)
  | rssi (c : CentralId) (p : π)
  | services (c : CentralId) (p : π)
  | characteristics (c : CentralId) (p : π) (service : AttrId)
  | descriptors (c : CentralId) (p : π) (characteristic : AttrId)
  deriving DecidableEq

inductive Request (π : Type) where
  | allocate
  | destroy (c : CentralId)
  | scan (c : CentralId) (allowDuplicates : Bool)
  | stopScan (c : CentralId)
  | forget (c : CentralId) (p : π)
  | act (c : CentralId) (p : π) (action : PeerAction)
  | attMtu (c : CentralId) (p : π)
  | query (q : Query π)
  deriving DecidableEq

/-- The reply to a request that was accepted. -/
inductive Reply where
  | done
  | allocated (c : CentralId)
  | mtu (octets : UInt16)
  | centrals (cs : List CentralId)
  | central (info : CentralInfo)
  | scanning (on : Bool)
  | peer (info : PeerInfo)
  | linkState (s : LinkState)
  | rssi (level : Option Level)
  | services (ss : List Gatt.Service)
  | characteristics (cs : List Gatt.Characteristic)
  | descriptors (ds : List Gatt.Descriptor)
  deriving DecidableEq

namespace Query

/-- Puts the identity in the place of the text that names a peer. -/
def resolve : Query String → Except Rejection (Query PeerId)
  | centrals => .ok centrals
  | central c => .ok (central c)
  | scanning c => .ok (scanning c)
  | peer c s => (named s).map (peer c)
  | linkState c s => (named s).map (linkState c)
  | rssi c s => (named s).map (rssi c)
  | services c s => (named s).map (services c)
  | characteristics c s id => (named s).map fun p => characteristics c p id
  | descriptors c s id => (named s).map fun p => descriptors c p id
where
  /-- The peer that a text names. -/
  named (s : String) : Except Rejection PeerId :=
    match PeerId.parse? s with
    | some p => .ok p
    | none => .error (.malformedPeer s)

end Query

namespace Request

/-- Puts the identity in the place of the text that names a peer. -/
def resolve : Request String → Except Rejection (Request PeerId)
  | allocate => .ok allocate
  | destroy c => .ok (destroy c)
  | scan c allowDuplicates => .ok (scan c allowDuplicates)
  | stopScan c => .ok (stopScan c)
  | forget c s => (Query.resolve.named s).map (forget c)
  | act c s action => (Query.resolve.named s).map fun p => act c p action
  | attMtu c s => (Query.resolve.named s).map (attMtu c)
  | query q => q.resolve.map query

end Request

end GattHub
