import GattHub.Host.Handles
import GattHub.Status

/-! Calls to the host stack and its immediate answers. A call only submits; its outcome is
reported later. -/

namespace GattHub

/-- Why a host turned a call down before it reached the radio. -/
inductive Refusal where
  | peerNotFound (peer : PeerId)
  | notSupported (what : String)
  | failed (status : Status)
  deriving DecidableEq

def Refusal.message : Refusal → String
  | .peerNotFound peer => "peripheral not found: " ++ peer.text
  | .notSupported what => "operation not supported: " ++ what
  | .failed status => "native request failed with status " ++ status.text

inductive PeerCall (H : Handles) where
  | connect
  | cancelConnection
  | attMtu
  | discoverServices (filter : List Uuid)
  | discoverCharacteristics (service : H.Service) (filter : List Uuid)
  | discoverDescriptors (characteristic : H.Characteristic)
  | readCharacteristic (characteristic : H.Characteristic)
  | writeCharacteristic (characteristic : H.Characteristic) (value : Octets) (noResponse : Bool)
  | readDescriptor (descriptor : H.Descriptor)
  | writeDescriptor (descriptor : H.Descriptor) (value : Octets)
  | subscribe (characteristic : H.Characteristic)
  | unsubscribe (characteristic : H.Characteristic)
  | readRssi
  deriving DecidableEq

inductive HostCall (H : Handles) where
  | openCentral
  | scan (allowDuplicates : Bool)
  | stopScan
  | lookup (peer : PeerId)
  | peer (native : H.Peer) (call : PeerCall H)
  | close
  deriving DecidableEq

/-- What the host answers during one step: whether it turns a call down, which native object it
has for a peer, and the ATT MTU where it knows one. -/
structure Answers (H : Handles) where
  refusal : CentralId → HostCall H → Option Refusal
  lookup : CentralId → PeerId → Option H.Peer
  attMtu : CentralId → H.Peer → Option UInt16

end GattHub
