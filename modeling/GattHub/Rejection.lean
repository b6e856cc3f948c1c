import GattHub.Gatt.HandleTable
import GattHub.Host.Call
import GattHub.Text.Quoted

/-! Why a request is turned down. No notice follows a request that was. -/

namespace GattHub

inductive Rejection where
  | unknownCentral (central : CentralId)
  /-- The text names no peer; it is kept as it was given. -/
  | malformedPeer (text : String)
  | unknownPeer (peer : PeerId)
  | notConnected (peer : PeerId)
  | wrongState (peer : PeerId) (state : LinkState)
  | alreadyScanning
  | invalidHandle (id : AttrId)
  | refused (refusal : Refusal)
  | closed
  deriving DecidableEq

namespace Rejection

def message : Rejection → String
  | unknownCentral c => "unknown central manager: " ++ c.text
  | malformedPeer text => "malformed peer identity: " ++ Text.quoted text
  | unknownPeer p => "unknown peer: " ++ p.text
  | notConnected p => "peer not connected: " ++ p.text
  | wrongState p s => "peer " ++ p.text ++ " cannot do that while " ++ s.name
  | alreadyScanning => "central manager is already scanning"
  | invalidHandle id => "invalid attribute handle: " ++ id.text
  | refused r => r.message
  | closed => "bridge is shut down"

/-- The negative code that stands for a rejection across a language boundary. -/
def code : Rejection → Int32
  | unknownCentral _ => -1
  | malformedPeer _ => -2
  | unknownPeer _ => -3
  | notConnected _ => -4
  | wrongState .. => -5
  | alreadyScanning => -6
  | invalidHandle _ => -7
  | refused _ => -8
  | closed => -9

def ofUnresolved (u : Gatt.Unresolved) : Rejection := invalidHandle u.id

/-- Zero for an accepted request, the code of the rejection otherwise. -/
def statusCode {α : Type} : Except Rejection α → Int32
  | .ok _ => 0
  | .error r => r.code

end Rejection

end GattHub
