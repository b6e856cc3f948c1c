import GattHub.Advertisement
import GattHub.Gatt.Tree

/-! What callers hear: the outcome of their requests, and what happens of its own accord. -/

namespace GattHub

inductive PeerNotice where
  | connected (status : Status)
  | disconnected (reason : Status)
  | servicesDiscovered (status : Status) (services : List Gatt.Service)
  | characteristicsDiscovered (status : Status) (characteristics : List Gatt.Characteristic)
  | descriptorsDiscovered (status : Status) (descriptors : List Gatt.Descriptor)
  | characteristicRead (status : Status) (uuid : Uuid) (value : Octets)
  | characteristicWritten (status : Status) (uuid : Uuid)
  | descriptorRead (status : Status) (uuid : Uuid) (value : Octets)
  | descriptorWritten (status : Status) (uuid : Uuid)
  | notificationStateChanged (status : Status) (uuid : Uuid) (enabled : Bool)
  | rssiRead (status : Status) (rssi : Level)
  deriving DecidableEq

inductive Notice where
  | stateChanged (central : CentralId) (poweredOn : Bool) (message : String)
  | discovered (central : CentralId) (record : Advertisement)
  | peer (central : CentralId) (peer : PeerId) (notice : PeerNotice)
  deriving DecidableEq

/-- The kinds of notice, one callback each. -/
inductive NoticeKind where
  | stateChanged | discovered | connected | disconnected
  | servicesDiscovered | characteristicsDiscovered | descriptorsDiscovered
  | characteristicRead | characteristicWritten | descriptorRead | descriptorWritten
  | notificationStateChanged | rssiRead
  deriving DecidableEq

def PeerNotice.kind : PeerNotice → NoticeKind
  | connected .. => .connected
  | disconnected .. => .disconnected
  | servicesDiscovered .. => .servicesDiscovered
  | characteristicsDiscovered .. => .characteristicsDiscovered
  | descriptorsDiscovered .. => .descriptorsDiscovered
  | characteristicRead .. => .characteristicRead
  | characteristicWritten .. => .characteristicWritten
  | descriptorRead .. => .descriptorRead
  | descriptorWritten .. => .descriptorWritten
  | notificationStateChanged .. => .notificationStateChanged
  | rssiRead .. => .rssiRead

namespace Notice

def kind : Notice → NoticeKind
  | stateChanged .. => .stateChanged
  | discovered .. => .discovered
  | peer _ _ n => n.kind

def central : Notice → CentralId
  | stateChanged c .. | discovered c .. | peer c .. => c

def peer? : Notice → Option PeerId
  | stateChanged .. => none
  | discovered _ record => some record.peer
  | peer _ p _ => some p

end Notice

/-- A listener, by the kinds of notice that it has a callback for. -/
structure Listener where
  hears : NoticeKind → Bool

namespace Listener

def everything : Listener := ⟨fun _ => true⟩

def nothing : Listener := ⟨fun _ => false⟩

def only (kinds : List NoticeKind) : Listener := ⟨fun k => k ∈ kinds⟩

/-- The notices that reach the listener, in order. -/
def heard (l : Listener) (notices : List Notice) : List Notice :=
  notices.filter fun n => l.hears n.kind

end Listener

end GattHub
