import GattHub.Notice.Text
import GattHub.Peer.Basic
import GattHub.Rejection

/-! The journal: what is worth a line, how grave it is, and how the line reads. -/

namespace GattHub

inductive Severity where
  | error | warn | info | debug | trace
  deriving DecidableEq

namespace Severity

/-- The graver, the lower. -/
def rank : Severity → Nat
  | error => 0
  | warn => 1
  | info => 2
  | debug => 3
  | trace => 4

def passes (limit : Severity) (s : Severity) : Bool := s.rank ≤ limit.rank

end Severity

structure LogLine where
  severity : Severity
  text : String
  deriving DecidableEq

/-- What a hub and its peers write into the journal. -/
inductive LogEntry (H : Handles) where
  | started
  | stopped
  | allocated (central : CentralId)
  | destroyed (central : CentralId)
  | scanStarted (central : CentralId) (allowDuplicates : Bool)
  | scanStopped (central : CentralId)
  | notScanning (central : CentralId)
  | powered (central : CentralId) (on : Bool) (message : String)
  | tracking (central : CentralId) (peer : PeerId)
  | forgot (central : CentralId) (peer : PeerId)
  | reported (central : CentralId) (report : Report H)
  | unreported (central : CentralId) (peer : PeerId)
  | untracked (central : CentralId) (peer : PeerId) (report : Report H)
  | misrouted (central : CentralId) (report : Report H)
  | rejected (peer : PeerId) (central : CentralId) (reason : Rejection)
  | connecting (peer : PeerId)
  | connected (peer : PeerId)
  | connectFailed (peer : PeerId) (status : Status)
  | connectIgnored (peer : PeerId) (state : LinkState)
  | disconnecting (peer : PeerId)
  | disconnected (peer : PeerId) (reason : Status)
  | disconnectIgnored (peer : PeerId)
  | cancelRefused (peer : PeerId) (refusal : Refusal)
  | cancelling (operation : Pending) (peer : PeerId)
  | unmatched (report : PeerReport H) (peer : PeerId)
  | staleService (id : AttrId) (peer : PeerId)
  | staleCharacteristic (id : AttrId) (peer : PeerId)
  | discoveringServices (peer : PeerId)
  | discoveringCharacteristics (service : Uuid) (peer : PeerId)
  | discoveringDescriptors (characteristic : Uuid) (peer : PeerId)
  | reading (characteristic : Uuid) (peer : PeerId)
  | writing (size : Nat) (characteristic : Uuid) (peer : PeerId)
  | readingDescriptor (descriptor : Uuid) (peer : PeerId)
  | writingDescriptor (size : Nat) (descriptor : Uuid) (peer : PeerId)
  | notifying (enable : Bool) (characteristic : Uuid) (peer : PeerId)
  | dispatching (notice : Notice)
  | lagged (missed : Nat)
  deriving DecidableEq

variable {H : Handles}

/-- What a report completes. -/
def PeerReport.subject : PeerReport H → String
  | connected .. => "connect result"
  | disconnected .. => "disconnect"
  | servicesDiscovered .. => "service discovery"
  | characteristicsDiscovered .. => "characteristic discovery"
  | descriptorsDiscovered .. => "descriptor discovery"
  | characteristicRead .. => "characteristic value"
  | characteristicWritten .. => "characteristic write"
  | descriptorRead .. => "descriptor value"
  | descriptorWritten .. => "descriptor write"
  | notificationStateChanged .. => "notification state"
  | rssiRead .. => "RSSI"

namespace LogEntry

def severity : LogEntry H → Severity
  | connectFailed .. | connectIgnored .. | cancelRefused .. | untracked .. | misrouted ..
  | staleService .. | staleCharacteristic .. | lagged .. => .warn
  | started | stopped | allocated .. | destroyed .. | scanStarted .. | scanStopped ..
  | notScanning .. | powered .. | connecting .. | connected .. | disconnecting ..
  | disconnected .. => .info
  | reported .. | unreported .. | dispatching .. => .trace
  | _ => .debug

def text : LogEntry H → String
  | started => "Bridge context started"
  | stopped => "Bridge context stopped"
  | allocated c => "Allocated central manager " ++ c.text
  | destroyed c => "Destroyed central manager " ++ c.text
  | scanStarted c duplicates =>
    "Manager " ++ c.text ++ " started scanning (duplicates " ++
      (if duplicates then "allowed" else "suppressed") ++ ")"
  | scanStopped c => "Manager " ++ c.text ++ " stopped scanning"
  | notScanning c => "Manager " ++ c.text ++ " is not scanning"
  | powered c on message =>
    "Manager " ++ c.text ++ " powered " ++ (if on then "on" else "off") ++ ": " ++ message
  | tracking c p => "Manager " ++ c.text ++ " tracking peer " ++ p.text
  | forgot c p => "Manager " ++ c.text ++ " forgot peer " ++ p.text
  | reported c report => "Manager " ++ c.text ++ " native event: " ++ report.text
  | unreported c p => "Manager " ++ c.text ++ " not scanning, dropping " ++ p.text
  | untracked c p report =>
    "Manager " ++ c.text ++ " has no session for " ++ p.text ++ ": " ++ report.text
  | misrouted c report => "Event for unknown manager " ++ c.text ++ ": " ++ report.text
  | rejected p c reason =>
    "Rejected request for " ++ p.text ++ " on manager " ++ c.text ++ ": " ++ reason.message
  | connecting p => "Connecting to " ++ p.text
  | connected p => "Connected to " ++ p.text
  | connectFailed p status => "Could not connect to " ++ p.text ++ ": status=" ++ status.text
  | connectIgnored p state =>
    "Ignoring connect result for " ++ p.text ++ " while " ++ state.name
  | disconnecting p => "Disconnecting from " ++ p.text
  | disconnected p reason => "Disconnected from " ++ p.text ++ ": reason=" ++ reason.text
  | disconnectIgnored p => "Ignoring repeated disconnect of " ++ p.text
  | cancelRefused p refusal =>
    "Could not cancel connection to " ++ p.text ++ ": " ++ refusal.message
  | cancelling operation p => "Cancelling " ++ operation.text ++ " on " ++ p.text
  | unmatched report p =>
    "Dropping " ++ report.subject ++ " for " ++ p.text ++ " without a pending request"
  | staleService id p =>
    "Service " ++ id.text ++ " of " ++ p.text ++ " was rediscovered before its characteristics"
  | staleCharacteristic id p =>
    "Characteristic " ++ id.text ++ " of " ++ p.text ++ " was rediscovered before its descriptors"
  | discoveringServices p => "Discovering services of " ++ p.text
  | discoveringCharacteristics u p =>
    "Discovering characteristics of " ++ u.text ++ " on " ++ p.text
  | discoveringDescriptors u p => "Discovering descriptors of " ++ u.text ++ " on " ++ p.text
  | reading u p => "Reading " ++ u.text ++ " on " ++ p.text
  | writing n u p => "Writing " ++ toString n ++ " bytes to " ++ u.text ++ " on " ++ p.text
  | readingDescriptor u p => "Reading descriptor " ++ u.text ++ " on " ++ p.text
  | writingDescriptor n u p =>
    "Writing " ++ toString n ++ " bytes to descriptor " ++ u.text ++ " on " ++ p.text
  | notifying enable u p =>
    (if enable then "Enabling" else "Disabling") ++ " notifications of " ++ u.text ++ " on " ++
      p.text
  | dispatching n => "Dispatching " ++ n.text
  | lagged n => "Event stream lagged: channel lagged by " ++ toString n

def line (e : LogEntry H) : LogLine := ⟨e.severity, e.text⟩

end LogEntry

end GattHub
