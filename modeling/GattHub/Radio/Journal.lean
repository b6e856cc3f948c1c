import GattHub.Journal
import GattHub.Radio.Advertising

/-! What a radio enters into the journal. -/

namespace GattHub.Radio

inductive Entry where
  | opened (c : CentralId)
  | closed (c : CentralId)
  | listenFailed (e : PlatformError)
  | stateUnavailable (e : PlatformError)
  | linkLost (d : DeviceId)
  | stateUpdated (s : AdapterState)
  | listenerStopped (c : CentralId)
  | scanShared
  | scanStillShared
  | startScanFailed (e : PlatformError)
  | stopScanFailed (e : PlatformError)
  | disconnectFailed (p : PeerId) (e : PlatformError)
  | writeFailed (p : PeerId) (e : PlatformError)
  | notificationsFailed (p : PeerId) (e : PlatformError)
  | forwarderEnded (p : PeerId)
  deriving DecidableEq

namespace Entry

def severity : Entry → Severity
  | listenFailed _ | startScanFailed _ | stopScanFailed _ => .error
  | disconnectFailed .. | writeFailed .. | notificationsFailed .. => .warn
  | opened _ | closed _ | stateUnavailable _ | listenerStopped _ => .debug
  | linkLost _ | stateUpdated _ | scanShared | scanStillShared | forwarderEnded _ => .trace

def text : Entry → String
  | opened c => "Opened adapter for manager " ++ c.text
  | closed c => "Closed adapter of manager " ++ c.text
  | listenFailed e => "Could not listen to adapter events: " ++ e.message
  | stateUnavailable e => "Adapter state unavailable, assuming powered on: " ++ e.message
  | linkLost d => "Device disconnected: " ++ d.written
  | stateUpdated s => "Adapter state: " ++ s.name
  | listenerStopped c => "Adapter listener of manager " ++ c.text ++ " stopped"
  | scanShared => "Radio already scanning for another manager"
  | scanStillShared => "Radio still scanning for another manager"
  | startScanFailed e => "Could not start scan: " ++ e.message
  | stopScanFailed e => "Could not stop scan: " ++ e.message
  | disconnectFailed p e => "Disconnect from " ++ p.text ++ " failed: " ++ e.message
  | writeFailed p e => "Write without response to " ++ p.text ++ " failed: " ++ e.message
  | notificationsFailed p e => "No notifications from " ++ p.text ++ ": " ++ e.message
  | forwarderEnded p => "Notification forwarder of " ++ p.text ++ " ended"

def line (e : Entry) : LogLine := ⟨e.severity, e.text⟩

end Entry

end GattHub.Radio
