import GattHub.Status

/-! Why an operation of the radio failed. -/

namespace GattHub.Radio

inductive PlatformError where
  | permissionDenied
  | deviceNotFound
  | notConnected
  | unexpectedCallback
  | unexpectedCharacteristic
  | noSuchCharacteristic
  | notSupported (what : String)
  | timedOut (seconds : Nat)
  | runtime (what : String)
  | other (what : String)
  deriving DecidableEq

/-- A span of whole seconds. An empty span is written in the smallest unit. -/
def secondsText (n : Nat) : String := if n = 0 then "0ns" else toString n ++ "s"

namespace PlatformError

def message : PlatformError → String
  | permissionDenied => "Permission denied"
  | deviceNotFound => "Device not found"
  | notConnected => "Not connected"
  | unexpectedCallback => "Unexpected callback"
  | unexpectedCharacteristic => "Unexpected characteristic"
  | noSuchCharacteristic => "No such characteristic"
  | notSupported what => "The operation is not supported: " ++ what
  | timedOut seconds => "Timed out after " ++ secondsText seconds
  | runtime what => "Runtime Error: " ++ what
  | other what => what

def status : PlatformError → Status
  | permissionDenied => 1
  | deviceNotFound => 2
  | notConnected => 3
  | notSupported _ => 4
  | timedOut _ => 5
  | noSuchCharacteristic | unexpectedCharacteristic => 6
  | unexpectedCallback | runtime _ | other _ => 255

def statusOf {α : Type} : Except PlatformError α → Status
  | .ok _ => .ok
  | .error e => e.status

end PlatformError

end GattHub.Radio
