import GattHub.Identity

/-! Outcome codes, signal levels and connection states. -/

namespace GattHub

/-- Outcome of an operation as the host reports it; zero is success. -/
abbrev Status := Int32

namespace Status

def ok : Status := 0

/-- The operation was still pending when the link ended. -/
def cancelled : Status := -1

/-- The parent of a discovery was retired before the discovery completed. -/
def stale : Status := -2

def text (s : Status) : String := toString s.toInt

end Status

abbrev Level := Int16

namespace Level

def unknown : Level := -128

def text (l : Level) : String := toString l.toInt

end Level

inductive LinkState where
  | disconnected | connecting | connected | disconnecting
  deriving DecidableEq

def LinkState.name : LinkState → String
  | .disconnected => "Disconnected"
  | .connecting => "Connecting"
  | .connected => "Connected"
  | .disconnecting => "Disconnecting"

inductive Tier where
  | services | characteristics | descriptors
  deriving DecidableEq

def Tier.name : Tier → String
  | .services => "Services"
  | .characteristics => "Characteristics"
  | .descriptors => "Descriptors"

end GattHub
