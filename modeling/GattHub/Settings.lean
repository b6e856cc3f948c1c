import GattHub.Text.Record

/-! Settings of a hub. -/

namespace GattHub

structure Settings where
  /-- How many notices a feed holds back for a reader that falls behind. -/
  eventCapacity : Nat
  /-- Whether values that arrive without a pending read are passed on. -/
  forwardNotifications : Bool
  deriving DecidableEq

namespace Settings

def default : Settings := ⟨256, true⟩

instance : Inhabited Settings := ⟨default⟩

/-- A feed holds at least one notice. -/
def withEventCapacity (s : Settings) (capacity : Nat) : Settings :=
  { s with eventCapacity := max capacity 1 }

def withForwardNotifications (s : Settings) (enabled : Bool) : Settings :=
  { s with forwardNotifications := enabled }

def text (s : Settings) : String :=
  Text.record "BridgeConfig"
    [("event_capacity", toString s.eventCapacity),
      ("forward_notifications", Text.bool s.forwardNotifications)]

end Settings

end GattHub
