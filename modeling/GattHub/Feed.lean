import GattHub.Notice.Basic

/-! Feeds of notices. A feed holds back a bounded number of notices for its reader; when more
come in, the oldest are skipped and counted. All feeds end together. -/

namespace GattHub

structure Feed where
  capacity : Nat
  /-- The notices that the reader has not seen, oldest first. -/
  unread : List Notice
  /-- How many were skipped since the reader last looked. -/
  missed : Nat
  deriving DecidableEq

/-- What a reader finds in a feed. -/
structure Delivery where
  notices : List Notice
  missed : Nat
  /-- The feed has ended. Nothing that it still held is delivered. -/
  ended : Bool
  deriving DecidableEq

namespace Feed

/-- The least power of two that is no less than a number. -/
def roundUp (n : Nat) : Nat :=
  if 1 <<< n.log2 < n then 1 <<< (n.log2 + 1) else 1 <<< n.log2

def new (capacity : Nat) : Feed := ⟨roundUp capacity, [], 0⟩

def push (f : Feed) (notices : List Notice) : Feed :=
  let all := f.unread ++ notices
  let excess := all.length - f.capacity
  { f with unread := all.drop excess, missed := f.missed + excess }

/-- The feed when its reader has seen everything. -/
def emptied (f : Feed) : Feed := { f with unread := [], missed := 0 }

theorem length_push_le (f : Feed) (notices : List Notice) :
    (f.push notices).unread.length ≤ f.capacity := by
  simp only [push, List.length_drop, List.length_append]
  omega

end Feed

/-- The feeds that one holder of a hub has opened, by number. A feed that was closed, or whose
end was delivered, leaves its place empty. -/
structure Feeds where
  capacity : Nat
  places : List (Option Feed)
  /-- The holder has let go of the hub. -/
  ended : Bool
  deriving DecidableEq

namespace Feeds

def new (capacity : Nat) : Feeds := ⟨capacity, [], false⟩

def opened (fs : Feeds) : Feeds := { fs with places := fs.places ++ [some (.new fs.capacity)] }

def push (fs : Feeds) (notices : List Notice) : Feeds :=
  { fs with places := fs.places.map (·.map (·.push notices)) }

def closed (fs : Feeds) (i : Nat) : Feeds := { fs with places := fs.places.set i none }

def ending (fs : Feeds) : Feeds := { fs with ended := true }

/-- Everything that a feed has ready. -/
def drain? (fs : Feeds) (i : Nat) : Option (Delivery × Feeds) :=
  (fs.places[i]?.join).map fun f =>
    if fs.ended then (⟨[], 0, true⟩, fs.closed i)
    else (⟨f.unread, f.missed, false⟩, { fs with places := fs.places.set i (some f.emptied) })

end Feeds

end GattHub
