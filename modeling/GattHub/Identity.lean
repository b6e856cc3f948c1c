import GattHub.Text.Blank
import GattHub.Uuid.Text

/-! The identities that callers hold: central managers, peers and attributes. -/

namespace GattHub

structure CentralId where
  raw : UInt64
  deriving DecidableEq

structure AttrId where
  raw : UInt64
  deriving DecidableEq

structure PeerId where
  uuid : Uuid
  deriving DecidableEq

instance : Inhabited CentralId := ⟨⟨0⟩⟩
instance : Inhabited AttrId := ⟨⟨0⟩⟩
instance : Inhabited PeerId := ⟨⟨default⟩⟩

def CentralId.text (c : CentralId) : String := toString c.raw.toNat

def AttrId.text (a : AttrId) : String := toString a.raw.toNat

namespace PeerId

def text (p : PeerId) : String := p.uuid.text

/-- White space around the identifier does not matter. -/
def parse? (s : String) : Option PeerId := (Uuid.parse? (Text.trim s.toList)).map PeerId.mk

instance : LE PeerId := ⟨fun p q => p.uuid ≤ q.uuid⟩

instance (p q : PeerId) : Decidable (p ≤ q) := inferInstanceAs (Decidable (p.uuid ≤ q.uuid))

end PeerId

/-- The one source of attribute identities. -/
structure IdSource where
  next : UInt64
  deriving DecidableEq

namespace IdSource

def initial : IdSource := ⟨1⟩

def fresh (ids : IdSource) : AttrId := ⟨ids.next⟩

def advance (ids : IdSource) : IdSource := ⟨ids.next + 1⟩

end IdSource

end GattHub
