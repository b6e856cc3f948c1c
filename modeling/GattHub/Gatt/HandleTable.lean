import GattHub.Identity
import GattHub.Table

/-! Tables that give each native handle an opaque identity while the handle is registered. All
tables draw their identities from one source, so an identity that was retired stays dead. -/

namespace GattHub.Gatt

structure Entry (κ τ : Type) where
  handle : κ
  value : τ
  deriving DecidableEq

/-- The identity is unknown, or was retired. -/
structure Unresolved where
  id : AttrId
  deriving DecidableEq

def Unresolved.message (u : Unresolved) : String := "no live attribute with id " ++ u.id.text

/-- The live entries by identity, and the identity of each registered handle. -/
structure HandleTable (κ τ : Type) where
  entries : Table AttrId (Entry κ τ)
  index : Table κ AttrId

namespace HandleTable

variable {κ τ : Type}

def empty : HandleTable κ τ := ⟨∅, ∅⟩

instance : EmptyCollection (HandleTable κ τ) := ⟨empty⟩

def get? (t : HandleTable κ τ) (id : AttrId) : Option (Entry κ τ) := t.entries.get? id

def get (t : HandleTable κ τ) (id : AttrId) : Except Unresolved (Entry κ τ) :=
  match t.get? id with
  | some e => .ok e
  | none => .error ⟨id⟩

def resolve (t : HandleTable κ τ) (id : AttrId) : Except Unresolved κ := (t.get id).map Entry.handle

def contains (t : HandleTable κ τ) (id : AttrId) : Bool := t.entries.contains id

def size (t : HandleTable κ τ) : Nat := t.entries.size

def modify (t : HandleTable κ τ) (id : AttrId) (f : Entry κ τ → Entry κ τ) : HandleTable κ τ :=
  { t with entries := t.entries.modify id f }

/-- Takes everything out. -/
def clear (t : HandleTable κ τ) : HandleTable κ τ := { t with entries := ∅, index := ∅ }

variable [DecidableEq κ]

def idOf? (t : HandleTable κ τ) (handle : κ) : Option AttrId := t.index.get? handle

/-- The identity of a handle. A handle that is registered keeps its identity and takes the new
value; any other gets the next identity of the source. -/
def register (t : HandleTable κ τ) (ids : IdSource) (handle : κ) (value : τ) :
    AttrId × HandleTable κ τ × IdSource :=
  match t.idOf? handle with
  | some id => (id, t.modify id fun e => { e with value := value }, ids)
  | none =>
    (ids.fresh,
      ⟨t.entries.insert ids.fresh ⟨handle, value⟩, t.index.insert handle ids.fresh⟩,
      ids.advance)

/-- Registers handles in order. Each identity is listed once, where it first came up. -/
def registerAll (t : HandleTable κ τ) (ids : IdSource) :
    List (Entry κ τ) → List AttrId × HandleTable κ τ × IdSource
  | [] => ([], t, ids)
  | e :: rest =>
    let first := t.register ids e.handle e.value
    let others := first.2.1.registerAll first.2.2 rest
    (first.1 :: others.1.filter (· ≠ first.1), others.2)

/-- Takes an identity out, with its handle where the index still maps that handle to it. -/
def retire (t : HandleTable κ τ) (id : AttrId) : Option (Entry κ τ) × HandleTable κ τ :=
  match t.get? id with
  | none => (none, t)
  | some e =>
    (some e,
      ⟨t.entries.erase id, if t.idOf? e.handle = some id then t.index.erase e.handle else t.index⟩)

end HandleTable

end GattHub.Gatt
