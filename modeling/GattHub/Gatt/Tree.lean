import GattHub.Gatt.HandleTable

/-! The services, characteristics and descriptors known of one peer. Rebuilding a tier retires
every identity beneath the rebuilt parent before the new set is registered. -/

namespace GattHub.Gatt

structure Found (κ : Type) where
  handle : κ
  uuid : Uuid
  deriving DecidableEq

structure FoundCharacteristic (κ : Type) where
  handle : κ
  uuid : Uuid
  properties : UInt8
  deriving DecidableEq

structure Service where
  id : AttrId
  uuid : Uuid
  deriving DecidableEq

structure Characteristic where
  id : AttrId
  uuid : Uuid
  properties : UInt8
  deriving DecidableEq

structure Descriptor where
  id : AttrId
  uuid : Uuid
  deriving DecidableEq

structure ServiceNode where
  uuid : Uuid
  characteristics : List AttrId
  deriving DecidableEq

structure CharacteristicNode where
  uuid : Uuid
  properties : UInt8
  descriptors : List AttrId
  deriving DecidableEq

/-- Services in discovery order, and the live handles of the three tiers. -/
structure Tree (S C D : Type) where
  order : List AttrId
  services : HandleTable S ServiceNode
  characteristics : HandleTable C CharacteristicNode
  descriptors : HandleTable D Uuid

namespace Tree

variable {S C D : Type}

def empty : Tree S C D := ⟨[], ∅, ∅, ∅⟩

instance : EmptyCollection (Tree S C D) := ⟨empty⟩

def serviceList (t : Tree S C D) : List Service :=
  t.order.filterMap fun id => (t.services.get? id).map fun e => ⟨id, e.value.uuid⟩

def listCharacteristics (t : Tree S C D) (ids : List AttrId) : List Characteristic :=
  ids.filterMap fun id =>
    (t.characteristics.get? id).map fun e => ⟨id, e.value.uuid, e.value.properties⟩

def listDescriptors (t : Tree S C D) (ids : List AttrId) : List Descriptor :=
  ids.filterMap fun id => (t.descriptors.get? id).map fun e => ⟨id, e.value⟩

def characteristicsOf (t : Tree S C D) (service : AttrId) :
    Except Unresolved (List Characteristic) :=
  (t.services.get service).map fun e => t.listCharacteristics e.value.characteristics

def descriptorsOf (t : Tree S C D) (characteristic : AttrId) :
    Except Unresolved (List Descriptor) :=
  (t.characteristics.get characteristic).map fun e => t.listDescriptors e.value.descriptors

variable [DecidableEq S] [DecidableEq C] [DecidableEq D]

def dropDescriptors (t : Tree S C D) (ids : List AttrId) : Tree S C D :=
  { t with descriptors := ids.foldl (fun ds id => (ds.retire id).2) t.descriptors }

def dropCharacteristic (t : Tree S C D) (id : AttrId) : Tree S C D :=
  match t.characteristics.retire id with
  | (none, _) => t
  | (some e, cs) => { t with characteristics := cs }.dropDescriptors e.value.descriptors

def dropService (t : Tree S C D) (id : AttrId) : Tree S C D :=
  match t.services.retire id with
  | (none, _) => t
  | (some e, ss) => e.value.characteristics.foldl dropCharacteristic { t with services := ss }

/-- Replaces the whole tree by the services of one discovery. -/
def rebuildServices (t : Tree S C D) (ids : IdSource) (found : List (Found S)) :
    Tree S C D × IdSource :=
  let bare := t.order.foldl dropService { t with order := [] }
  let new := bare.services.registerAll ids (found.map fun f => ⟨f.handle, ⟨f.uuid, []⟩⟩)
  ({ bare with order := new.1, services := new.2.1 }, new.2.2)

def rebuildCharacteristics (t : Tree S C D) (ids : IdSource) (service : AttrId)
    (found : List (FoundCharacteristic C)) : Except Unresolved (Tree S C D × IdSource) :=
  (t.services.get service).map fun e =>
    let bare := e.value.characteristics.foldl dropCharacteristic t
    let new := bare.characteristics.registerAll ids
      (found.map fun f => ⟨f.handle, ⟨f.uuid, f.properties, []⟩⟩)
    let listed := bare.services.modify service fun s =>
      { s with value := { s.value with characteristics := new.1 } }
    ({ bare with services := listed, characteristics := new.2.1 }, new.2.2)

def rebuildDescriptors (t : Tree S C D) (ids : IdSource) (characteristic : AttrId)
    (found : List (Found D)) : Except Unresolved (Tree S C D × IdSource) :=
  (t.characteristics.get characteristic).map fun e =>
    let bare := t.dropDescriptors e.value.descriptors
    let new := bare.descriptors.registerAll ids (found.map fun f => ⟨f.handle, f.uuid⟩)
    let listed := bare.characteristics.modify characteristic fun c =>
      { c with value := { c.value with descriptors := new.1 } }
    ({ bare with characteristics := listed, descriptors := new.2.1 }, new.2.2)

omit [DecidableEq S] in
theorem foldl_dropCharacteristic_services (t : Tree S C D) (cs : List AttrId) :
    (cs.foldl dropCharacteristic t).services = t.services := by
  induction cs generalizing t with
  | nil => rfl
  | cons c cs ih =>
    have hdrop : (t.dropCharacteristic c).services = t.services := by
      simp only [dropCharacteristic]
      split <;> rfl
    rw [List.foldl_cons, ih, hdrop]

omit [DecidableEq S] in
/-- A service still resolves once all beneath it is gone, and registering characteristics touches
no service: a rebuild that found its service can put the new list in it, and fails in no other
case. -/
theorem get?_service_foldl_dropCharacteristic {t : Tree S C D} {service : AttrId}
    {e : Entry S ServiceNode} (he : t.services.get? service = some e) (cs : List AttrId) :
    (cs.foldl dropCharacteristic t).services.get? service = some e := by
  rw [foldl_dropCharacteristic_services, he]

omit [DecidableEq S] [DecidableEq C] in
/-- A characteristic likewise still resolves once its descriptors are gone. -/
theorem get?_characteristic_dropDescriptors {t : Tree S C D} {characteristic : AttrId}
    {e : Entry C CharacteristicNode} (he : t.characteristics.get? characteristic = some e)
    (ds : List AttrId) : (t.dropDescriptors ds).characteristics.get? characteristic = some e :=
  he

end Tree

end GattHub.Gatt
