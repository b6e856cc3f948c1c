import GattHub.Effect
import Mathlib.Data.List.Nodup

/-! Other native handles in the place of the host's, one for one. Tables of handles and the trees of
attributes take the new handles as they took the old ones, whatever the order of either. -/

namespace GattHub

/-- New handles for services, characteristics and descriptors. Different handles stay different. -/
structure Renaming (H : Handles) where
  service : H.Service → H.Service
  characteristic : H.Characteristic → H.Characteristic
  descriptor : H.Descriptor → H.Descriptor
  service_injective : Function.Injective service
  characteristic_injective : Function.Injective characteristic
  descriptor_injective : Function.Injective descriptor

namespace Table

variable {K L V W : Type} {f : K → L} (hf : Function.Injective f)

def mapKeys (t : Table K V) : Table L V :=
  ⟨t.entries.map fun e => (f e.1, e.2), by
    simpa [List.map_map, Function.comp_def] using t.nodup_keys.map hf⟩

theorem keys_mapKeys (t : Table K V) : (t.mapKeys hf).keys = t.keys.map f := by
  simp [keys, mapKeys, Function.comp_def]

theorem keys_map (g : V → W) (t : Table K V) : (t.map g).keys = t.keys := by
  simp [keys, map, Function.comp_def]

variable [DecidableEq K] [DecidableEq L]

theorem get?_mapKeys (t : Table K V) (k : K) : (t.mapKeys hf).get? (f k) = t.get? k := by
  simp [get?, mapKeys, List.find?_map, Function.comp_def, hf.eq_iff]

theorem modify_mapKeys (t : Table K V) (k : K) (g : V → V) :
    (t.mapKeys hf).modify (f k) g = (t.modify k g).mapKeys hf :=
  ext (by simp [modify, mapKeys, hf.eq_iff])

theorem insert_mapKeys (t : Table K V) (k : K) (v : V) :
    (t.mapKeys hf).insert (f k) v = (t.insert k v).mapKeys hf := by
  by_cases hk : k ∈ t.keys
  · have hk' : f k ∈ (t.mapKeys hf).keys := by
      rw [keys_mapKeys]
      exact List.mem_map_of_mem hk
    rw [insert, dif_pos hk', insert, dif_pos hk, modify_mapKeys]
  · have hk' : f k ∉ (t.mapKeys hf).keys := by
      rw [keys_mapKeys, List.mem_map_of_injective hf]
      exact hk
    rw [insert, dif_neg hk', insert, dif_neg hk]
    exact ext (by simp [mapKeys])

theorem erase_mapKeys (t : Table K V) (k : K) :
    (t.mapKeys hf).erase (f k) = (t.erase k).mapKeys hf :=
  ext (by simp [erase, mapKeys, List.filter_map, Function.comp_def, hf.eq_iff])

variable {g : V → W}

theorem modify_map (t : Table K V) (k : K) {u : V → V} {u' : W → W} (hu : ∀ v, u' (g v) = g (u v)) :
    (t.map g).modify k u' = (t.modify k u).map g := by
  refine ext ?_
  simp only [modify, map, List.map_map]
  refine List.map_congr_left fun e _ => ?_
  by_cases he : e.1 = k <;> simp [he, hu]

theorem insert_map (g : V → W) (t : Table K V) (k : K) (v : V) :
    (t.map g).insert k (g v) = (t.insert k v).map g := by
  by_cases hk : k ∈ t.keys
  · have hk' : k ∈ (t.map g).keys := by rwa [keys_map]
    rw [insert, dif_pos hk', insert, dif_pos hk]
    exact modify_map t k fun _ => rfl
  · have hk' : k ∉ (t.map g).keys := by rwa [keys_map]
    rw [insert, dif_neg hk', insert, dif_neg hk]
    exact ext (by simp [map])

theorem erase_map (g : V → W) (t : Table K V) (k : K) :
    (t.map g).erase k = (t.erase k).map g :=
  ext (by simp [erase, map, List.filter_map, Function.comp_def])

end Table

namespace Gatt

variable {κ τ : Type}

def Entry.rename (f : κ → κ) (e : Entry κ τ) : Entry κ τ := { e with handle := f e.handle }

@[simp] theorem Entry.handle_rename (f : κ → κ) (e : Entry κ τ) :
    (e.rename f).handle = f e.handle := rfl

@[simp] theorem Entry.value_rename (f : κ → κ) (e : Entry κ τ) : (e.rename f).value = e.value := rfl

namespace HandleTable

variable {f : κ → κ} (hf : Function.Injective f)

def rename (t : HandleTable κ τ) : HandleTable κ τ :=
  ⟨t.entries.map (Entry.rename f), t.index.mapKeys hf⟩

theorem get?_rename (t : HandleTable κ τ) (id : AttrId) :
    (t.rename hf).get? id = (t.get? id).map (Entry.rename f) := Table.get?_map _ _ _

theorem get_rename (t : HandleTable κ τ) (id : AttrId) :
    (t.rename hf).get id = (t.get id).map (Entry.rename f) := by
  rw [get, get?_rename, get]
  cases t.get? id <;> rfl

theorem modify_rename (t : HandleTable κ τ) (id : AttrId) {u : Entry κ τ → Entry κ τ}
    (hu : ∀ e, u (e.rename f) = (u e).rename f) :
    (t.rename hf).modify id u = (t.modify id u).rename hf := by
  simp only [modify, rename, Table.modify_map t.entries id hu]

variable [DecidableEq κ]

theorem idOf?_rename (t : HandleTable κ τ) (handle : κ) :
    (t.rename hf).idOf? (f handle) = t.idOf? handle := Table.get?_mapKeys hf _ _

theorem register_rename (t : HandleTable κ τ) (ids : IdSource) (handle : κ) (value : τ) :
    (t.rename hf).register ids (f handle) value =
      ((t.register ids handle value).1, (t.register ids handle value).2.1.rename hf,
        (t.register ids handle value).2.2) := by
  -- handles are compared in the index only
  simp only [register, idOf?_rename]
  cases t.idOf? handle with
  | some id => exact congrArg (id, ·, ids) (modify_rename hf t id fun _ => rfl)
  | none =>
    simp only [rename, Table.insert_mapKeys]
    rw [← Table.insert_map]
    rfl

theorem registerAll_rename (t : HandleTable κ τ) (ids : IdSource) (es : List (Entry κ τ)) :
    (t.rename hf).registerAll ids (es.map (Entry.rename f)) =
      ((t.registerAll ids es).1, (t.registerAll ids es).2.1.rename hf,
        (t.registerAll ids es).2.2) := by
  induction es generalizing t ids with
  | nil => rfl
  | cons e es ih =>
    simp only [List.map_cons, registerAll, Entry.handle_rename, Entry.value_rename,
      register_rename, ih]

theorem retire_rename (t : HandleTable κ τ) (id : AttrId) :
    (t.rename hf).retire id =
      ((t.retire id).1.map (Entry.rename f), (t.retire id).2.rename hf) := by
  simp only [retire, get?_rename]
  cases t.get? id with
  | none => rfl
  | some e =>
    simp only [Option.map_some, Entry.handle_rename, idOf?_rename]
    split
    · simp only [rename, Table.erase_map, Table.erase_mapKeys]
    · simp only [rename, Table.erase_map]

end HandleTable

def Found.rename (f : κ → κ) (x : Found κ) : Found κ := { x with handle := f x.handle }

def FoundCharacteristic.rename (f : κ → κ) (x : FoundCharacteristic κ) : FoundCharacteristic κ :=
  { x with handle := f x.handle }

namespace Tree

variable {H : Handles} (ρ : Renaming H)

def rename (t : Tree H.Service H.Characteristic H.Descriptor) :
    Tree H.Service H.Characteristic H.Descriptor :=
  ⟨t.order, t.services.rename ρ.service_injective,
    t.characteristics.rename ρ.characteristic_injective,
    t.descriptors.rename ρ.descriptor_injective⟩

variable (t : Tree H.Service H.Characteristic H.Descriptor)

section Lists

theorem serviceList_rename : (t.rename ρ).serviceList = t.serviceList := by
  simp only [serviceList, rename, HandleTable.get?_rename, Option.map_map]
  rfl

theorem listCharacteristics_rename (ids : List AttrId) :
    (t.rename ρ).listCharacteristics ids = t.listCharacteristics ids := by
  simp only [listCharacteristics, rename, HandleTable.get?_rename, Option.map_map]
  rfl

theorem listDescriptors_rename (ids : List AttrId) :
    (t.rename ρ).listDescriptors ids = t.listDescriptors ids := by
  simp only [listDescriptors, rename, HandleTable.get?_rename, Option.map_map]
  rfl

theorem characteristicsOf_rename (service : AttrId) :
    (t.rename ρ).characteristicsOf service = t.characteristicsOf service := by
  rw [characteristicsOf, rename, HandleTable.get_rename, characteristicsOf]
  cases t.services.get service with
  | error u => rfl
  | ok e => exact congrArg Except.ok (t.listCharacteristics_rename ρ _)

theorem descriptorsOf_rename (characteristic : AttrId) :
    (t.rename ρ).descriptorsOf characteristic = t.descriptorsOf characteristic := by
  rw [descriptorsOf, rename, HandleTable.get_rename, descriptorsOf]
  cases t.characteristics.get characteristic with
  | error u => rfl
  | ok e => exact congrArg Except.ok (t.listDescriptors_rename ρ _)

end Lists

section Rebuilding

theorem foldl_retire_rename (ds : HandleTable H.Descriptor Uuid) (ids : List AttrId) :
    ids.foldl (fun ds id => (ds.retire id).2) (ds.rename ρ.descriptor_injective) =
      (ids.foldl (fun ds id => (ds.retire id).2) ds).rename ρ.descriptor_injective :=
  List.foldl_hom (HandleTable.rename ρ.descriptor_injective) fun ds id => by
    rw [HandleTable.retire_rename]

theorem dropDescriptors_rename (ids : List AttrId) :
    (t.rename ρ).dropDescriptors ids = (t.dropDescriptors ids).rename ρ := by
  simp only [dropDescriptors, rename, foldl_retire_rename]

theorem dropCharacteristic_rename (id : AttrId) :
    (t.rename ρ).dropCharacteristic id = (t.dropCharacteristic id).rename ρ := by
  have hretire := t.characteristics.retire_rename ρ.characteristic_injective id
  simp only [dropCharacteristic, rename] at hretire ⊢
  rw [hretire]
  cases hr : t.characteristics.retire id with
  | mk e? cs =>
    cases e? with
    | none => rfl
    | some e => exact dropDescriptors_rename ρ { t with characteristics := cs } _

theorem foldl_dropCharacteristic_rename (ids : List AttrId) :
    ids.foldl dropCharacteristic (t.rename ρ) = (ids.foldl dropCharacteristic t).rename ρ :=
  List.foldl_hom (rename ρ) fun t id => t.dropCharacteristic_rename ρ id

theorem dropService_rename (id : AttrId) :
    (t.rename ρ).dropService id = (t.dropService id).rename ρ := by
  have hretire := t.services.retire_rename ρ.service_injective id
  simp only [dropService, rename] at hretire ⊢
  rw [hretire]
  cases hr : t.services.retire id with
  | mk e? ss =>
    cases e? with
    | none => rfl
    | some e => exact foldl_dropCharacteristic_rename ρ { t with services := ss } _

theorem foldl_dropService_rename (ids : List AttrId) :
    ids.foldl dropService (t.rename ρ) = (ids.foldl dropService t).rename ρ :=
  List.foldl_hom (rename ρ) fun t id => t.dropService_rename ρ id

theorem rebuildServices_rename (ids : IdSource) (found : List (Found H.Service)) :
    (t.rename ρ).rebuildServices ids (found.map (Found.rename ρ.service)) =
      ((t.rebuildServices ids found).1.rename ρ, (t.rebuildServices ids found).2) := by
  have hbare : (t.rename ρ).order.foldl dropService { t.rename ρ with order := [] } =
      (t.order.foldl dropService { t with order := [] }).rename ρ :=
    foldl_dropService_rename ρ { t with order := [] } t.order
  have hentries : (found.map (Found.rename ρ.service)).map
        (fun f => (⟨f.handle, ⟨f.uuid, []⟩⟩ : Entry H.Service ServiceNode)) =
      (found.map fun f => ⟨f.handle, ⟨f.uuid, []⟩⟩).map (Entry.rename ρ.service) := by
    simp [Found.rename, Entry.rename]
  simp only [rebuildServices, hbare, hentries]
  simp only [rename, HandleTable.registerAll_rename]

theorem rebuildCharacteristics_rename (ids : IdSource) (service : AttrId)
    (found : List (FoundCharacteristic H.Characteristic)) :
    (t.rename ρ).rebuildCharacteristics ids service
        (found.map (FoundCharacteristic.rename ρ.characteristic)) =
      (t.rebuildCharacteristics ids service found).map fun r => (r.1.rename ρ, r.2) := by
  have hentries : (found.map (FoundCharacteristic.rename ρ.characteristic)).map
        (fun f => (⟨f.handle, ⟨f.uuid, f.properties, []⟩⟩ :
          Entry H.Characteristic CharacteristicNode)) =
      (found.map fun f => ⟨f.handle, ⟨f.uuid, f.properties, []⟩⟩).map
        (Entry.rename ρ.characteristic) := by
    simp [FoundCharacteristic.rename, Entry.rename]
  have hlisted (ss : HandleTable H.Service ServiceNode) (listed : List AttrId) :=
    ss.modify_rename ρ.service_injective service
      (u := fun s => { s with value := { s.value with characteristics := listed } }) fun _ => rfl
  simp only [rebuildCharacteristics, hentries]
  rw [show (t.rename ρ).services.get service = _ from HandleTable.get_rename _ _ _]
  cases t.services.get service with
  | error u => rfl
  | ok e =>
    simp only [Except.map, Entry.value_rename, foldl_dropCharacteristic_rename]
    simp only [rename, HandleTable.registerAll_rename, hlisted]

theorem rebuildDescriptors_rename (ids : IdSource) (characteristic : AttrId)
    (found : List (Found H.Descriptor)) :
    (t.rename ρ).rebuildDescriptors ids characteristic
        (found.map (Found.rename ρ.descriptor)) =
      (t.rebuildDescriptors ids characteristic found).map fun r => (r.1.rename ρ, r.2) := by
  have hentries : (found.map (Found.rename ρ.descriptor)).map
        (fun f => (⟨f.handle, f.uuid⟩ : Entry H.Descriptor Uuid)) =
      (found.map fun f => ⟨f.handle, f.uuid⟩).map (Entry.rename ρ.descriptor) := by
    simp [Found.rename, Entry.rename]
  have hlisted (cs : HandleTable H.Characteristic CharacteristicNode) (listed : List AttrId) :=
    cs.modify_rename ρ.characteristic_injective characteristic
      (u := fun c => { c with value := { c.value with descriptors := listed } }) fun _ => rfl
  simp only [rebuildDescriptors, hentries]
  rw [show (t.rename ρ).characteristics.get characteristic = _ from HandleTable.get_rename _ _ _]
  cases t.characteristics.get characteristic with
  | error u => rfl
  | ok e =>
    simp only [Except.map, Entry.value_rename, dropDescriptors_rename]
    simp only [rename, HandleTable.registerAll_rename, hlisted]

end Rebuilding

end Tree

end Gatt

end GattHub
