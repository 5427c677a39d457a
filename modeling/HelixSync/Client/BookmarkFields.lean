import HelixSync.Client.Conflict

/-!
# The fields of a remote bookmark operation

`remoteFieldResolutions` and `resolveRemoteSlice` (`extension/src/bookmarks/index.ts`):
which slots an operation on a bookmark or a folder resolves, and with what values. The
operations of a batch are resolved in slices, in wire order; the slices do not matter
(`HelixSync.Client.applySlices_eq`), and neither do the operations on other objects
(`HelixSync.Client.filter_sliceEntries`).
-/

namespace HelixSync

namespace Client

/-- `OperationOut`: an operation as the server delivers it. -/
structure OperationOut where
  operationId : Uuid
  deviceId : Uuid
  lamportTimestamp : ℤ
  objectType : ObjectType
  objectId : Uuid
  operationType : OperationType

/-- `opKey`, less the operation type. -/
def OperationOut.key (op : OperationOut) : OrderingKey :=
  ⟨op.lamportTimestamp, op.deviceId, op.operationId⟩

/-- An operation with its decrypted payload. -/
abbrev RemoteItem := OperationOut × Json

/-- `RemoteOpKind`. -/
inductive RemoteOpKind where
  | create
  | update
  | move
  | delete
  | unknown
  deriving DecidableEq

/-- `FieldResolution`. -/
abbrev FieldResolution := Field × IncomingField

/-- The two values of the `liveness` slot. -/
def live : Json := .string "live"

/-- The value of the `liveness` slot after a delete. -/
def deleted : Json := .string "deleted"

/-- `{ parent: p.parent, position: p.position }`. -/
def moveValue (payload : Json) : Json :=
  .object ((payload.get? "parent").toList.map (Prod.mk "parent") ++
    (payload.get? "position").toList.map (Prod.mk "position"))

/-- `typeof p.url === "string"`. -/
def stringField? (payload : Json) (name : String) : Option Json :=
  match payload.get? name with
  | some (.string value) => some (.string value)
  | _ => none

/-- `remoteFieldResolutions`: a slot the operation does not set is `none`. -/
def remoteFieldResolutions (op : OperationOut) (payload : Json) :
    RemoteOpKind × List (Option FieldResolution) :=
  let incoming (value : Option Json) : IncomingField := ⟨op.key, op.operationType, value⟩
  match op.operationType with
  | .create | .restore =>
    (.create, [some (.liveness, incoming (some live)),
      some (.title, incoming (payload.get? "title")),
      some (.url, incoming (payload.get? "url")),
      some (.move, incoming (some (moveValue payload)))])
  | .update =>
    (.update, [some (.liveness, incoming (some live)),
      (payload.get? "title").map fun title => (.title, incoming (some title)),
      (stringField? payload "url").map fun url => (.url, incoming (some url))])
  | .move =>
    (.move, [some (.move, incoming (some payload)), some (.liveness, incoming (some live))])
  | .delete => (.delete, [some (.liveness, incoming (some deleted))])
  | _ => (.unknown, [])

/-- The entries of one operation. -/
def itemEntries (item : RemoteItem) : List BatchFieldResolution :=
  ((remoteFieldResolutions item.1 item.2).2.filterMap id).map fun f =>
    ⟨item.1.objectId, f.1, f.2⟩

/-- The entries of a slice, in wire order. -/
def sliceEntries (slice : List RemoteItem) : List BatchFieldResolution :=
  slice.flatMap itemEntries

/-- `resolveRemoteSlice`: the store after a slice. -/
def resolveRemoteSlice (store : FieldStore) (slice : List RemoteItem) : FieldStore :=
  (resolveFieldsBatch store (sliceEntries slice)).2

/-- The store after a list of slices. -/
def applySlices (store : FieldStore) (slices : List (List RemoteItem)) : FieldStore :=
  slices.foldl resolveRemoteSlice store

/-! ### Slices and other objects do not matter -/

theorem sliceEntries_append (items items' : List RemoteItem) :
    sliceEntries (items ++ items') = sliceEntries items ++ sliceEntries items' :=
  List.flatMap_append

/-- **Slices do not matter.** -/
theorem applySlices_eq (slices : List (List RemoteItem)) :
    ∀ store, applySlices store slices = (sliceEntries slices.flatten).foldl resolveEntry store := by
  induction slices with
  | nil => exact fun _ => rfl
  | cons slice slices ih =>
    intro store
    change applySlices (resolveRemoteSlice store slice) slices = _
    rw [ih, resolveRemoteSlice, resolveFieldsBatch_snd, List.flatten_cons, sliceEntries_append,
      List.foldl_append]

theorem objectId_of_mem_itemEntries {item : RemoteItem} {entry : BatchFieldResolution}
    (h : entry ∈ itemEntries item) : entry.objectId = item.1.objectId := by
  obtain ⟨f, -, rfl⟩ := List.mem_map.mp h
  rfl

/-- The values one operation has for a field. -/
def fieldValues (field : Field) (item : RemoteItem) : List IncomingField :=
  (((remoteFieldResolutions item.1 item.2).2.filterMap id).filter fun f => f.1 = field).map Prod.snd

/-- **Other objects do not matter**: the values a slot gets are those of the operations on
its object. -/
theorem filter_sliceEntries (key : SlotKey) (items : List RemoteItem) :
    ((sliceEntries items).filter fun e => e.slot = key).map BatchFieldResolution.incoming =
      (items.filter fun item => item.1.objectId = key.1).flatMap (fieldValues key.2) := by
  induction items with
  | nil => rfl
  | cons item items ih =>
    rw [sliceEntries, List.flatMap_cons, List.filter_append, List.map_append]
    rw [sliceEntries] at ih
    rw [ih]
    by_cases hid : item.1.objectId = key.1
    · rw [List.filter_cons_of_pos (by simpa using hid), List.flatMap_cons]
      congr 1
      rw [itemEntries, fieldValues, List.filter_map, List.map_map]
      have hslot : ((fun e : BatchFieldResolution => decide (e.slot = key)) ∘
          fun f : FieldResolution => (⟨item.1.objectId, f.1, f.2⟩ : BatchFieldResolution)) =
            fun f => decide (f.1 = key.2) := by
        funext f
        simp [BatchFieldResolution.slot, Prod.ext_iff, hid]
      rw [hslot]
      rfl
    · have hnil : (itemEntries item).filter (fun e => decide (e.slot = key)) = [] := by
        refine List.filter_eq_nil_iff.mpr fun entry hentry => ?_
        simp only [decide_eq_true_eq]
        intro hslot
        rw [← hslot] at hid
        exact hid (objectId_of_mem_itemEntries hentry).symm
      rw [hnil, List.filter_cons_of_neg (by simpa using hid)]
      rfl

/-- The slot of an object after a list of slices. -/
theorem applySlices_apply (key : SlotKey) (slices : List (List RemoteItem)) (store : FieldStore) :
    applySlices store slices key =
      ((slices.flatten.filter fun item => item.1.objectId = key.1).flatMap
        (fieldValues key.2)).foldl (resolveSlot key.2) (store key) := by
  rw [applySlices_eq, foldl_resolveEntry_apply, filter_sliceEntries]

end Client

end HelixSync
