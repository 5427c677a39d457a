import Mathlib.Data.List.Sort
import Mathlib.Data.List.MinMax
import Mathlib.Data.List.Dedup
import HelixSync.Server.Model

/-!
# Rebuilding the objects of an account

`server/src/sync/snapshot.rs` and `server/src/sync/conflict.rs`: the current state of
every object, from the latest stored snapshot at or below a ceiling and the operations
after it.

Each object is rebuilt on its own (`HelixSync.combineObject`). The history of a
plaintext bookmark is merged field by field (`HelixSync.mergeBookmarkFields`); any
other history keeps its highest-key operation as a whole. The state stored in the
snapshot is treated as one more operation, older than all those after the snapshot.

`HelixSync.get_computeObjects` is the one fact the rest of the development needs about
the way the rows are streamed and grouped: what is computed for an object depends on
that object's snapshot entry and that object's rows only.
-/

namespace HelixSync

/-! ### Merging a plaintext bookmark -/

/-- The fields found so far by `merge_bookmark_fields`. -/
structure MergedFields where
  title : Option Json
  url : Option Json
  move : Option (Json × Json)

/-- One payload of the merge: each field is taken from the last payload that sets
it, `parent` and `position` together. -/
def MergedFields.step (s : MergedFields) (payload : Json) : MergedFields where
  title := (payload.get? "title").orElse fun _ => s.title
  url := (payload.get? "url").orElse fun _ => s.url
  move := match payload.get? "parent", payload.get? "position" with
    | some parent, some position => some (parent, position)
    | _, _ => s.move

/-- `merge_bookmark_fields`, over payloads in ascending key order. Fields that are not
merged come from the last payload; nothing if no title or no move was ever set. -/
def mergeBookmarkFields (payloads : List Json) : Option Json :=
  let found := payloads.foldl MergedFields.step ⟨none, none, none⟩
  match found.title, found.move with
  | some title, some (parent, position) =>
    let latest := (payloads.getLast?.map Json.fields).getD []
    let merged := insertField latest "title" title
    let merged := insertField merged "url" (found.url.getD .null)
    let merged := insertField merged "parent" parent
    some (.object (insertField merged "position" position))
  | _, _ => none

/-! ### One object -/

/-- `FIELD_MERGE_OBJECT_TYPES`. -/
def fieldMergeObjectTypes : List ObjectType := [.bookmark, .bookmarkFolder]

/-- The state a single operation leaves its object in. -/
def snapshotOf (row : OperationRow) : SnapshotObject where
  objectType := row.objectType
  objectId := row.objectId
  operationType := row.operationType
  encryptionVersion := row.encryptionVersion
  payload := row.payload
  createdAt := row.createdAt
  visitCount := row.visitCount
  lamportTimestamp := row.lamportTimestamp
  deviceId := row.deviceId
  operationId := row.operationId

/-- Whether a history is merged field by field. -/
def mergesFields (key : ObjectKey) (base : Option SnapshotObject) (newOps : List OperationRow) :
    Bool :=
  newOps.all (fun op => op.encryptionVersion == 0)
    && ((base.map fun b => b.encryptionVersion == 0).getD true)
    && fieldMergeObjectTypes.contains key.1

/-- The payloads of a history: the stored state first. -/
def historyPayloads (base : Option SnapshotObject) (newOps : List OperationRow) : List Json :=
  (base.map SnapshotObject.payload).toList ++ newOps.map OperationRow.payload

/-- The key of a merged object: the higher of the stored one and the newest. -/
def mergedKey (base : Option SnapshotObject) (newest : OperationRow) : OrderingKey :=
  match base with
  | none => newest.orderingKey
  | some b => max b.orderingKey newest.orderingKey

/-- The object a field merge produces. -/
def mergedObject (key : ObjectKey) (base : Option SnapshotObject) (newOps : List OperationRow)
    (newest : OperationRow) (merged : Json) : SnapshotObject where
  objectType := key.1
  objectId := key.2
  operationType := .create
  encryptionVersion := 0
  payload := merged
  createdAt := (newOps.map OperationRow.createdAt
    ++ (base.map SnapshotObject.createdAt).toList).max?.getD newest.createdAt
  visitCount := none
  lamportTimestamp := (mergedKey base newest).lamportTimestamp
  deviceId := (mergedKey base newest).deviceId
  operationId := (mergedKey base newest).operationId

/-- `combine_object`: the stored state of an object and its newer operations, in
ascending key order. -/
def combineObject (key : ObjectKey) (base : Option SnapshotObject)
    (newOpsAscending : List OperationRow) : Option SnapshotObject :=
  match newOpsAscending.getLast? with
  | none => base
  | some newest =>
    if mergesFields key base newOpsAscending then
      match mergeBookmarkFields (historyPayloads base newOpsAscending) with
      | some merged => some (mergedObject key base newOpsAscending newest merged)
      | none => some (snapshotOf newest)
    else some (snapshotOf newest)

/-- Rows in ascending order of their key. -/
def sortByKey (rows : List OperationRow) : List OperationRow :=
  rows.insertionSort fun a b => a.orderingKey ≤ b.orderingKey

/-! ### All objects -/

/-- `flush_object_group`: one object's rows merged into the map. -/
def flushObjectGroup (key : ObjectKey) (ops : List OperationRow) (objects : ObjectMap) :
    ObjectMap :=
  match combineObject key (objects.get key) (sortByKey ops) with
  | some combined => (objects.erase key).insert key combined
  | none => objects.erase key

/-- `fold_new_rows_into_objects`. The rows arrive ordered by object, so each object is
one group, flushed once. -/
def foldNewRowsIntoObjects (rows : List OperationRow) (objects : ObjectMap) : ObjectMap :=
  (rows.map OperationRow.objectKey).dedup.foldl
    (fun objects key => flushObjectGroup key (rows.filter fun row => row.objectKey = key) objects)
    objects

/-- `history_retention_cutoff`. -/
def historyRetentionCutoff (now : DateTime) (db : Db) (userId : Uuid) : Option DateTime :=
  match (db.userSettings userId).map UserSettings.historyRetention with
  | some .days7 => some (now - DateTime.days 7)
  | some .days30 => some (now - DateTime.days 30)
  | some .days90 => some (now - DateTime.days 90)
  | some .year1 => some (now - DateTime.days 365)
  | _ => none

/-- Whether something created at a given time is inside the retention window. -/
def insideRetention (cutoff : Option DateTime) (objectType : ObjectType) (createdAt : DateTime) :
    Bool :=
  match cutoff with
  | none => true
  | some c => objectType != .historyVisit || c ≤ createdAt

/-- Whether a cursor is at or below a ceiling. -/
def belowCeiling (ceiling : Option ℕ) (cursor : ℕ) : Bool :=
  match ceiling with
  | none => true
  | some c => cursor ≤ c

/-- The latest snapshot of a user at or below a ceiling. -/
def Db.baseSnapshot? (db : Db) (userId : Uuid) (ceiling : Option ℕ) : Option SnapshotRow :=
  (db.syncSnapshots.filter fun s => s.userId = userId ∧ belowCeiling ceiling s.snapshotCursor).argmax
    SnapshotRow.snapshotCursor

/-- The cursor a rebuild starts after. -/
def Db.baseCursor (db : Db) (userId : Uuid) (ceiling : Option ℕ) : ℕ :=
  ((db.baseSnapshot? userId ceiling).map SnapshotRow.snapshotCursor).getD 0

/-- The objects a rebuild starts from. -/
def Db.baseObjects (db : Db) (userId : Uuid) (ceiling : Option ℕ) (cutoff : Option DateTime) :
    ObjectMap :=
  match db.baseSnapshot? userId ceiling with
  | none => FinMap.empty
  | some s => s.data.retain fun _ obj => insideRetention cutoff obj.objectType obj.createdAt

/-- The rows a rebuild reads. -/
def Db.newRows (db : Db) (userId : Uuid) (ceiling : Option ℕ) (cutoff : Option DateTime) :
    List OperationRow :=
  db.syncOperations.rows.filter fun row =>
    row.userId = userId ∧ db.baseCursor userId ceiling < row.serverCursor ∧
      belowCeiling ceiling row.serverCursor ∧ insideRetention cutoff row.objectType row.createdAt

/-- `COALESCE(MAX(server_cursor), 0)` over a user's rows up to a ceiling. -/
def Db.maxOpCursor (db : Db) (userId : Uuid) (ceiling : Option ℕ) : ℕ :=
  (((db.userRows userId).filter fun row => belowCeiling ceiling row.serverCursor).map
    OperationRow.serverCursor).max?.getD 0

/-- `compute_objects`: the cursor of the view, and every object as of the ceiling. -/
def computeObjects (db : Db) (userId : Uuid) (ceiling : Option ℕ) (cutoff : Option DateTime) :
    ℕ × ObjectMap :=
  (max (db.baseCursor userId ceiling) (db.maxOpCursor userId ceiling),
    (foldNewRowsIntoObjects (db.newRows userId ceiling cutoff)
      (db.baseObjects userId ceiling cutoff)).retain
        fun _ obj => insideRetention cutoff obj.objectType obj.createdAt)

/-! ### Tombstones -/

/-- `load_active_tombstones`. -/
def loadActiveTombstones (db : Db) (userId : Uuid) (key : ObjectKey) : Option OrderingKey :=
  ((db.tombstones userId key).filter TombstoneRow.active).map TombstoneRow.orderingKey

/-- Whether an object survives its tombstone. -/
def survivesTombstone (tombstones : ObjectKey → Option OrderingKey) (key : ObjectKey)
    (obj : SnapshotObject) : Bool :=
  if isTerminalOperation obj.objectType obj.operationType then false
  else match tombstones key with
  | some tombstoneKey => tombstoneKey < obj.orderingKey
  | none => true

/-- `filter_tombstoned`: the live objects. -/
def filterTombstoned (objects : ObjectMap) (tombstones : ObjectKey → Option OrderingKey) :
    ObjectMap :=
  objects.retain (survivesTombstone tombstones)

/-- The answer of `/snapshot`: the live objects and the objects with an active
tombstone, as of a cursor. Its `encryption_version`, which no client reads, is left
out. -/
structure SnapshotResponse where
  snapshotCursor : ℕ
  objects : ObjectMap
  tombstones : ObjectKey → Bool

/-- `snapshot`: all its reads see one state of the database. -/
def snapshot (now : DateTime) (db : Db) (userId : Uuid) : SnapshotResponse :=
  let computed := computeObjects db userId none (historyRetentionCutoff now db userId)
  { snapshotCursor := computed.1
    objects := filterTombstoned computed.2 (loadActiveTombstones db userId)
    tombstones := db.tombstoned userId }

/-! ### What is computed for one object -/

@[simp] theorem combineObject_nil (key : ObjectKey) (base : Option SnapshotObject) :
    combineObject key base [] = base := rfl

/-- An object with new operations becomes the newest of them, or a field merge. -/
theorem combineObject_cases {key : ObjectKey} {base : Option SnapshotObject}
    {newOps : List OperationRow} {newest : OperationRow} (hlast : newOps.getLast? = some newest) :
    combineObject key base newOps = some (snapshotOf newest) ∨
      mergesFields key base newOps = true ∧
        ∃ merged, combineObject key base newOps = some (mergedObject key base newOps newest merged) := by
  unfold combineObject
  rw [hlast]
  dsimp only
  split
  · rename_i hmerges
    split
    · exact Or.inr ⟨hmerges, _, rfl⟩
    · exact Or.inl rfl
  · exact Or.inl rfl

theorem get_flushObjectGroup (key : ObjectKey) (ops : List OperationRow) (objects : ObjectMap)
    (j : ObjectKey) :
    (flushObjectGroup key ops objects).get j =
      if j = key then combineObject key (objects.get key) (sortByKey ops) else objects.get j := by
  unfold flushObjectGroup
  cases combineObject key (objects.get key) (sortByKey ops) with
  | none => rw [FinMap.get_erase]
  | some combined =>
    rw [FinMap.get_insert, FinMap.get_erase]
    by_cases h : j = key
    · rw [if_pos h, if_pos h]
    · rw [if_neg h, if_neg h, if_neg h]

/-- Flushing distinct groups one after the other: each object sees its own group. -/
theorem get_foldl_flush (group : ObjectKey → List OperationRow) (j : ObjectKey) :
    ∀ (keys : List ObjectKey) (objects : ObjectMap), keys.Nodup →
      (keys.foldl (fun objects key => flushObjectGroup key (group key) objects) objects).get j =
        if j ∈ keys then combineObject j (objects.get j) (sortByKey (group j))
        else objects.get j := by
  intro keys
  induction keys with
  | nil => simp
  | cons key keys ih =>
    intro objects hnodup
    obtain ⟨hkey, hkeys⟩ := List.nodup_cons.mp hnodup
    rw [List.foldl_cons, ih _ hkeys, get_flushObjectGroup]
    by_cases h : j = key
    · subst h
      rw [if_neg hkey, if_pos rfl, if_pos List.mem_cons_self]
    · by_cases hmem : j ∈ keys
      · rw [if_pos hmem, if_neg h, if_pos (List.mem_cons_of_mem _ hmem)]
      · rw [if_neg hmem, if_neg h, if_neg (by simp [h, hmem])]

theorem get_foldNewRowsIntoObjects (rows : List OperationRow) (objects : ObjectMap)
    (key : ObjectKey) :
    (foldNewRowsIntoObjects rows objects).get key =
      combineObject key (objects.get key)
        (sortByKey (rows.filter fun row => row.objectKey = key)) := by
  rw [foldNewRowsIntoObjects,
    get_foldl_flush (fun key => rows.filter fun row => row.objectKey = key) key _ _
      (List.nodup_dedup _)]
  split_ifs with h
  · rfl
  · have hnil : (rows.filter fun row => row.objectKey = key) = [] := by
      rw [List.filter_eq_nil_iff]
      intro row hrow hk
      exact h (List.mem_dedup.mpr (List.mem_map.mpr ⟨row, hrow, by simpa using hk⟩))
    rw [hnil]
    rfl

/-- **What is computed for an object** depends on its entry in the base snapshot and
on its own rows. -/
theorem get_computeObjects (db : Db) (userId : Uuid) (ceiling : Option ℕ)
    (cutoff : Option DateTime) (key : ObjectKey) :
    (computeObjects db userId ceiling cutoff).2.get key =
      (combineObject key ((db.baseObjects userId ceiling cutoff).get key)
        (sortByKey ((db.newRows userId ceiling cutoff).filter fun row => row.objectKey = key))).filter
          fun obj => insideRetention cutoff obj.objectType obj.createdAt := by
  rw [computeObjects, FinMap.get_retain, get_foldNewRowsIntoObjects]

theorem mem_sortByKey {row : OperationRow} {rows : List OperationRow} :
    row ∈ sortByKey rows ↔ row ∈ rows :=
  (List.perm_insertionSort _ rows).mem_iff

theorem pairwise_sortByKey (rows : List OperationRow) :
    (sortByKey rows).Pairwise fun a b => a.orderingKey ≤ b.orderingKey := by
  have : Std.Total fun a b : OperationRow => a.orderingKey ≤ b.orderingKey :=
    ⟨fun a b => le_total _ _⟩
  have : IsTrans OperationRow fun a b => a.orderingKey ≤ b.orderingKey :=
    ⟨fun _ _ _ => le_trans⟩
  exact List.pairwise_insertionSort _ rows

/-- The last of the sorted rows has the highest key. -/
theorem newest_spec {rows : List OperationRow} {newest : OperationRow}
    (h : (sortByKey rows).getLast? = some newest) :
    newest ∈ rows ∧ ∀ row ∈ rows, row.orderingKey ≤ newest.orderingKey := by
  refine ⟨mem_sortByKey.mp (List.mem_of_getLast? h), fun row hrow => ?_⟩
  obtain ⟨init, hinit⟩ := List.getLast?_eq_some_iff.mp h
  have hpair := pairwise_sortByKey rows
  have hmem := mem_sortByKey.mpr hrow
  rw [hinit] at hpair hmem
  rcases List.mem_append.mp hmem with hmem | hmem
  · exact (List.pairwise_append.mp hpair).2.2 row hmem newest (List.mem_singleton.mpr rfl)
  · rw [List.mem_singleton.mp hmem]

end HelixSync
