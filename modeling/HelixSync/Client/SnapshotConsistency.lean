import HelixSync.Client.CatchUp
import HelixSync.Client.FieldConvergence

/-!
# Objects and tombstones of a snapshot

`filter_tombstoned` keeps an object whose state has a higher key than its tombstone, since the
update wins; the list of tombstones is every active one all the same. So the two lists of a
`/snapshot` response overlap exactly where an active tombstone was beaten, and a client that
applies first the objects and then the tombstones, with a key above all it has received, deletes
what the server meant to keep.

Three more things keep an object of a snapshot from ending live on a client: it is not
encrypted, which the client refuses; it is a tab last activated, whose state says nothing about
the tab being open; or a tombstone of another type has its id, since a slot is named by the id
alone. Otherwise objects end live and tombstones deleted
(`HelixSync.Client.consistent_iff`).
-/

namespace HelixSync

namespace Client

/-! ### The appliers, as far as the field states go -/

/-- The types with an applier. -/
def hasAppliers : ObjectType → Bool
  | .bookmark | .bookmarkFolder | .historyVisit | .tab | .window | .tabGroup => true
  | _ => false

/-- The types whose objects have a `liveness` slot. -/
def hasLiveness : ObjectType → Bool
  | .bookmark | .bookmarkFolder | .tab | .window | .tabGroup => true
  | _ => false

/-- A client with its field states. -/
def fieldReader (deviceId : Uuid) (decrypt : WireOperation → Option Json) : Reader FieldStore where
  deviceId := deviceId
  decrypt := decrypt
  applier := fun objectType =>
    if hasAppliers objectType then some fun item store => deliver store [[item.remote]] else none
  batchApplier := fun objectType =>
    if hasAppliers objectType then
      some fun items store => deliver store [items.map DecryptedItem.remote]
    else none
  clearFieldState := fun _ => emptyStore

/-- The field states after `applySnapshot`. -/
def fieldsAfter (deviceId : Uuid) (decrypt : WireOperation → Option Json) (d : Device FieldStore)
    (newId : ObjectKey → Uuid) (received : ReceivedSnapshot) : FieldStore :=
  (performAll (fieldReader deviceId decrypt) d
    (snapshotActions (fieldReader deviceId decrypt) d.lamportClock newId received)).world

/-- The `liveness` slot of an object is live. -/
def IsLive (store : FieldStore) (objectId : Uuid) : Prop :=
  ∃ record, store (objectId, .liveness) = some record ∧ record.value = some live

/-- The `liveness` slot of an object is deleted. -/
def IsDeleted (store : FieldStore) (objectId : Uuid) : Prop :=
  ∃ record, store (objectId, .liveness) = some record ∧ record.value = some deleted

/-! ### What is expected -/

/-- A response and the field states it leaves agree: nothing is listed twice, what is listed as
an object is live and what is listed as a tombstone is deleted. -/
structure Consistent (response : SnapshotResponse) (store : FieldStore) : Prop where
  disjoint : ∀ key obj, response.objects.get key = some obj → response.tombstones key = false
  live : ∀ key obj, response.objects.get key = some obj → hasLiveness key.1 = true →
    IsLive store key.2
  deleted : ∀ key, response.tombstones key = true → hasLiveness key.1 = true →
    IsDeleted store key.2

/-- The rows of an object above the latest snapshot. -/
def recentRows (s : Server) (userId : Uuid) (key : ObjectKey) : List OperationRow :=
  s.db.syncOperations.rows.filter fun row =>
    row.userId = userId ∧ s.db.baseCursor userId none < row.serverCursor ∧ row.objectKey = key

/-- What the latest snapshot stores of an object. -/
def storedObject (s : Server) (userId : Uuid) (key : ObjectKey) : Option SnapshotObject :=
  (s.db.baseSnapshot? userId none).bind fun snap => snap.data.get key

/-- The fields of an object are merged: all that is known of it is a plaintext bookmark, with a
title and a place. -/
def MergesStored (s : Server) (userId : Uuid) (key : ObjectKey) : Prop :=
  mergesFields key (storedObject s userId key) (recentRows s userId key) = true ∧
    carriesFields (historyPayloads (storedObject s userId key) (recentRows s userId key)) = true

/-- **The last word of the tables on an object**, with its operation type, encryption version and
key: the row with the highest key above the latest snapshot, or, if there is no row, what that
snapshot stores. Fields that are merged count as a plaintext create with the highest key. -/
inductive LastWord (s : Server) (userId : Uuid) (key : ObjectKey) :
    OperationType → ℤ → OrderingKey → Prop where
  | stored {obj : SnapshotObject} (hrows : recentRows s userId key = [])
      (hstored : storedObject s userId key = some obj) :
      LastWord s userId key obj.operationType obj.encryptionVersion obj.orderingKey
  | newest {row : OperationRow} (hrow : row ∈ recentRows s userId key)
      (hlast : ∀ other ∈ recentRows s userId key, other.orderingKey ≤ row.orderingKey)
      (hmerges : ¬MergesStored s userId key) :
      LastWord s userId key row.operationType row.encryptionVersion row.orderingKey
  | merged {row : OperationRow} (hrow : row ∈ recentRows s userId key)
      (hlast : ∀ other ∈ recentRows s userId key, other.orderingKey ≤ row.orderingKey)
      (hmerges : MergesStored s userId key) :
      LastWord s userId key .create 0 (mergedKey (storedObject s userId key) row)

/-- The last word on an object is no deletion, and above its tombstone if that is active. -/
def LiveWord (s : Server) (userId : Uuid) (key : ObjectKey) (operationType : OperationType)
    (encryptionVersion : ℤ) : Prop :=
  ∃ orderingKey, LastWord s userId key operationType encryptionVersion orderingKey ∧
    isTerminalOperation key.1 operationType = false ∧
    ∀ tombstone ∈ loadActiveTombstones s.db userId key, tombstone < orderingKey

/-- An object id is opened: some object with a `liveness` slot has it on which the last word is
live, encrypted, and not an activation. -/
def Opens (s : Server) (userId objectId : Uuid) : Prop :=
  ∃ objectType operationType encryptionVersion, hasLiveness objectType = true ∧
    LiveWord s userId (objectType, objectId) operationType encryptionVersion ∧
    1 ≤ encryptionVersion ∧ operationType ≠ .activate

/-- An object id is closed: some object with a `liveness` slot has it and an active tombstone. -/
def Closes (s : Server) (userId objectId : Uuid) : Prop :=
  ∃ objectType, hasLiveness objectType = true ∧ s.db.tombstoned userId (objectType, objectId) = true

/-- **When a snapshot is consistent.** No active tombstone is beaten: the last word on its object
is a deletion or has a key at or below its own. And the id of an object that has a `liveness` slot
and a live last word is opened and not closed. -/
structure Unambiguous (s : Server) (userId : Uuid) : Prop where
  unbeaten : ∀ key operationType encryptionVersion orderingKey,
    LastWord s userId key operationType encryptionVersion orderingKey →
      ∀ tombstone ∈ loadActiveTombstones s.db userId key,
        isTerminalOperation key.1 operationType = true ∨ orderingKey ≤ tombstone
  opens : ∀ key operationType encryptionVersion, hasLiveness key.1 = true →
    LiveWord s userId key operationType encryptionVersion →
      Opens s userId key.2 ∧ ¬Closes s userId key.2

/-- The client can read a snapshot: no envelope is unsupported, and what is encrypted it can
decrypt. -/
def Reads (decrypt : WireOperation → Option Json) (d : Device FieldStore) (newId : ObjectKey → Uuid)
    (received : ReceivedSnapshot) : Prop :=
  received.unsupported = false ∧ ∀ obj ∈ received.objects, 1 ≤ obj.encryptionVersion →
    hasLiveness obj.objectType = true → (decrypt (snapshotOperation received
      (max d.lamportClock received.newest + 1) newId obj)).isSome = true

/-! ### What is computed is the last word -/

/-- The state the server computes for an object. -/
def stateOf (s : Server) (userId : Uuid) (key : ObjectKey) : Option SnapshotObject :=
  (computeObjects s.db userId none (historyRetentionCutoff s.now s.db userId)).2.get key

/-- Whether the state of an object is a deletion, or is below its active tombstone. -/
def Hidden (s : Server) (userId : Uuid) (key : ObjectKey) (obj : SnapshotObject) : Prop :=
  isTerminalOperation obj.objectType obj.operationType = true ∨
    ∃ tombstone, loadActiveTombstones s.db userId key = some tombstone ∧ obj.orderingKey ≤ tombstone

section Computed

variable {s : Server} {userId : Uuid} {key : ObjectKey}

theorem insideRetention_of_ne {cutoff : Option DateTime} {objectType : ObjectType}
    (h : objectType ≠ .historyVisit) (createdAt : DateTime) :
    insideRetention cutoff objectType createdAt = true := by
  cases cutoff <;> simp [insideRetention, h]

theorem objectKey_of_mem_recentRows {row : OperationRow} (h : row ∈ recentRows s userId key) :
    row.objectKey = key := by
  rw [recentRows, List.mem_filter, decide_eq_true_eq] at h
  exact h.2.2.2

/-- Rows of one key are one row: an id stands in the log once. -/
theorem eq_of_orderingKey_eq {row other : OperationRow} (hrow : row ∈ recentRows s userId key)
    (hother : other ∈ recentRows s userId key) (h : row.orderingKey = other.orderingKey) :
    row = other := by
  have hids : (s.db.syncOperations.rows.map OperationRow.operationId).Nodup :=
    List.pairwise_map.mpr (s.db.syncOperations.unique.imp And.left)
  exact List.inj_on_of_nodup_map hids (List.mem_of_mem_filter hrow) (List.mem_of_mem_filter hother)
    (congrArg OrderingKey.operationId h)

theorem objectKey_of_storedObject (hstocked : Server.Stocked s) {obj : SnapshotObject}
    (h : storedObject s userId key = some obj) : obj.objectKey = key := by
  obtain ⟨snap, hsnap, hget⟩ := Option.bind_eq_some_iff.mp h
  exact (hstocked.objects snap (List.mem_of_mem_filter (List.argmax_mem hsnap)) key obj hget).objectKey

theorem objectKey_combineObject (hstocked : Server.Stocked s) {obj : SnapshotObject}
    (h : combineObject key (storedObject s userId key) (sortByKey (recentRows s userId key)) =
      some obj) : obj.objectKey = key := by
  rcases hlast : (sortByKey (recentRows s userId key)).getLast? with _ | newest
  · rw [List.getLast?_eq_none_iff.mp hlast, combineObject_nil] at h
    exact objectKey_of_storedObject hstocked h
  · rcases @combineObject_cases key (storedObject s userId key) _ _ hlast with heq | ⟨-, merged, heq⟩
    · obtain rfl := Option.some.inj (heq.symm.trans h)
      exact objectKey_of_mem_recentRows (newest_spec hlast).1
    · obtain rfl := Option.some.inj (heq.symm.trans h)
      rfl

/-- Retention concerns history visits only: the state of another object is combined from what is
stored and the rows above. -/
theorem stateOf_eq (hstocked : Server.Stocked s)
    (hkey : key.1 ≠ .historyVisit) : stateOf s userId key =
      combineObject key (storedObject s userId key) (sortByKey (recentRows s userId key)) := by
  have hrows : ((s.db.newRows userId none (historyRetentionCutoff s.now s.db userId)).filter
      fun row => row.objectKey = key) = recentRows s userId key := by
    rw [Db.newRows, recentRows, List.filter_filter]
    refine List.filter_congr fun row _ => ?_
    by_cases hrow : row.objectKey = key
    · have hinside : ∀ cutoff, insideRetention cutoff row.objectType row.createdAt = true :=
        fun cutoff => insideRetention_of_ne (by rwa [← hrow] at hkey) _
      simp [hrow, hinside, belowCeiling]
    · simp [hrow]
  have hbase : (s.db.baseObjects userId none (historyRetentionCutoff s.now s.db userId)).get key =
      storedObject s userId key := by
    unfold Db.baseObjects storedObject
    rcases hsnap : s.db.baseSnapshot? userId none with _ | snap
    · rfl
    · dsimp only [Option.bind_some]
      rw [FinMap.get_retain]
      rcases hget : snap.data.get key with _ | obj
      · rfl
      · have hobj : obj.objectKey = key :=
          objectKey_of_storedObject hstocked (by rw [storedObject, hsnap]; exact hget)
        rw [Option.filter_some, if_pos (insideRetention_of_ne (by rwa [← hobj] at hkey) _)]
  rw [stateOf, get_computeObjects, hrows, hbase]
  rcases hcombined : combineObject key (storedObject s userId key)
      (sortByKey (recentRows s userId key)) with _ | obj
  · rfl
  · have hobj := objectKey_combineObject hstocked hcombined
    rw [Option.filter_some, if_pos (insideRetention_of_ne (by rwa [← hobj] at hkey) _)]

theorem mergesFields_sortByKey (rows : List OperationRow) (base : Option SnapshotObject) :
    mergesFields key base (sortByKey rows) = mergesFields key base rows := by
  simp only [mergesFields, sortByKey, (List.perm_insertionSort _ rows).all_eq]

theorem carriesFields_sortByKey (rows : List OperationRow) (base : Option SnapshotObject) :
    carriesFields (historyPayloads base (sortByKey rows)) =
      carriesFields (historyPayloads base rows) := by
  have hperm : (historyPayloads base (sortByKey rows)).Perm (historyPayloads base rows) :=
    ((List.perm_insertionSort _ rows).map _).append_left _
  rw [carriesFields, carriesFields, hperm.any_eq, hperm.any_eq]

/-- An object whose fields are merged has the highest key, -/
theorem exists_mergedObject {newest : OperationRow}
    (hlast : (sortByKey (recentRows s userId key)).getLast? = some newest)
    (h : MergesStored s userId key) : ∃ merged,
      combineObject key (storedObject s userId key) (sortByKey (recentRows s userId key)) =
        some (mergedObject key (storedObject s userId key) (sortByKey (recentRows s userId key))
          newest merged) := by
  obtain ⟨merged, hmerged⟩ := exists_merge_iff.mpr
    ((carriesFields_sortByKey _ _).trans h.2)
  exact ⟨merged, combineObject_merge hlast ((mergesFields_sortByKey _ _).trans h.1) hmerged⟩

/-- and any other object is its newest row. -/
theorem combineObject_of_not_merges {newest : OperationRow}
    (hlast : (sortByKey (recentRows s userId key)).getLast? = some newest)
    (h : ¬MergesStored s userId key) :
    combineObject key (storedObject s userId key) (sortByKey (recentRows s userId key)) =
      some (snapshotOf newest) := by
  rcases hmerges : mergesFields key (storedObject s userId key)
      (sortByKey (recentRows s userId key)) with _ | _
  · exact combineObject_whole hlast hmerges
  · have hnone : mergeBookmarkFields (historyPayloads (storedObject s userId key)
        (sortByKey (recentRows s userId key))) = none := by
      by_contra hsome
      refine h ⟨(mergesFields_sortByKey _ _).symm.trans hmerges,
        (carriesFields_sortByKey _ _).symm.trans (exists_merge_iff.mp ?_)⟩
      exact Option.ne_none_iff_exists'.mp hsome
    rw [combineObject, hlast]
    simp only [hmerges, hnone, if_true]

/-- **The last word** on an object that is no history visit is what the server computes for it. -/
theorem lastWord_iff (hstocked : Server.Stocked s) (hkey : key.1 ≠ .historyVisit)
    {operationType : OperationType} {encryptionVersion : ℤ} {orderingKey : OrderingKey} :
    LastWord s userId key operationType encryptionVersion orderingKey ↔
      ∃ obj, stateOf s userId key = some obj ∧ obj.operationType = operationType ∧
        obj.encryptionVersion = encryptionVersion ∧ obj.orderingKey = orderingKey := by
  rw [stateOf_eq hstocked hkey]
  rcases hlast : (sortByKey (recentRows s userId key)).getLast? with _ | newest
  · -- nothing above the snapshot
    have hsorted := List.getLast?_eq_none_iff.mp hlast
    have hnil := sortByKey_eq_nil_iff.mp hsorted
    rw [hsorted, combineObject_nil]
    constructor
    · rintro (⟨-, hstored⟩ | ⟨hrow, -, -⟩ | ⟨hrow, -, -⟩)
      · exact ⟨_, hstored, rfl, rfl, rfl⟩
      · rw [hnil] at hrow
        exact absurd hrow List.not_mem_nil
      · rw [hnil] at hrow
        exact absurd hrow List.not_mem_nil
    · rintro ⟨obj, hstored, rfl, rfl, rfl⟩
      exact .stored hnil hstored
  · obtain ⟨hmem, hmax⟩ := newest_spec hlast
    have hne : recentRows s userId key ≠ [] := List.ne_nil_of_mem hmem
    have heq : ∀ row ∈ recentRows s userId key,
        (∀ other ∈ recentRows s userId key, other.orderingKey ≤ row.orderingKey) → row = newest :=
      fun row hrow hle => eq_of_orderingKey_eq hrow hmem (le_antisymm (hmax row hrow) (hle _ hmem))
    by_cases hmerges : MergesStored s userId key
    · obtain ⟨merged, hcombined⟩ := exists_mergedObject hlast hmerges
      rw [hcombined]
      constructor
      · rintro (⟨hrows, -⟩ | ⟨-, -, hmerges'⟩ | ⟨hrow, hle, -⟩)
        · exact absurd hrows hne
        · exact absurd hmerges hmerges'
        · obtain rfl := heq _ hrow hle
          exact ⟨_, rfl, rfl, rfl, rfl⟩
      · rintro ⟨obj, hobj, rfl, rfl, rfl⟩
        obtain rfl := Option.some.inj hobj
        exact .merged hmem hmax hmerges
    · rw [combineObject_of_not_merges hlast hmerges]
      constructor
      · rintro (⟨hrows, -⟩ | ⟨hrow, hle, -⟩ | ⟨-, -, hmerges'⟩)
        · exact absurd hrows hne
        · obtain rfl := heq _ hrow hle
          exact ⟨_, rfl, rfl, rfl, rfl⟩
        · exact absurd hmerges' hmerges
      · rintro ⟨obj, hobj, rfl, rfl, rfl⟩
        obtain rfl := Option.some.inj hobj
        exact .newest hmem hmax hmerges

/-- A live last word is a state that is not hidden. -/
theorem liveWord_iff (hstocked : Server.Stocked s) (hkey : key.1 ≠ .historyVisit)
    {operationType : OperationType} {encryptionVersion : ℤ} :
    LiveWord s userId key operationType encryptionVersion ↔
      ∃ obj, stateOf s userId key = some obj ∧ ¬Hidden s userId key obj ∧
        obj.operationType = operationType ∧ obj.encryptionVersion = encryptionVersion := by
  have hhidden : ∀ obj, stateOf s userId key = some obj → (¬Hidden s userId key obj ↔
      isTerminalOperation key.1 obj.operationType = false ∧
        ∀ tombstone ∈ loadActiveTombstones s.db userId key, tombstone < obj.orderingKey) := by
    intro obj hstate
    rw [stateOf_eq hstocked hkey] at hstate
    obtain rfl := objectKey_combineObject hstocked hstate
    simp [Hidden, SnapshotObject.objectKey]
  constructor
  · rintro ⟨orderingKey, hword, hlive⟩
    obtain ⟨obj, hstate, rfl, rfl, rfl⟩ := (lastWord_iff hstocked hkey).mp hword
    exact ⟨obj, hstate, (hhidden obj hstate).mpr hlive, rfl, rfl⟩
  · rintro ⟨obj, hstate, hnot, rfl, rfl⟩
    exact ⟨_, (lastWord_iff hstocked hkey).mpr ⟨obj, hstate, rfl, rfl, rfl⟩,
      (hhidden obj hstate).mp hnot⟩

theorem ne_historyVisit_of_hasLiveness {objectType : ObjectType}
    (h : hasLiveness objectType = true) : objectType ≠ .historyVisit := by
  rintro rfl
  exact absurd h (by decide)

/-- An id is opened by the states that are not hidden. -/
theorem opens_iff (hstocked : Server.Stocked s) {objectId : Uuid} : Opens s userId objectId ↔
    ∃ objectType obj, hasLiveness objectType = true ∧
      stateOf s userId (objectType, objectId) = some obj ∧
      ¬Hidden s userId (objectType, objectId) obj ∧
      1 ≤ obj.encryptionVersion ∧ obj.operationType ≠ .activate := by
  constructor
  · rintro ⟨objectType, operationType, encryptionVersion, hslot, hword, hencrypted, hne⟩
    obtain ⟨obj, hstate, hnot, rfl, rfl⟩ := (liveWord_iff hstocked
      (ne_historyVisit_of_hasLiveness hslot)).mp hword
    exact ⟨objectType, obj, hslot, hstate, hnot, hencrypted, hne⟩
  · rintro ⟨objectType, obj, hslot, hstate, hnot, hencrypted, hne⟩
    exact ⟨objectType, _, _, hslot, (liveWord_iff hstocked
      (ne_historyVisit_of_hasLiveness hslot)).mpr ⟨obj, hstate, hnot, rfl, rfl⟩, hencrypted, hne⟩

theorem tombstoned_iff : s.db.tombstoned userId key = true ↔
    ∃ tombstone, tombstone ∈ loadActiveTombstones s.db userId key := by
  rw [tombstoned_eq, Option.isSome_iff_exists]
  rfl

/-- An active tombstone was written for an operation that deletes, which no history visit has. -/
theorem ne_historyVisit_of_tombstone (hstocked : Server.Stocked s) {tombstone : OrderingKey}
    (h : tombstone ∈ loadActiveTombstones s.db userId key) : key.1 ≠ .historyVisit := by
  obtain ⟨row, -, rfl, hterminal, -⟩ := hstocked.tombstones userId key tombstone h
  intro htype
  rw [OperationRow.isTerminal, show row.objectType = .historyVisit from htype] at hterminal
  exact absurd hterminal (by simp [isTerminalOperation])

/-- An object whose active tombstone is beaten has a state that is not hidden. -/
theorem exists_state_of_beaten (hstocked : Server.Stocked s) {operationType : OperationType}
    {encryptionVersion : ℤ} {orderingKey tombstone : OrderingKey}
    (hword : LastWord s userId key operationType encryptionVersion orderingKey)
    (htomb : tombstone ∈ loadActiveTombstones s.db userId key)
    (hbeaten : ¬(isTerminalOperation key.1 operationType = true ∨ orderingKey ≤ tombstone)) :
    ∃ obj, stateOf s userId key = some obj ∧ ¬Hidden s userId key obj := by
  rw [not_or, not_le, Bool.not_eq_true] at hbeaten
  obtain ⟨obj, hstate, hnot, -, -⟩ := (liveWord_iff hstocked
    (ne_historyVisit_of_tombstone hstocked htomb)).mp
      ⟨orderingKey, hword, hbeaten.1, fun other hother => (Option.mem_unique hother htomb) ▸ hbeaten.2⟩
  exact ⟨obj, hstate, hnot⟩

end Computed

/-! ### The lists of a response -/

section Response

variable {s : Server} {userId : Uuid} {key : ObjectKey} {obj : SnapshotObject}

theorem get_objects_snapshot_iff : (snapshot s.now s.db userId).objects.get key = some obj ↔
    stateOf s userId key = some obj ∧ ¬Hidden s userId key obj := by
  change (filterTombstoned _ _).get key = some obj ↔ _
  rw [filterTombstoned, FinMap.get_retain_eq_some_iff, stateOf]
  refine and_congr_right fun _ => ?_
  unfold survivesTombstone Hidden
  by_cases hterm : isTerminalOperation obj.objectType obj.operationType = true
  · simp [hterm]
  · rw [if_neg hterm]
    rcases loadActiveTombstones s.db userId key with _ | tombstone
    · simp [hterm]
    · simp [hterm]

end Response

/-! ### What operations write to the slot -/

section Slot

variable {deviceId : Uuid} {decrypt : WireOperation → Option Json} {d : Device FieldStore}
  {objectId : Uuid}

/-- What an effect writes to a slot. -/
def Action.slotWrites (slot : SlotKey) : Action → List IncomingField
  | .callBatch objectType items | .restoreBatch objectType items =>
    if hasAppliers objectType then items.flatMap fun item => writes slot item.remote else []
  | .call item | .restore item =>
    if hasAppliers item.1.objectType then writes slot item.remote else []
  | _ => []

/-- An effect that does not clear the field states. -/
def Action.Keeps : Action → Prop
  | .clearFieldState => False
  | _ => True

variable {slot : SlotKey}

theorem world_perform {action : Action} (h : action.Keeps) :
    (perform (fieldReader deviceId decrypt) d action).world slot =
      (action.slotWrites slot).foldl (resolveSlot slot.2) (d.world slot) := by
  cases action with
  | callBatch objectType items | restoreBatch objectType items =>
    simp only [perform, fieldReader, Action.slotWrites]
    split
    · change deliver _ _ _ = _
      rw [deliver_slot, List.flatten_singleton, List.flatMap_map]
    · rfl
  | call item | restore item =>
    simp only [perform, fieldReader, Action.slotWrites]
    split
    · change deliver _ _ _ = _
      rw [deliver_slot, List.flatten_singleton, List.flatMap_singleton]
    · rfl
  | clearFieldState => exact absurd h id
  | tickLamportClock _ | skip _ | markAppliedBatch _ | updateCursor _ | updateSnapshotCursor _ => rfl

/-- The slot after effects one after the other. -/
theorem world_performAll {actions : List Action} (h : ∀ action ∈ actions, action.Keeps)
    (d : Device FieldStore) :
    (performAll (fieldReader deviceId decrypt) d actions).world slot =
      (actions.flatMap (Action.slotWrites slot)).foldl (resolveSlot slot.2) (d.world slot) := by
  induction actions generalizing d with
  | nil => rfl
  | cons a actions ih =>
    rw [List.flatMap_cons, List.foldl_append, ← world_perform (h a List.mem_cons_self)]
    exact ih (fun b hb => h b (List.mem_cons_of_mem _ hb)) _

/-- An operation that opens a bookmark or a folder. -/
theorem filter_liveness_remoteFieldResolutions {op : OperationOut} {payload : Json}
    (h : op.operationType ∈ [OperationType.create, .update, .move, .restore]) :
    ((remoteFieldResolutions op payload).2.filterMap id).filter (fun f => f.1 = .liveness) =
      [(.liveness, ⟨op.key, op.operationType, some live⟩)] := by
  simp only [List.mem_cons, List.not_mem_nil, or_false] at h
  unfold remoteFieldResolutions
  rcases h with h | h | h | h <;> rw [h]
  · simp
  · cases payload.get? "title" <;> cases stringField? payload "url" <;> simp
  · simp
  · simp

/-- **A state that is not a deletion** opens its object, unless it is an activation. -/
theorem writes_of_not_terminal {op : OperationOut} {payload : Json}
    (hallowed : op.operationType ∈ allowedOperationTypes op.objectType)
    (hterm : isTerminalOperation op.objectType op.operationType = false) :
    writes (objectId, .liveness) (op, payload) =
      if op.objectId = objectId ∧ hasLiveness op.objectType = true ∧ op.operationType ≠ .activate then
        [⟨op.key, op.operationType, some live⟩]
      else [] := by
  unfold writes
  by_cases hid : op.objectId = objectId
  · rw [if_pos hid]
    dsimp only
    unfold fieldResolutions
    dsimp only
    rcases htype : op.objectType with _ | _ | _ | _ | _ | _ | _ | _ | name <;>
      simp only [htype, allowedOperationTypes, List.mem_cons, List.not_mem_nil, or_false] at hallowed
    · have hop : op.operationType ∈ [OperationType.create, .update, .move, .restore] := by
        rcases hallowed with h | h | h | h | h <;> simp_all [isTerminalOperation]
      rw [filter_liveness_remoteFieldResolutions hop]
      rcases hallowed with h | h | h | h | h <;> simp [h, hid, hasLiveness]
    · have hop : op.operationType ∈ [OperationType.create, .update, .move, .restore] := by
        rcases hallowed with h | h | h | h | h <;> simp_all [isTerminalOperation]
      rw [filter_liveness_remoteFieldResolutions hop]
      rcases hallowed with h | h | h | h | h <;> simp [h, hid, hasLiveness]
    · simp [hasLiveness]
    · rcases hallowed with h | h | h | h | h <;>
        simp_all [tabFields, hasLiveness, isTerminalOperation]
    · rcases hallowed with h | h | h <;> simp_all [windowFields, hasLiveness, isTerminalOperation]
    · rcases hallowed with h | h | h <;> simp_all [groupFields, hasLiveness, isTerminalOperation]
    · simp [hasLiveness]
    · simp [hasLiveness]
  · rw [if_neg hid, if_neg fun h => hid h.1]

/-- **A tombstone** closes its object. -/
theorem writes_tombstoneOperation {received : ReceivedSnapshot} {lamportTimestamp : ℤ}
    {newId : ObjectKey → Uuid} {key : ObjectKey} {payload : Json} :
    writes (objectId, .liveness)
        ((tombstoneOperation received lamportTimestamp newId key).toOperationOut, payload) =
      if key.2 = objectId ∧ hasLiveness key.1 = true then
        [⟨⟨lamportTimestamp, snapshotDeviceId, newId key⟩, terminalOperationType key.1, some deleted⟩]
      else [] := by
  obtain ⟨objectType, id⟩ := key
  unfold writes
  by_cases hid : id = objectId
  · cases objectType <;> simp [tombstoneOperation, hid, fieldResolutions, remoteFieldResolutions,
      tabFields, windowFields, groupFields, hasLiveness, terminalOperationType, OperationOut.key]
  · simp [tombstoneOperation, hid]

/-! ### The slot after a snapshot -/

variable {newId : ObjectKey → Uuid} {received : ReceivedSnapshot}

/-- The key the client gives what it makes up itself. -/
def syntheticLamport (d : Device FieldStore) (received : ReceivedSnapshot) : ℤ :=
  max d.lamportClock received.newest + 1

/-- The values the objects of a snapshot have for a slot. -/
def objectWrites (deviceId : Uuid) (decrypt : WireOperation → Option Json) (lamportTimestamp : ℤ)
    (newId : ObjectKey → Uuid) (received : ReceivedSnapshot) (slot : SlotKey) : List IncomingField :=
  ((chunks snapshotDispatchChunk
    (received.objects.map (snapshotOperation received lamportTimestamp newId))).flatMap fun ops =>
      chunkActions (fieldReader deviceId decrypt)
        (ops.filterMap (decryptObject (fieldReader deviceId decrypt)))).flatMap
          (Action.slotWrites slot)

/-- The values its tombstones have for it. -/
def tombstoneWrites (deviceId : Uuid) (decrypt : WireOperation → Option Json) (lamportTimestamp : ℤ)
    (newId : ObjectKey → Uuid) (received : ReceivedSnapshot) (slot : SlotKey) : List IncomingField :=
  (received.tombstones.flatMap fun key => tombstoneActions (fieldReader deviceId decrypt)
    (tombstoneOperation received lamportTimestamp newId key)).flatMap (Action.slotWrites slot)

theorem keeps_chunkActions (reader : Reader FieldStore) {items : List DecryptedItem} {action : Action}
    (h : action ∈ chunkActions reader items) : action.Keeps := by
  obtain ⟨objectType, -, h⟩ := List.mem_flatMap.mp h
  unfold restoreActions at h
  split_ifs at h
  · rw [List.mem_singleton.mp h]
    trivial
  · obtain ⟨item, -, rfl⟩ := List.mem_map.mp h
    trivial
  · exact absurd h List.not_mem_nil

theorem keeps_tombstoneActions (reader : Reader FieldStore) {op : WireOperation} {action : Action}
    (h : action ∈ tombstoneActions reader op) : action.Keeps := by
  unfold tombstoneActions at h
  split_ifs at h
  · rw [List.mem_singleton.mp h]
    trivial
  · exact absurd h List.not_mem_nil

/-- **A slot after a snapshot**: its objects first, then its tombstones, on an empty slot. -/
theorem fieldsAfter_slot (h : received.unsupported = false) (slot : SlotKey) :
    fieldsAfter deviceId decrypt d newId received slot =
      (objectWrites deviceId decrypt (syntheticLamport d received) newId received slot ++
        tombstoneWrites deviceId decrypt (syntheticLamport d received) newId received slot).foldl
          (resolveSlot slot.2) none := by
  rw [fieldsAfter, snapshotActions, if_neg (by simp [h])]
  dsimp only
  simp only [List.cons_append, List.nil_append]
  change (performAll (fieldReader deviceId decrypt)
    (perform (fieldReader deviceId decrypt) d .clearFieldState) _).world _ = _
  rw [world_performAll]
  · have hlast : Action.slotWrites slot (.updateSnapshotCursor received.snapshotCursor) = [] := rfl
    have htick : Action.slotWrites slot (.tickLamportClock received.newest) = [] := rfl
    rw [List.flatMap_cons, htick, List.flatMap_append, List.flatMap_append, List.flatMap_singleton,
      hlast, List.append_nil, List.nil_append]
    rfl
  · intro action haction
    simp only [List.mem_cons, List.mem_append, List.not_mem_nil, or_false] at haction
    rcases haction with rfl | (haction | haction) | rfl
    · trivial
    · obtain ⟨ops, -, haction⟩ := List.mem_flatMap.mp haction
      exact keeps_chunkActions _ haction
    · obtain ⟨key, -, haction⟩ := List.mem_flatMap.mp haction
      exact keeps_tombstoneActions _ haction
    · trivial

theorem mem_of_mem_chunks {α : Type} {size : ℕ} {items chunk : List α}
    (h : chunk ∈ chunks size items) {x : α} (hx : x ∈ chunk) : x ∈ items := by
  obtain ⟨i, -, rfl⟩ := List.mem_map.mp h
  exact List.mem_of_mem_drop (List.mem_of_mem_take hx)

/-- The values of a chunk are those of its items that have an applier. -/
theorem mem_slotWrites_chunkActions {items : List DecryptedItem} {value : IncomingField} :
    value ∈ (chunkActions (fieldReader deviceId decrypt) items).flatMap (Action.slotWrites slot) ↔
      ∃ item ∈ items, hasAppliers item.1.objectType = true ∧
        value ∈ writes slot item.remote := by
  have hrestore : ∀ objectType, restoreActions (fieldReader deviceId decrypt) objectType
      (items.filter fun item => item.1.objectType = objectType) =
        if hasAppliers objectType then
          [.restoreBatch objectType (items.filter fun item => item.1.objectType = objectType)]
        else [] := by
    intro objectType
    by_cases hobj : hasAppliers objectType = true <;> simp [restoreActions, fieldReader, hobj]
  simp only [chunkActions, List.mem_flatMap, hrestore]
  constructor
  · rintro ⟨action, ⟨objectType, -, haction⟩, hvalue⟩
    split_ifs at haction with happliers
    · rw [List.mem_singleton.mp haction, Action.slotWrites, if_pos happliers] at hvalue
      obtain ⟨item, hitem, hvalue⟩ := List.mem_flatMap.mp hvalue
      obtain ⟨hitem, htype⟩ := List.mem_filter.mp hitem
      rw [decide_eq_true_eq] at htype
      exact ⟨item, hitem, htype ▸ happliers, hvalue⟩
    · exact absurd haction List.not_mem_nil
  · rintro ⟨item, hitem, happliers, hvalue⟩
    refine ⟨.restoreBatch item.1.objectType
      (items.filter fun i => i.1.objectType = item.1.objectType), ⟨item.1.objectType, ?_, ?_⟩, ?_⟩
    · exact List.mem_eraseDups.mpr (List.mem_map_of_mem hitem)
    · rw [if_pos happliers]
      exact List.mem_singleton_self _
    · rw [Action.slotWrites, if_pos happliers]
      exact List.mem_flatMap.mpr ⟨item, List.mem_filter.mpr ⟨hitem, by simp⟩, hvalue⟩

theorem mem_objectWrites {lamportTimestamp : ℤ} {value : IncomingField} :
    value ∈ objectWrites deviceId decrypt lamportTimestamp newId received slot ↔
      ∃ obj ∈ received.objects, ∃ item, decryptObject (fieldReader deviceId decrypt)
          (snapshotOperation received lamportTimestamp newId obj) = some item ∧
        hasAppliers item.1.objectType = true ∧ value ∈ writes slot item.remote := by
  unfold objectWrites
  rw [List.flatMap_assoc, List.mem_flatMap]
  constructor
  · rintro ⟨ops, hops, hvalue⟩
    obtain ⟨item, hitem, hrest⟩ := mem_slotWrites_chunkActions.mp hvalue
    obtain ⟨op, hop, hdecrypt⟩ := List.mem_filterMap.mp hitem
    obtain ⟨obj, hobj, rfl⟩ := List.mem_map.mp (mem_of_mem_chunks hops hop)
    exact ⟨obj, hobj, item, hdecrypt, hrest⟩
  · rintro ⟨obj, hobj, item, hdecrypt, hrest⟩
    obtain ⟨ops, hops, hop⟩ := exists_mem_chunks snapshotDispatchChunk (by decide)
      (List.mem_map_of_mem (f := snapshotOperation received lamportTimestamp newId) hobj)
    exact ⟨ops, hops, mem_slotWrites_chunkActions.mpr
      ⟨item, List.mem_filterMap.mpr ⟨_, hop, hdecrypt⟩, hrest⟩⟩

/-- The tombstones of a slot are deletions, one for each. -/
theorem mem_tombstoneWrites {lamportTimestamp : ℤ} {value : IncomingField} :
    value ∈ tombstoneWrites deviceId decrypt lamportTimestamp newId received (objectId, .liveness) ↔
      ∃ key ∈ received.tombstones, key.2 = objectId ∧ hasLiveness key.1 = true ∧
        value = ⟨⟨lamportTimestamp, snapshotDeviceId, newId key⟩, terminalOperationType key.1,
          some deleted⟩ := by
  unfold tombstoneWrites
  rw [List.flatMap_assoc, List.mem_flatMap]
  refine exists_congr fun key => and_congr_right fun _ => ?_
  have happliers : hasLiveness key.1 = true → hasAppliers key.1 = true := by
    obtain ⟨objectType, id⟩ := key
    cases objectType <;> simp [hasLiveness, hasAppliers]
  have hactions : (tombstoneActions (fieldReader deviceId decrypt)
      (tombstoneOperation received lamportTimestamp newId key)).flatMap (Action.slotWrites (objectId, .liveness)) =
        if hasAppliers key.1 then writes (objectId, .liveness)
          ((tombstoneOperation received lamportTimestamp newId key).toOperationOut, .object []) else [] := by
    unfold tombstoneActions fieldReader
    by_cases hkey : hasAppliers key.1 = true
    · simp [tombstoneOperation, hkey, Action.slotWrites, DecryptedItem.remote]
    · simp [tombstoneOperation, hkey]
  rw [hactions, writes_tombstoneOperation]
  by_cases hkey : key.2 = objectId ∧ hasLiveness key.1 = true
  · rw [if_pos (happliers hkey.2), if_pos hkey, List.mem_singleton]
    simp [hkey]
  · simp only [hkey, if_false, ite_self, List.not_mem_nil, false_iff]
    exact fun h => hkey ⟨h.1, h.2.1⟩

/-! ### What opens an object -/

variable {s : Server} {userId : Uuid} {order tombstoneOrder : List ObjectKey}

theorem hasAppliers_of_hasLiveness {objectType : ObjectType} (h : hasLiveness objectType = true) :
    hasAppliers objectType = true := by
  cases objectType <;> simp_all [hasLiveness, hasAppliers]

/-- An encrypted object of a snapshot that is listed writes its slot as an operation does. -/
theorem writes_snapshotOperation (hwf : Server.WellFormed s) (hstocked : Server.Stocked s)
    {key : ObjectKey} {obj : SnapshotObject} (hstate : stateOf s userId key = some obj)
    (hhidden : ¬Hidden s userId key obj) (hencrypted : 1 ≤ obj.encryptionVersion)
    {lamportTimestamp : ℤ} {payload : Json} :
    writes (objectId, .liveness)
        ((snapshotOperation received lamportTimestamp newId obj).toOperationOut, payload) =
      if key.2 = objectId ∧ hasLiveness key.1 = true ∧ obj.operationType ≠ .activate then
        [⟨(snapshotOperation received lamportTimestamp newId obj).key, obj.operationType, some live⟩]
      else [] := by
  obtain ⟨rfl, -, hrow⟩ := Server.fromRows_of_computeObjects hstocked hwf hstate
  obtain ⟨row, hrow, -, hobj⟩ := hrow hencrypted
  refine writes_of_not_terminal ?_ ?_
  · have hallowed := hstocked.vocabulary row (Server.mem_userHistory.mp hrow).1
    rw [hobj]
    exact hallowed
  · exact Bool.eq_false_iff.mpr fun hterm => hhidden (Or.inl hterm)

/-- An object with a `liveness` slot is no bulk import. -/
theorem isBulkImportOp_eq_false {op : WireOperation} (h : hasLiveness op.objectType = true) :
    isBulkImportOp op = false := by
  cases htype : op.objectType <;> simp_all [isBulkImportOp, hasLiveness]

/-- **What a snapshot opens.** Its objects write only `live`, and they write to exactly the slots
of the ids it opens. -/
theorem mem_objectWrites_snapshot (hwf : Server.WellFormed s) (hstocked : Server.Stocked s)
    (hlists : s.ListsSnapshot userId order tombstoneOrder) {value : IncomingField}
    (hvalue : value ∈ objectWrites deviceId decrypt
      (syntheticLamport d (receivedSnapshot (snapshot s.now s.db userId) order tombstoneOrder)) newId
      (receivedSnapshot (snapshot s.now s.db userId) order tombstoneOrder) (objectId, .liveness)) :
    value.value = some live ∧ Opens s userId objectId := by
  obtain ⟨obj, hobj, item, hitem, -, hvalue⟩ := mem_objectWrites.mp hvalue
  obtain ⟨key, hget⟩ := (mem_objects_receivedSnapshot hwf hstocked hlists).mp hobj
  obtain ⟨hstate, hhidden⟩ := get_objects_snapshot_iff.mp hget
  have hencrypted : 1 ≤ obj.encryptionVersion := by
    by_contra hplain
    have hskip : decryptObject (fieldReader deviceId decrypt) (snapshotOperation
        (receivedSnapshot (snapshot s.now s.db userId) order tombstoneOrder)
        (syntheticLamport d (receivedSnapshot (snapshot s.now s.db userId) order tombstoneOrder)) newId
        obj) = none := by
      rw [decryptObject, decryptWithResolver, if_pos]
      exact not_le.mp hplain
    rw [hskip] at hitem
    exact absurd hitem (by simp)
  have hremote : ∃ payload, item = (snapshotOperation
      (receivedSnapshot (snapshot s.now s.db userId) order tombstoneOrder)
      (syntheticLamport d (receivedSnapshot (snapshot s.now s.db userId) order tombstoneOrder)) newId
      obj, payload) := by
    unfold decryptObject at hitem
    split at hitem
    · exact ⟨_, (Option.some.inj hitem).symm⟩
    · exact absurd hitem (by simp)
  obtain ⟨payload, rfl⟩ := hremote
  rw [DecryptedItem.remote, writes_snapshotOperation hwf hstocked hstate hhidden hencrypted] at hvalue
  split_ifs at hvalue with hopens
  · obtain rfl := List.mem_singleton.mp hvalue
    obtain ⟨objectType, id⟩ := key
    obtain ⟨rfl, hlive, hactivate⟩ := hopens
    exact ⟨rfl, (opens_iff hstocked).mpr
      ⟨objectType, obj, hlive, hstate, hhidden, hencrypted, hactivate⟩⟩
  · exact absurd hvalue List.not_mem_nil

theorem objectWrites_ne_nil_of_opens (hwf : Server.WellFormed s) (hstocked : Server.Stocked s)
    (hlists : s.ListsSnapshot userId order tombstoneOrder)
    (hreads : Reads decrypt d newId
      (receivedSnapshot (snapshot s.now s.db userId) order tombstoneOrder))
    (h : Opens s userId objectId) :
    objectWrites deviceId decrypt
      (syntheticLamport d (receivedSnapshot (snapshot s.now s.db userId) order tombstoneOrder)) newId
      (receivedSnapshot (snapshot s.now s.db userId) order tombstoneOrder) (objectId, .liveness) ≠ [] := by
  obtain ⟨objectType, obj, hlive, hstate, hhidden, hencrypted, hactivate⟩ := (opens_iff hstocked).mp h
  have hkey := (Server.fromRows_of_computeObjects hstocked hwf hstate).objectKey
  have hobj := (mem_objects_receivedSnapshot hwf hstocked hlists).mpr
    ⟨_, get_objects_snapshot_iff.mpr ⟨hstate, hhidden⟩⟩
  have hlive' : hasLiveness obj.objectType = true := by
    rw [show obj.objectType = objectType from congrArg Prod.fst hkey]
    exact hlive
  obtain ⟨payload, hpayload⟩ := Option.isSome_iff_exists.mp (hreads.2 obj hobj hencrypted hlive')
  have hsupported := (List.any_eq_false.mp hreads.1) obj hobj
  set received := receivedSnapshot (snapshot s.now s.db userId) order tombstoneOrder
  set op := snapshotOperation received (syntheticLamport d received) newId obj with hop
  have hbulk : isBulkImportOp op = false := isBulkImportOp_eq_false hlive'
  have hversions : versionsUnsupported op = false := by
    by_contra hbad
    -- the check looks at the type, the operation type and the payload only
    refine hsupported (Bool.and_eq_true_iff.mpr ⟨decide_eq_true hencrypted, ?_⟩)
    exact Bool.eq_true_of_not_eq_false hbad
  have hread : (fieldReader deviceId decrypt).decrypt op = some payload := hpayload
  have hversion : ¬op.encryptionVersion < 1 := not_lt.mpr hencrypted
  have hdecrypt : decryptObject (fieldReader deviceId decrypt) op = some (op, payload) := by
    simp [decryptObject, decryptWithResolver, hversion, hversions, hbulk, hread]
  have hwrites : ⟨op.key, obj.operationType, some live⟩ ∈
      writes (objectId, .liveness) (DecryptedItem.remote (op, payload)) := by
    rw [DecryptedItem.remote, hop, writes_snapshotOperation hwf hstocked hstate hhidden hencrypted,
      if_pos ⟨rfl, hlive, hactivate⟩]
    exact List.mem_singleton_self _
  exact List.ne_nil_of_mem (mem_objectWrites.mpr ⟨obj, hobj, (op, payload), hdecrypt,
    hasAppliers_of_hasLiveness hlive', hwrites⟩)

/-! ### The lists and the slots -/

/-- The ids a snapshot closes are those its tombstones write to. -/
theorem tombstoneWrites_ne_nil_iff (hstocked : Server.Stocked s)
    (hlists : s.ListsSnapshot userId order tombstoneOrder) {lamportTimestamp : ℤ} :
    tombstoneWrites deviceId decrypt lamportTimestamp newId
        (receivedSnapshot (snapshot s.now s.db userId) order tombstoneOrder) (objectId, .liveness) ≠ [] ↔
      Closes s userId objectId := by
  constructor
  · intro hne
    obtain ⟨value, hvalue⟩ := List.exists_mem_of_ne_nil _ hne
    obtain ⟨⟨objectType, id⟩, hkey, rfl, hlive, -⟩ := mem_tombstoneWrites.mp hvalue
    exact ⟨objectType, hlive, (mem_tombstones_receivedSnapshot hstocked hlists).mp hkey⟩
  · rintro ⟨objectType, hlive, htomb⟩
    exact List.ne_nil_of_mem (mem_tombstoneWrites.mpr ⟨(objectType, objectId),
      (mem_tombstones_receivedSnapshot hstocked hlists).mpr htomb, rfl, hlive, rfl⟩)

theorem not_isLive_of_isDeleted {store : FieldStore} (h : IsDeleted store objectId) :
    ¬IsLive store objectId := by
  rintro ⟨record, hrecord, hlive⟩
  obtain ⟨record', hrecord', hdeleted⟩ := h
  rw [hrecord] at hrecord'
  obtain rfl := Option.some.inj hrecord'
  rw [hlive] at hdeleted
  exact absurd hdeleted (by simp [live, deleted])

/-- A slot ends live only if its id is opened, -/
theorem opens_of_isLive (hwf : Server.WellFormed s) (hstocked : Server.Stocked s)
    (hlists : s.ListsSnapshot userId order tombstoneOrder)
    (hsupported : (receivedSnapshot (snapshot s.now s.db userId) order tombstoneOrder).unsupported =
      false)
    (h : IsLive (fieldsAfter deviceId decrypt d newId
      (receivedSnapshot (snapshot s.now s.db userId) order tombstoneOrder)) objectId) :
    Opens s userId objectId := by
  obtain ⟨record, hrecord, hlive⟩ := h
  rw [fieldsAfter_slot hsupported] at hrecord
  rcases mem_of_foldl_resolveSlot hrecord with hmem | hnone
  · rcases List.mem_append.mp hmem with hmem | hmem
    · exact (mem_objectWrites_snapshot hwf hstocked hlists hmem).2
    · obtain ⟨key, -, -, -, rfl⟩ := mem_tombstoneWrites.mp hmem
      exact absurd hlive (by simp [live, deleted])
  · exact absurd hnone (by simp)

/-- and it does if its id is opened and not closed. -/
theorem isLive_of_opens (hwf : Server.WellFormed s) (hstocked : Server.Stocked s)
    (hlists : s.ListsSnapshot userId order tombstoneOrder)
    (hreads : Reads decrypt d newId
      (receivedSnapshot (snapshot s.now s.db userId) order tombstoneOrder))
    (hopens : Opens s userId objectId) (hcloses : ¬Closes s userId objectId) :
    IsLive (fieldsAfter deviceId decrypt d newId
      (receivedSnapshot (snapshot s.now s.db userId) order tombstoneOrder)) objectId := by
  have hnone : tombstoneWrites deviceId decrypt (syntheticLamport d (receivedSnapshot
      (snapshot s.now s.db userId) order tombstoneOrder)) newId
      (receivedSnapshot (snapshot s.now s.db userId) order tombstoneOrder) (objectId, .liveness) = [] :=
    not_ne_iff.mp (mt (tombstoneWrites_ne_nil_iff hstocked hlists).mp hcloses)
  have hsome := @objectWrites_ne_nil_of_opens deviceId _ _ _ _ _ _ _ _ hwf hstocked hlists hreads hopens
  rw [IsLive, fieldsAfter_slot hreads.1, hnone, List.append_nil]
  obtain ⟨record, hrecord⟩ := Option.ne_none_iff_exists'.mp
    (@foldl_resolveSlot_ne_none .liveness _ none (Or.inl hsome))
  refine ⟨record, hrecord, ?_⟩
  rcases mem_of_foldl_resolveSlot hrecord with hmem | hempty
  · exact (mem_objectWrites_snapshot hwf hstocked hlists hmem).1
  · exact absurd hempty (by simp)

/-- A slot ends deleted if its id is closed and not opened. -/
theorem isDeleted_of_closes (hwf : Server.WellFormed s) (hstocked : Server.Stocked s)
    (hlists : s.ListsSnapshot userId order tombstoneOrder)
    (hsupported : (receivedSnapshot (snapshot s.now s.db userId) order tombstoneOrder).unsupported =
      false)
    (hopens : ¬Opens s userId objectId) (hcloses : Closes s userId objectId) :
    IsDeleted (fieldsAfter deviceId decrypt d newId
      (receivedSnapshot (snapshot s.now s.db userId) order tombstoneOrder)) objectId := by
  have hnone : objectWrites deviceId decrypt (syntheticLamport d (receivedSnapshot
      (snapshot s.now s.db userId) order tombstoneOrder)) newId
      (receivedSnapshot (snapshot s.now s.db userId) order tombstoneOrder) (objectId, .liveness) = [] := by
    refine List.eq_nil_iff_forall_not_mem.mpr fun value hvalue => hopens ?_
    exact (mem_objectWrites_snapshot hwf hstocked hlists hvalue).2
  rw [IsDeleted, fieldsAfter_slot hsupported, hnone, List.nil_append]
  obtain ⟨record, hrecord⟩ := Option.ne_none_iff_exists'.mp (@foldl_resolveSlot_ne_none .liveness _
    none (Or.inl ((tombstoneWrites_ne_nil_iff hstocked hlists).mpr hcloses)))
  refine ⟨record, hrecord, ?_⟩
  rcases mem_of_foldl_resolveSlot hrecord with hmem | hempty
  · obtain ⟨key, -, -, -, rfl⟩ := mem_tombstoneWrites.mp hmem
    rfl
  · exact absurd hempty (by simp)

end Slot

/-- **Objects and tombstones of a snapshot agree** exactly if no active tombstone is beaten by the
last word of the log and the latest snapshot on its object, and the id of every object with a live
last word is opened and not closed: for every state of the server, and every client that can read
the response. -/
theorem consistent_iff (cfg : Config) (settings : Uuid → Option UserSettings) (now : DateTime)
    (events : List Event) (userId deviceId : Uuid) (decrypt : WireOperation → Option Json)
    (d : Device FieldStore) (order tombstoneOrder : List ObjectKey) (newId : ObjectKey → Uuid)
    (s : Server) (hs : s = Server.run cfg (Server.start settings now) events)
    (received : ReceivedSnapshot)
    (hreceived : received = receivedSnapshot (snapshot s.now s.db userId) order tombstoneOrder)
    (hlists : s.ListsSnapshot userId order tombstoneOrder) (hreads : Reads decrypt d newId received) :
    Consistent (snapshot s.now s.db userId) (fieldsAfter deviceId decrypt d newId received) ↔
      Unambiguous s userId := by
  subst hreceived
  have hwf : Server.WellFormed s := hs ▸ @Server.WellFormed.run cfg settings now events
  have hstocked : Server.Stocked s := hs ▸ Server.Stocked.run settings now events
  constructor
  · rintro ⟨hdisjoint, hlive, hdeleted⟩
    refine ⟨fun key operationType encryptionVersion orderingKey hword tombstone htomb => ?_,
      fun key operationType encryptionVersion hslot hword => ?_⟩
    · by_contra hbeaten
      obtain ⟨obj, hstate, hnot⟩ := exists_state_of_beaten hstocked hword htomb hbeaten
      have hlisted := hdisjoint key obj (get_objects_snapshot_iff.mpr ⟨hstate, hnot⟩)
      exact absurd ((tombstoned_iff.mpr ⟨tombstone, htomb⟩).symm.trans hlisted) (by simp)
    · obtain ⟨obj, hstate, hnot, -, -⟩ := (liveWord_iff hstocked
        (ne_historyVisit_of_hasLiveness hslot)).mp hword
      have hkey := hlive key obj (get_objects_snapshot_iff.mpr ⟨hstate, hnot⟩) hslot
      refine ⟨opens_of_isLive hwf hstocked hlists hreads.1 hkey, ?_⟩
      rintro ⟨objectType, hslot', htomb⟩
      exact not_isLive_of_isDeleted (hdeleted (objectType, key.2) htomb hslot') hkey
  · rintro ⟨hunbeaten, hopens⟩
    refine ⟨fun key obj hget => ?_, fun key obj hget hslot => ?_, fun key htomb hslot => ?_⟩
    · obtain ⟨hstate, hnot⟩ := get_objects_snapshot_iff.mp hget
      refine Bool.eq_false_iff.mpr fun htomb => ?_
      obtain ⟨tombstone, htombstone⟩ := tombstoned_iff.mp htomb
      obtain ⟨orderingKey, hword, hlive, habove⟩ := (liveWord_iff hstocked
        (ne_historyVisit_of_tombstone hstocked htombstone)).mpr ⟨obj, hstate, hnot, rfl, rfl⟩
      rcases hunbeaten key _ _ _ hword tombstone htombstone with hterminal | hle
      · rw [hlive] at hterminal
        exact absurd hterminal (by simp)
      · exact absurd (habove tombstone htombstone) (not_lt.mpr hle)
    · obtain ⟨hstate, hnot⟩ := get_objects_snapshot_iff.mp hget
      obtain ⟨hopen, hclose⟩ := hopens key _ _ hslot ((liveWord_iff hstocked
        (ne_historyVisit_of_hasLiveness hslot)).mpr ⟨obj, hstate, hnot, rfl, rfl⟩)
      exact isLive_of_opens hwf hstocked hlists hreads hopen hclose
    · refine isDeleted_of_closes hwf hstocked hlists hreads.1 ?_ ⟨key.1, hslot, htomb⟩
      rintro ⟨objectType, operationType, encryptionVersion, hslot', hword, -, -⟩
      exact (hopens _ _ _ hslot' hword).2 ⟨key.1, hslot, htomb⟩

/-- One bookmark is kept and one is deleted. -/
def keptAndDeleted : Server :=
  Server.run Server.smallConfig Server.smallStart
    [.register 1 9, .upload 1 [Server.smallOp 11 1 1 .bookmark 21 .create,
      Server.smallOp 12 2 2 .bookmark 22 .create, Server.smallOp 13 3 3 .bookmark 22 .delete]]

theorem unambiguous_keptAndDeleted : Unambiguous keptAndDeleted 9 := by
  have hkept : (stateOf keptAndDeleted 9 (.bookmark, 21)).map (fun obj => (obj.objectType,
      obj.operationType, obj.encryptionVersion)) = some (.bookmark, .create, 1) := by decide +kernel
  have hdeleted : (stateOf keptAndDeleted 9 (.bookmark, 22)).map (fun obj => (obj.objectType,
      obj.operationType)) = some (.bookmark, .delete) := by decide +kernel
  have hrows : ∀ row ∈ keptAndDeleted.userHistory 9,
      row.objectKey = (.bookmark, 21) ∨ row.objectKey = (.bookmark, 22) := by decide +kernel
  have hkeys : ∀ key obj, stateOf keptAndDeleted 9 key = some obj →
      key = (.bookmark, 21) ∨ key = (.bookmark, 22) ∧ Hidden keptAndDeleted 9 key obj := by
    intro key obj hstate
    obtain ⟨row, hrow, rfl⟩ := (Server.fromRows_of_computeObjects
      (Server.Stocked.run (fun _ => none) 0 _) (Server.WellFormed.run (fun _ => none) 0 _) hstate).touched
    refine (hrows row hrow).imp_right fun hkey => ⟨hkey, Or.inl ?_⟩
    rw [hkey] at hstate
    rw [hstate, Option.map_some, Option.some.injEq, Prod.mk.injEq] at hdeleted
    rw [hdeleted.1, hdeleted.2]
    rfl
  have hstocked : Server.Stocked keptAndDeleted := Server.Stocked.run (fun _ => none) 0 _
  refine ⟨fun key operationType encryptionVersion orderingKey hword tombstone htomb => ?_,
    fun key operationType encryptionVersion hslot hword => ?_⟩
  · by_contra hbeaten
    obtain ⟨obj, hstate, hnot⟩ := exists_state_of_beaten hstocked hword htomb hbeaten
    rcases hkeys key obj hstate with rfl | ⟨-, hhidden⟩
    · exact absurd (tombstoned_iff.mpr ⟨tombstone, htomb⟩) (by decide +kernel)
    · exact hnot hhidden
  · obtain ⟨obj, hstate, hnot, -, -⟩ := (liveWord_iff hstocked
      (ne_historyVisit_of_hasLiveness hslot)).mp hword
    rcases hkeys key obj hstate with rfl | ⟨-, hhidden⟩
    · rw [hstate, Option.map_some, Option.some.injEq, Prod.mk.injEq, Prod.mk.injEq] at hkept
      refine ⟨(opens_iff hstocked).mpr
        ⟨.bookmark, obj, rfl, hstate, hnot, le_of_eq hkept.2.2.symm, ?_⟩, ?_⟩
      · rw [hkept.2.1]
        decide
      · rintro ⟨objectType, hslot, htomb⟩
        cases objectType <;> simp only [hasLiveness, Bool.false_eq_true] at hslot <;>
          exact absurd htomb (by decide +kernel)
    · exact absurd hhidden hnot

/-- A client that takes the snapshot: the kept one is live, the deleted one deleted. -/
theorem consistent_keptAndDeleted :
    Consistent (snapshot 0 keptAndDeleted.db 9)
      (fieldsAfter 2 (fun _ => some (.object [])) ⟨0, 0, [], emptyStore, [], [], [], [], 0⟩ (fun _ => 30)
        (receivedSnapshot (snapshot 0 keptAndDeleted.db 9)
          [(.bookmark, 21), (.bookmark, 22)] [(.bookmark, 22), (.bookmark, 21)])) :=
  (consistent_iff Server.smallConfig (fun _ => none) 0 _ 9 2 (fun _ => some (.object []))
    ⟨0, 0, [], emptyStore, [], [], [], [], 0⟩ _ _ (fun _ => 30) keptAndDeleted rfl _ rfl
    (by decide +kernel) ⟨by decide +kernel, fun _ _ _ _ => rfl⟩).mpr unambiguous_keptAndDeleted

/-- **A beaten tombstone** is listed beside its object: a bookmark with key `5` is deleted by a
device whose clock is at `3`. -/
theorem not_consistent :
    ¬∀ (cfg : Config) (settings : Uuid → Option UserSettings) (now : DateTime) (events : List Event)
      (userId deviceId : Uuid) (decrypt : WireOperation → Option Json) (d : Device FieldStore)
      (order tombstoneOrder : List ObjectKey) (newId : ObjectKey → Uuid) (s : Server),
      s = Server.run cfg (Server.start settings now) events →
        s.ListsSnapshot userId order tombstoneOrder →
          Reads decrypt d newId (receivedSnapshot (snapshot s.now s.db userId) order tombstoneOrder) →
            Consistent (snapshot s.now s.db userId) (fieldsAfter deviceId decrypt d newId
              (receivedSnapshot (snapshot s.now s.db userId) order tombstoneOrder)) := by
  intro hall
  have hconsistent := hall Server.smallConfig (fun _ => none) 0
    [.register 1 9, .register 2 9, .upload 1 [Server.smallOp 11 1 5 .bookmark 21 .create],
      .upload 2 [Server.smallOp 12 1 3 .bookmark 21 .delete]] 9 2 (fun _ => some (.object []))
    ⟨0, 0, [], emptyStore, [], [], [], [], 0⟩ [(.bookmark, 21)] [(.bookmark, 21)] (fun _ => 30) _ rfl
    (by decide +kernel) ⟨by decide +kernel, fun _ _ _ _ => rfl⟩
  obtain ⟨obj, hobj⟩ := Option.isSome_iff_exists.mp (show ((snapshot 0 (Server.run Server.smallConfig
    Server.smallStart [.register 1 9, .register 2 9,
      .upload 1 [Server.smallOp 11 1 5 .bookmark 21 .create],
      .upload 2 [Server.smallOp 12 1 3 .bookmark 21 .delete]]).db 9).objects.get
        (.bookmark, 21)).isSome = true by decide +kernel)
  exact absurd (hconsistent.disjoint (.bookmark, 21) obj hobj) (by decide +kernel)

end Client

end HelixSync
