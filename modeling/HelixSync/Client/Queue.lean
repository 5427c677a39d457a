import Mathlib.Data.List.Sort
import HelixSync.Server.Upload

/-!
# The queue of local operations

The `pending_operations` store (`extension/src/storage/db.ts`): the operations a device
has created and not yet seen resolved, one record for each operation id, and the
functions that read and write it. `getPendingOperations` reads it in the order of the
device sequences (`HelixSync.Client.pairwise_getPendingOperations`).

The operations themselves come from `createLocalOperationsBatch`
(`extension/src/sync/engine.ts`), which takes a block of sequence numbers first and
builds the operations later.
-/

namespace HelixSync

namespace Client

/-! ### Operations -/

/-- `PendingLocalOperation`, less the plaintext payload. A history chunk is never created
this way: `flushChunk` builds and uploads it directly. -/
structure PendingLocalOperation where
  objectType : ObjectType
  objectId : Uuid
  operationType : OperationType
  visitHours : Option VisitHours
  not_bulkImport : operationType ≠ .bulkImport

/-- What encryption adds to an operation: its id and its wire payload. -/
structure Sealed where
  operationId : Uuid
  payload : RawValue

/-- The operation `createLocalOperationsBatch` builds of an item. -/
def buildOperation (item : PendingLocalOperation) (sealed : Sealed)
    (deviceSequence lamportTimestamp : ℤ) : OperationIn where
  operationId := sealed.operationId
  deviceSequence := deviceSequence
  lamportTimestamp := lamportTimestamp
  objectType := item.objectType
  objectId := item.objectId
  operationType := item.operationType
  encryptionVersion := 1
  payload := sealed.payload
  visitCount := none
  visitHours := item.visitHours

/-- The operations of a block: one sequence and one Lamport value for each, in order. -/
def buildOperations : List (PendingLocalOperation × Sealed) → ℤ → ℤ → List OperationIn
  | [], _, _ => []
  | (item, sealed) :: rest, startDeviceSequence, startLamport =>
    buildOperation item sealed (startDeviceSequence + 1) (startLamport + 1) ::
      buildOperations rest (startDeviceSequence + 1) (startLamport + 1)

theorem create_ne_bulkImport : OperationType.create ≠ .bulkImport := by decide

/-- A rejected restore as a create (`reissueRestoresAsCreate`). -/
def reissueItem (operation : OperationIn) : PendingLocalOperation where
  objectType := operation.objectType
  objectId := operation.objectId
  operationType := .create
  visitHours := none
  not_bulkImport := create_ne_bulkImport

/-! ### The store -/

/-- `PendingState`. -/
inductive PendingState where
  | localQueued
  | uploadInFlight
  deriving DecidableEq

/-- `PendingOperationRecord`, less the time it was made. -/
structure PendingOperationRecord where
  operation : OperationIn
  state : PendingState
  attempts : ℕ

/-- The key path of the store. -/
def PendingOperationRecord.id (record : PendingOperationRecord) : Uuid :=
  record.operation.operationId

/-- A record for an operation just created. -/
def queuedRecord (operation : OperationIn) : PendingOperationRecord := ⟨operation, .localQueued, 0⟩

/-- `store.put`: the record of that key is replaced. -/
def putRecord (store : List PendingOperationRecord) (record : PendingOperationRecord) :
    List PendingOperationRecord :=
  store.filter (fun r => r.id ≠ record.id) ++ [record]

/-- `putAllChunked`. -/
def putRecords (store records : List PendingOperationRecord) : List PendingOperationRecord :=
  records.foldl putRecord store

/-- `enqueueOperationsBatch`. -/
def enqueueOperationsBatch (store : List PendingOperationRecord) (operations : List OperationIn) :
    List PendingOperationRecord :=
  putRecords store (operations.map queuedRecord)

/-- `removeFromQueue`. -/
def removeFromQueue (store : List PendingOperationRecord) (operationIds : List Uuid) :
    List PendingOperationRecord :=
  store.filter fun r => r.id ∉ operationIds

/-- `replaceQueuedOperations`. -/
def replaceQueuedOperations (store : List PendingOperationRecord) (removeIds : List Uuid)
    (added : List OperationIn) : List PendingOperationRecord :=
  enqueueOperationsBatch (removeFromQueue store removeIds) added

/-- `markUploadInFlightRecords`. -/
def markUploadInFlightRecords (store records : List PendingOperationRecord) :
    List PendingOperationRecord :=
  putRecords store (records.map fun r => { r with state := .uploadInFlight })

/-- `requeueInFlightRecords`. -/
def requeueInFlightRecords (store records : List PendingOperationRecord)
    (incrementAttempts : Bool) : List PendingOperationRecord :=
  putRecords store (records.map fun r =>
    { r with
      state := .localQueued
      attempts := if incrementAttempts then r.attempts + 1 else r.attempts })

/-- `resetInFlightOperations`. -/
def resetInFlightOperations (store : List PendingOperationRecord) : List PendingOperationRecord :=
  store.map fun r => { r with state := .localQueued }

/-- The order of the `by-state-sequence` index among the queued records. -/
def sequenceKey (record : PendingOperationRecord) : ℤ ×ₗ Uuid :=
  toLex (record.operation.deviceSequence, record.id)

/-- `getPendingOperations`. -/
def getPendingOperations (store : List PendingOperationRecord) (limit : ℕ)
    (excludeIds : List Uuid) : List PendingOperationRecord :=
  let queued := (store.filter fun r => r.state = .localQueued).insertionSort
    fun a b => sequenceKey a ≤ sequenceKey b
  ((queued.take (limit + excludeIds.length + 500)).filter fun r => r.id ∉ excludeIds).take limit

/-! ### What the store holds -/

variable {store records : List PendingOperationRecord} {record : PendingOperationRecord}

/-- The operations of a list of records. -/
def operationsOf (records : List PendingOperationRecord) : List OperationIn :=
  records.map PendingOperationRecord.operation

theorem nodup_putRecord (h : (store.map PendingOperationRecord.id).Nodup) :
    ((putRecord store record).map PendingOperationRecord.id).Nodup := by
  rw [putRecord, List.map_append, List.nodup_append]
  refine ⟨h.sublist (List.filter_sublist.map _), by simp, ?_⟩
  intro a ha b hb hab
  obtain ⟨r, hr, rfl⟩ := List.mem_map.mp ha
  rw [List.map_singleton, List.mem_singleton] at hb
  have hne := (List.mem_filter.mp hr).2
  exact absurd (hab.trans hb) (by simpa using hne)

theorem nodup_putRecords (h : (store.map PendingOperationRecord.id).Nodup) :
    ((putRecords store records).map PendingOperationRecord.id).Nodup := by
  induction records generalizing store with
  | nil => exact h
  | cons record records ih => exact ih (nodup_putRecord h)

theorem mem_putRecords (h : record ∈ putRecords store records) : record ∈ store ∨ record ∈ records := by
  induction records generalizing store with
  | nil => exact Or.inl h
  | cons r records ih =>
    rcases ih h with hput | hmem
    · rcases List.mem_append.mp hput with hstore | hr
      · exact Or.inl (List.mem_filter.mp hstore).1
      · rw [List.mem_singleton.mp hr]
        exact Or.inr List.mem_cons_self
    · exact Or.inr (List.mem_cons_of_mem _ hmem)

/-- A put adds no operation but those of the records put. -/
theorem mem_operationsOf_putRecords {op : OperationIn}
    (h : op ∈ operationsOf (putRecords store records)) :
    op ∈ operationsOf store ∨ op ∈ operationsOf records := by
  obtain ⟨record, hrecord, rfl⟩ := List.mem_map.mp h
  rcases mem_putRecords hrecord with hmem | hmem
  · exact Or.inl (List.mem_map_of_mem hmem)
  · exact Or.inr (List.mem_map_of_mem hmem)

theorem mem_removeFromQueue {ids : List Uuid} :
    record ∈ removeFromQueue store ids ↔ record ∈ store ∧ record.id ∉ ids := by
  simp [removeFromQueue]

theorem removeFromQueue_sublist (ids : List Uuid) : (removeFromQueue store ids).Sublist store :=
  List.filter_sublist

/-! ### One key -/

/-- `store.get`. -/
def getRecord (store : List PendingOperationRecord) (id : Uuid) : Option PendingOperationRecord :=
  store.find? fun r => r.id = id

theorem getRecord_of_mem (h : (store.map PendingOperationRecord.id).Nodup) (hmem : record ∈ store) :
    getRecord store record.id = some record := by
  induction store with
  | nil => exact absurd hmem List.not_mem_nil
  | cons first store ih =>
    rw [List.map_cons, List.nodup_cons] at h
    rw [getRecord]
    rcases List.mem_cons.mp hmem with rfl | hmem
    · exact List.find?_cons_of_pos (by simp)
    · have hne : first.id ≠ record.id := fun heq =>
        h.1 (heq ▸ List.mem_map_of_mem hmem)
      rw [List.find?_cons_of_neg (by simpa using hne)]
      exact ih h.2 hmem

theorem getRecord_eq_none {id : Uuid} :
    getRecord store id = none ↔ id ∉ store.map PendingOperationRecord.id := by
  simp [getRecord]

theorem getRecord_removeFromQueue (ids : List Uuid) (id : Uuid) :
    getRecord (removeFromQueue store ids) id = if id ∈ ids then none else getRecord store id := by
  split
  · rename_i hid
    rw [getRecord_eq_none]
    intro hmem
    obtain ⟨r, hr, rfl⟩ := List.mem_map.mp hmem
    exact (mem_removeFromQueue.mp hr).2 hid
  · rename_i hid
    rw [getRecord, removeFromQueue, List.find?_filter, getRecord]
    congr 1
    funext r
    by_cases hr : r.id = id
    · simp [hr, hid]
    · simp [hr]

theorem getRecord_putRecord (id : Uuid) : getRecord (putRecord store record) id =
    if record.id = id then some record else getRecord store id := by
  have hput : putRecord store record = removeFromQueue store [record.id] ++ [record] := by
    simp [putRecord, removeFromQueue]
  rw [hput, getRecord, List.find?_append, ← getRecord, getRecord_removeFromQueue]
  by_cases hid : record.id = id
  · simp [hid]
  · simp [hid, Ne.symm hid]

theorem getRecord_putRecords_of_notMem {id : Uuid}
    (h : id ∉ records.map PendingOperationRecord.id) :
    getRecord (putRecords store records) id = getRecord store id := by
  induction records generalizing store with
  | nil => rfl
  | cons record records ih =>
    rw [List.map_cons, List.mem_cons, not_or] at h
    change getRecord (putRecords (putRecord store record) records) id = _
    rw [ih h.2, getRecord_putRecord, if_neg (Ne.symm h.1)]

/-- What was put last under a key is read back. -/
theorem getRecord_putRecords_of_mem (hnodup : (records.map PendingOperationRecord.id).Nodup)
    (h : record ∈ records) : getRecord (putRecords store records) record.id = some record := by
  induction records generalizing store with
  | nil => exact absurd h List.not_mem_nil
  | cons first records ih =>
    rw [List.map_cons, List.nodup_cons] at hnodup
    change getRecord (putRecords (putRecord store first) records) record.id = _
    rcases List.mem_cons.mp h with rfl | h
    · rw [getRecord_putRecords_of_notMem hnodup.1, getRecord_putRecord, if_pos rfl]
    · exact ih hnodup.2 h

theorem getRecord_putRecords_ne_none {id : Uuid}
    (h : id ∈ records.map PendingOperationRecord.id ∨ getRecord store id ≠ none) :
    getRecord (putRecords store records) id ≠ none := by
  induction records generalizing store with
  | nil =>
    rcases h with h | h
    · exact absurd h List.not_mem_nil
    · exact h
  | cons record records ih =>
    refine ih ?_
    rw [getRecord_putRecord]
    by_cases hid : record.id = id
    · right
      simp [hid]
    · rw [if_neg hid]
      rcases h with h | h
      · rcases List.mem_cons.mp h with rfl | h
        · exact absurd rfl hid
        · exact Or.inl h
      · exact Or.inr h

section Read

variable {limit : ℕ} {excludeIds : List Uuid}

theorem getPendingOperations_sublist : (getPendingOperations store limit excludeIds).Sublist
    ((store.filter fun r => r.state = .localQueued).insertionSort
      fun a b => sequenceKey a ≤ sequenceKey b) :=
  ((List.take_sublist _ _).trans List.filter_sublist).trans (List.take_sublist _ _)

theorem state_of_mem_getPendingOperations
    (h : record ∈ getPendingOperations store limit excludeIds) : record.state = .localQueued := by
  have hqueued := (List.perm_insertionSort _ _).mem_iff.mp (getPendingOperations_sublist.subset h)
  simpa using (List.mem_filter.mp hqueued).2

theorem id_notMem_of_mem_getPendingOperations
    (h : record ∈ getPendingOperations store limit excludeIds) : record.id ∉ excludeIds := by
  simpa using (List.mem_filter.mp (List.mem_of_mem_take h)).2

theorem nodup_getPendingOperations (h : (store.map PendingOperationRecord.id).Nodup) :
    ((getPendingOperations store limit excludeIds).map PendingOperationRecord.id).Nodup := by
  refine List.Nodup.sublist (getPendingOperations_sublist.map _) ?_
  rw [((List.perm_insertionSort _ _).map _).nodup_iff]
  exact h.sublist (List.filter_sublist.map _)

theorem mem_of_mem_getPendingOperations (h : record ∈ getPendingOperations store limit excludeIds) :
    record ∈ store := by
  have hmem := (List.mem_filter.mp (List.mem_of_mem_take h)).1
  have hqueued := (List.perm_insertionSort _ _).mem_iff.mp (List.mem_of_mem_take hmem)
  exact (List.mem_filter.mp hqueued).1

/-- **A batch is in sequence order**, strictly, if no two queued records share a sequence. -/
theorem pairwise_getPendingOperations (hids : (store.map PendingOperationRecord.id).Nodup)
    (hseq : ∀ a ∈ store, ∀ b ∈ store,
      a.operation.deviceSequence = b.operation.deviceSequence → a.id = b.id) :
    (getPendingOperations store limit excludeIds).Pairwise fun a b =>
      a.operation.deviceSequence < b.operation.deviceSequence := by
  set queued := (store.filter fun r => r.state = .localQueued).insertionSort
    (fun a b => sequenceKey a ≤ sequenceKey b) with hqueued
  have hperm : queued.Perm (store.filter fun r => r.state = .localQueued) :=
    List.perm_insertionSort _ _
  have hmem : ∀ r ∈ queued, r ∈ store := fun r hr => (List.mem_filter.mp (hperm.mem_iff.mp hr)).1
  have hnodup : (queued.map PendingOperationRecord.id).Nodup :=
    ((hperm.map _).nodup_iff).mpr (hids.sublist (List.filter_sublist.map _))
  have hsorted : queued.Pairwise fun a b => sequenceKey a ≤ sequenceKey b :=
    List.pairwise_insertionSort _ _
  have hstrict : queued.Pairwise fun a b =>
      a.operation.deviceSequence < b.operation.deviceSequence := by
    refine List.Pairwise.imp_of_mem ?_ (hsorted.and (List.pairwise_map.mp hnodup))
    rintro a b ha hb ⟨hle, hne⟩
    rcases (Prod.Lex.toLex_le_toLex.mp hle : _ ∨ _) with hlt | ⟨heq, -⟩
    · exact hlt
    · exact absurd (hseq a (hmem a ha) b (hmem b hb) heq) hne
  have hsub : (getPendingOperations store limit excludeIds).Sublist queued :=
    ((List.take_sublist _ _).trans List.filter_sublist).trans (List.take_sublist _ _)
  exact hstrict.sublist hsub

end Read

/-! ### What a block holds -/

variable {entries : List (PendingLocalOperation × Sealed)} {seq lamport : ℤ} {op : OperationIn}

theorem map_operationId_buildOperations :
    (buildOperations entries seq lamport).map OperationIn.operationId =
      entries.map fun e => e.2.operationId := by
  induction entries generalizing seq lamport with
  | nil => rfl
  | cons e entries ih => exact congrArg _ ih

/-- The sequences of a block are those reserved for it. -/
theorem seq_of_mem_buildOperations (h : op ∈ buildOperations entries seq lamport) :
    seq < op.deviceSequence ∧ op.deviceSequence ≤ seq + entries.length ∧
      op.isBulkHistoryImport = false := by
  induction entries generalizing seq lamport with
  | nil => exact absurd h List.not_mem_nil
  | cons e entries ih =>
    rw [List.length_cons]
    rcases List.mem_cons.mp h with rfl | hmem
    · refine ⟨?_, ?_, ?_⟩
      · change seq < seq + 1
        omega
      · change seq + 1 ≤ _
        push_cast
        omega
      · have hne : e.1.operationType ≠ .bulkImport := e.1.not_bulkImport
        simp [OperationIn.isBulkHistoryImport, buildOperation, hne]
    · obtain ⟨hlo, hhi, hbulk⟩ := ih hmem
      push_cast
      exact ⟨by omega, by omega, hbulk⟩

theorem pairwise_buildOperations :
    (buildOperations entries seq lamport).Pairwise fun a b =>
      a.deviceSequence < b.deviceSequence := by
  induction entries generalizing seq lamport with
  | nil => exact List.Pairwise.nil
  | cons e entries ih =>
    refine List.Pairwise.cons (fun b hb => ?_) ih
    exact (seq_of_mem_buildOperations hb).1

end Client

end HelixSync
