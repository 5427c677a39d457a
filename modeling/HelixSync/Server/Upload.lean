import Mathlib.Algebra.BigOperators.Group.Finset.Basic
import Mathlib.Algebra.Order.BigOperators.Group.Finset
import HelixSync.Server.Shape

/-!
# Uploading a batch

`process_batch` (`server/src/sync/routes.rs`), in the two halves the source has: a
validation pass that decides the fate of every operation in memory
(`HelixSync.validateOps`), and a write pass that allocates a block of cursors and
writes the accepted operations, the object ledger, the tombstones, the counters and
the hour buckets in one transaction (`HelixSync.writeBatch`). A failed statement
rolls the transaction back, so the result is either a new database or an error that
leaves the old one.

The write pass does not write operation by operation. It first folds the accepted
operations into per-object maps (`HelixSync.BatchWrites`), then writes all
tombstones, then clears the tombstones of all restored objects, and computes the
change of the counters from the state of each touched object before and after.
-/

namespace HelixSync

/-! ### Validation -/

/-- The outcome of the validation of one operation. -/
inductive Decision where
  | duplicate
  | rejected (reason : RejectReason)
  | accept
  deriving DecidableEq, Repr

/-- What the validation pass reads before it starts: the owners of the operation ids
already stored, the device's sequence before the batch, the encryption requirement,
the quota, the objects of the account among those the batch refers to, and the
history chunks ever accepted among those it carries. -/
structure BatchContext where
  userId : Uuid
  now : DateTime
  existing : Uuid → Option Uuid
  persistedLastSeq : ℤ
  requireEncryption : Bool
  storageQuotaExceeded : Bool
  owned : Finset ObjectKey
  knownBulk : Finset Uuid

/-- What the validation pass updates as it goes: the last accepted sequence and the
objects originated in the batch. -/
structure ValidationState where
  lastSeq : ℤ
  originatedInBatch : Finset ObjectKey

/-- The validation of one operation. -/
def validateOp (ctx : BatchContext) (st : ValidationState) (op : OperationIn) :
    Decision × ValidationState :=
  match ctx.existing op.operationId with
  | some ownerId =>
    if ownerId = ctx.userId then (.duplicate, st) else (.rejected .operationIdConflict, st)
  | none =>
    if op.isBulkHistoryImport = true ∧
        (op.objectId ∈ ctx.knownBulk ∨ op.objectKey ∈ st.originatedInBatch) then
      (.duplicate, st)
    else match checkOpShape ctx.now ctx.requireEncryption op with
    | .error reason => (.rejected reason, st)
    | .ok () =>
      if op.deviceSequence < 1 then (.rejected .invalidDeviceSequence, st)
      else if op.deviceSequence ≤ st.lastSeq then
        if op.deviceSequence ≤ ctx.persistedLastSeq then (.duplicate, st)
        else (.rejected .sequenceOutOfOrder, st)
      else if op.isOrigination = false ∧
          op.objectKey ∉ ctx.owned ∧ op.objectKey ∉ st.originatedInBatch then
        (.rejected .objectNotFound, st)
      else if ctx.storageQuotaExceeded then (.rejected .storageQuotaExceeded, st)
      else (.accept, ⟨op.deviceSequence,
        if op.isOrigination then insert op.objectKey st.originatedInBatch
        else st.originatedInBatch⟩)

/-- The validation pass: the decision of every operation, in order. -/
def validateOps (ctx : BatchContext) :
    ValidationState → List OperationIn → List (OperationIn × Decision) × ValidationState
  | st, [] => ([], st)
  | st, op :: ops =>
    let head := validateOp ctx st op
    let tail := validateOps ctx head.2 ops
    ((op, head.1) :: tail.1, tail.2)

/-- The operations a validation pass accepted, in order. -/
def acceptedOps (decisions : List (OperationIn × Decision)) : List OperationIn :=
  (decisions.filter fun d => d.2 = .accept).map Prod.fst

/-- The owner of an operation id, if it is stored. -/
def Db.operationOwner? (db : Db) (operationId : Uuid) : Option Uuid :=
  (db.syncOperations.rows.find? fun row => row.operationId = operationId).map (·.userId)

/-- The objects of the account among those that a batch's non-originations name. -/
def Db.ownedObjects (db : Db) (userId : Uuid) (ops : List OperationIn) : Finset ObjectKey :=
  ((ops.filter fun op => (db.operationOwner? op.operationId).isNone && !op.isOrigination).map
    OperationIn.objectKey).toFinset.filter fun key => (userId, key) ∈ db.syncObjects

/-- The history chunks ever accepted among those a batch carries. -/
def Db.knownBulk (db : Db) (userId : Uuid) (ops : List OperationIn) : Finset Uuid :=
  ((ops.filter fun op => (db.operationOwner? op.operationId).isNone && op.isBulkHistoryImport).map
    OperationIn.objectId).toFinset.filter
      fun id => (userId, (ObjectType.historyVisit, id)) ∈ db.syncObjects

/-- The bytes charged to an account. -/
def Db.storageBytes (db : Db) (userId : Uuid) : ℕ :=
  ((db.syncStats userId).map StatsRow.storageBytes).getD 0

/-- Whether an account is at its storage cap. -/
def Db.storageQuotaExceeded (cfg : Config) (db : Db) (userId : Uuid) : Bool :=
  cfg.maxAccountStorageBytes ≤ (db.storageBytes userId : ℤ)

/-- The reads that precede the validation pass. -/
def batchContext (cfg : Config) (now : DateTime) (db : Db) (device : AuthenticatedDevice)
    (lastDeviceSequence : ℤ) (ops : List OperationIn) : BatchContext where
  userId := device.userId
  now := now
  existing := db.operationOwner?
  persistedLastSeq := lastDeviceSequence
  requireEncryption := cfg.requireEncryption
    || ((db.userSettings device.userId).map UserSettings.requireEncryption).getD false
  storageQuotaExceeded := db.storageQuotaExceeded cfg device.userId
  owned := db.ownedObjects device.userId ops
  knownBulk := db.knownBulk device.userId ops

/-! ### Collecting what a batch writes -/

/-- The accepted operations with the cursors of their block. -/
def numbered : ℕ → List OperationIn → List (ℕ × OperationIn)
  | _, [] => []
  | cursor, op :: ops => (cursor, op) :: numbered (cursor + 1) ops

/-- The row of `sync_operations` an accepted operation becomes. -/
def operationRow (now : DateTime) (device : AuthenticatedDevice) (cursor : ℕ)
    (op : OperationIn) : OperationRow where
  operationId := op.operationId
  userId := device.userId
  deviceId := device.deviceId
  deviceSequence := op.deviceSequence
  lamportTimestamp := op.lamportTimestamp
  serverCursor := cursor
  objectType := op.objectType
  objectId := op.objectId
  operationType := op.operationType
  encryptionVersion := op.encryptionVersion
  payload := op.payload.value
  visitCount := if op.isBulkHistoryImport then op.visitCount else none
  payloadBytes := op.payload.text.length
  createdAt := now

/-- The cursor, Lamport time and operation id a tombstone is written with. -/
structure TombstoneValue where
  cursor : ℕ
  lamportTimestamp : ℤ
  operationId : Uuid

/-- The maps the write pass collects the accepted operations into. -/
structure BatchWrites where
  tombstones : FinMap ObjectKey TombstoneValue
  restores : Finset ObjectKey
  originations : Finset ObjectKey
  bulkObjectIds : Finset Uuid
  hourBuckets : DateTime → Option ℤ

/-- Nothing collected yet. -/
def BatchWrites.empty : BatchWrites where
  tombstones := FinMap.empty
  restores := ∅
  originations := ∅
  bulkObjectIds := ∅
  hourBuckets := fun _ => none

/-- `*hour_buckets.entry(hour).or_insert(0) += count`. -/
def addHour (buckets : DateTime → Option ℤ) (entry : DateTime × ℤ) : DateTime → Option ℤ :=
  Function.update buckets entry.1 (some ((buckets entry.1).getD 0 + entry.2))

/-- The hours an accepted operation adds to the buckets. -/
def OperationIn.hourEntries (op : OperationIn) : List (DateTime × ℤ) :=
  if op.objectType = .historyVisit then (op.visitHours.map VisitHours.entries).getD [] else []

/-- Whether the statements of the write pass take the operation: its payload goes through
`::jsonb` and its hours into a `timestamptz` column. -/
def OperationIn.isStorable (op : OperationIn) : Bool :=
  op.payload.isJsonb && op.hourEntries.all fun entry => entry.1.isTimestamptz

/-- One accepted operation collected. -/
def BatchWrites.collect (w : BatchWrites) (entry : ℕ × OperationIn) : BatchWrites where
  tombstones :=
    if entry.2.isTerminal then w.tombstones.insert entry.2.objectKey
      ⟨entry.1, entry.2.lamportTimestamp, entry.2.operationId⟩
    else w.tombstones
  restores :=
    if entry.2.isTerminal then w.restores
    else if entry.2.isRestore then insert entry.2.objectKey w.restores
    else w.restores
  originations :=
    if entry.2.isOrigination then insert entry.2.objectKey w.originations else w.originations
  bulkObjectIds :=
    if entry.2.isBulkHistoryImport then insert entry.2.objectId w.bulkObjectIds
    else w.bulkObjectIds
  hourBuckets := entry.2.hourEntries.foldl addHour w.hourBuckets

/-- All accepted operations collected. -/
def batchWrites (entries : List (ℕ × OperationIn)) : BatchWrites :=
  entries.foldl BatchWrites.collect BatchWrites.empty

/-! ### The writes -/

/-- The originations that get a ledger row: all but single history visits. -/
def BatchWrites.ledgerKeys (w : BatchWrites) : Finset ObjectKey :=
  w.originations.filter fun key => key.1 ≠ .historyVisit ∨ key.2 ∈ w.bulkObjectIds

/-- The ledger rows really inserted (`RETURNING`). -/
def BatchWrites.newlyOriginated (w : BatchWrites) (db : Db) (userId : Uuid) : Finset ObjectKey :=
  w.ledgerKeys.filter fun key => (userId, key) ∉ db.syncObjects

/-- The objects a batch tombstones or restores. -/
def BatchWrites.touchedKeys (w : BatchWrites) : Finset ObjectKey := w.tombstones.keys ∪ w.restores

/-- The `now_active` closure. -/
def BatchWrites.nowActive (w : BatchWrites) (key : ObjectKey) : Bool :=
  decide (key ∉ w.restores) && decide (key ∈ w.tombstones.keys)

/-- The change of a live count when a tombstone goes from one state to another. -/
def transition : Bool → Bool → ℤ
  | false, true => -1
  | true, false => 1
  | _, _ => 0

/-- The `transition_delta` closure. -/
def BatchWrites.transitionDelta (w : BatchWrites) (db : Db) (userId : Uuid)
    (types : List ObjectType) : ℤ :=
  ∑ key ∈ w.touchedKeys.filter fun key => key.1 ∈ types,
    transition (db.tombstoned userId key) (w.nowActive key)

/-- The `new_origination_delta` closure. -/
def BatchWrites.newOriginationDelta (w : BatchWrites) (db : Db) (userId : Uuid)
    (types : List ObjectType) : ℤ :=
  ((w.newlyOriginated db userId).filter fun key => key.1 ∈ types).card

/-- `bookmark_types`. -/
def bookmarkTypes : List ObjectType := [.bookmark, .bookmarkFolder]

/-- `tab_types`. -/
def tabTypes : List ObjectType := [.tab]

/-- The change of the live count of some object types. -/
def BatchWrites.liveDelta (w : BatchWrites) (db : Db) (userId : Uuid) (types : List ObjectType) :
    ℤ :=
  w.newOriginationDelta db userId types + w.transitionDelta db userId types

/-- The tombstone upsert, then the restores. -/
def BatchWrites.writeTombstone (w : BatchWrites) (now : DateTime) (deviceId : Uuid)
    (key : ObjectKey) (old : Option TombstoneRow) : Option TombstoneRow :=
  let upserted := match w.tombstones.get key with
    | none => old
    | some v => some {
        deletedAtCursor := v.cursor
        active := true
        lamportTimestamp := v.lamportTimestamp
        deviceId := deviceId
        operationId := v.operationId
        createdAt := (old.map TombstoneRow.createdAt).getD now }
  if key ∈ w.restores then upserted.map fun row => { row with active := false } else upserted

/-- The `sync_stats` upsert, with its counts clamped at zero. -/
def addStats (bookmarkDelta tabDelta : ℤ) (bytes : ℕ) (old : Option StatsRow) : Option StatsRow :=
  if bookmarkDelta ≠ 0 ∨ tabDelta ≠ 0 ∨ bytes ≠ 0 then
    match old with
    | none => some ⟨bookmarkDelta.toNat, tabDelta.toNat, bytes⟩
    | some row => some ⟨(row.bookmarkCount + bookmarkDelta).toNat, (row.tabCount + tabDelta).toNat,
        row.storageBytes + bytes⟩
  else old

/-- The `history_visit_hours` upsert. -/
def addVisits (bucket : Option ℤ) (old : Option ℤ) : Option ℤ :=
  match bucket with
  | none => old
  | some visits => some (old.getD 0 + visits)

/-- The upsert that reserves a block of cursors: it returns the last of them. -/
def reserveBlock (db : Db) (userId : Uuid) (count : ℕ) : ℕ := db.currentCursor userId + count

/-- The writes of a batch whose block of cursors is reserved: nothing on a unique
violation, or when one of the operations cannot be stored. -/
def writeBlock (now : DateTime) (device : AuthenticatedDevice) (accepted : List OperationIn)
    (lastSeq : ℤ) (endCursor : ℕ) (db : Db) : Option Db :=
  let startCursor := endCursor - accepted.length + 1
  let entries := numbered startCursor accepted
  let rows := entries.map fun entry => operationRow now device entry.1 entry.2
  let w := batchWrites entries
  if !accepted.all OperationIn.isStorable then none
  else (db.syncOperations.insert? rows).map fun table =>
    { db with
      syncOperations := table
      cursorAllocator := Function.update db.cursorAllocator device.userId (some endCursor)
      syncObjects := db.syncObjects ∪ w.ledgerKeys.image fun key => (device.userId, key)
      tombstones := Function.update db.tombstones device.userId fun key =>
        w.writeTombstone now device.deviceId key (db.tombstones device.userId key)
      syncStats := Function.update db.syncStats device.userId
        (addStats (w.liveDelta db device.userId bookmarkTypes)
          (w.liveDelta db device.userId tabTypes) (rows.map OperationRow.payloadBytes).sum
          (db.syncStats device.userId))
      historyVisitHours := Function.update db.historyVisitHours device.userId fun hour =>
        addVisits (w.hourBuckets hour) (db.historyVisitHours device.userId hour)
      devices := (db.updateDevice device.deviceId
        fun d => { d with lastDeviceSequence := lastSeq }).devices }

/-- The write half of a batch. -/
def writeBatch (now : DateTime) (device : AuthenticatedDevice) (accepted : List OperationIn)
    (lastSeq : ℤ) (db : Db) : Option Db :=
  writeBlock now device accepted lastSeq (reserveBlock db device.userId accepted.length) db

/-! ### The handler -/

/-- The answer to an upload. -/
structure BatchOutcome where
  accepted : List Uuid
  duplicate : List Uuid
  rejected : List (Uuid × RejectReason)
  serverCursor : ℕ

/-- The errors of the upload path: no row for the device, or a statement of the write pass
that the database refuses. -/
inductive AppError where
  | rowNotFound
  | database
  deriving DecidableEq

/-- The answer a list of decisions gives. -/
def outcomeOf (decisions : List (OperationIn × Decision)) (serverCursor : ℕ) : BatchOutcome where
  accepted := decisions.filterMap fun d => match d.2 with
    | .accept => some d.1.operationId
    | _ => none
  duplicate := decisions.filterMap fun d => match d.2 with
    | .duplicate => some d.1.operationId
    | _ => none
  rejected := decisions.filterMap fun d => match d.2 with
    | .rejected reason => some (d.1.operationId, reason)
    | _ => none
  serverCursor := serverCursor

/-- The validation pass of a batch against a database. -/
def validateBatch (cfg : Config) (now : DateTime) (db : Db) (device : AuthenticatedDevice)
    (d : DeviceRow) (ops : List OperationIn) :
    List (OperationIn × Decision) × ValidationState :=
  validateOps (batchContext cfg now db device d.lastDeviceSequence ops)
    ⟨d.lastDeviceSequence, ∅⟩ ops

/-- `process_batch`: the answer and the database after the transaction. -/
def processBatch (cfg : Config) (now : DateTime) (db : Db) (device : AuthenticatedDevice)
    (ops : List OperationIn) : Except AppError (BatchOutcome × Db) :=
  if ops.isEmpty then .ok (outcomeOf [] (db.currentCursor device.userId), db)
  else match db.device? device.deviceId with
  | none => .error .rowNotFound
  | some d =>
    let validated := validateBatch cfg now db device d ops
    let accepted := acceptedOps validated.1
    if accepted.isEmpty then
      .ok (outcomeOf validated.1 (db.currentCursor device.userId), db)
    else match writeBatch now device accepted validated.2.lastSeq db with
    | none => .error .database
    | some db' => .ok (outcomeOf validated.1 (db'.currentCursor device.userId), db')

end HelixSync
