import HelixSync.Server.Download
import HelixSync.Client.BookmarkFields

/-!
# Applying a page and a snapshot

The body of the loop of `downloadAndApply`, and `applySnapshot`
(`extension/src/sync/engine.ts`). Both walk over what was received and, in between, wait for
one effect after the other: a call of an applier, a write to `applied_operations`, the
cursor. Which effects these are, and in which order, depends on what was received alone, so
each of them is a list of effects (`HelixSync.Client.pageActions`,
`HelixSync.Client.snapshotActions`) and a failure anywhere is a prefix of that list.

The engine knows nothing about the browser: what appliers do is a parameter
(`HelixSync.Client.Reader`), and so is decryption. A number in a document is given by its
canonical text. Progress counters and yields are left out, and so are the hooks that run
before a snapshot, which only read the browser.
-/

namespace HelixSync

namespace Client

/-! ### Operations on the wire -/

/-- An operation as it is delivered. -/
structure WireOperation extends OperationOut where
  encryptionVersion : ℤ
  payload : Json
  serverCursor : ℕ

/-- A row of the log on the wire. -/
def wireOperation (row : OperationRow) : WireOperation where
  operationId := row.operationId
  deviceId := row.deviceId
  lamportTimestamp := row.lamportTimestamp
  objectType := row.objectType
  objectId := row.objectId
  operationType := row.operationType
  encryptionVersion := row.encryptionVersion
  payload := row.payload
  serverCursor := row.serverCursor

/-- `DecryptedItem`. -/
abbrev DecryptedItem := WireOperation × Json

/-- An item as the appliers get it. -/
def DecryptedItem.remote (item : DecryptedItem) : RemoteItem := (item.1.toOperationOut, item.2)

/-- The device, its keys, and the appliers registered for each object type. `W` is what they
work on: field states, mappings and the browser. -/
structure Reader (W : Type) where
  deviceId : Uuid
  /-- `decryptWithSdek`, with the key of the envelope's version. -/
  decrypt : WireOperation → Option Json
  applier : ObjectType → Option (DecryptedItem → W → W)
  batchApplier : ObjectType → Option (List DecryptedItem → W → W)
  clearFieldState : W → W

/-! ### Decryption -/

/-- `assertSupportedEnvelopeVersion` throws: a numeric `v` other than `ENVELOPE_VERSION`. -/
def envelopeUnsupported (envelope : Json) : Bool :=
  match envelope.get? "v" with
  | some (.number text) => text != "2"
  | _ => false

/-- `isBulkImportOp`. -/
def isBulkImportOp (op : WireOperation) : Bool :=
  op.objectType == .historyVisit && op.operationType == .bulkImport

/-- `isBulkContainer`: its segments, if the payload is a container. -/
def bulkSegments? (payload : Json) : Option (List Json) :=
  match payload.get? "bulkVersion", payload.get? "visitCount", payload.get? "segments" with
  | some (.number version), some (.number _), some (.array segments) =>
    if version = "1" ∨ version = "2" then some segments else none
  | _, _, _ => none

/-- `assertEnvelopeVersionsSupported` throws. -/
def versionsUnsupported (op : WireOperation) : Bool :=
  if isBulkImportOp op then ((bulkSegments? op.payload).getD []).any envelopeUnsupported
  else envelopeUnsupported op.payload

/-- What `decryptWithResolver` does. -/
inductive Decryption where
  | throws
  | skip
  | payload (value : Json)

section Reader

variable {W : Type} (reader : Reader W)

/-- `decryptWithResolver`. -/
def decryptWithResolver (op : WireOperation) : Decryption :=
  if op.encryptionVersion < 1 then .skip
  else if versionsUnsupported op then .throws
  else if isBulkImportOp op then
    if (bulkSegments? op.payload).isSome then .payload op.payload else .skip
  else
    match reader.decrypt op with
    | none => .skip
    | some value => .payload value

/-- The history this device has recorded itself. -/
def isOwnHistory (op : WireOperation) : Bool :=
  op.objectType == .historyVisit && op.deviceId == reader.deviceId

/-- Whether an operation is deliberately skipped: own history, not encrypted, not readable, or
of a type without an applier. -/
def Skips (op : WireOperation) : Prop :=
  isOwnHistory reader op = true ∨ decryptWithResolver reader op = .skip ∨
    (reader.batchApplier op.objectType = none ∧ reader.applier op.objectType = none)

/-! ### Effects -/

/-- What is waited for. A `skip` is a decision, without an effect. -/
inductive Action where
  | tickLamportClock (observed : ℤ)
  | clearFieldState
  | callBatch (objectType : ObjectType) (items : List DecryptedItem)
  | call (item : DecryptedItem)
  | skip (op : WireOperation)
  | restoreBatch (objectType : ObjectType) (items : List DecryptedItem)
  | restore (item : DecryptedItem)
  | markAppliedBatch (operationIds : List Uuid)
  | updateCursor (cursor : ℕ)
  | updateSnapshotCursor (cursor : ℕ)

/-- What the device keeps. The last five fields are observations: the operations delivered,
those handed to an applier that returned, those skipped, the objects of snapshots handed to
an applier, and the highest cursor of a snapshot applied to its end. -/
structure Device (W : Type) where
  cursor : ℕ
  lamportClock : ℤ
  applied : List Uuid
  world : W
  delivered : List WireOperation
  handed : List WireOperation
  skipped : List WireOperation
  restored : List WireOperation
  replaced : ℕ

/-- One effect. -/
def perform (d : Device W) : Action → Device W
  | .tickLamportClock observed => { d with lamportClock := max d.lamportClock observed + 1 }
  | .clearFieldState => { d with world := reader.clearFieldState d.world }
  | .callBatch objectType items =>
    { d with
      world := (reader.batchApplier objectType).elim d.world fun apply => apply items d.world
      handed := d.handed ++ items.map Prod.fst }
  | .call item =>
    { d with
      world := (reader.applier item.1.objectType).elim d.world fun apply => apply item d.world
      handed := d.handed ++ [item.1] }
  | .skip op => { d with skipped := d.skipped ++ [op] }
  | .restoreBatch objectType items =>
    { d with
      world := (reader.batchApplier objectType).elim d.world fun apply => apply items d.world
      restored := d.restored ++ items.map Prod.fst }
  | .restore item =>
    { d with
      world := (reader.applier item.1.objectType).elim d.world fun apply => apply item d.world
      restored := d.restored ++ [item.1] }
  | .markAppliedBatch operationIds => { d with applied := d.applied ++ operationIds }
  | .updateCursor cursor => { d with cursor := cursor }
  | .updateSnapshotCursor cursor =>
    { d with cursor := cursor, replaced := max d.replaced cursor }

/-- Effects one after the other. -/
def performAll (d : Device W) (actions : List Action) : Device W :=
  actions.foldl (perform reader) d

/-! ### A page -/

/-- `MARK_APPLIED_CHUNK`. -/
def markAppliedChunk : ℕ := 50

/-- The walk over a page: the buffers of the object types, with the order in which the types
came up, the ids not yet recorded, and the effects so far. -/
structure PageWalk where
  batchBuffers : ObjectType → List DecryptedItem
  bufferOrder : List ObjectType
  appliedBuffer : List Uuid
  actions : List Action
  /-- An envelope of an unsupported version was found. -/
  stopped : Bool

namespace PageWalk

/-- The walk before the first operation. -/
def start : PageWalk := ⟨fun _ => [], [], [], [], false⟩

/-- One more effect. -/
def emit (w : PageWalk) (action : Action) : PageWalk := { w with actions := w.actions ++ [action] }

/-- `flushAppliedBuffer`. -/
def flushAppliedBuffer (w : PageWalk) : PageWalk :=
  if w.appliedBuffer.isEmpty then w
  else { w.emit (.markAppliedBatch w.appliedBuffer) with appliedBuffer := [] }

/-- `markApplied`. -/
def markApplied (w : PageWalk) (operationId : Uuid) : PageWalk :=
  let pushed := { w with appliedBuffer := w.appliedBuffer ++ [operationId] }
  if markAppliedChunk ≤ pushed.appliedBuffer.length then pushed.flushAppliedBuffer else pushed

/-- `flushBatchBuffer`. -/
def flushBatchBuffer (w : PageWalk) (objectType : ObjectType) : PageWalk :=
  let items := w.batchBuffers objectType
  if items.isEmpty then w
  else
    let called := { w.emit (.callBatch objectType items) with
      batchBuffers := Function.update w.batchBuffers objectType [] }
    items.foldl (fun w item => w.markApplied item.1.operationId) called

/-- `flushAllBatchBuffers`. -/
def flushAllBatchBuffers (w : PageWalk) : PageWalk := w.bufferOrder.foldl flushBatchBuffer w

/-- `pushToGroup`. -/
def pushToGroup (w : PageWalk) (item : DecryptedItem) : PageWalk :=
  let objectType := item.1.objectType
  { w with
    batchBuffers :=
      Function.update w.batchBuffers objectType (w.batchBuffers objectType ++ [item])
    bufferOrder :=
      if objectType ∈ w.bufferOrder then w.bufferOrder else w.bufferOrder ++ [objectType] }

/-- One operation of a page. -/
def step (alreadyApplied : List Uuid) (w : PageWalk) (op : WireOperation) : PageWalk :=
  if w.stopped then w
  else if op.operationId ∈ alreadyApplied then w
  else if isOwnHistory reader op then (w.emit (.skip op)).markApplied op.operationId
  else
    match decryptWithResolver reader op with
    | .throws => { w.flushAllBatchBuffers.flushAppliedBuffer with stopped := true }
    | .skip => (w.emit (.skip op)).markApplied op.operationId
    | .payload value =>
      if (reader.batchApplier op.objectType).isSome then
        let pushed := w.pushToGroup (op, value)
        if markAppliedChunk ≤ (pushed.batchBuffers op.objectType).length then
          pushed.flushBatchBuffer op.objectType
        else pushed
      else if (reader.applier op.objectType).isSome then
        (w.emit (.call (op, value))).markApplied op.operationId
      else (w.emit (.skip op)).markApplied op.operationId

end PageWalk

/-- `newestReceived`. -/
def newestReceived (operations : List WireOperation) : ℤ :=
  operations.foldl (fun newest op => max newest op.lamportTimestamp) 0

/-- The clock moves past what was received, before any of it is applied. -/
def tickActions (operations : List WireOperation) : List Action :=
  if 0 < newestReceived operations then [.tickLamportClock (newestReceived operations)] else []

/-- The walk over a whole page. -/
def walkPage (alreadyApplied : List Uuid) (operations : List WireOperation) : PageWalk :=
  operations.foldl (PageWalk.step reader alreadyApplied) PageWalk.start

/-- The effects of a page, up to the cursor. -/
def applyActions (alreadyApplied : List Uuid) (operations : List WireOperation) : List Action :=
  let walked := walkPage reader alreadyApplied operations
  if walked.stopped then walked.actions
  else walked.flushAllBatchBuffers.flushAppliedBuffer.actions

/-- **The effects of a page.** An unsupported envelope ends it before the cursor. -/
def pageActions (alreadyApplied : List Uuid) (cursor : ℕ) (operations : List WireOperation)
    (nextCursor : ℕ) : List Action :=
  tickActions operations ++ applyActions reader alreadyApplied operations ++
    if (walkPage reader alreadyApplied operations).stopped = false ∧
        (operations ≠ [] ∨ nextCursor ≠ cursor) then [.updateCursor nextCursor]
    else []

/-! ### A snapshot -/

/-- A snapshot as it is received. -/
structure ReceivedSnapshot where
  snapshotCursor : ℕ
  objects : List SnapshotObject
  tombstones : List ObjectKey

/-- A response of `/snapshot` as it arrives, its objects and tombstones in the order of two
lists of keys. -/
def receivedSnapshot (response : SnapshotResponse) (order tombstoneOrder : List ObjectKey) :
    ReceivedSnapshot where
  snapshotCursor := response.snapshotCursor
  objects := order.filterMap response.objects.get
  tombstones := tombstoneOrder.filter response.tombstones

/-- `TERMINAL_OPERATION_TYPE`, with its default. -/
def terminalOperationType : ObjectType → OperationType
  | .tab | .window => .close
  | _ => .delete

/-- `SNAPSHOT_DEVICE_ID`. -/
def snapshotDeviceId : Uuid := 0

/-- `SNAPSHOT_DISPATCH_CHUNK`. -/
def snapshotDispatchChunk : ℕ := 500

/-- `syntheticSnapshotOp` for an object. It keeps the key of the object's operation, if there
is one and the object is not a history visit. -/
def snapshotOperation (snapshot : ReceivedSnapshot) (lamportTimestamp : ℤ)
    (newId : ObjectKey → Uuid) (obj : SnapshotObject) : WireOperation :=
  let keepKey := obj.lamportTimestamp ≠ 0 ∧ obj.objectType ≠ .historyVisit
  { operationId := if keepKey then obj.operationId else newId obj.objectKey
    deviceId := if keepKey then obj.deviceId else snapshotDeviceId
    lamportTimestamp := if keepKey then obj.lamportTimestamp else lamportTimestamp
    objectType := obj.objectType
    objectId := obj.objectId
    operationType := obj.operationType
    encryptionVersion := obj.encryptionVersion
    payload := obj.payload
    serverCursor := snapshot.snapshotCursor }

/-- `syntheticSnapshotOp` for a tombstone. -/
def tombstoneOperation (snapshot : ReceivedSnapshot) (lamportTimestamp : ℤ)
    (newId : ObjectKey → Uuid) (key : ObjectKey) : WireOperation where
  operationId := newId key
  deviceId := snapshotDeviceId
  lamportTimestamp := lamportTimestamp
  objectType := key.1
  objectId := key.2
  operationType := terminalOperationType key.1
  encryptionVersion := 0
  payload := .object []
  serverCursor := snapshot.snapshotCursor

/-- The check before anything is applied: whether a snapshot has an envelope of an unsupported
version. -/
def ReceivedSnapshot.unsupported (snapshot : ReceivedSnapshot) : Bool :=
  snapshot.objects.any fun obj =>
    1 ≤ obj.encryptionVersion && versionsUnsupported (snapshotOperation snapshot 0 (fun _ => 0) obj)

/-- An object of a snapshot, decrypted. -/
def decryptObject (op : WireOperation) : Option DecryptedItem :=
  match decryptWithResolver reader op with
  | .payload value => some (op, value)
  | _ => none

/-- The calls for the objects of one type. -/
def restoreActions (objectType : ObjectType) (items : List DecryptedItem) : List Action :=
  if (reader.batchApplier objectType).isSome then [.restoreBatch objectType items]
  else if (reader.applier objectType).isSome then items.map .restore
  else []

/-- The calls for one chunk of a snapshot, type after type. -/
def chunkActions (items : List DecryptedItem) : List Action :=
  ((items.map fun item => item.1.objectType).eraseDups).flatMap fun objectType =>
    restoreActions reader objectType (items.filter fun item => item.1.objectType = objectType)

/-- The chunks of a list. -/
def chunks {α : Type} (size : ℕ) (items : List α) : List (List α) :=
  (List.range ((items.length + size - 1) / size)).map fun i => (items.drop (i * size)).take size

theorem chunks_nil {α : Type} {size : ℕ} (hsize : 0 < size) : chunks size ([] : List α) = [] := by
  rw [chunks, List.length_nil, Nat.zero_add, Nat.div_eq_of_lt (Nat.sub_lt hsize Nat.one_pos)]
  rfl

theorem chunks_of_ne_nil {α : Type} {size : ℕ} (hsize : 0 < size) {items : List α} (h : items ≠ []) :
    chunks size items = items.take size :: chunks size (items.drop size) := by
  have hpos := List.length_pos_of_ne_nil h
  have hcount : (items.length + size - 1) / size = ((items.drop size).length + size - 1) / size + 1 := by
    rw [List.length_drop, ← Nat.add_div_right _ hsize]
    rcases le_total size items.length with hle | hle
    · congr 1
      omega
    · rw [Nat.sub_eq_zero_of_le hle, Nat.div_eq_of_lt_le (k := 1), Nat.div_eq_of_lt_le (k := 1)] <;> omega
  rw [chunks, hcount, List.range_succ_eq_map, List.map_cons, List.map_map, chunks]
  congr 1
  · rw [Nat.zero_mul, List.drop_zero]
  · refine List.map_congr_left fun i _ => ?_
    rw [Function.comp_apply, List.drop_drop, Nat.succ_mul, Nat.add_comm]

/-- The calls for the tombstones of a snapshot, if their type has an applier. -/
def tombstoneActions (op : WireOperation) : List Action :=
  if (reader.applier op.objectType).isSome then [.restore (op, op.payload)] else []

/-- The newest Lamport value of a snapshot. -/
def ReceivedSnapshot.newest (snapshot : ReceivedSnapshot) : ℤ :=
  snapshot.objects.foldl (fun newest obj => max newest obj.lamportTimestamp) 0

/-- **The effects of `applySnapshot`.** An unsupported envelope ends it at once. -/
def snapshotActions (lamportClock : ℤ) (newId : ObjectKey → Uuid) (snapshot : ReceivedSnapshot) :
    List Action :=
  if snapshot.unsupported then []
  else
    let lamportTimestamp := max lamportClock snapshot.newest + 1
    [.clearFieldState, .tickLamportClock snapshot.newest] ++
      (chunks snapshotDispatchChunk
        (snapshot.objects.map (snapshotOperation snapshot lamportTimestamp newId))).flatMap
          (fun ops => chunkActions reader (ops.filterMap (decryptObject reader))) ++
      snapshot.tombstones.flatMap (fun key =>
        tombstoneActions reader (tombstoneOperation snapshot lamportTimestamp newId key)) ++
      [.updateSnapshotCursor snapshot.snapshotCursor]

end Reader

end Client

end HelixSync
