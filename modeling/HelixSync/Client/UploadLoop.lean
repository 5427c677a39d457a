import HelixSync.Server.System
import HelixSync.Client.Queue

/-!
# One device and the server

`HelixSync.Client.System` is a device, with its counters, its queue and the calls that
are under way on it, together with the server. Every transaction on the device's stores
is a step of its own, and so is every batch the server processes, so the steps of calls
under way at the same time interleave freely:

* a `createLocalOperationsBatch` call reserves sequence numbers, encrypts, and enqueues;
* an iteration of `uploadPending` reads a batch, drops the operations stuck after too
  many attempts, marks the others in flight, sends them, and works the answer off;
* a history chunk takes a sequence number of the same counter and is sent at once. The
  calls of `uploadPending` that `flushChunk` makes before it are steps like all others;
* a request that fails or times out is given up, which says nothing about the server:
  the request may still arrive (`HelixSync.Client.System.late`);
* the worker may stop at any time.

At the server everything else may happen in between, as long as no one else uploads
under the device's id or under an id that the device has made.
-/

namespace HelixSync

namespace Client

/-- `MAX_UPLOAD_BATCH`. -/
def maxUploadBatch : ℕ := 500

/-- `MAX_UPLOAD_ATTEMPTS`. -/
def maxUploadAttempts : ℕ := 20

/-! ### Answers -/

/-- `classifyRejections`, the ids to requeue. -/
def toRequeue (out : BatchOutcome) : List Uuid :=
  (out.rejected.filter fun r => r.2 = .objectNotFound).map Prod.fst

/-- `classifyRejections`, the ids to remove. -/
def toRemove (out : BatchOutcome) : List Uuid :=
  (out.rejected.filter fun r => r.2 ≠ .objectNotFound).map Prod.fst

/-- The ids a response calls accepted or duplicate. -/
def resolvedIds (out : BatchOutcome) : List Uuid := out.accepted ++ out.duplicate

/-- `isBookmarkRestore`. -/
def isBookmarkRestore (op : OperationIn) : Bool :=
  op.operationType == .restore && (op.objectType == .bookmark || op.objectType == .bookmarkFolder)

/-- The records of a batch with the given ids. -/
def recordsWithIds (records : List PendingOperationRecord) (ids : List Uuid) :
    List PendingOperationRecord :=
  ids.filterMap fun id => records.find? fun r => r.id = id

theorem mem_of_mem_recordsWithIds {records : List PendingOperationRecord} {ids : List Uuid}
    {r : PendingOperationRecord} (h : r ∈ recordsWithIds records ids) : r ∈ records := by
  obtain ⟨id, -, hfind⟩ := List.mem_filterMap.mp h
  exact List.mem_of_find?_eq_some hfind

/-- The rejected restores of objects the server never saw. -/
def unknownRestores (records : List PendingOperationRecord) (out : BatchOutcome) :
    List PendingOperationRecord :=
  (recordsWithIds records (toRequeue out)).filter fun r => isBookmarkRestore r.operation

/-- The rejected operations that wait for another attempt. -/
def waitingRecords (records : List PendingOperationRecord) (out : BatchOutcome) :
    List PendingOperationRecord :=
  recordsWithIds records ((toRequeue out).filter fun id =>
    id ∉ (unknownRestores records out).map PendingOperationRecord.id)

/-! ### The state -/

/-- A `createLocalOperationsBatch` call under way. -/
inductive LocalCall where
  | reserved (items : List PendingLocalOperation) (startDeviceSequence startLamport : ℤ)
  | encrypted (operations : List OperationIn)

/-- How far an iteration of `uploadPending` has come. -/
inductive UploadStage where
  | taken
  | screened
  | marked
  | waiting
  | failed
  | answered (out : BatchOutcome)
  | resolved (out : BatchOutcome)
  | reissuing (out : BatchOutcome) (replacements : List OperationIn)
  | reissued (out : BatchOutcome)
  | requeued (out : BatchOutcome)

/-- An iteration of `uploadPending` under way. -/
structure Upload where
  records : List PendingOperationRecord
  stage : UploadStage

/-- What a run is about: the configuration of the server, the device, and the ids that
`uuidv7` returns on it, which no one else uses. -/
structure Setup where
  cfg : Config
  deviceId : Uuid
  ownId : Uuid → Bool

/-- The device and the server. -/
structure System where
  server : Server
  deviceSequence : ℤ
  lamportClock : ℤ
  pending : List PendingOperationRecord
  calls : List LocalCall
  uploads : List Upload
  /-- Requests the device has given up that have not reached the server. -/
  late : List (List OperationIn)
  /-- History chunks on their way to the server. -/
  chunks : List OperationIn
  /-- Every operation built for the queue so far. -/
  created : List OperationIn
  /-- The operations `uploadPending` has removed as accepted or duplicate. -/
  removed : List OperationIn

/-- What may happen next. An index picks one of the calls under way. -/
inductive ClientEvent where
  | reserve (items : List PendingLocalOperation)
  | encrypt (index : ℕ) (sealed : List Sealed)
  | enqueue (index : ℕ)
  | read (excludeIds : List Uuid)
  | dropStuck (index : ℕ)
  | mark (index : ℕ)
  | send (index : ℕ)
  | serve (index : ℕ)
  | receive (index : ℕ)
  | reissue (index : ℕ) (sealed : List (Option Sealed))
  | replace (index : ℕ)
  | requeue (index : ℕ)
  | remove (index : ℕ)
  | giveUp (index : ℕ)
  | serveLate (index : ℕ)
  | sendChunk (operationId objectId : Uuid) (payload : RawValue) (visitCount : ℤ)
      (visitHours : VisitHours)
  | serveChunk (index : ℕ)
  | restart
  | server (e : Event)

namespace System

/-- A device that has created nothing, and a server with no data. -/
def start (settings : Uuid → Option UserSettings) (now : DateTime) : System where
  server := Server.start settings now
  deviceSequence := 0
  lamportClock := 0
  pending := []
  calls := []
  uploads := []
  late := []
  chunks := []
  created := []
  removed := []

/-! ### Creating operations -/

/-- `reserveSequenceBatch`. -/
def reserveSequenceBatch (s : System) (count : ℕ) : System :=
  { s with
    deviceSequence := s.deviceSequence + count
    lamportClock := s.lamportClock + count }

/-- The ids are new ids of the device. -/
def FreshIds (setup : Setup) (s : System) (ids : List Uuid) : Prop :=
  ids.Nodup ∧ ∀ id ∈ ids, setup.ownId id = true ∧ id ∉ s.created.map OperationIn.operationId

-- The instance goes through the list: the one for `Fin` would try all UUIDs.
instance (setup : Setup) (s : System) (ids : List Uuid) : Decidable (FreshIds setup s ids) :=
  have : Decidable (∀ id ∈ ids, setup.ownId id = true ∧
      id ∉ s.created.map OperationIn.operationId) := List.decidableBAll _ ids
  inferInstanceAs (Decidable (ids.Nodup ∧ _))

/-- The first step of `createLocalOperationsBatch`. -/
def reserve (s : System) (items : List PendingLocalOperation) : System :=
  if items.isEmpty then s
  else { s.reserveSequenceBatch items.length with
    calls := s.calls ++ [.reserved items s.deviceSequence s.lamportClock] }

/-- The second step. -/
def encrypt (setup : Setup) (s : System) (index : ℕ) (sealed : List Sealed) : System :=
  match s.calls[index]? with
  | some (.reserved items startDeviceSequence startLamport) =>
    if sealed.length = items.length ∧ FreshIds setup s (sealed.map Sealed.operationId) then
      let operations := buildOperations (items.zip sealed) startDeviceSequence startLamport
      { s with
        calls := s.calls.set index (.encrypted operations)
        created := s.created ++ operations }
    else s
  | _ => s

/-- The third step. -/
def enqueue (s : System) (index : ℕ) : System :=
  match s.calls[index]? with
  | some (.encrypted operations) =>
    { s with
      pending := enqueueOperationsBatch s.pending operations
      calls := s.calls.eraseIdx index }
  | _ => s

/-! ### Uploading them -/

/-- `getPendingOperations`, called with the ids requeued by earlier iterations. -/
def read (s : System) (excludeIds : List Uuid) : System :=
  { s with
    uploads := s.uploads ++
      [⟨getPendingOperations s.pending maxUploadBatch excludeIds, .taken⟩] }

/-- The operations stuck after too many attempts are dropped. -/
def dropStuck (s : System) (index : ℕ) : System :=
  match s.uploads[index]? with
  | some ⟨records, .taken⟩ =>
    let stuck := records.filter fun r => maxUploadAttempts ≤ r.attempts
    let retryable := records.filter fun r => r.attempts < maxUploadAttempts
    { s with
      pending := removeFromQueue s.pending (stuck.map PendingOperationRecord.id)
      uploads := s.uploads.set index ⟨retryable, .screened⟩ }
  | _ => s

/-- The others are marked in flight. -/
def mark (s : System) (index : ℕ) : System :=
  match s.uploads[index]? with
  | some ⟨records, .screened⟩ =>
    { s with
      pending := markUploadInFlightRecords s.pending records
      uploads := s.uploads.set index ⟨records, .marked⟩ }
  | _ => s

/-- The request is sent. -/
def send (s : System) (index : ℕ) : System :=
  match s.uploads[index]? with
  | some ⟨records, .marked⟩ => { s with uploads := s.uploads.set index ⟨records, .waiting⟩ }
  | _ => s

/-- The server processes a batch of the device. -/
def serveBatch (setup : Setup) (s : System) (ops : List OperationIn) : System :=
  { s with server := s.server.step setup.cfg (.upload setup.deviceId ops) }

/-- The stage an answer, or an error, leads to. -/
def answerStage : Option BatchOutcome → UploadStage
  | some out => .answered out
  | none => .failed

/-- The server processes the request, and answers. -/
def serve (setup : Setup) (s : System) (index : ℕ) : System :=
  match s.uploads[index]? with
  | some ⟨records, .waiting⟩ =>
    { s.serveBatch setup (operationsOf records) with
      uploads := s.uploads.set index ⟨records,
        answerStage (s.server.answer setup.cfg setup.deviceId (operationsOf records))⟩ }
  | _ => s

/-- The answer arrives: what it calls accepted or duplicate leaves the queue. -/
def receive (s : System) (index : ℕ) : System :=
  match s.uploads[index]? with
  | some ⟨records, .answered out⟩ =>
    { s with
      pending := removeFromQueue s.pending (resolvedIds out)
      uploads := s.uploads.set index ⟨records, .resolved out⟩
      removed := s.removed ++ operationsOf (s.pending.filter fun r => r.id ∈ resolvedIds out) }
  | _ => s

/-- `reissueRestoresAsCreate`, up to its transaction on the queue. A restore that cannot be
decrypted has no replacement. -/
def reissue (setup : Setup) (s : System) (index : ℕ) (sealed : List (Option Sealed)) : System :=
  match s.uploads[index]? with
  | some ⟨records, .resolved out⟩ =>
    let decoded := ((unknownRestores records out).zip sealed).filterMap fun e =>
      e.2.map fun sealed => (reissueItem e.1.operation, sealed)
    if (unknownRestores records out).isEmpty = false ∧
        sealed.length = (unknownRestores records out).length ∧
        FreshIds setup s (decoded.map fun e => e.2.operationId) then
      let replacements := buildOperations decoded s.deviceSequence s.lamportClock
      { s.reserveSequenceBatch decoded.length with
        uploads := s.uploads.set index ⟨records, .reissuing out replacements⟩
        created := s.created ++ replacements }
    else s
  | _ => s

/-- Its transaction on the queue. -/
def replace (s : System) (index : ℕ) : System :=
  match s.uploads[index]? with
  | some ⟨records, .reissuing out replacements⟩ =>
    { s with
      pending := replaceQueuedOperations s.pending
        ((unknownRestores records out).map PendingOperationRecord.id) replacements
      uploads := s.uploads.set index ⟨records, .reissued out⟩ }
  | _ => s

/-- The other rejected operations whose object was not found go back to the queue. -/
def requeue (s : System) (index : ℕ) : System :=
  let requeued (records : List PendingOperationRecord) (out : BatchOutcome) : System :=
    { s with
      pending := requeueInFlightRecords s.pending (waitingRecords records out) true
      uploads := s.uploads.set index ⟨records, .requeued out⟩ }
  match s.uploads[index]? with
  | some ⟨records, .resolved out⟩ =>
    if (unknownRestores records out).isEmpty then requeued records out else s
  | some ⟨records, .reissued out⟩ => requeued records out
  | _ => s

/-- The operations rejected for another reason are removed, which ends the iteration. -/
def remove (s : System) (index : ℕ) : System :=
  match s.uploads[index]? with
  | some ⟨_, .requeued out⟩ =>
    { s with
      pending := removeFromQueue s.pending (toRemove out)
      uploads := s.uploads.eraseIdx index }
  | _ => s

/-- The request as it still may reach the server. -/
def Upload.onItsWay (u : Upload) : List (List OperationIn) :=
  match u.stage with
  | .waiting => [operationsOf u.records]
  | _ => []

/-- Whether a failure is caught, and the batch requeued. -/
def UploadStage.isCaught : UploadStage → Bool
  | .taken | .screened | .marked => false
  | _ => true

/-- An error while the request is under way or its answer is worked off: the whole batch goes
back to the queue. -/
def giveUp (s : System) (index : ℕ) : System :=
  match s.uploads[index]? with
  | some u =>
    if UploadStage.isCaught u.stage then
      { s with
        pending := requeueInFlightRecords s.pending u.records false
        uploads := s.uploads.eraseIdx index
        late := s.late ++ Upload.onItsWay u }
    else s
  | none => s

/-- A request that was given up reaches the server. -/
def serveLate (setup : Setup) (s : System) (index : ℕ) : System :=
  match s.late[index]? with
  | some ops => { s.serveBatch setup ops with late := s.late.eraseIdx index }
  | none => s

/-! ### History chunks, restarts and the rest -/

/-- The operation of a history chunk (`flushChunk`). -/
def chunkOperation (operationId objectId : Uuid) (payload : RawValue) (visitCount : ℤ)
    (visitHours : VisitHours) (deviceSequence lamportTimestamp : ℤ) : OperationIn where
  operationId := operationId
  deviceSequence := deviceSequence
  lamportTimestamp := lamportTimestamp
  objectType := .historyVisit
  objectId := objectId
  operationType := .bulkImport
  encryptionVersion := 1
  payload := payload
  visitCount := some visitCount
  visitHours := some visitHours

/-- A chunk takes a sequence number and is sent. Its id is derived, not generated, and the
same when the chunk is sent again. -/
def sendChunk (setup : Setup) (s : System) (operationId objectId : Uuid) (payload : RawValue)
    (visitCount : ℤ) (visitHours : VisitHours) : System :=
  if setup.ownId operationId then s
  else { s.reserveSequenceBatch 1 with
    chunks := s.chunks ++ [chunkOperation operationId objectId payload visitCount visitHours
      (s.deviceSequence + 1) (s.lamportClock + 1)] }

/-- A chunk reaches the server. -/
def serveChunk (setup : Setup) (s : System) (index : ℕ) : System :=
  match s.chunks[index]? with
  | some op => { s.serveBatch setup [op] with chunks := s.chunks.eraseIdx index }
  | none => s

/-- The worker stops and starts again: only the stores survive, and
`resetInFlightOperations` runs. -/
def restart (s : System) : System :=
  { s with
    pending := resetInFlightOperations s.pending
    calls := []
    uploads := []
    late := s.late ++ s.uploads.flatMap Upload.onItsWay }

/-- No one else uploads under the device's id or under ids of the device. -/
def Elsewhere (setup : Setup) : Event → Prop
  | .upload deviceId ops => deviceId ≠ setup.deviceId ∧
      ∀ op ∈ ops, setup.ownId op.operationId = false
  | _ => True

instance (setup : Setup) : DecidablePred (Elsewhere setup)
  | .upload deviceId ops => inferInstanceAs (Decidable (deviceId ≠ setup.deviceId ∧
      ∀ op ∈ ops, setup.ownId op.operationId = false))
  | .tick _ | .register _ _ | .touch _ | .revoke _ | .compact _ | .commitSnapshot _
  | .pruneChunk _ | .dropRebuild _ | .dropPrune _ | .downloadBounds _ _ | .downloadPage _
  | .downloadRows _ | .dropDownload _ => isTrue trivial

/-- One event. -/
def step (setup : Setup) (s : System) : ClientEvent → System
  | .reserve items => s.reserve items
  | .encrypt index sealed => s.encrypt setup index sealed
  | .enqueue index => s.enqueue index
  | .read excludeIds => s.read excludeIds
  | .dropStuck index => s.dropStuck index
  | .mark index => s.mark index
  | .send index => s.send index
  | .serve index => s.serve setup index
  | .receive index => s.receive index
  | .reissue index sealed => s.reissue setup index sealed
  | .replace index => s.replace index
  | .requeue index => s.requeue index
  | .remove index => s.remove index
  | .giveUp index => s.giveUp index
  | .serveLate index => s.serveLate setup index
  | .sendChunk operationId objectId payload visitCount visitHours =>
    s.sendChunk setup operationId objectId payload visitCount visitHours
  | .serveChunk index => s.serveChunk setup index
  | .restart => s.restart
  | .server e => if Elsewhere setup e then { s with server := s.server.step setup.cfg e } else s

/-- The state after a list of events. -/
abbrev run (setup : Setup) (s : System) (events : List ClientEvent) : System :=
  Runs.run (step setup) s events

end System

end Client

end HelixSync
