import HelixSync.Lib.Runs
import HelixSync.Client.PointCapture
import HelixSync.Client.RemoteApply

/-!
# The restore job

A restore runs in the background (`extension/src/restore-points/restore.ts`): the point is loaded, the
sync slot is taken, the account's latest changes are downloaded, a copy of the bookmarks is uploaded,
and the planned operations are created and applied in chunks, with a record of the job in the storage
of the browser. If the worker is stopped, all that is left is that record, and a restore is resumed
from it.

A chunk is applied as the operations of other devices are, by `applyRemoteBatch`, a turn at a time
(`HelixSync.Client.BookmarksModule.batchTurn`): the fields of up to fifty operations are resolved in one
transaction, each operation changes the browser, what waits at the end of a slice is done. The turns of
a batch that nothing interrupts are `applyRemoteBatch`
(`HelixSync.Client.BookmarksModule.exists_turns`).

A call is `startRestore` or `resumeInterruptedRestore` with the `runRestore` it starts, suspended at an
`await` (`HelixSync.Client.RestoreAwait`). Both test whether a restore is running before their first
`await` and set it after the last one, so there can be several at once. Between two steps the bookmarks
and what is stored about them may be changed, by the user or by a download, and points uploaded, deleted
and evicted. The worker can be stopped between two steps, and in a turn after any of its effects.

The messages of errors, `startedAt` and the keep-alive are left out.
-/

namespace HelixSync

namespace Client

open TreeWalk

/-! ### The bookmarks as a restore reads them -/

/-- The nodes of the tree in preorder, less its root. -/
def Browser.walkNodes (browser : Browser) : List BookmarkNode :=
  walk (fun node => browser.nodes.children node.id) browser.nodes.length (browser.nodes.children 0)

/-- The variables of the loop of `readLiveBookmarks`. -/
structure LiveRead where
  nodes : List LiveBookmarkNode
  objectIdOf : List (ChromiumId × Uuid)
  unmapped : ℕ

/-- `sweepStaleBookmarkMappings`. -/
def sweepStaleBookmarkMappings (profile : Profile) : Profile :=
  profile.deleteMappings ((profile.mappings.map Prod.fst).filter fun id => !profile.browser.has id)

namespace BookmarksModule

variable (bookmarks : BookmarksModule)

section Reading

-- Which nodes are managed by a policy is the browser's to say.
variable (isManaged : ChromiumId → Bool)

/-- One round of the loop of `readLiveBookmarks`. What is under a node without an object is not read
either. -/
def readNode (profile : Profile) (read : LiveRead) (node : BookmarkNode) : LiveRead :=
  match bookmarks.chromiumIdByObjectId.find? fun root => root.2 = node.id with
  | some (rootObjectId, _) => { read with objectIdOf := (node.id, rootObjectId) :: read.objectIdOf }
  | none =>
    match node.parent.bind fun parentId => read.objectIdOf.lookup parentId, profile.mappingOf node.id with
    | some parentObjectId, some objectId =>
      { read with
        objectIdOf := (node.id, objectId) :: read.objectIdOf
        nodes := read.nodes ++ [{
          objectId := uuidText objectId
          kind := if (truthy node.value.url).isSome then .bookmark else .folder
          title := node.value.title
          url := truthy node.value.url
          parentObjectId := uuidText parentObjectId
          position := (recordedMove (profile.fieldValue objectId .move)).2
          unmodifiable := isManaged node.id }] }
    | _, _ => { read with unmapped := read.unmapped + 1 }

/-- `readLiveBookmarks`. -/
def readLiveBookmarks (profile : Profile) : LiveRead :=
  profile.browser.walkNodes.foldl (bookmarks.readNode isManaged profile) ⟨[], [], 0⟩

end Reading

/-! ### A batch, a turn at a time -/

/-- What is left of a batch. -/
inductive BatchStage where
  /-- The operations whose fields are still to be resolved. -/
  | slices (items : List RemoteItem)
  /-- The operations of a slice whose fields are, and those after it. -/
  | slice (resolved : List ResolvedOp) (items : List RemoteItem)
  | done

/-- A batch before its first turn: the ids are looked up. -/
def startBatch (run : Run) (items : List RemoteItem) : Batch :=
  ⟨run, bookmarks.chromiumIdsFor run.profile (involved items), [], [], []⟩

/-- A batch goes on: a slice is resolved, an operation applied, or what waits at the end of a slice or
of the batch is done. -/
def batchTurn (batch : Batch) : BatchStage → Batch × BatchStage
  | .slices [] =>
    let batch := bookmarks.flushMoves (bookmarks.flushTitleUrl batch)
    ({ batch with
        run := bookmarks.applyMovesBatch batch.run batch.restorePlacements
        restorePlacements := [] }, .done)
  | .slices (item :: items) =>
    let (run, resolved) := resolveSlice batch.run ((item :: items).take remoteResolveSlice)
    ({ batch with run := run }, .slice resolved ((item :: items).drop remoteResolveSlice))
  | .slice [] items => (bookmarks.flushTitleUrl batch, .slices items)
  | .slice (resolved :: rest) items => (bookmarks.batchStep batch resolved, .slice rest items)
  | .done => (batch, .done)

/-- A batch after so many turns. -/
def batchTurns : ℕ → Batch → BatchStage → Batch × BatchStage
  | 0, batch, stage => (batch, stage)
  | n + 1, batch, stage =>
    let (batch, stage) := bookmarks.batchTurn batch stage
    batchTurns n batch stage

section Turns

variable {bookmarks : BookmarksModule}

theorem batchTurns_done (n : ℕ) (batch : Batch) : bookmarks.batchTurns n batch .done = (batch, .done) := by
  induction n with
  | zero => rfl
  | succ n ih => exact ih

theorem exists_turns_slice (batch : Batch) (resolved : List ResolvedOp) (items : List RemoteItem) (n : ℕ) :
    ∃ m, bookmarks.batchTurns m batch (.slice resolved items) = bookmarks.batchTurns n
      (bookmarks.flushTitleUrl (resolved.foldl bookmarks.batchStep batch)) (.slices items) := by
  induction resolved generalizing batch with
  | nil => exact ⟨n + 1, rfl⟩
  | cons first rest ih =>
    obtain ⟨m, hturns⟩ := ih (bookmarks.batchStep batch first)
    exact ⟨m + 1, hturns⟩

theorem exists_turns_slices (batch : Batch) (items : List RemoteItem) :
    ∃ m, bookmarks.batchTurns m batch (.slices items) = bookmarks.batchTurn
      ((chunks remoteResolveSlice items).foldl bookmarks.batchSlice batch) (.slices []) := by
  induction hlength : items.length using Nat.strong_induction_on generalizing batch items with
  | _ length ih =>
    have hsize : 0 < remoteResolveSlice := by decide
    cases items with
    | nil =>
      rw [chunks_nil hsize]
      exact ⟨1, rfl⟩
    | cons item items =>
      rw [chunks_of_ne_nil hsize (List.cons_ne_nil _ _), List.foldl_cons]
      have hshorter : ((item :: items).drop remoteResolveSlice).length < length := by
        rw [← hlength, List.length_drop]
        exact Nat.sub_lt (Nat.succ_pos _) hsize
      obtain ⟨m, hrest⟩ := ih _ hshorter
        (bookmarks.batchSlice batch ((item :: items).take remoteResolveSlice)) _ rfl
      obtain ⟨k, hslice⟩ := exists_turns_slice
        { batch with run := (resolveSlice batch.run ((item :: items).take remoteResolveSlice)).1 }
        (resolveSlice batch.run ((item :: items).take remoteResolveSlice)).2
        ((item :: items).drop remoteResolveSlice) m
      exact ⟨k + 1, hslice.trans hrest⟩

/-- **The turns of a batch**, one after the other, are `applyRemoteBatch`. -/
theorem exists_turns (run : Run) (items : List RemoteItem) :
    ∃ n batch, bookmarks.batchTurns n (bookmarks.startBatch run items) (.slices items) = (batch, .done) ∧
      batch.run = bookmarks.applyRemoteBatch run items := by
  obtain ⟨n, hturns⟩ := exists_turns_slices (bookmarks.startBatch run items) items
  exact ⟨n, _, hturns, rfl⟩

end Turns

end BookmarksModule

/-! ### The operations of a plan -/

/-- The `operationType` of a planned operation. -/
def PlannedChange.operationType : PlannedChange → OperationType
  | .restore _ _ _ _ => .restore
  | .update _ _ => .update
  | .move _ _ => .move
  | .delete => .delete

/-- The `payload` of a planned operation. -/
def PlannedChange.payload : PlannedChange → Json
  | .restore title url parent position => .object [("title", .string title), ("url", nullable url),
      ("parent", .string parent), ("position", .string position)]
  | .update title url => .object ((title.map fun title => ("title", .string title)).toList ++
      (url.map fun url => ("url", .string url)).toList)
  | .move parent position => .object [("parent", .string parent), ("position", .string position)]
  | .delete => .object []

/-- What `createLocalOperationsBatch` gives an operation. -/
structure OperationStamp where
  deviceId : Uuid
  lamport : ℤ
  uuidv7 : ℕ → Uuid

/-- `createLocalOperationsBatch`, and the items of `applyRestoreOperations`. -/
def OperationStamp.create (stamp : OperationStamp) (operations : List PlannedOperation) : List RemoteItem :=
  operations.zipIdx.filterMap fun (operation, i) =>
    (uuidOfText? operation.objectId).map fun objectId =>
      (⟨stamp.uuidv7 i, stamp.deviceId, stamp.lamport + i + 1, operation.objectType, objectId,
        operation.change.operationType⟩, operation.change.payload)

/-! ### The job -/

/-- `RestoreErrorCode`. -/
inductive RestoreErrorCode where
  | notConnected
  | unavailable
  | restoreInProgress
  | unreadable
  | updateNeeded
  | syncFailed
  | bookmarksNotReady
  | preRestoreFailed
  | unknownScope
  | downloadFailed
  | failed
  deriving DecidableEq

/-- `RestoreRequest`. -/
structure RestoreRequest where
  pointId : String
  mode : RestoreMode
  scope : RestoreScope
  deriving DecidableEq

/-- `RestoreJobRecord`. -/
structure RestoreJobRecord where
  request : RestoreRequest
  preRestorePointId : String
  applied : ℕ
  total : ℕ

/-- The `phase` of a `RestoreProgress`. -/
inductive RestorePhase where
  | idle
  | preparing
  | applying
  | finishing
  | done
  | error
  deriving DecidableEq

/-- `RestoreProgress`. -/
structure RestoreProgress where
  phase : RestorePhase
  pointId : Option String
  mode : Option RestoreMode
  applied : ℕ
  total : ℕ
  counts : Option PlanCounts
  error : Option RestoreErrorCode

/-- `IDLE`. -/
def RestoreProgress.idle : RestoreProgress := ⟨.idle, none, none, 0, 0, none, none⟩

/-- `isRestoreRunning`. -/
def isRestoreRunning (progress : RestoreProgress) : Bool :=
  progress.phase = .preparing || progress.phase = .applying || progress.phase = .finishing

/-- `RESTORE_CHUNK_SIZE`. -/
def restoreChunkSize : ℕ := 500

/-- The kinds as which the copy is uploaded. -/
inductive CopyKind where
  | preRestore
  | manual

/-- The arguments of `applyUnderLock`. -/
structure RestoreTask where
  request : RestoreRequest
  nodes : List PointNode
  resumeJob : Option RestoreJobRecord

/-- The `await` at which a call is suspended. -/
inductive RestoreAwait where
  /-- `getDevice` and `serverSupportsRestorePoints`, in `startRestore`. -/
  | starting (request : RestoreRequest)
  /-- `getRestoreJob`, in `resumeInterruptedRestore`. -/
  | readingJob
  /-- `loadRestorePoint`. -/
  | loading (request : RestoreRequest) (resumeJob : Option RestoreJobRecord)
  /-- `runExclusive`, for the sync slot. -/
  | waiting (task : RestoreTask)
  /-- `uploadPending`, `downloadAndApply`, `sweepStaleBookmarkMappings` and `readLiveBookmarks`. -/
  | syncing (task : RestoreTask)
  /-- `buildRestorePoint`, in `createUploadedRestorePoint`. -/
  | capturing (task : RestoreTask) (live : List LiveBookmarkNode) (kind : CopyKind)
  /-- `uploadRestorePoint`, in `createUploadedRestorePoint`. -/
  | uploading (task : RestoreTask) (live : List LiveBookmarkNode) (kind : CopyKind) (id : String)
      (copy : List PointNode)
  /-- The first `putRestoreJob`. -/
  | beginning (task : RestoreTask) (plan : RestorePlan) (job : RestoreJobRecord)
  /-- `createLocalOperationsBatch`, for the next chunk of what is left. -/
  | creating (task : RestoreTask) (plan : RestorePlan) (job : RestoreJobRecord)
      (rest : List PlannedOperation)
  /-- `applyRestoreOperations`: the batch, what is left of it, and of the plan after it. -/
  | applying (task : RestoreTask) (plan : RestorePlan) (job : RestoreJobRecord)
      (batch : BookmarksModule.Batch) (stage : BookmarksModule.BatchStage) (rest : List PlannedOperation)
  /-- `putRestoreJob` after a chunk. -/
  | recording (task : RestoreTask) (plan : RestorePlan) (job : RestoreJobRecord)
      (rest : List PlannedOperation)
  /-- `reportRestoreApplied`. -/
  | reporting (task : RestoreTask) (plan : RestorePlan)
  /-- `deleteRestoreJob`. -/
  | deleting (task : RestoreTask) (plan : RestorePlan)
  /-- `deleteRestoreJob` in the `catch`. -/
  | failing (request : RestoreRequest) (code : RestoreErrorCode)
  | ended

/-- What has happened that a call waits for. -/
inductive RestoreOutcome where
  | ok
  | failed (code : RestoreErrorCode)
  /-- The copy has got an id. -/
  | captured (id : String)
  /-- The operations have got their ids and Lamport values. -/
  | created (stamp : OperationStamp)
  /-- The server refuses the kind (`restore_points_disabled`). -/
  | refused
  /-- The server has taken the point, but its answer is lost. -/
  | lost

/-- What is recorded of a run. -/
inductive RestoreEntry where
  | captured (id : String) (listing : List LiveBookmarkNode) (copy : List PointNode)
  | saved (id : String) (copy : List PointNode)
  /-- The server has deleted or evicted a point. -/
  | removed (id : String)
  | created (items : List RemoteItem)
  /-- A turn of a batch, for the job with this copy, from a stage on. -/
  | applied (preRestorePointId : String) (stage : BookmarksModule.BatchStage)

/-- The browser with its storage, the server's points, and the memory of the worker. -/
structure RestoreSystem where
  profile : Profile
  job : Option RestoreJobRecord
  /-- The points the server has. -/
  points : List (String × List PointNode)
  /-- The ids that were ever given to a point. -/
  ids : List String
  /-- The point that was loaded last. -/
  loadedCache : Option (String × List PointNode)
  calls : List RestoreAwait
  /-- The call that holds the sync slot. -/
  holder : Option ℕ
  running : Bool
  progress : RestoreProgress
  /-- What has happened, the latest first. -/
  log : List RestoreEntry

/-- The events. -/
inductive RestoreEvent where
  | startRestore (request : RestoreRequest)
  | resumeInterruptedRestore
  | previewRestore (pointId : String)
  | clearLoadedRestorePoint
  | proceed (n : ℕ) (outcome : RestoreOutcome)
  /-- The bookmarks, or what is stored about them, are changed. -/
  | edit (profile : Profile)
  /-- Another point is uploaded. -/
  | upload (id : String) (nodes : List PointNode)
  /-- The server deletes a point, or evicts it for another one. -/
  | remove (id : String)
  /-- The worker is stopped. -/
  | stop
  /-- The worker is stopped in a turn of a batch, after so many of its effects. -/
  | interrupt (n k : ℕ)

namespace RestoreSystem

variable (bookmarks : BookmarksModule) (isManaged : ChromiumId → Bool)

/-- No restore was ever started. -/
def start (profile : Profile) (points : List (String × List PointNode)) : RestoreSystem where
  profile := profile
  job := none
  points := points
  ids := points.map Prod.fst
  loadedCache := none
  calls := []
  holder := none
  running := false
  progress := .idle
  log := []

variable (s : RestoreSystem)

/-- A call goes on to its next `await`. -/
def suspend (n : ℕ) (await : RestoreAwait) : RestoreSystem :=
  { s with calls := s.calls.set n await }

/-- The sync slot is released if the call holds it. -/
def release (n : ℕ) : RestoreSystem :=
  { s with holder := if s.holder = some n then none else s.holder }

/-- An error is thrown in `runRestore`. -/
def fail (n : ℕ) (request : RestoreRequest) (code : RestoreErrorCode) : RestoreSystem :=
  (s.release n).suspend n (.failing request code)

/-- `loadRestorePoint`. -/
def loadRestorePoint (pointId : String) : Option (List PointNode) :=
  match s.loadedCache with
  | some (id, nodes) => if id = pointId then some nodes else s.points.lookup pointId
  | none => s.points.lookup pointId

/-- `runRestore` is called. -/
def launch (n : ℕ) (request : RestoreRequest) (resumeJob : Option RestoreJobRecord) : RestoreSystem :=
  { s.suspend n (.loading request resumeJob) with
    running := true
    progress := ⟨.preparing, request.pointId, request.mode, (resumeJob.map RestoreJobRecord.applied).getD 0,
      (resumeJob.map RestoreJobRecord.total).getD 0, none, none⟩ }

/-- What follows the copy in `applyUnderLock`: the plan and the record of the job. -/
def plan (n : ℕ) (task : RestoreTask) (live : List LiveBookmarkNode) (preRestorePointId : String) :
    RestoreSystem :=
  match planRestore bookmarks.isSyncableUrl task.nodes live task.request.mode task.request.scope with
  | .error _ => s.fail n task.request .unknownScope
  | .ok plan =>
    let total := (task.resumeJob.map RestoreJobRecord.total).getD plan.operations.length
    s.suspend n (.beginning task plan
      { request := task.request
        preRestorePointId := preRestorePointId
        applied := if task.resumeJob.isSome then total - plan.operations.length else 0
        total := total })

/-- A chunk follows, or the end of `applyUnderLock`. -/
def goOn (n : ℕ) (task : RestoreTask) (plan : RestorePlan) (job : RestoreJobRecord) :
    List PlannedOperation → RestoreSystem
  | [] => { (s.release n).suspend n (.reporting task plan) with
      progress := { s.progress with phase := .finishing } }
  | operation :: rest => s.suspend n (.creating task plan job (operation :: rest))

/-- The bookmarks are read, after the mappings of nodes that are gone are swept. A new restore has its
copy still to make; one that is resumed finds it in its record. -/
def read (n : ℕ) (task : RestoreTask) : RestoreSystem :=
  let s := { s with profile := sweepStaleBookmarkMappings s.profile }
  let live := bookmarks.readLiveBookmarks isManaged s.profile
  if 0 < live.unmapped then s.fail n task.request .bookmarksNotReady
  else match task.resumeJob with
    | none => s.suspend n (.capturing task live.nodes .preRestore)
    | some job => s.plan bookmarks n task live.nodes job.preRestorePointId

/-- `buildRestorePoint`. -/
def capture (n : ℕ) (task : RestoreTask) (live : List LiveBookmarkNode) (kind : CopyKind) :
    RestoreOutcome → RestoreSystem
  | .captured id =>
    let listing := bookmarks.readLiveBookmarks isManaged s.profile
    if 0 < listing.unmapped then s.fail n task.request .bookmarksNotReady
    else if id ∈ s.ids then s
    else match buildPointNodes listing.nodes [] with
      | .error _ => s.fail n task.request .preRestoreFailed
      | .ok copy => suspend { s with ids := id :: s.ids, log := .captured id listing.nodes copy :: s.log } n
          (.uploading task live kind id copy)
  | _ => s.fail n task.request .preRestoreFailed

/-- The copy is uploaded under one kind; a kind that is refused is followed by the other one. -/
def upload (n : ℕ) (task : RestoreTask) (live : List LiveBookmarkNode) (kind : CopyKind) (id : String)
    (copy : List PointNode) : RestoreOutcome → RestoreSystem
  | .ok => plan bookmarks
      { s with points := (id, copy) :: s.points, log := .saved id copy :: s.log } n task live id
  | .refused => match kind with
    | .preRestore => s.suspend n (.capturing task live .manual)
    | .manual => s.fail n task.request .preRestoreFailed
  | .lost => fail { s with points := (id, copy) :: s.points, log := .saved id copy :: s.log } n task.request
      .preRestoreFailed
  | _ => s.fail n task.request .preRestoreFailed

/-- A turn of a batch, on the profile as it is by now. -/
def turn (batch : BookmarksModule.Batch) (stage : BookmarksModule.BatchStage) :
    BookmarksModule.Batch × BookmarksModule.BatchStage :=
  bookmarks.batchTurn { batch with run := { batch.run with profile := s.profile } } stage

/-- A turn is over. A call that the browser has rejected ends the restore. -/
def applyTurn (n : ℕ) (task : RestoreTask) (plan : RestorePlan) (job : RestoreJobRecord)
    (batch : BookmarksModule.Batch) (stage : BookmarksModule.BatchStage) (rest : List PlannedOperation) :
    RestoreSystem :=
  let (batch, next) := s.turn bookmarks batch stage
  let s := { s with profile := batch.run.profile, log := .applied job.preRestorePointId stage :: s.log }
  if batch.run.rejected then s.fail n task.request .failed
  else match next with
    | .done => s.suspend n (.recording task plan job rest)
    | next => s.suspend n (.applying task plan job batch next rest)

/-- What a call waits for has happened, and it goes on to its next `await`. -/
def proceed (n : ℕ) : RestoreAwait → RestoreOutcome → RestoreSystem
  | .starting request, .ok => s.launch n request none
  | .starting _, _ => s.suspend n .ended
  | .readingJob, .ok => match s.job with
    | none => s.suspend n .ended
    | some job => s.launch n job.request (some job)
  | .readingJob, _ => s.suspend n .ended
  | .loading request resumeJob, .ok => match s.loadRestorePoint request.pointId with
    | none => s.fail n request .downloadFailed
    | some nodes => { s.suspend n (.waiting ⟨request, nodes, resumeJob⟩) with
        loadedCache := some (request.pointId, nodes) }
  | .loading request _, .failed code => s.fail n request code
  | .waiting task, .ok =>
    if s.holder = none then { s.suspend n (.syncing task) with holder := some n } else s
  | .syncing task, .ok => s.read bookmarks isManaged n task
  | .syncing task, .failed code => s.fail n task.request code
  | .capturing task live kind, outcome => s.capture bookmarks isManaged n task live kind outcome
  | .uploading task live kind id copy, outcome => s.upload bookmarks n task live kind id copy outcome
  | .beginning task plan job, .ok =>
    goOn { s with
      job := some job
      progress := ⟨.applying, task.request.pointId, task.request.mode, job.applied, job.total, plan.counts,
        none⟩ } n task plan job plan.operations
  | .creating task plan job rest, .created stamp =>
    let items := stamp.create (rest.take restoreChunkSize)
    suspend { s with log := .created items :: s.log } n
      (.applying task plan { job with applied := job.applied + (rest.take restoreChunkSize).length }
        (bookmarks.startBatch (.start s.profile) items) (.slices items) (rest.drop restoreChunkSize))
  | .applying task plan job batch stage rest, .ok => s.applyTurn bookmarks n task plan job batch stage rest
  | .recording task plan job rest, .ok =>
    goOn { s with job := some job, progress := { s.progress with applied := job.applied } } n task plan job
      rest
  | .beginning task _ _, .failed code => s.fail n task.request code
  | .creating task _ _ _, .failed code => s.fail n task.request code
  | .applying task _ _ _ _ _, .failed code => s.fail n task.request code
  | .recording task _ _ _, .failed code => s.fail n task.request code
  | .reporting task plan, _ => s.suspend n (.deleting task plan)
  | .deleting task plan, .ok =>
    { s.suspend n .ended with
      job := none
      running := false
      progress := ⟨.done, task.request.pointId, task.request.mode, plan.operations.length,
        plan.operations.length, plan.counts, none⟩ }
  | .deleting task _, _ => s.fail n task.request .failed
  | .failing request code, outcome =>
    { s.suspend n .ended with
      -- The deletion may fail, and then the record stays.
      job := match outcome with
        | .ok => none
        | _ => s.job
      running := false
      progress := ⟨.error, request.pointId, request.mode, s.progress.applied, s.progress.total, none,
        some code⟩ }
  | _, _ => s

/-- All that is in memory is gone. -/
def stopped : RestoreSystem :=
  { s with calls := [], holder := none, running := false, progress := .idle, loadedCache := none }

/-- The worker is stopped in a turn: the profile is one of those that the turn passes. -/
def interrupted (k : ℕ) : RestoreAwait → RestoreSystem
  | .applying _ _ job batch stage _ =>
    match ((s.turn bookmarks batch stage).1.run.passed.drop batch.run.passed.length)[k]? with
    | some profile =>
      stopped { s with profile := profile, log := .applied job.preRestorePointId stage :: s.log }
    | none => s
  | _ => s

/-- One event. -/
def step : RestoreEvent → RestoreSystem
  | .startRestore request =>
    if s.running || isRestoreRunning s.progress then s
    else { s with calls := s.calls ++ [.starting request] }
  | .resumeInterruptedRestore =>
    if s.running || isRestoreRunning s.progress then s
    else { s with calls := s.calls ++ [.readingJob] }
  | .previewRestore pointId => match s.loadRestorePoint pointId with
    | none => s
    | some nodes => { s with loadedCache := some (pointId, nodes) }
  | .clearLoadedRestorePoint => { s with loadedCache := none }
  | .proceed n outcome => match s.calls[n]? with
    | none => s
    | some await => s.proceed bookmarks isManaged n await outcome
  | .edit profile => { s with profile := profile }
  | .upload id nodes =>
    if id ∈ s.ids then s else { s with ids := id :: s.ids, points := (id, nodes) :: s.points }
  | .remove id =>
    { s with points := s.points.filter fun point => point.1 ≠ id, log := .removed id :: s.log }
  | .stop => s.stopped
  | .interrupt n k => match s.calls[n]? with
    | none => s
    | some await => s.interrupted bookmarks k await

/-- The state after a list of events. -/
abbrev run (profile : Profile) (points : List (String × List PointNode)) (es : List RestoreEvent) :
    RestoreSystem :=
  Runs.run (step bookmarks isManaged) (start profile points) es

/-! ### A chunk that nothing interrupts -/

section Undisturbed

variable {bookmarks isManaged s} {n : ℕ} {task : RestoreTask} {plan : RestorePlan} {job : RestoreJobRecord}
  {batch last : BookmarksModule.Batch} {stage : BookmarksModule.BatchStage} {rest : List PlannedOperation}

/-- If nothing else happens and no call of the browser is rejected, a batch comes to its end. -/
theorem exists_proceed_turns {m : ℕ} (hcall : s.calls[n]? = some (.applying task plan job batch stage rest))
    (hstage : stage ≠ .done) (hprofile : batch.run.profile = s.profile)
    (hturns : bookmarks.batchTurns m batch stage = (last, .done))
    (hok : ∀ k, (bookmarks.batchTurns k batch stage).1.run.rejected = false) :
    ∃ k, let s' := Runs.run (step bookmarks isManaged) s (List.replicate k (.proceed n .ok))
      s'.calls[n]? = some (.recording task plan job rest) ∧ s'.profile = last.run.profile := by
  induction m generalizing s batch stage with
  | zero => exact absurd (congrArg Prod.snd hturns) hstage
  | succ m ih =>
    have hlt : n < s.calls.length := (List.getElem?_eq_some_iff.mp hcall).1
    have hturn : s.turn bookmarks batch stage = bookmarks.batchTurn batch stage := by
      rw [turn, ← hprofile]
    have hstep : s.step bookmarks isManaged (.proceed n .ok) =
        s.applyTurn bookmarks n task plan job batch stage rest := by
      rw [step, hcall]
      rfl
    have hfirst : (bookmarks.batchTurn batch stage).1.run.rejected = false := hok 1
    rw [applyTurn, hturn] at hstep
    obtain ⟨batch', stage', hbatch⟩ : ∃ batch' stage', bookmarks.batchTurn batch stage = (batch', stage') :=
      ⟨_, _, rfl⟩
    rw [hbatch] at hstep hfirst
    rw [BookmarksModule.batchTurns, hbatch] at hturns
    dsimp only at hstep hfirst hturns
    rw [if_neg (by simp [hfirst])] at hstep
    by_cases hdone : stage' = .done
    · subst hdone
      rw [BookmarksModule.batchTurns_done] at hturns
      obtain rfl := (Prod.mk.inj hturns).1
      refine ⟨1, ?_⟩
      rw [List.replicate_one, Runs.run_cons, Runs.run_nil, hstep]
      exact ⟨List.getElem?_set_self hlt, rfl⟩
    · have hcall' : (s.step bookmarks isManaged (.proceed n .ok)).calls[n]? =
          some (.applying task plan job batch' stage' rest) := by
        rw [hstep]
        cases stage' with
        | done => exact absurd rfl hdone
        | slices | slice => exact List.getElem?_set_self hlt
      have hprofile' : batch'.run.profile = (s.step bookmarks isManaged (.proceed n .ok)).profile := by
        rw [hstep]
        cases stage' <;> rfl
      have hok' : ∀ k, (bookmarks.batchTurns k batch' stage').1.run.rejected = false := by
        intro k
        have hk := hok (k + 1)
        rwa [BookmarksModule.batchTurns, hbatch] at hk
      obtain ⟨k, hk⟩ := ih hcall' hdone hprofile' hturns hok'
      exact ⟨k + 1, hk⟩

/-- **A chunk that nothing interrupts is applied by `applyRemoteBatch`.** -/
theorem exists_proceed_applyRemoteBatch {items : List RemoteItem}
    (hcall : s.calls[n]? = some (.applying task plan job (bookmarks.startBatch (.start s.profile) items)
      (.slices items) rest))
    (hok : ∀ k, (bookmarks.batchTurns k (bookmarks.startBatch (.start s.profile) items)
      (.slices items)).1.run.rejected = false) :
    ∃ k, let s' := Runs.run (step bookmarks isManaged) s (List.replicate k (.proceed n .ok))
      s'.calls[n]? = some (.recording task plan job rest) ∧
        s'.profile = (bookmarks.applyRemoteBatch (.start s.profile) items).profile := by
  obtain ⟨m, last, hturns, hlast⟩ := BookmarksModule.exists_turns (.start s.profile) items
  obtain ⟨k, hrecording, hprofile⟩ := exists_proceed_turns hcall nofun rfl hturns hok
  exact ⟨k, hrecording, hprofile.trans (congrArg Run.profile hlast)⟩

end Undisturbed

end RestoreSystem

end Client

end HelixSync
