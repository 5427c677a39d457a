import HelixSync.Lib.Runs
import HelixSync.Server.Compaction
import HelixSync.Server.Download

/-!
# The server as a system

One state, and one event for each transaction the server commits: uploads, device
registration and revocation, the three parts of a compaction pass and the three
statements of a download. Every interleaving of concurrent requests is a list of
events. A pass or a request that is under way is kept in the state until its next
part happens; it may also be dropped at any moment, which is what a crash, a timeout
or a lost connection does.

Two observations are kept that the server does not store: `batches`, the rows of every
batch ever accepted, and `answered`, the downloads answered so far.
-/

namespace HelixSync

/-- A download whose bounds check has passed, with the page once it is decided. -/
structure DownloadCall where
  userId : Uuid
  cursor : ℕ
  limit : ℕ
  page : Option Page

/-- A download that was answered with `200`. -/
structure AnsweredDownload where
  userId : Uuid
  cursor : ℕ
  response : DownloadResponse

/-- The state of the server. -/
structure Server where
  db : Db
  now : DateTime
  /-- The snapshots decided on and not yet committed: user and boundary. -/
  rebuilds : List (Uuid × ℕ)
  prunes : List PrunePass
  downloads : List DownloadCall
  /-- The rows of every batch accepted so far. -/
  batches : List (List OperationRow)
  answered : List AnsweredDownload

/-- The events of the server. An index selects a pass or a request under way. -/
inductive Event where
  /-- The clock moves on. -/
  | tick (time : DateTime)
  | register (deviceId userId : Uuid)
  /-- `touch_last_seen`. -/
  | touch (deviceId : Uuid)
  | revoke (deviceId : Uuid)
  | upload (deviceId : Uuid) (ops : List OperationIn)
  /-- A compaction pass reads its boundary and decides. -/
  | compact (userId : Uuid)
  /-- A pass commits its snapshot. -/
  | commitSnapshot (index : ℕ)
  /-- A prune pass commits one chunk. -/
  | pruneChunk (index : ℕ)
  | dropRebuild (index : ℕ)
  | dropPrune (index : ℕ)
  | downloadBounds (deviceId : Uuid) (query : DownloadQuery)
  | downloadPage (index : ℕ)
  | downloadRows (index : ℕ)
  | dropDownload (index : ℕ)

namespace Server

/-- A server with no data: settings and a clock. -/
def start (settings : Uuid → Option UserSettings) (now : DateTime) : Server where
  db := { Db.empty with userSettings := settings }
  now := now
  rebuilds := []
  prunes := []
  downloads := []
  batches := []
  answered := []

/-- Every row ever accepted, in the order of acceptance. -/
def history (s : Server) : List OperationRow := s.batches.flatten

/-- The rows of one user ever accepted, in the order of acceptance. -/
def userHistory (s : Server) (userId : Uuid) : List OperationRow :=
  s.history.filter fun row => row.userId = userId

/-- The identity a device's token authenticates. A revocation takes effect only when
the cached answer of an earlier check expires, so it is not tested here. -/
def authenticate (s : Server) (deviceId : Uuid) : Option AuthenticatedDevice :=
  (s.db.device? deviceId).map fun d => ⟨d.userId, d.id⟩

/-- The rows a transaction inserted, which it appended to the table. -/
def insertedRows (before after : Db) : List OperationRow :=
  after.syncOperations.rows.drop before.syncOperations.rows.length

/-- An upload: nothing happens to the state if it fails. -/
def upload (cfg : Config) (s : Server) (device : AuthenticatedDevice) (ops : List OperationIn) :
    Server :=
  match processBatch cfg s.now s.db device ops with
  | .error _ => s
  | .ok (_, db) => { s with db := db, batches := s.batches ++ [insertedRows s.db db] }

/-- The answer to an upload request, if it is not an error. -/
def answer (cfg : Config) (s : Server) (deviceId : Uuid) (ops : List OperationIn) :
    Option BatchOutcome :=
  match s.authenticate deviceId with
  | none => none
  | some device =>
    match processBatch cfg s.now s.db device ops with
    | .ok (out, _) => some out
    | .error _ => none

/-- The first part of a compaction pass. -/
def compact (cfg : Config) (s : Server) (userId : Uuid) : Server :=
  match planCompaction cfg s.now s.db userId with
  | .nothing => s
  | .prune boundary =>
    { s with prunes := s.prunes ++ [startPrune cfg s.now s.db userId boundary] }
  | .rebuild boundary => { s with rebuilds := s.rebuilds ++ [(userId, boundary)] }

/-- The second part: a snapshot is committed, and the prune pass starts. -/
def commitSnapshot (cfg : Config) (s : Server) (index : ℕ) : Server :=
  match s.rebuilds[index]? with
  | none => s
  | some (userId, boundary) =>
    match HelixSync.commitSnapshot cfg s.now s.db userId boundary with
    | none => { s with rebuilds := s.rebuilds.eraseIdx index }
    | some db =>
      { s with
        db := db
        rebuilds := s.rebuilds.eraseIdx index
        prunes := s.prunes ++ [startPrune cfg s.now db userId boundary] }

/-- The third part, one chunk at a time. -/
def pruneChunk (s : Server) (index : ℕ) : Server :=
  match s.prunes[index]? with
  | none => s
  | some pass =>
    { s with
      db := HelixSync.pruneChunk pass s.db
      prunes := s.prunes.eraseIdx index ++ (pass.next? s.db).toList }

/-- The first statement of a download. -/
def downloadBounds (s : Server) (device : AuthenticatedDevice) (query : DownloadQuery) : Server :=
  match readBounds s.db device query.cursorValue with
  | (.pass, db) =>
    { s with
      db := db
      downloads := s.downloads ++ [⟨device.userId, query.cursorValue, query.limitValue, none⟩] }
  | (_, db) => { s with db := db }

/-- The second statement. A page whose byte total overflows is a failed request. -/
def downloadPage (s : Server) (index : ℕ) : Server :=
  match s.downloads[index]? with
  | none => s
  | some call =>
    match call.page, decidePage s.db call.userId call.cursor call.limit with
    | none, some page =>
      { s with downloads := s.downloads.eraseIdx index ++ [{ call with page := some page }] }
    | none, none => { s with downloads := s.downloads.eraseIdx index }
    | some _, _ => s

/-- The third statement, and the answer. -/
def downloadRows (s : Server) (index : ℕ) : Server :=
  match s.downloads[index]? with
  | none => s
  | some call =>
    match call.page with
    | none => s
    | some page =>
      { s with
        downloads := s.downloads.eraseIdx index
        answered := s.answered ++ [⟨call.userId, call.cursor,
          ⟨pageRows s.db call.userId call.cursor page.nextCursor, page.nextCursor,
            page.hasMore⟩⟩] }

/-- The registration of a device, under an id not yet taken. -/
def register (s : Server) (deviceId userId : Uuid) : Server :=
  if (s.db.device? deviceId).isSome then s
  else { s with
    db := { s.db with
      devices := s.db.devices ++ [{
        id := deviceId, userId := userId, lastSeenAt := none, createdAt := s.now,
        revokedAt := none, lastDeviceSequence := 0 }] } }

/-- The revocation of a device. -/
def revoke (s : Server) (deviceId : Uuid) : Server :=
  { s with db := s.db.updateDevice deviceId fun d =>
    if d.revokedAt.isNone then { d with revokedAt := some s.now } else d }

/-- `touch_last_seen`, which skips a write under a minute old. -/
def touch (s : Server) (deviceId : Uuid) : Server :=
  { s with db := s.db.updateDevice deviceId fun d =>
    match d.lastSeenAt with
    | none => { d with lastSeenAt := some s.now }
    | some seen =>
      if seen < s.now - DateTime.seconds 60 then { d with lastSeenAt := some s.now } else d }

/-- One event. -/
def step (cfg : Config) (s : Server) : Event → Server
  | .tick time => { s with now := max s.now time }
  | .register deviceId userId => s.register deviceId userId
  | .touch deviceId => s.touch deviceId
  | .revoke deviceId => s.revoke deviceId
  | .upload deviceId ops => match s.authenticate deviceId with
      | none => s
      | some device => s.upload cfg device ops
  | .compact userId => s.compact cfg userId
  | .commitSnapshot index => s.commitSnapshot cfg index
  | .pruneChunk index => s.pruneChunk index
  | .dropRebuild index => { s with rebuilds := s.rebuilds.eraseIdx index }
  | .dropPrune index => { s with prunes := s.prunes.eraseIdx index }
  | .downloadBounds deviceId query => match s.authenticate deviceId with
      | none => s
      | some device => s.downloadBounds device query
  | .downloadPage index => s.downloadPage index
  | .downloadRows index => s.downloadRows index
  | .dropDownload index => { s with downloads := s.downloads.eraseIdx index }

/-- The state after a list of events. -/
abbrev run (cfg : Config) (s : Server) (events : List Event) : Server :=
  Runs.run (step cfg) s events

/-! ### Small values for concrete runs -/

/-- A configuration with short grace periods. -/
def smallConfig : Config where
  requireEncryption := false
  tombstoneRetentionSecs := 100
  inactiveDeviceCompactionGracePeriodSecs := 1000
  neverSyncedDeviceCompactionGracePeriodSecs := 50
  maxAccountStorageBytes := 1000000
  snapshotJsonLen := fun _ => 0

/-- The smallest payload. -/
def smallPayload : RawValue := ⟨[123, 125], .object [], true, by simp⟩

/-- An encrypted operation with the smallest payload. -/
def smallOp (operationId : Uuid) (deviceSequence lamportTimestamp : ℤ) (objectType : ObjectType)
    (objectId : Uuid) (operationType : OperationType) : OperationIn where
  operationId := operationId
  deviceSequence := deviceSequence
  lamportTimestamp := lamportTimestamp
  objectType := objectType
  objectId := objectId
  operationType := operationType
  encryptionVersion := 1
  payload := smallPayload
  visitCount := none
  visitHours := none

/-- The server with no data and no settings, at time zero. -/
def smallStart : Server := start (fun _ => none) 0

end Server

end HelixSync
