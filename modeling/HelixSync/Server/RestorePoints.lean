import HelixSync.Lib.Locks
import HelixSync.Server.Compaction

/-!
# Restore points

The handlers of `server/src/restore_points/routes.rs` that write, and `prune_restore_points` of
`server/src/housekeeping.rs`. A point is a row with a size; the sizes of a user's points are summed
up in a column of `sync_stats`.

A handler occupies a slot and executes one statement at a time, others in between
(`HelixSync.PointCall` names the statement it executes next). What its transaction has written so
far is kept with it and becomes visible when it commits. Three kinds of locks are held until then:
the advisory lock of a user, which uploads, deletes and pin changes take and a prune does not; a row
of `bookmark_restore_points` that the transaction has written; and a row of `sync_stats` that it
has. A statement that finds a lock taken waits, which is an event that changes nothing. In all
statements of a transaction `now()` is the time it began.

Left out are rate limits, the audit log and the caches, and the columns that no statement here
selects by (`device_id`, `bookmark_count`, `encryption_version`, `codec`, `envelope`,
`last_restored_at`).
-/

namespace HelixSync

/-! ### Rows and limits -/

/-- The primary key of a point: its user and its id. -/
abbrev PointKey := Uuid × Uuid

/-- A row of `bookmark_restore_points`. -/
structure RestorePointRow where
  userId : Uuid
  id : Uuid
  kind : String
  sizeBytes : ℕ
  pinned : Bool
  createdAt : DateTime
  deriving DecidableEq

/-- The primary key of a row. -/
def RestorePointRow.key (row : RestorePointRow) : PointKey := (row.userId, row.id)

/-- `RestorePointLimits`, as they are read at startup: all are positive, and a size fits its
column. -/
structure RestorePointLimits where
  maxBytes : ℤ
  maxAccountBytes : ℤ
  maxPerAccount : ℤ
  maxPinned : ℤ
  retentionSecs : ℤ
  scheduledMinIntervalSecs : ℤ
  maxBytes_le : maxBytes ≤ 2 ^ 31 - 1
  maxAccountBytes_pos : 0 < maxAccountBytes
  maxPerAccount_pos : 0 < maxPerAccount
  maxPinned_pos : 0 < maxPinned

/-- `AppError`, as these handlers use it. -/
inductive PointError where
  | validation (text : String)
  | conflict (code : String)
  | notFound
  | internal
  deriving DecidableEq

/-- `UploadRequest`; the envelope is its text. -/
structure UploadPointRequest where
  id : Uuid
  kind : String
  bookmarkCount : ℤ
  encryptionVersion : ℤ
  codec : Option String
  envelope : String

/-- The columns of `user_settings` an upload reads. -/
structure PointSettings where
  requireEncryption : Bool
  restorePointsAutomatic : Bool

/-- `KINDS`. -/
def restorePointKinds : List String :=
  ["manual", "scheduled", "pre_restore", "pre_import", "pre_resync", "mass_delete"]

/-- `CODEC_DEFLATE_RAW`. -/
def codecDeflateRaw : String := "deflate-raw"

/-- `MAX_BOOKMARK_COUNT`. -/
def maxBookmarkCount : ℤ := 1000000

/-- The size of an envelope. -/
def UploadPointRequest.size (req : UploadPointRequest) : ℕ := req.envelope.utf8ByteSize

/-- The checks of `upload` before its transaction. -/
def validateUpload (limits : RestorePointLimits) (req : UploadPointRequest) : Except PointError Unit :=
  if req.kind ∉ restorePointKinds then .error (.validation "unknown restore point kind")
  else if ¬(0 ≤ req.bookmarkCount ∧ req.bookmarkCount ≤ maxBookmarkCount) then
    .error (.validation "invalid bookmarkCount")
  else if req.encryptionVersion < 0 then .error (.validation "invalid encryptionVersion")
  else if req.codec.any (· ≠ codecDeflateRaw) then .error (.validation "unknown codec")
  else if req.envelope.toList.head? ≠ some '\x7b' then
    .error (.validation "envelope must be an object")
  else if limits.maxBytes < (req.size : ℤ) then .error (.validation "restore point too large")
  else .ok ()

/-! ### Handlers under way -/

/-- An upload that has inserted its row: the row, the rows it has evicted, the change of the byte
count, and whether the last eviction found nothing. -/
structure PendingUpload where
  row : RestorePointRow
  evicted : List RestorePointRow
  delta : ℤ
  retried : Bool

/-- A handler, named after the statement it executes next. -/
inductive PointCall where
  /-- `upload`, in a transaction that began at `now`. -/
  | uploadLock (userId : Uuid) (now : DateTime) (req : UploadPointRequest)
  | uploadLookup (userId : Uuid) (now : DateTime) (req : UploadPointRequest)
  | uploadSettings (userId : Uuid) (now : DateTime) (req : UploadPointRequest)
  | uploadRecent (userId : Uuid) (now : DateTime) (req : UploadPointRequest)
  | uploadInsert (userId : Uuid) (now : DateTime) (req : UploadPointRequest)
  | uploadUsage (pending : PendingUpload)
  | uploadEvict (pending : PendingUpload)
  | uploadAdjust (pending : PendingUpload)
  | uploadCommit (pending : PendingUpload) (bytes : ℤ)
  /-- `set_pinned`. -/
  | pinLock (userId id : Uuid) (pinned : Bool)
  | pinLookup (userId id : Uuid) (pinned : Bool)
  | pinCount (userId id : Uuid)
  | pinUpdate (userId id : Uuid) (pinned : Bool)
  | pinCommit (row : RestorePointRow) (pinned : Bool)
  /-- `delete_point`. -/
  | deleteLock (userId id : Uuid)
  | deleteRow (userId id : Uuid)
  | deleteAdjust (row : RestorePointRow)
  | deleteCommit (row : RestorePointRow) (bytes : ℤ)
  /-- One chunk of `prune_restore_points`. -/
  | pruneRows (cutoff : DateTime)
  | pruneAdjust (deleted : List RestorePointRow)
  | pruneCommit (deleted : List RestorePointRow) (bytes : List (Uuid × ℤ))

/-- The server, with the answers its handlers gave. -/
structure PointServer where
  points : List RestorePointRow
  /-- `sync_stats.restore_point_bytes`, where the user has a row. -/
  restorePointBytes : Uuid → Option ℤ
  settings : Uuid → Option PointSettings
  clock : DateTime
  userLocks : Locks Uuid
  rowLocks : Locks PointKey
  statsLocks : Locks Uuid
  calls : ℕ → Option PointCall
  answers : List (ℕ × Except PointError Unit)

/-- The events: a handler is called, executes its next statement, or is cut off; settings change;
and time passes. The rows a prune picks are in the event, since the order of rows created at the
same time is not determined; a prune goes by the time it began its first chunk. -/
inductive PointEvent where
  | tick (time : DateTime)
  | settings (userId : Uuid) (settings : Option PointSettings)
  | upload (slot : ℕ) (userId : Uuid) (req : UploadPointRequest)
  | setPinned (slot : ℕ) (userId id : Uuid) (pinned : Bool)
  | deletePoint (slot : ℕ) (userId id : Uuid)
  | prune (slot : ℕ) (since : DateTime)
  | advance (slot : ℕ) (chunk : List RestorePointRow)
  | drop (slot : ℕ)

/-! ### Points of a user -/

/-- The points of a user. -/
def pointsOf (points : List RestorePointRow) (userId : Uuid) : List RestorePointRow :=
  points.filter fun row => row.userId = userId

/-- `SUM(size_bytes)`. -/
def sumBytes (points : List RestorePointRow) : ℕ := (points.map RestorePointRow.sizeBytes).sum

/-- How many points are pinned. -/
def pinnedCount (points : List RestorePointRow) : ℕ := points.countP RestorePointRow.pinned

/-- The points without some deleted ones. -/
def without (points deleted : List RestorePointRow) : List RestorePointRow :=
  points.filter fun row => row.key ∉ deleted.map RestorePointRow.key

/-- The points after the pin of one has changed. -/
def repinned (points : List RestorePointRow) (key : PointKey) (pinned : Bool) :
    List RestorePointRow :=
  points.map fun row => if row.key = key then { row with pinned := pinned } else row

/-- The point with a key. -/
def findPoint (points : List RestorePointRow) (key : PointKey) : Option RestorePointRow :=
  points.find? fun row => row.key = key

/-- `(newer.created_at, newer.id) > (old.created_at, old.id)`. -/
def NewerThan (newer old : RestorePointRow) : Prop :=
  old.createdAt < newer.createdAt ∨ old.createdAt = newer.createdAt ∧ old.id < newer.id

instance (newer old : RestorePointRow) : Decidable (NewerThan newer old) :=
  inferInstanceAs (Decidable (_ ∨ _))

/-- `ORDER BY (kind = 'manual') ASC, created_at ASC, id ASC`. -/
def EvictedBefore (a b : RestorePointRow) : Prop :=
  a.kind ≠ "manual" ∧ b.kind = "manual" ∨
    (a.kind = "manual" ↔ b.kind = "manual") ∧
      (a.createdAt < b.createdAt ∨ a.createdAt = b.createdAt ∧ a.id ≤ b.id)

instance (a b : RestorePointRow) : Decidable (EvictedBefore a b) :=
  inferInstanceAs (Decidable (_ ∨ _))

/-- The next victim: of the points that are not pinned and not the new one, the first. -/
def victim? (view : List RestorePointRow) (newId : Uuid) : Option RestorePointRow :=
  let candidates := view.filter fun row => row.pinned = false ∧ row.id ≠ newId
  candidates.find? fun row => candidates.all fun other => EvictedBefore row other

/-- What a prune selects: points that are old and not pinned, while their user has a newer one. -/
def Prunable (points : List RestorePointRow) (cutoff : DateTime) (old : RestorePointRow) : Prop :=
  old.pinned = false ∧ old.createdAt < cutoff ∧
    ∃ newer ∈ points, newer.userId = old.userId ∧ NewerThan newer old

instance (points : List RestorePointRow) (cutoff : DateTime) (old : RestorePointRow) :
    Decidable (Prunable points cutoff old) := inferInstanceAs (Decidable (_ ∧ _ ∧ _))

/-- The oldest of the points a prune selects, as many as a chunk may have. -/
def IsChunk (points : List RestorePointRow) (cutoff : DateTime) (chunk : List RestorePointRow) : Prop :=
  chunk.Nodup ∧ (∀ row ∈ chunk, row ∈ points ∧ Prunable points cutoff row) ∧
    chunk.length = min deleteChunkSize (points.countP fun row => Prunable points cutoff row) ∧
    ∀ row ∈ chunk, ∀ other ∈ points, Prunable points cutoff other → other ∉ chunk →
      row.createdAt ≤ other.createdAt

instance (points : List RestorePointRow) (cutoff : DateTime) (chunk : List RestorePointRow) :
    Decidable (IsChunk points cutoff chunk) := inferInstanceAs (Decidable (_ ∧ _ ∧ _ ∧ _))

/-- The slot whose handler an event is about. -/
def PointEvent.slot? : PointEvent → Option ℕ
  | .tick _ | .settings _ _ => none
  | .upload slot _ _ | .setPinned slot _ _ _ | .deletePoint slot _ _ | .prune slot _
  | .advance slot _ | .drop slot => some slot

namespace PointServer

variable (limits : RestorePointLimits) (requireEncryption : Bool) (s : PointServer)

/-- A server with no points. -/
def start (settings : Uuid → Option PointSettings) (clock : DateTime) : PointServer where
  points := []
  restorePointBytes := fun _ => none
  settings := settings
  clock := clock
  userLocks := Locks.empty
  rowLocks := Locks.empty
  statsLocks := Locks.empty
  calls := fun _ => none
  answers := []

/-! ### Slots -/

/-- A handler goes on to its next statement. -/
def goto (slot : ℕ) (call : PointCall) : PointServer :=
  { s with calls := Function.update s.calls slot (some call) }

/-- A slot is freed: its transaction is over, and its locks are given up. -/
def release (slot : ℕ) : PointServer :=
  { s with
    userLocks := s.userLocks.release slot
    rowLocks := s.rowLocks.release slot
    statsLocks := s.statsLocks.release slot
    calls := Function.update s.calls slot none }

/-- A handler answers. -/
def finish (slot : ℕ) (answer : Except PointError Unit) : PointServer :=
  { s.release slot with answers := s.answers ++ [(slot, answer)] }

/-- A handler is called, unless its slot is in use. -/
def enter (slot : ℕ) (first : Except PointError PointCall) : PointServer :=
  if (s.calls slot).isSome then s
  else match first with
  | .error e => { s with answers := s.answers ++ [(slot, .error e)] }
  | .ok call => s.goto slot call

/-- `lock_user_stats`. -/
def lockUserStats (slot : ℕ) (userId : Uuid) (call : PointCall) : PointServer :=
  if s.userLocks.free slot userId then
    goto { s with userLocks := s.userLocks.acquire slot userId } slot call
  else s

/-- `GREATEST(restore_point_bytes + delta, 0)`, in a row that is created if there is none. -/
def adjusted (userId : Uuid) (delta : ℤ) : ℤ :=
  max ((s.restorePointBytes userId).getD 0 + delta) 0

/-- `adjust_restore_point_bytes`. -/
def adjustRestorePointBytes (slot : ℕ) (userId : Uuid) (delta : ℤ) (call : ℤ → PointCall) :
    PointServer :=
  if s.statsLocks.free slot userId then
    goto { s with statsLocks := s.statsLocks.acquire slot userId } slot
      (call (s.adjusted userId delta))
  else s

/-! ### `upload` -/

/-- The same id again is the same point. -/
def uploadLookup (slot : ℕ) (userId : Uuid) (now : DateTime) (req : UploadPointRequest) :
    PointServer :=
  match findPoint s.points (userId, req.id) with
  | some _ => s.finish slot (.ok ())
  | none => s.goto slot (.uploadSettings userId now req)

/-- The settings are read and checked. -/
def uploadSettings (slot : ℕ) (userId : Uuid) (now : DateTime) (req : UploadPointRequest) :
    PointServer :=
  match s.settings userId with
  | none => s.finish slot (.error .notFound)
  | some settings =>
    if req.encryptionVersion = 0 ∧ (requireEncryption || settings.requireEncryption) then
      s.finish slot (.error (.validation "encryption required"))
    else if req.kind ≠ "manual" ∧ settings.restorePointsAutomatic = false then
      s.finish slot (.error (.conflict "restore_points_disabled"))
    else if req.kind = "scheduled" then s.goto slot (.uploadRecent userId now req)
    else s.goto slot (.uploadInsert userId now req)

/-- A scheduled point is refused if there is a recent one. -/
def uploadRecent (slot : ℕ) (userId : Uuid) (now : DateTime) (req : UploadPointRequest) :
    PointServer :=
  if (pointsOf s.points userId).any fun row => row.kind == "scheduled" &&
      now - DateTime.seconds limits.scheduledMinIntervalSecs < row.createdAt then
    s.finish slot (.error (.conflict "restore_point_recent"))
  else s.goto slot (.uploadInsert userId now req)

/-- The `INSERT`. A size the checks let through is the same as a 32-bit integer. -/
def uploadInsert (slot : ℕ) (userId : Uuid) (now : DateTime) (req : UploadPointRequest) :
    PointServer :=
  match findPoint s.points (userId, req.id) with
  | some _ => s.finish slot (.error .internal)
  | none => s.goto slot (.uploadUsage {
      row := ⟨userId, req.id, req.kind, req.size, false, now⟩
      evicted := []
      delta := req.size
      retried := false })

/-- The points of the user as an upload sees them. -/
def uploadView (pending : PendingUpload) : List RestorePointRow :=
  pointsOf (without s.points pending.evicted) pending.row.userId ++ [pending.row]

/-- The usage is within the limits. -/
def Fits (view : List RestorePointRow) : Prop :=
  (view.length : ℤ) ≤ limits.maxPerAccount ∧ (sumBytes view : ℤ) ≤ limits.maxAccountBytes

instance (view : List RestorePointRow) : Decidable (Fits limits view) :=
  inferInstanceAs (Decidable (_ ∧ _))

/-- The loop: the usage is counted. -/
def uploadUsage (slot : ℕ) (pending : PendingUpload) : PointServer :=
  if Fits limits (s.uploadView pending) then s.goto slot (.uploadAdjust pending)
  else s.goto slot (.uploadEvict pending)

/-- The loop: a victim is deleted. One that another transaction is deleting may vanish, and so may
have been none. -/
def uploadEvict (slot : ℕ) (pending : PendingUpload) : PointServer :=
  match (victim? (s.uploadView pending) pending.row.id).filter fun row =>
      s.rowLocks.free slot row.key with
  | some row =>
    goto { s with rowLocks := s.rowLocks.acquire slot row.key } slot (.uploadUsage {
      pending with
      evicted := pending.evicted ++ [row]
      delta := pending.delta - row.sizeBytes
      retried := false })
  | none =>
    if pending.retried then s.finish slot (.error (.conflict "restore_point_limit"))
    else s.goto slot (.uploadUsage { pending with retried := true })

/-- The commit of an upload. -/
def uploadCommit (slot : ℕ) (pending : PendingUpload) (bytes : ℤ) : PointServer :=
  finish { s with
    points := without s.points pending.evicted ++ [pending.row]
    restorePointBytes := Function.update s.restorePointBytes pending.row.userId (some bytes) }
    slot (.ok ())

/-! ### `set_pinned` -/

/-- The point is read. -/
def pinLookup (slot : ℕ) (userId id : Uuid) (pinned : Bool) : PointServer :=
  match findPoint s.points (userId, id) with
  | none => s.finish slot (.error .notFound)
  | some current =>
    if pinned = current.pinned then s.finish slot (.ok ())
    else if pinned then s.goto slot (.pinCount userId id)
    else s.goto slot (.pinUpdate userId id false)

/-- The pinned points are counted. -/
def pinCount (slot : ℕ) (userId id : Uuid) : PointServer :=
  if limits.maxPinned ≤ (pinnedCount (pointsOf s.points userId) : ℤ) then
    s.finish slot (.error (.conflict "restore_point_pin_limit"))
  else s.goto slot (.pinUpdate userId id true)

/-- The `UPDATE`. A point that is gone by then is not found after it. -/
def pinUpdate (slot : ℕ) (userId id : Uuid) (pinned : Bool) : PointServer :=
  match findPoint s.points (userId, id) with
  | none => s.finish slot (.error .notFound)
  | some row =>
    if s.rowLocks.free slot row.key then
      goto { s with rowLocks := s.rowLocks.acquire slot row.key } slot (.pinCommit row pinned)
    else s

/-- The commit of a pin change. -/
def pinCommit (slot : ℕ) (row : RestorePointRow) (pinned : Bool) : PointServer :=
  finish { s with points := repinned s.points row.key pinned } slot (.ok ())

/-! ### `delete_point` -/

/-- The `DELETE`. -/
def deleteRow (slot : ℕ) (userId id : Uuid) : PointServer :=
  match findPoint s.points (userId, id) with
  | none => s.finish slot (.error .notFound)
  | some row =>
    if s.rowLocks.free slot row.key then
      goto { s with rowLocks := s.rowLocks.acquire slot row.key } slot (.deleteAdjust row)
    else s

/-- The commit of a deletion. -/
def deleteCommit (slot : ℕ) (row : RestorePointRow) (bytes : ℤ) : PointServer :=
  finish { s with
    points := without s.points [row]
    restorePointBytes := Function.update s.restorePointBytes row.userId (some bytes) } slot (.ok ())

/-! ### `prune_restore_points` -/

/-- The `DELETE` of a chunk. -/
def pruneRows (slot : ℕ) (cutoff : DateTime) (chunk : List RestorePointRow) : PointServer :=
  if IsChunk s.points cutoff chunk ∧ chunk.all fun row => s.rowLocks.free slot row.key then
    if chunk.isEmpty then s.finish slot (.ok ())
    else goto { s with rowLocks := s.rowLocks.acquireAll slot (chunk.map RestorePointRow.key) } slot
      (.pruneAdjust chunk)
  else s

/-- The users of some rows. -/
def usersOf (rows : List RestorePointRow) : List Uuid := (rows.map RestorePointRow.userId).dedup

/-- The `UPDATE` of the byte counts: of users that have a row in `sync_stats`. -/
def pruneAdjust (slot : ℕ) (deleted : List RestorePointRow) : PointServer :=
  if (usersOf deleted).all fun userId => s.statsLocks.free slot userId then
    goto { s with statsLocks := s.statsLocks.acquireAll slot (usersOf deleted) } slot
      (.pruneCommit deleted (((usersOf deleted).filter fun userId =>
        (s.restorePointBytes userId).isSome).map fun userId =>
          (userId, s.adjusted userId (-sumBytes (pointsOf deleted userId)))))
  else s

/-- The commit of a chunk. -/
def pruneCommit (slot : ℕ) (deleted : List RestorePointRow) (bytes : List (Uuid × ℤ)) : PointServer :=
  finish { s with
    points := without s.points deleted
    restorePointBytes := fun userId => (bytes.lookup userId).orElse fun _ =>
      s.restorePointBytes userId } slot (.ok ())

/-! ### Events -/

/-- A handler executes its next statement. -/
def advance (slot : ℕ) (chunk : List RestorePointRow) : PointServer :=
  match s.calls slot with
  | none => s
  | some call => match call with
    | .uploadLock userId now req => s.lockUserStats slot userId (.uploadLookup userId now req)
    | .uploadLookup userId now req => s.uploadLookup slot userId now req
    | .uploadSettings userId now req => s.uploadSettings requireEncryption slot userId now req
    | .uploadRecent userId now req => s.uploadRecent limits slot userId now req
    | .uploadInsert userId now req => s.uploadInsert slot userId now req
    | .uploadUsage pending => s.uploadUsage limits slot pending
    | .uploadEvict pending => s.uploadEvict slot pending
    | .uploadAdjust pending => s.adjustRestorePointBytes slot pending.row.userId pending.delta
        (.uploadCommit pending)
    | .uploadCommit pending bytes => s.uploadCommit slot pending bytes
    | .pinLock userId id pinned => s.lockUserStats slot userId (.pinLookup userId id pinned)
    | .pinLookup userId id pinned => s.pinLookup slot userId id pinned
    | .pinCount userId id => s.pinCount limits slot userId id
    | .pinUpdate userId id pinned => s.pinUpdate slot userId id pinned
    | .pinCommit row pinned => s.pinCommit slot row pinned
    | .deleteLock userId id => s.lockUserStats slot userId (.deleteRow userId id)
    | .deleteRow userId id => s.deleteRow slot userId id
    | .deleteAdjust row => s.adjustRestorePointBytes slot row.userId (-row.sizeBytes)
        (.deleteCommit row)
    | .deleteCommit row bytes => s.deleteCommit slot row bytes
    | .pruneRows cutoff => s.pruneRows slot cutoff chunk
    | .pruneAdjust deleted => s.pruneAdjust slot deleted
    | .pruneCommit deleted bytes => s.pruneCommit slot deleted bytes

/-- One event. -/
def step (s : PointServer) : PointEvent → PointServer
  | .tick time => { s with clock := max s.clock time }
  | .settings userId settings => { s with settings := Function.update s.settings userId settings }
  | .upload slot userId req => s.enter slot
      ((validateUpload limits req).map fun _ => .uploadLock userId s.clock req)
  | .setPinned slot userId id pinned => s.enter slot (.ok (.pinLock userId id pinned))
  | .deletePoint slot userId id => s.enter slot (.ok (.deleteLock userId id))
  | .prune slot since => s.enter slot
      (.ok (.pruneRows (min since s.clock - DateTime.seconds limits.retentionSecs)))
  | .advance slot chunk => s.advance limits requireEncryption slot chunk
  | .drop slot => s.release slot

/-- The state after a list of events. -/
abbrev run (s : PointServer) (events : List PointEvent) : PointServer :=
  Runs.run (step limits requireEncryption) s events

end PointServer

end HelixSync
