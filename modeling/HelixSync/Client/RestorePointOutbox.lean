import HelixSync.Server.UploadAnswers

/-!
# The restore-point outbox

Points that the extension makes wait in `restore_point_outbox` (`extension/src/restore-points/outbox.ts`)
until the server has them. `drainOutbox` takes them oldest first; calls made while one is under way
share it, so there is one drain at most. It is suspended at each `await`, and there anything else may
happen: points are queued, the server executes the statements of this and of other uploads, evicts and
deletes points, and the worker may be stopped. A request may be lost on its way, and so may its answer;
success is reported only if the server gave that answer.

Modelled is the time from the registration of the device to its disconnection. Along with the state
goes its history: which points were queued and how each of them left (`HelixSync.Client.Verdict`).
-/

namespace HelixSync

namespace Client

/-- `RestorePointOutboxRecord`, with its time in milliseconds. -/
structure OutboxRecord extends UploadPointRequest where
  createdAt : ℕ
  attempts : ℕ

/-- What an upload may be rejected with: `ReauthRequiredError`, `ApiError`, or anything else. -/
inductive UploadFailure where
  | reauth
  | api (status : ℕ) (code : Option String)
  | other
  deriving DecidableEq

/-- `DISCARD_CODES`. -/
def discardCodes : List String :=
  ["restore_point_recent", "restore_points_disabled", "restore_point_limit", "validation_error",
    "encryption_required"]

/-- `MAX_ATTEMPTS`. -/
def maxAttempts : ℕ := 20

/-- `MAX_AGE_MS`. -/
def maxAgeMs : ℕ := 7 * 24 * 60 * 60 * 1000

/-- `err.code` of an `ApiError`. -/
def UploadFailure.code? : UploadFailure → Option String
  | .api _ code => code
  | _ => none

/-- `isPermanent`. -/
def isPermanent : UploadFailure → Bool
  | .api status code => code.any (discardCodes.contains ·) || status == 400 || status == 413
  | _ => false

/-- `DrainOutcome`, with the code. -/
inductive DrainOutcome where
  | uploaded
  | discarded (code : Option String)
  | retryLater (code : Option String)
  deriving DecidableEq

/-- The `await` at which a drain is suspended. -/
inductive DrainAwait where
  | reading
  /-- `uploadRestorePoint`. The slot is the one of the server in which the request has arrived. -/
  | uploading (record : OutboxRecord) (slot : Option ℕ) (rest : List OutboxRecord)
  /-- `deleteRestorePointOutbox`, for an outcome that was clear at a time. -/
  | deleting (record : OutboxRecord) (outcome : DrainOutcome) (time : ℕ) (rest : List OutboxRecord)
  /-- The same before a `break`. -/
  | deletingLast (record : OutboxRecord) (outcome : DrainOutcome) (time : ℕ)
  /-- `putRestorePointOutbox`, before a `break`. -/
  | putting (record : OutboxRecord) (outcome : DrainOutcome)

/-- A drain under way: how many points it has found, and its result so far. -/
structure Drain where
  await : DrainAwait
  found : ℕ
  result : List (Uuid × DrainOutcome)

/-- How a point left the outbox: its record, the outcome, and when that was clear. -/
structure Verdict where
  record : OutboxRecord
  outcome : DrainOutcome
  time : ℕ

/-- A drain that is over: how many points it has found, and its result. -/
structure DrainEnd where
  found : ℕ
  result : List (Uuid × DrainOutcome)

/-- The outbox and the server. -/
structure OutboxSystem where
  outbox : List OutboxRecord
  clock : ℕ
  drain : Option Drain
  server : PointServer
  /-- The slots of the server that have been used. -/
  used : List ℕ
  /-- The keys of all points that the server has had. -/
  stored : List PointKey
  enqueued : List Uuid
  failures : List (Uuid × UploadFailure)
  verdicts : List Verdict
  ended : List DrainEnd

/-- The events. -/
inductive OutboxEvent where
  | clock (ms : ℕ)
  /-- `enqueueRestorePoint`, with a new id. -/
  | enqueue (point : UploadPointRequest)
  /-- `drainOutbox`. -/
  | drain
  /-- The request of a drain arrives. -/
  | send (slot : ℕ)
  /-- What a drain waits for has happened. An upload has succeeded, or failed in some way. -/
  | resume (failure : Option UploadFailure)
  /-- The worker is stopped, or the storage fails. -/
  | stop
  /-- Anything on the server. -/
  | server (event : PointEvent)

/-- `getRestorePointOutbox`: by time, and by key where times are the same. -/
def oldestFirst (outbox : List OutboxRecord) : List OutboxRecord :=
  outbox.mergeSort fun a b => decide (a.createdAt < b.createdAt ∨ a.createdAt = b.createdAt ∧ a.id ≤ b.id)

/-- `deleteRestorePointOutbox`. -/
def deleteOutbox (outbox : List OutboxRecord) (id : Uuid) : List OutboxRecord :=
  outbox.filter fun record => record.id ≠ id

/-- `putRestorePointOutbox`. -/
def putOutbox (outbox : List OutboxRecord) (record : OutboxRecord) : List OutboxRecord :=
  if outbox.any fun old => old.id = record.id then
    outbox.map fun old => if old.id = record.id then record else old
  else outbox ++ [record]

/-- The head of the loop: where the drain waits next, if records are left. -/
def DrainAwait.next? (now : ℕ) : List OutboxRecord → Option DrainAwait
  | [] => none
  | record :: rest =>
    if maxAgeMs < now - record.createdAt then
      some (.deleting record (.discarded (some "expired")) now rest)
    else some (.uploading record none rest)

/-- The `catch`: where the drain waits next, unless it stops to sign in again. -/
def DrainAwait.onFailure (now : ℕ) (record : OutboxRecord) (rest : List OutboxRecord) :
    UploadFailure → Option DrainAwait
  | .reauth => none
  | failure =>
    if isPermanent failure then some (.deleting record (.discarded failure.code?) now rest)
    else if maxAttempts ≤ record.attempts + 1 then
      some (.deletingLast record (.discarded (some "too_many_attempts")) now)
    else some (.putting { record with attempts := record.attempts + 1 } (.retryLater (match failure with
      | .api _ code => code
      | _ => some "network")))

namespace OutboxSystem

variable (limits : RestorePointLimits) (requireEncryption : Bool) (userId : Uuid)

/-- Nothing is queued yet. -/
def start (server : PointServer) : OutboxSystem where
  outbox := []
  clock := 0
  drain := none
  server := server
  used := []
  stored := server.points.map RestorePointRow.key
  enqueued := []
  failures := []
  verdicts := []
  ended := []

variable (s : OutboxSystem)

/-- A step of the server. -/
def onServer (event : PointEvent) : OutboxSystem :=
  let server := s.server.step limits requireEncryption event
  { s with
    server := server
    used := event.enters?.toList ++ s.used
    stored := server.points.map RestorePointRow.key ++ s.stored }

/-- A drain returns. -/
def endDrain (found : ℕ) (result : List (Uuid × DrainOutcome)) : OutboxSystem :=
  { s with drain := none, ended := ⟨found, result⟩ :: s.ended }

/-- The loop goes on with the records that are left. -/
def goOn (found : ℕ) (result : List (Uuid × DrainOutcome)) (rest : List OutboxRecord) : OutboxSystem :=
  match DrainAwait.next? s.clock rest with
  | none => s.endDrain found result
  | some await => { s with drain := some ⟨await, found, result⟩ }

/-- A record leaves the outbox. -/
def settle (record : OutboxRecord) (outcome : DrainOutcome) (time : ℕ) : OutboxSystem :=
  { s with
    outbox := deleteOutbox s.outbox record.id
    verdicts := ⟨record, outcome, time⟩ :: s.verdicts }

/-- What a drain waits for has happened, and it goes on to the next `await`. -/
def resume (d : Drain) (failure : Option UploadFailure) : OutboxSystem :=
  match d.await with
  | .reading => s.goOn s.outbox.length [] (oldestFirst s.outbox)
  | .uploading record slot rest => match failure with
    | none =>
      if slot.any fun slot => s.server.answers.contains (slot, .ok ()) then
        { s with drain := some { d with await := .deleting record .uploaded s.clock rest } }
      else s
    | some failure =>
      let s := { s with failures := (record.id, failure) :: s.failures }
      match DrainAwait.onFailure s.clock record rest failure with
      | none => s.endDrain d.found (d.result ++ [(record.id, .retryLater (some "reauth"))])
      | some await => { s with drain := some { d with await := await } }
  | .deleting record outcome time rest =>
    (s.settle record outcome time).goOn d.found (d.result ++ [(record.id, outcome)]) rest
  | .deletingLast record outcome time =>
    (s.settle record outcome time).endDrain d.found (d.result ++ [(record.id, outcome)])
  | .putting record outcome =>
    endDrain { s with outbox := putOutbox s.outbox record } d.found (d.result ++ [(record.id, outcome)])

/-- The request of a drain arrives in a slot. -/
def send (d : Drain) (slot : ℕ) : OutboxSystem :=
  match d.await with
  | .uploading record _ rest =>
    if slot ∈ s.used then s
    else { s.onServer limits requireEncryption (.upload slot userId record.toUploadPointRequest) with
      drain := some { d with await := .uploading record (some slot) rest } }
  | _ => s

/-- One event. A handler is called in a slot that has not been used. -/
def step (s : OutboxSystem) : OutboxEvent → OutboxSystem
  | .clock ms => { s with clock := ms }
  | .enqueue point =>
    if point.id ∈ s.enqueued then s
    else { s with
      outbox := s.outbox ++ [⟨point, s.clock, 0⟩]
      enqueued := point.id :: s.enqueued }
  | .drain => match s.drain with
    | none => { s with drain := some ⟨.reading, 0, []⟩ }
    | some _ => s
  | .send slot => match s.drain with
    | none => s
    | some d => s.send limits requireEncryption userId d slot
  | .resume failure => match s.drain with
    | none => s
    | some d => s.resume d failure
  | .stop => { s with drain := none }
  | .server event =>
    if event.enters?.any (s.used.contains ·) then s
    else s.onServer limits requireEncryption event

/-- The state after a list of events. -/
abbrev run (server : PointServer) (es : List OutboxEvent) : OutboxSystem :=
  Runs.run (step limits requireEncryption userId) (start server) es

end OutboxSystem

end Client

end HelixSync
