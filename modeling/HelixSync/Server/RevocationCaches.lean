import HelixSync.Lib.Locks
import HelixSync.Lib.Runs
import HelixSync.Lib.StampedCache
import HelixSync.Server.Model

/-!
# Authentication behind caches

The checks of `server/src/auth/extractors.rs` and everything that revokes what they accept: logging
out and revoking a session, changing and recovering a password, revoking a device, and deleting an
account (`auth/session.rs`, `auth/routes.rs`, `auth/requests.rs`, `devices/routes.rs`).

Two caches keep the answers of the database, one for sessions by the hash of their token and one for
devices. A check is a `CacheCheck`: it looks its key up, takes an `Instant`, reads the database, and
writes what it read. A revocation commits, takes an `Instant`, and then writes an entry for
each session and device it revoked. Between any two of these steps others run, and each step happens
at a later `Instant` than the one before, in nanoseconds.

A session token and a device id are drawn at random, and never twice. Statements that revoke pick
rows when they run and change them when their transaction commits. The lists of an account that is
deleted are read while its user is locked, so no session or device is added to it until then.

Left out are what these handlers do besides (`HelixSync.Server.PasswordChanges`,
`HelixSync.Server.DeviceCredentials`), how they are authenticated themselves, and the websockets,
except for their check of a device, which is the same as the other one.
-/

namespace HelixSync

/-! ### Rows and calls -/

/-- A row of `web_sessions`. -/
structure SessionRow where
  id : Uuid
  sessionHash : String
  userId : Uuid
  expiresAt : DateTime
  revokedAt : Option DateTime

/-- A revocation under way, named after what it does next: a statement, the commit of its
transaction, taking an `Instant`, or writing the next entry. -/
inductive RevocationCall where
  /-- `revoke_session` and `revoke_session_route`. -/
  | logoutUpdate (sessionHash : String)
  | sessionUpdate (id userId : Uuid)
  /-- `change_password`, but for the current session. -/
  | passwordUpdate (userId : Uuid) (current : Option String)
  /-- `recover_complete` and `complete_reset`. -/
  | resetUpdate (userId : Uuid)
  | commitSessions (hashes : List String)
  /-- `revoke_device` and `revoke_self`. -/
  | deviceUpdate (deviceId userId : Uuid)
  | commitDevice (deviceId : Uuid)
  /-- `revoke_device_for_token_reuse`. -/
  | reuseUpdate (deviceId : Uuid)
  /-- `delete_account`. -/
  | deleteLock (userId : Uuid)
  | deleteLists (userId : Uuid)
  | deleteCommit (userId : Uuid) (hashes : List String) (deviceIds : List Uuid)
  /-- All of them, once what they revoke is committed. -/
  | stamp (hashes : List String) (deviceIds : List Uuid)
  | write (asOf : ℕ) (hashes : List String) (deviceIds : List Uuid)

/-- The server, with its two caches. -/
structure AccessServer where
  /-- The emails of the users. -/
  emails : Uuid → Option String
  sessions : List SessionRow
  devices : List DeviceRow
  /-- The tokens and ids that were drawn, by their hashes. -/
  drawnHashes : List String
  drawnDevices : List Uuid
  clock : DateTime
  /-- The present `Instant`. -/
  now : ℕ
  userLocks : Locks Uuid
  calls : ℕ → Option RevocationCall
  sessionCache : CheckedCache String (Option (Uuid × String))
  deviceCache : CheckedCache Uuid Bool
  /-- The user in the token of a check of a device. -/
  claimedUser : ℕ → Uuid

/-- The events: time passes; users, sessions and devices are added; a check begins, goes on, or is
cut off; the cache of sessions is swept; and a revocation begins, goes on, or is cut off. -/
inductive AccessEvent where
  | tick (time : DateTime)
  | createUser (userId : Uuid) (email : String)
  | createSession (row : SessionRow)
  | createDevice (row : DeviceRow)
  | userCheck (slot : ℕ) (sessionHash : String)
  | userAdvance (slot : ℕ)
  | userDrop (slot : ℕ)
  | deviceCheck (slot : ℕ) (deviceId userId : Uuid)
  | deviceAdvance (slot : ℕ)
  | deviceDrop (slot : ℕ)
  | sweep
  | revoke (slot : ℕ) (first : RevocationCall)
  | advance (slot : ℕ)
  | drop (slot : ℕ)

/-- `WEB_SESSION_CACHE_TTL`. -/
def webSessionCacheTtl : ℕ := 30 * 10 ^ 9

/-- `DEVICE_REVOCATION_CACHE_TTL`. -/
def deviceRevocationCacheTtl : ℕ := 30 * 10 ^ 9

namespace AccessServer

variable (s : AccessServer)

/-- A server with no users. -/
def start (clock : DateTime) : AccessServer where
  emails := fun _ => none
  sessions := []
  devices := []
  drawnHashes := []
  drawnDevices := []
  clock := clock
  now := 0
  userLocks := Locks.empty
  calls := fun _ => none
  sessionCache := CheckedCache.empty
  deviceCache := CheckedCache.empty
  claimedUser := fun _ => 0

/-! ### The checks -/

/-- What `AuthenticatedUser` reads: a session that is neither revoked nor expired, and its user. -/
def readSession (sessionHash : String) : Option (Uuid × String) :=
  s.sessions.findSome? fun row =>
    if row.sessionHash = sessionHash ∧ row.revokedAt = none ∧ s.clock < row.expiresAt then
      (s.emails row.userId).map fun email => (row.userId, email)
    else none

/-- What `AuthenticatedDevice` reads: whether the device of the user is not revoked. -/
def readDevice (deviceId userId : Uuid) : Bool :=
  ((s.devices.find? fun row => row.id = deviceId ∧ row.userId = userId).map fun row =>
    decide (row.revokedAt = none)).getD false

/-- A session whose user is known is let in; a tombstone is not. -/
def Admits (cached : Option (Uuid × String)) : Prop := cached.isSome = true

instance : DecidablePred Admits := fun cached => inferInstanceAs (Decidable (cached.isSome = true))

/-- A device is let in if it is active. -/
def IsActive (active : Bool) : Prop := active = true

instance : DecidablePred IsActive := fun active => inferInstanceAs (Decidable (active = true))

/-- `AuthenticatedUser::from_request_parts`: the cache is looked at. -/
def userCheck (slot : ℕ) (sessionHash : String) : AccessServer :=
  if (s.sessionCache.checks slot).isSome then s
  else { s with
    sessionCache := s.sessionCache.lookup Admits webSessionCacheTtl s.now slot sessionHash }

/-- `AuthenticatedUser::from_request_parts`: its next step. -/
def userAdvance (slot : ℕ) : AccessServer :=
  { s with
    sessionCache := s.sessionCache.advance Admits s.now slot
      ((s.sessionCache.checks slot).bind fun check => s.readSession check.key) }

/-- `AuthenticatedDevice::from_request_parts`: the cache is looked at. -/
def deviceCheck (slot : ℕ) (deviceId userId : Uuid) : AccessServer :=
  if (s.deviceCache.checks slot).isSome then s
  else { s with
    deviceCache := s.deviceCache.lookup IsActive deviceRevocationCacheTtl s.now slot deviceId
    claimedUser := Function.update s.claimedUser slot userId }

/-- `AuthenticatedDevice::from_request_parts`: its next step. -/
def deviceAdvance (slot : ℕ) : AccessServer :=
  { s with
    deviceCache := s.deviceCache.advance IsActive s.now slot
      ((s.deviceCache.checks slot).any fun check => s.readDevice check.key (s.claimedUser slot)) }

/-- `sweep_web_session_cache`. -/
def sweepWebSessionCache : AccessServer :=
  { s with sessionCache := s.sessionCache.sweep webSessionCacheTtl s.now }

/-! ### Rows that come and go -/

/-- A session is created, unless its token was drawn before or its user is locked or gone. -/
def createSession (row : SessionRow) : AccessServer :=
  if row.sessionHash ∈ s.drawnHashes ∨ s.userLocks row.userId ≠ none ∨ s.emails row.userId = none then s
  else { s with
    sessions := s.sessions ++ [{ row with revokedAt := none }]
    drawnHashes := s.drawnHashes ++ [row.sessionHash] }

/-- A device is registered, unless its id was drawn before or its user is locked or gone. -/
def createDevice (row : DeviceRow) : AccessServer :=
  if row.id ∈ s.drawnDevices ∨ s.userLocks row.userId ≠ none ∨ s.emails row.userId = none then s
  else { s with
    devices := s.devices ++ [{ row with revokedAt := none }]
    drawnDevices := s.drawnDevices ++ [row.id] }

/-- Sessions are revoked. -/
def revokeSessions (hashes : List String) : AccessServer :=
  { s with sessions := s.sessions.map fun row =>
    if row.sessionHash ∈ hashes then { row with revokedAt := some s.clock } else row }

/-- A device is revoked. -/
def revokeDevice (deviceId : Uuid) : AccessServer :=
  { s with devices := s.devices.map fun row =>
    if row.id = deviceId ∧ row.revokedAt = none then { row with revokedAt := some s.clock } else row }

/-- A user is deleted, and all that belongs to it. -/
def deleteUser (userId : Uuid) : AccessServer :=
  { s with
    emails := Function.update s.emails userId none
    sessions := s.sessions.filter fun row => row.userId ≠ userId
    devices := s.devices.filter fun row => row.userId ≠ userId }

/-! ### The revocations -/

/-- A revocation goes on. -/
def goto (slot : ℕ) (call : RevocationCall) : AccessServer :=
  { s with calls := Function.update s.calls slot (some call) }

/-- A revocation is over, or cut off. -/
def finish (slot : ℕ) : AccessServer :=
  { s with userLocks := s.userLocks.release slot, calls := Function.update s.calls slot none }

/-- What an `UPDATE` of the sessions of a user sees. -/
def unrevokedHashes (userId : Uuid) : List String :=
  (s.sessions.filter fun row => row.userId = userId ∧ row.revokedAt = none).map SessionRow.sessionHash

/-- Whether a revocation may begin: sessions and devices it names were read before. -/
def mayBegin : RevocationCall → Bool
  | .logoutUpdate sessionHash => decide (sessionHash ∈ s.drawnHashes)
  | .reuseUpdate deviceId => decide (deviceId ∈ s.drawnDevices)
  | .sessionUpdate _ _ | .passwordUpdate _ _ | .resetUpdate _ | .deviceUpdate _ _ | .deleteLock _ => true
  | .commitSessions _ | .commitDevice _ | .deleteLists _ | .deleteCommit _ _ _ | .stamp _ _
  | .write _ _ _ => false

/-- `revoke_session_route`: the `UPDATE`, a transaction of its own. -/
def sessionUpdate (slot : ℕ) (id userId : Uuid) : AccessServer :=
  match s.sessions.find? fun row => row.id = id ∧ row.userId = userId ∧ row.revokedAt = none with
  | none => s.finish slot
  | some row => (s.revokeSessions [row.sessionHash]).goto slot (.stamp [row.sessionHash] [])

/-- `revoke_device` and `revoke_self`: the `UPDATE`. -/
def deviceUpdate (slot : ℕ) (deviceId userId : Uuid) : AccessServer :=
  match s.devices.find? fun row =>
      row.id = deviceId ∧ row.userId = userId ∧ row.revokedAt = none with
  | none => s.finish slot
  | some row => s.goto slot (.commitDevice row.id)

/-- `delete_user`: the user is locked. -/
def deleteLock (slot : ℕ) (userId : Uuid) : AccessServer :=
  if s.emails userId = none then s.finish slot
  else if s.userLocks.free slot userId then
    goto { s with userLocks := s.userLocks.acquire slot userId } slot (.deleteLists userId)
  else s

/-- `delete_user`: the sessions and the devices are listed. -/
def deleteLists (slot : ℕ) (userId : Uuid) : AccessServer :=
  s.goto slot (.deleteCommit userId
    ((s.sessions.filter fun row => row.userId = userId).map SessionRow.sessionHash)
    ((s.devices.filter fun row => row.userId = userId).map DeviceRow.id))

/-- `delete_user`: the commit. -/
def deleteCommit (slot : ℕ) (userId : Uuid) (hashes : List String) (deviceIds : List Uuid) :
    AccessServer :=
  goto { s.deleteUser userId with userLocks := s.userLocks.release slot } slot (.stamp hashes deviceIds)

/-- What is revoked is committed, and an `Instant` is taken. -/
def stamp (slot : ℕ) (hashes : List String) (deviceIds : List Uuid) : AccessServer :=
  goto { s with
    sessionCache := s.sessionCache.stamp s.now hashes
    deviceCache := s.deviceCache.stamp s.now deviceIds } slot (.write s.now hashes deviceIds)

/-- The next entry is written: a tombstone, or a device that is not active. -/
def write (slot asOf : ℕ) (hashes : List String) (deviceIds : List Uuid) : AccessServer :=
  match hashes, deviceIds with
  | sessionHash :: hashes, deviceIds =>
    goto { s with sessionCache := s.sessionCache.refute s.now sessionHash asOf none } slot
      (.write asOf hashes deviceIds)
  | [], deviceId :: deviceIds =>
    goto { s with deviceCache := s.deviceCache.refute s.now deviceId asOf false } slot
      (.write asOf [] deviceIds)
  | [], [] => s.finish slot

/-- A revocation does what it does next. -/
def advance (slot : ℕ) : AccessServer :=
  match s.calls slot with
  | none => s
  | some call => match call with
    | .logoutUpdate sessionHash => (s.revokeSessions [sessionHash]).goto slot (.stamp [sessionHash] [])
    | .sessionUpdate id userId => s.sessionUpdate slot id userId
    | .passwordUpdate userId current => s.goto slot (.commitSessions
        ((s.unrevokedHashes userId).filter fun sessionHash => some sessionHash ≠ current))
    | .resetUpdate userId => s.goto slot (.commitSessions (s.unrevokedHashes userId))
    | .commitSessions hashes => (s.revokeSessions hashes).goto slot (.stamp hashes [])
    | .deviceUpdate deviceId userId => s.deviceUpdate slot deviceId userId
    | .commitDevice deviceId => (s.revokeDevice deviceId).goto slot (.stamp [] [deviceId])
    | .reuseUpdate deviceId => (s.revokeDevice deviceId).goto slot (.stamp [] [deviceId])
    | .deleteLock userId => s.deleteLock slot userId
    | .deleteLists userId => s.deleteLists slot userId
    | .deleteCommit userId hashes deviceIds => s.deleteCommit slot userId hashes deviceIds
    | .stamp hashes deviceIds => s.stamp slot hashes deviceIds
    | .write asOf hashes deviceIds => s.write slot asOf hashes deviceIds

/-! ### Events -/

/-- What an event does. -/
def handle : AccessEvent → AccessServer
  | .tick time => { s with clock := max s.clock time }
  | .createUser userId email =>
      if (s.emails userId).isSome then s
      else { s with emails := Function.update s.emails userId (some email) }
  | .createSession row => s.createSession row
  | .createDevice row => s.createDevice row
  | .userCheck slot sessionHash => s.userCheck slot sessionHash
  | .userAdvance slot => s.userAdvance slot
  | .userDrop slot => { s with sessionCache := s.sessionCache.drop slot }
  | .deviceCheck slot deviceId userId => s.deviceCheck slot deviceId userId
  | .deviceAdvance slot => s.deviceAdvance slot
  | .deviceDrop slot => { s with deviceCache := s.deviceCache.drop slot }
  | .sweep => s.sweepWebSessionCache
  | .revoke slot first =>
      if (s.calls slot).isNone ∧ s.mayBegin first then s.goto slot first else s
  | .advance slot => s.advance slot
  | .drop slot => s.finish slot

/-- A later `Instant`. -/
def later (elapsed : ℕ) : AccessServer := { s with now := s.now + elapsed + 1 }

/-- One event, some time after the one before. -/
def step (s : AccessServer) (event : ℕ × AccessEvent) : AccessServer :=
  (s.later event.1).handle event.2

/-- The state after a list of events. -/
abbrev run (s : AccessServer) (events : List (ℕ × AccessEvent)) : AccessServer :=
  Runs.run step s events

end AccessServer

end HelixSync
