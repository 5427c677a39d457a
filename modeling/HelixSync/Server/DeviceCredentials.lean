import HelixSync.Lib.Locks
import HelixSync.Server.AuthRequests

/-!
# Devices and their refresh tokens

The handlers of `server/src/devices/routes.rs` that register, refresh and revoke devices, and the
collection of an approved device request of `server/src/auth/requests.rs`, which registers one too.

As in `HelixSync.Server.AuthRequests`, a handler occupies a slot and executes one statement at a
time. What its transaction has written is kept with it until it commits, and so are three kinds of
locks: the advisory lock of an account, which registrations take; a row of `devices`; and a row of
`device_credentials`. An `UPDATE` of several rows is two events: it picks the rows it sees, and when
none of them is locked any more it writes those that still are as it asks for. In between rows may
be added that it does not see.

A refresh token and the id of its row are drawn at random, and never twice. Both are named by a
number, in the order in which the rows are committed, and a token stands for its hash. Every event
has a number too, which is kept with what it reads or commits where that is asked about later: the
first read of a refresh, and the commit of a revocation.

Left out are rate limits, the audit log, the caches (`HelixSync.Server.RevocationCaches`), the
checks of a password or a session before a handler's first statement here, access tokens, and the
columns that are only shown.
-/

namespace HelixSync

/-! ### Rows -/

/-- A refresh token, named by the number of its row. -/
abbrev RefreshToken := ℕ

/-- A row of `device_credentials`. -/
structure DeviceCredentialRow where
  id : ℕ
  deviceId : Uuid
  credentialHash : RefreshToken
  expiresAt : DateTime
  revokedAt : Option DateTime
  deriving DecidableEq

/-- The configuration of the handlers, as it is read at startup. -/
structure DeviceLimits where
  maxDevicesPerAccount : ℤ
  refreshTokenTtlSecs : ℤ
  deviceCredentialRetentionSecs : ℤ
  maxDevicesPerAccount_pos : 0 < maxDevicesPerAccount

/-- `REFRESH_TOKEN_REUSE_GRACE_SECS`. -/
def refreshTokenReuseGraceSecs : ℤ := 30

/-- What a refresh has read: the token it was called with, the row and the device it belongs to, and
the number of the event that read them. -/
structure RefreshClaim where
  token : RefreshToken
  credId : ℕ
  deviceId : Uuid
  readAt : ℕ
  deriving DecidableEq

/-- A registration under way: its account, when its transaction began, and the approved request it
collects, if it collects one. -/
structure Registration where
  userId : Uuid
  now : DateTime
  approval : Option (Uuid × AuthRequestRow)

/-- The revocation of a device, with the number of the event that committed it. -/
structure Revocation where
  deviceId : Uuid
  committedAt : ℕ

/-- What a handler answers. -/
inductive DeviceAnswer where
  | refreshed (claim : RefreshClaim) (token : RefreshToken)
  | registered (deviceId : Uuid) (token : RefreshToken)
  | revoked
  | status (status : String)
  | error (error : AuthError)

/-- The refresh that succeeded with an answer. -/
def DeviceAnswer.refresh? : DeviceAnswer → Option RefreshClaim
  | .refreshed claim _ => some claim
  | .registered _ _ | .revoked | .status _ | .error _ => none

/-- A handler, named after the statement it executes next. -/
inductive DeviceCall where
  /-- `refresh_credentials`. -/
  | refreshRead (token : RefreshToken)
  | refreshBegin (claim : RefreshClaim)
  | rotate (claim : RefreshClaim) (now : DateTime)
  | issue (claim : RefreshClaim) (now : DateTime)
  | refreshCommit (claim : RefreshClaim) (now expiresAt : DateTime)
  /-- `revoke_device_for_token_reuse`. -/
  | reuseDevice (deviceId : Uuid)
  | reuseRead (deviceId : Uuid)
  | reuseCredentials (now : DateTime) (seen : List ℕ)
  /-- `revoke_device` and `revoke_self`, with the error for a device that is not there. -/
  | revokeBegin (deviceId userId : Uuid) (missing : AuthError)
  | revokeDevice (deviceId userId : Uuid) (missing : AuthError) (now : DateTime)
  | revokeRead (deviceId : Uuid) (now : DateTime)
  | revokeCredentials (deviceId : Uuid) (now : DateTime) (seen : List ℕ)
  | revokeCommit (deviceId : Uuid) (now : DateTime) (credIds : List ℕ)
  /-- `collect_device_approval`. -/
  | collectBegin (id : Uuid)
  | claim (id : Uuid) (now : DateTime)
  /-- `register_device`, and `insert_device` for both. -/
  | registerBegin (userId : Uuid)
  | lockCap (registration : Registration)
  | countActive (registration : Registration)
  | insertDevice (registration : Registration)
  | issueFirst (registration : Registration)
  | registerCommit (registration : Registration) (expiresAt : DateTime)

/-- The server, with the answers its handlers gave and the revocations that were committed. -/
structure DeviceServer where
  devices : List DeviceRow
  credentials : List DeviceCredentialRow
  requests : Uuid → Option AuthRequestRow
  clock : DateTime
  /-- The number of the next event. -/
  moment : ℕ
  /-- The number of the next credential that is committed. -/
  drawn : ℕ
  userLocks : Locks Uuid
  deviceLocks : Locks Uuid
  credentialLocks : Locks ℕ
  requestLocks : Locks Uuid
  calls : ℕ → Option DeviceCall
  answers : List (ℕ × DeviceAnswer)
  revocations : List Revocation

/-- The events: time passes; another handler stores a request; a handler is called, executes its next
statement, or is cut off; and expired credentials are deleted. The id of a new device is in the
event. -/
inductive DeviceEvent where
  | tick (time : DateTime)
  | request (id : Uuid) (row : AuthRequestRow)
  | refresh (slot : ℕ) (token : RefreshToken)
  | revoke (slot : ℕ) (deviceId userId : Uuid)
  | revokeSelf (slot : ℕ) (deviceId userId : Uuid)
  | register (slot : ℕ) (userId : Uuid)
  | collect (slot : ℕ) (id : Uuid)
  | advance (slot : ℕ) (freshId : Uuid)
  | drop (slot : ℕ)
  | deleteExpired (credIds : List ℕ)

/-- The slot whose handler an event is about. -/
def DeviceEvent.slot? : DeviceEvent → Option ℕ
  | .tick _ | .request _ _ | .deleteExpired _ => none
  | .refresh slot _ | .revoke slot _ _ | .revokeSelf slot _ _ | .register slot _ | .collect slot _
  | .advance slot _ | .drop slot => some slot

namespace DeviceServer

variable (limits : DeviceLimits) (s : DeviceServer)

/-- A server with no devices. -/
def start (requests : Uuid → Option AuthRequestRow) (clock : DateTime) : DeviceServer where
  devices := []
  credentials := []
  requests := requests
  clock := clock
  moment := 0
  drawn := 0
  userLocks := Locks.empty
  deviceLocks := Locks.empty
  credentialLocks := Locks.empty
  requestLocks := Locks.empty
  calls := fun _ => none
  answers := []
  revocations := []

/-- A device by its id. -/
def device? (id : Uuid) : Option DeviceRow := s.devices.find? fun device => device.id = id

/-- A credential by its id. -/
def credential? (id : ℕ) : Option DeviceCredentialRow :=
  s.credentials.find? fun cred => cred.id = id

/-- The devices that count towards the cap. -/
def activeDeviceCount (userId : Uuid) : ℕ :=
  s.devices.countP fun device => device.userId = userId ∧ device.revokedAt = none

/-! ### Slots -/

/-- A handler goes on to its next statement. -/
def goto (slot : ℕ) (call : DeviceCall) : DeviceServer :=
  { s with calls := Function.update s.calls slot (some call) }

/-- A slot is freed: its transaction is over, and its locks are given up. -/
def release (slot : ℕ) : DeviceServer :=
  { s with
    userLocks := s.userLocks.release slot
    deviceLocks := s.deviceLocks.release slot
    credentialLocks := s.credentialLocks.release slot
    requestLocks := s.requestLocks.release slot
    calls := Function.update s.calls slot none }

/-- A handler answers. -/
def finish (slot : ℕ) (answer : DeviceAnswer) : DeviceServer :=
  { s.release slot with answers := s.answers ++ [(slot, answer)] }

/-- A handler is called, unless its slot is in use. -/
def enter (slot : ℕ) (call : DeviceCall) : DeviceServer :=
  if (s.calls slot).isSome then s else s.goto slot call

/-! ### Rows that are written -/

/-- The devices after one is revoked. -/
def devicesRevoking (deviceId : Uuid) (now : DateTime) : List DeviceRow :=
  s.devices.map fun device =>
    if device.id = deviceId then { device with revokedAt := some now } else device

/-- The credentials after some are revoked. -/
def credentialsRevoking (credIds : List ℕ) (now : DateTime) : List DeviceCredentialRow :=
  s.credentials.map fun cred =>
    if cred.id ∈ credIds then { cred with revokedAt := some now } else cred

/-- What an `UPDATE` of the credentials of a device sees. -/
def unrevoked (deviceId : Uuid) : List ℕ :=
  (s.credentials.filter fun cred => cred.deviceId = deviceId ∧ cred.revokedAt = none).map
    DeviceCredentialRow.id

/-- Of the credentials it has seen, those that it still asks for. -/
def stillUnrevoked (seen : List ℕ) : List ℕ :=
  seen.filter fun id => (s.credential? id).any fun cred => cred.revokedAt = none

/-! ### `refresh_credentials` -/

/-- The first read, and the checks of what it returns. -/
def refreshRead (slot : ℕ) (token : RefreshToken) : DeviceServer :=
  match s.credentials.find? fun cred => cred.credentialHash = token ∧ s.clock < cred.expiresAt with
  | none => s.finish slot (.error .unauthorized)
  | some cred =>
    match s.device? cred.deviceId with
    | none => s.finish slot (.error .unauthorized)
    | some device =>
      match cred.revokedAt with
      | some revokedAt =>
        if device.revokedAt = none ∧
            DateTime.seconds refreshTokenReuseGraceSecs < s.clock - revokedAt then
          s.goto slot (.reuseDevice device.id)
        else s.finish slot (.error .unauthorized)
      | none =>
        if device.revokedAt.isSome then s.finish slot (.error .unauthorized)
        else s.goto slot (.refreshBegin ⟨token, cred.id, device.id, s.moment⟩)

/-- The `UPDATE` of the old credential. -/
def rotate (slot : ℕ) (claim : RefreshClaim) (now : DateTime) : DeviceServer :=
  match (s.credential? claim.credId).filter fun cred => cred.revokedAt = none with
  | none => s.finish slot (.error .unauthorized)
  | some cred =>
    if s.credentialLocks.free slot cred.id then
      goto { s with credentialLocks := s.credentialLocks.acquire slot cred.id } slot
        (.issue claim now)
    else s

/-- When a credential that is issued now expires. -/
def credentialExpiresAt : DateTime := s.clock + DateTime.seconds limits.refreshTokenTtlSecs

/-- The commit of a refresh. -/
def refreshCommit (slot : ℕ) (claim : RefreshClaim) (now expiresAt : DateTime) : DeviceServer :=
  finish { s with
    credentials := s.credentialsRevoking [claim.credId] now ++
      [⟨s.drawn, claim.deviceId, s.drawn, expiresAt, none⟩]
    drawn := s.drawn + 1 } slot (.refreshed claim s.drawn)

/-! ### `revoke_device_for_token_reuse` -/

/-- The `UPDATE` of the device, a transaction of its own. -/
def reuseDevice (slot : ℕ) (deviceId : Uuid) : DeviceServer :=
  match (s.device? deviceId).filter fun device => device.revokedAt = none with
  | none => s.goto slot (.reuseRead deviceId)
  | some device =>
    if s.deviceLocks.free slot device.id then
      goto { s with
        devices := s.devicesRevoking deviceId s.clock
        revocations := s.revocations ++ [⟨deviceId, s.moment⟩] } slot (.reuseRead deviceId)
    else s

/-- The `UPDATE` of the credentials, a transaction of its own. -/
def reuseCredentials (slot : ℕ) (now : DateTime) (seen : List ℕ) : DeviceServer :=
  if seen.all fun id => s.credentialLocks.free slot id then
    finish { s with credentials := s.credentialsRevoking (s.stillUnrevoked seen) now } slot
      (.error .unauthorized)
  else s

/-! ### `revoke_device` and `revoke_self` -/

/-- The `UPDATE` of the device. -/
def revokeDevice (slot : ℕ) (deviceId userId : Uuid) (missing : AuthError) (now : DateTime) :
    DeviceServer :=
  match (s.device? deviceId).filter fun device =>
      device.userId = userId ∧ device.revokedAt = none with
  | none => s.finish slot (.error missing)
  | some device =>
    if s.deviceLocks.free slot device.id then
      goto { s with deviceLocks := s.deviceLocks.acquire slot device.id } slot
        (.revokeRead deviceId now)
    else s

/-- The `UPDATE` of the credentials. -/
def revokeCredentials (slot : ℕ) (deviceId : Uuid) (now : DateTime) (seen : List ℕ) :
    DeviceServer :=
  if seen.all fun id => s.credentialLocks.free slot id then
    goto { s with credentialLocks := s.credentialLocks.acquireAll slot (s.stillUnrevoked seen) } slot
      (.revokeCommit deviceId now (s.stillUnrevoked seen))
  else s

/-- The commit of a revocation. -/
def revokeCommit (slot : ℕ) (deviceId : Uuid) (now : DateTime) (credIds : List ℕ) :
    DeviceServer :=
  finish { s with
    devices := s.devicesRevoking deviceId now
    credentials := s.credentialsRevoking credIds now
    revocations := s.revocations ++ [⟨deviceId, s.moment⟩] } slot .revoked

/-! ### Registrations -/

/-- `collect_device_approval`: the claim. -/
def claim (slot : ℕ) (id : Uuid) (now : DateTime) : DeviceServer :=
  match (s.requests id).filter fun row => AuthServer.Collectable now row with
  | none => s.finish slot (.status "expired")
  | some row =>
    if s.requestLocks.free slot id then
      match row.deviceName, row.encryptedAccountKey, row.approverPublicKey with
      | some _, some _, some _ =>
        goto { s with requestLocks := s.requestLocks.acquire slot id } slot
          (.lockCap ⟨row.userId, now, some (id, row)⟩)
      | _, _, _ => s.finish slot (.error .internal)
    else s

/-- `insert_device`: the advisory lock. -/
def lockCap (slot : ℕ) (registration : Registration) : DeviceServer :=
  if s.userLocks.free slot registration.userId then
    goto { s with userLocks := s.userLocks.acquire slot registration.userId } slot
      (.countActive registration)
  else s

/-- `insert_device`: the active devices are counted. -/
def countActive (slot : ℕ) (registration : Registration) : DeviceServer :=
  if limits.maxDevicesPerAccount ≤ (s.activeDeviceCount registration.userId : ℤ) then
    s.finish slot (.error (.conflict "device_limit_reached"))
  else s.goto slot (.insertDevice registration)

/-- The requests after one is consumed, if the registration collects one. -/
def requestsConsuming (registration : Registration) : Uuid → Option AuthRequestRow :=
  match registration.approval with
  | none => s.requests
  | some (id, row) =>
    Function.update s.requests id (some { row with consumedAt := some registration.now })

/-- The commit of a registration, with the device and its first credential. -/
def registerCommit (slot : ℕ) (registration : Registration) (expiresAt : DateTime)
    (deviceId : Uuid) : DeviceServer :=
  if (s.device? deviceId).isSome then s.finish slot (.error .internal)
  else finish { s with
    devices := s.devices ++ [{
      id := deviceId, userId := registration.userId, lastSeenAt := none,
      createdAt := registration.now, revokedAt := none, lastDeviceSequence := 0 }]
    credentials := s.credentials ++ [⟨s.drawn, deviceId, s.drawn, expiresAt, none⟩]
    requests := s.requestsConsuming registration
    drawn := s.drawn + 1 } slot (.registered deviceId s.drawn)

/-! ### Events -/

/-- A handler executes its next statement. -/
def advance (slot : ℕ) (freshId : Uuid) : DeviceServer :=
  match s.calls slot with
  | none => s
  | some call => match call with
    | .refreshRead token => s.refreshRead slot token
    | .refreshBegin claim => s.goto slot (.rotate claim s.clock)
    | .rotate claim now => s.rotate slot claim now
    | .issue claim now => s.goto slot (.refreshCommit claim now (s.credentialExpiresAt limits))
    | .refreshCommit claim now expiresAt => s.refreshCommit slot claim now expiresAt
    | .reuseDevice deviceId => s.reuseDevice slot deviceId
    | .reuseRead deviceId => s.goto slot (.reuseCredentials s.clock (s.unrevoked deviceId))
    | .reuseCredentials now seen => s.reuseCredentials slot now seen
    | .revokeBegin deviceId userId missing =>
        s.goto slot (.revokeDevice deviceId userId missing s.clock)
    | .revokeDevice deviceId userId missing now => s.revokeDevice slot deviceId userId missing now
    | .revokeRead deviceId now => s.goto slot (.revokeCredentials deviceId now (s.unrevoked deviceId))
    | .revokeCredentials deviceId now seen => s.revokeCredentials slot deviceId now seen
    | .revokeCommit deviceId now credIds => s.revokeCommit slot deviceId now credIds
    | .collectBegin id => s.goto slot (.claim id s.clock)
    | .claim id now => s.claim slot id now
    | .registerBegin userId => s.goto slot (.lockCap ⟨userId, s.clock, none⟩)
    | .lockCap registration => s.lockCap slot registration
    | .countActive registration => s.countActive limits slot registration
    | .insertDevice registration => s.goto slot (.issueFirst registration)
    | .issueFirst registration =>
        s.goto slot (.registerCommit registration (s.credentialExpiresAt limits))
    | .registerCommit registration expiresAt =>
        s.registerCommit slot registration expiresAt freshId

/-- `delete_expired_device_credentials`: one chunk, of rows that no transaction has locked. -/
def deleteExpired (credIds : List ℕ) : DeviceServer :=
  { s with credentials := s.credentials.filter fun cred => ¬(cred.id ∈ credIds ∧
      s.credentialLocks cred.id = none ∧
        cred.expiresAt < s.clock - DateTime.seconds limits.deviceCredentialRetentionSecs) }

/-- What an event does. -/
def handle : DeviceEvent → DeviceServer
  | .tick time => { s with clock := max s.clock time }
  | .request id row =>
      if s.requestLocks id = none then { s with requests := Function.update s.requests id (some row) }
      else s
  | .refresh slot token => s.enter slot (.refreshRead token)
  | .revoke slot deviceId userId => s.enter slot (.revokeBegin deviceId userId .notFound)
  | .revokeSelf slot deviceId userId => s.enter slot (.revokeBegin deviceId userId .unauthorized)
  | .register slot userId => s.enter slot (.registerBegin userId)
  | .collect slot id => s.enter slot (.collectBegin id)
  | .advance slot freshId => s.advance limits slot freshId
  | .drop slot => s.release slot
  | .deleteExpired credIds => s.deleteExpired limits credIds

/-- The next moment. -/
def next : DeviceServer := { s with moment := s.moment + 1 }

/-- One event, which is numbered. -/
def step (s : DeviceServer) (event : DeviceEvent) : DeviceServer := (s.handle limits event).next

/-- The state after a list of events. -/
abbrev run (s : DeviceServer) (events : List DeviceEvent) : DeviceServer :=
  Runs.run (step limits) s events

/-- The refreshes that succeeded, with what they had read. -/
def refreshes : List RefreshClaim :=
  s.answers.filterMap fun answer => answer.2.refresh?

end DeviceServer

end HelixSync
