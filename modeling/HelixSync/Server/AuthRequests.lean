import Mathlib.Data.Finset.Card
import HelixSync.Lib.Runs
import HelixSync.Server.Model

/-!
# Login with device

The requests of `server/src/auth/requests.rs`: a dashboard or a new browser asks to be let in, a
forgotten password is to be reset, and connected devices of the account answer. One table holds
all three kinds, with one status column; who may answer and what an approval yields depends on
the kind.

A handler is a sequence of statements, and other handlers run between any two of them. A handler
under way occupies a slot (`HelixSync.AuthServer.calls`), with what it has read so far and the
statement it is about to execute (`HelixSync.Call`). A transaction sees what is committed and its
own writes, which are kept with the handler until it commits; a row it has written or selected
`FOR UPDATE` stays locked until then (`HelixSync.AuthServer.locks`), and a statement of another
handler that finds the row and finds it locked waits, which is an event that changes nothing. A
statement outside a transaction is a transaction of its own. In each, `now()` is the time the
transaction began, so beginning it is an event too.

Observations are kept that the database does not store: the consumptions that were committed, each
with the database its statement saw, the account keys handed out for a reset, and what the
consumptions yielded.

Left out are rate limits, the audit log, notifications, the columns only shown to the user
(`request_ip`, `user_agent`, a device's display data) and the tokens issued with a session or a
device.
-/

namespace HelixSync

/-! ### The tables -/

/-- `auth_requests.kind`. -/
inductive AuthRequestKind where
  | web
  | device
  | reset
  deriving DecidableEq

/-- `auth_requests.status`. -/
inductive AuthRequestStatus where
  | pending
  | approved
  | denied
  deriving DecidableEq

/-- A row of `auth_requests`. -/
structure AuthRequestRow where
  userId : Uuid
  kind : AuthRequestKind
  secretHash : String
  publicKey : String
  deviceName : Option String
  expiresAt : DateTime
  status : AuthRequestStatus
  respondedByDeviceId : Option Uuid
  respondedAt : Option DateTime
  encryptedAccountKey : Option String
  approverPublicKey : Option String
  consumedAt : Option DateTime
  deriving DecidableEq

/-- What a user signs in and recovers with. -/
structure Credentials where
  passwordHash : String
  kdfSalt : String
  kdfParams : Json
  wrappedAccountKey : String
  recoveryAuthHash : String
  recoveryWrappedAccountKey : String

/-- A row of `users`. -/
structure UserRow where
  id : Uuid
  email : String
  credentials : Credentials
  recoveryCodeConfirmedAt : Option DateTime

/-- A row of `web_sessions`. -/
structure WebSessionRow where
  sessionHash : String
  userId : Uuid
  revokedAt : Option DateTime

/-- The tables the handlers read or write. The primary key of `auth_request_approvals` makes it a
set of pairs of a request and a device. -/
structure AuthDb where
  requests : Uuid → Option AuthRequestRow
  approvals : Finset (Uuid × Uuid)
  devices : List DeviceRow
  users : List UserRow
  webSessions : List WebSessionRow

namespace AuthDb

variable (db : AuthDb)

/-- A user by its id. -/
def user? (id : Uuid) : Option UserRow := db.users.find? fun user => user.id = id

/-- A user by its email. -/
def userByEmail? (email : String) : Option UserRow := db.users.find? fun user => user.email = email

/-- A device by its id. -/
def device? (id : Uuid) : Option DeviceRow := db.devices.find? fun d => d.id = id

/-- The devices that approved a request and are not revoked. -/
def activeApprovers (id : Uuid) : Finset Uuid :=
  ((db.approvals.filter fun approval => approval.1 = id).image Prod.snd).filter fun deviceId =>
    ∃ d ∈ db.devices, d.id = deviceId ∧ d.revokedAt = none

/-- The devices that approved a request. -/
def approvers (id : Uuid) : Finset Uuid :=
  (db.approvals.filter fun approval => approval.1 = id).image Prod.snd

/-- A row of `auth_requests` written. -/
def setRequest (id : Uuid) (row : AuthRequestRow) : AuthDb :=
  { db with requests := Function.update db.requests id (some row) }

/-- An approval recorded. -/
def insertApproval (id deviceId : Uuid) : AuthDb :=
  { db with approvals := insert (id, deviceId) db.approvals }

end AuthDb

/-! ### Checks -/

/-- The configuration of the handlers, and the functions they take from libraries: SHA-256 and
argon2, base64url without padding, and `trim` and `to_lowercase`. -/
structure AuthConfig where
  hashToken : String → String
  hashPassword : String → String
  decodeBase64Url : String → Option (List UInt8)
  trim : String → String
  toLowercase : String → String
  maxDevicesPerAccount : ℕ

/-- The errors of the handlers. -/
inductive AuthError where
  | validation (message : String)
  | notFound
  | unauthorized
  | conflict (code : String)
  | internal
  deriving DecidableEq

/-- `AUTH_REQUEST_TTL_SECS`. -/
def authRequestTtlSecs : ℤ := 15 * 60

/-- `MAX_ENCRYPTED_ACCOUNT_KEY_LEN`. -/
def maxEncryptedAccountKeyLen : ℕ := 1024

/-- `MAX_EMAIL_LEN`. -/
def maxEmailLen : ℕ := 320

/-- `MAX_DEVICE_NAME_LEN`. -/
def maxDeviceNameLen : ℕ := 200

/-- `MAX_DEVICE_FIELD_LEN`. -/
def maxDeviceFieldLen : ℕ := 100

/-- `MAX_WRAPPED_KEY_LEN`. -/
def maxWrappedKeyLen : ℕ := 1024

section Checks

variable (cfg : AuthConfig)

/-- `token_hash_matches`: a comparison in constant time. -/
def tokenHashMatches (token storedHash : String) : Bool := cfg.hashToken token == storedHash

/-- `validate_ecdh_public_key`. -/
def validateEcdhPublicKey (publicKey : String) : Except AuthError Unit :=
  match cfg.decodeBase64Url publicKey with
  | none => .error (.validation "publicKey must be base64url-encoded")
  | some decoded =>
    if decoded.length ≠ 65 ∨ decoded.head? ≠ some 4 then
      .error (.validation "publicKey must be an uncompressed P-256 point (65 bytes)")
    else .ok ()

/-- `normalize_email`. -/
def normalizeEmail (email : String) : String := cfg.toLowercase (cfg.trim email)

/-- `request_email`. -/
def requestEmail (email : String) : Except AuthError String :=
  if (normalizeEmail cfg email).utf8ByteSize > maxEmailLen then .error (.validation "invalid email")
  else .ok (normalizeEmail cfg email)

/-- `validate_device_name`. -/
def validateDeviceName (name : String) : Except AuthError Unit :=
  if (cfg.trim name).isEmpty ∨ name.utf8ByteSize > maxDeviceNameLen then
    .error (.validation "invalid device name")
  else .ok ()

/-- `validate_field_len`. -/
def validateFieldLen (field : String) (value : Option String) (max : ℕ) : Except AuthError Unit :=
  if value.any fun v => v.utf8ByteSize > max then .error (.validation (field ++ " is too long"))
  else .ok ()

/-- `validate_auth_key`. -/
def validateAuthKey (authKey : String) : Except AuthError Unit :=
  match cfg.decodeBase64Url authKey with
  | none => .error (.validation "authKey must be base64url-encoded")
  | some decoded =>
    if decoded.length ≠ 32 then
      .error (.validation "authKey must decode to exactly 32 bytes")
    else .ok ()

/-- `validate_kdf_salt`. -/
def validateKdfSalt (field salt : String) : Except AuthError Unit :=
  if (cfg.decodeBase64Url salt).map List.length ≠ some 16 then
    .error (.validation (field ++ " must be 16 bytes of base64url"))
  else .ok ()

/-- Whether a field of a document is an integer within bounds. -/
def fieldWithin (params : Json) (key : String) (low high : ℕ) : Bool :=
  match params.get? key with
  | some (.number text) => match text.toNat? with
      | some n => decide (low ≤ n ∧ n ≤ high)
      | none => false
  | _ => false

/-- `validate_kdf_params`. -/
def validateKdfParams (field : String) (params : Json) : Except AuthError Unit :=
  if params.fields.length = 3 ∧ fieldWithin params "m" 19456 262144 = true ∧
      fieldWithin params "t" 2 10 = true ∧ fieldWithin params "p" 1 4 = true then .ok ()
  else .error (.validation (field ++ " must be \x7b m, t, p \x7d integers within bounds"))

/-- `validate_wrapped_key`. -/
def validateWrappedKey (field wrapped : String) : Except AuthError Unit :=
  validateFieldLen field (some wrapped) maxWrappedKeyLen

/-- `require_key_material`. -/
def requireKeyMaterial (encryptedAccountKey approverPublicKey : Option String) (what : String) :
    Except AuthError (String × String) :=
  match encryptedAccountKey, approverPublicKey with
  | some key, some publicKey =>
    if key.isEmpty ∨ key.utf8ByteSize > maxEncryptedAccountKeyLen then
      .error (.validation "invalid encryptedAccountKey")
    else match validateEcdhPublicKey cfg publicKey with
    | .error e => .error e
    | .ok () => .ok (key, publicKey)
  | _, _ => .error (.validation (what ++ " needs encryptedAccountKey and approverPublicKey"))

end Checks

/-! ### Requests and handlers under way -/

/-- `CreateAuthRequest`. -/
structure CreateAuthRequest where
  email : String
  kind : AuthRequestKind
  publicKey : String
  deviceName : Option String

/-- `PollAuthRequest`. -/
structure PollAuthRequest where
  secret : String
  browser : Option String
  browserVersion : Option String
  platform : Option String
  extensionVersion : Option String

/-- `RespondAuthRequest`. -/
structure RespondAuthRequest where
  approve : Bool
  encryptedAccountKey : Option String
  approverPublicKey : Option String

/-- `CompleteResetRequest`. -/
structure CompleteResetRequest where
  secret : String
  newAuthKey : String
  newKdfSalt : String
  newKdfParams : Json
  newWrappedAk : String
  newRecoveryAuthKey : String
  newRecoveryWrappedAk : String

/-- The statement that sets `consumed_at`, once it is committed: the request, the time of the
transaction, and the database the statement saw. -/
structure Consumption where
  requestId : Uuid
  kind : AuthRequestKind
  time : DateTime
  seen : AuthDb

/-- What a consumed request yielded. -/
inductive Yield where
  | session (requestId : Uuid) (sessionHash : String)
  | device (requestId deviceId : Uuid)
  | reset (requestId userId : Uuid)

/-- The request that yielded something. -/
def Yield.requestId : Yield → Uuid
  | .session requestId _ => requestId
  | .device requestId _ => requestId
  | .reset requestId _ => requestId

/-- The kind of request that yields this. -/
def Yield.kind : Yield → AuthRequestKind
  | .session _ _ => .web
  | .device _ _ => .device
  | .reset _ _ => .reset

/-- The answers of the handlers. -/
inductive Answer where
  | status (status : String)
  | session (userId : Uuid)
  | accountKey (encryptedAccountKey approverPublicKey : String)
  | device (deviceId : Uuid) (encryptedAccountKey approverPublicKey : String)
  | done
  | error (error : AuthError)
  deriving DecidableEq

/-- A handler under way, named after the statement it executes next. Those with a `now` are in a
transaction that began at that time. -/
inductive Call where
  /-- `collect_web_approval`: the transaction of the claim begins. -/
  | collectWeb (id : Uuid)
  | claimWeb (id : Uuid) (now : DateTime)
  /-- `finish_login`, for the user of the claimed request. -/
  | finishLogin (id userId : Uuid)
  /-- `collect_reset_approval`. -/
  | collectReset (id : Uuid)
  /-- `collect_device_approval`. -/
  | collectDevice (id : Uuid)
  | claimDevice (id : Uuid) (now : DateTime)
  | insertDevice (id : Uuid) (now : DateTime) (claimed : AuthRequestRow) (seen : AuthDb)
  | commitDevice (id : Uuid) (now : DateTime) (claimed : AuthRequestRow) (seen : AuthDb)
      (issued : DeviceRow)
  /-- `respond_auth_request`, with the status and the key material to store. -/
  | respond (device : AuthenticatedDevice) (id : Uuid) (status : AuthRequestStatus)
      (encryptedAccountKey approverPublicKey : Option String)
  | updateStatus (device : AuthenticatedDevice) (id : Uuid) (now : DateTime)
      (status : AuthRequestStatus) (encryptedAccountKey approverPublicKey : Option String)
  /-- `approve_reset`. -/
  | approveReset (device : AuthenticatedDevice) (id : Uuid) (req : RespondAuthRequest)
  | lockReset (device : AuthenticatedDevice) (id : Uuid) (now : DateTime) (req : RespondAuthRequest)
  | readApprovers (device : AuthenticatedDevice) (id : Uuid) (now : DateTime)
      (req : RespondAuthRequest)
  | commitFirstApproval (device : AuthenticatedDevice) (id : Uuid)
  | commitSecondApproval (device : AuthenticatedDevice) (id : Uuid) (now : DateTime)
      (encryptedAccountKey approverPublicKey : String)
  /-- `complete_reset`, its secret checked. -/
  | completeReset (id : Uuid) (req : CompleteResetRequest)
  | claimReset (id : Uuid) (now : DateTime) (req : CompleteResetRequest)
  | revokeSessions (id : Uuid) (now : DateTime) (req : CompleteResetRequest) (userId : Uuid)
      (seen : AuthDb)
  | commitReset (id : Uuid) (now : DateTime) (req : CompleteResetRequest) (userId : Uuid)
      (seen : AuthDb) (revoked : List String)

/-- The state of the server. -/
structure AuthServer where
  db : AuthDb
  clock : DateTime
  /-- The slot whose transaction has locked a row of `auth_requests`. -/
  locks : Uuid → Option ℕ
  calls : ℕ → Option Call
  answers : List (ℕ × Answer)
  consumptions : List Consumption
  /-- The account keys of resets that were handed out, in the same form. -/
  handouts : List Consumption
  yields : List Yield

/-- The events: a request comes in, a handler executes its next statement, a device is revoked or
registered otherwise, time passes, or a handler is cut off. The values the server draws at random
are in the events. -/
inductive AuthEvent where
  | tick (time : DateTime)
  | register (deviceId userId : Uuid)
  | revoke (deviceId : Uuid)
  | create (id : Uuid) (secret : String) (req : CreateAuthRequest)
  | poll (slot : ℕ) (id : Uuid) (req : PollAuthRequest)
  | respond (slot : ℕ) (deviceId id : Uuid) (req : RespondAuthRequest)
  | completeReset (slot : ℕ) (id : Uuid) (req : CompleteResetRequest)
  | advance (slot : ℕ) (freshId : Uuid) (freshHash : String)
  | drop (slot : ℕ)

namespace AuthServer

variable (cfg : AuthConfig) (s : AuthServer)

/-- A server with accounts, and no devices or requests yet. -/
def start (users : List UserRow) (sessions : List WebSessionRow) (clock : DateTime) :
    AuthServer where
  db := ⟨fun _ => none, ∅, [], users, sessions⟩
  clock := clock
  locks := fun _ => none
  calls := fun _ => none
  answers := []
  consumptions := []
  handouts := []
  yields := []

/-! ### Slots and locks -/

/-- A handler goes on to its next statement. -/
def goto (slot : ℕ) (call : Call) : AuthServer :=
  { s with calls := Function.update s.calls slot (some call) }

/-- A slot's locks are released. -/
def unlock (slot : ℕ) : AuthServer :=
  { s with locks := fun id => if s.locks id = some slot then none else s.locks id }

/-- A handler answers; its transaction is over. -/
def finish (slot : ℕ) (answer : Answer) : AuthServer :=
  { s.unlock slot with
    calls := Function.update s.calls slot none
    answers := s.answers ++ [(slot, answer)] }

/-- A row is locked for a slot. -/
def lock (slot : ℕ) (id : Uuid) : AuthServer :=
  { s with locks := Function.update s.locks id (some slot) }

/-- Whether a row may be written or locked by a slot. -/
def available (slot : ℕ) (id : Uuid) : Bool := s.locks id == none || s.locks id == some slot

/-- A request comes in: it is turned away only if its slot is in use. -/
def enter (slot : ℕ) (first : Except Answer Call) : AuthServer :=
  if (s.calls slot).isSome then s
  else match first with
  | .error answer => { s with answers := s.answers ++ [(slot, answer)] }
  | .ok call => s.goto slot call

/-! ### Requests that come in -/

/-- `create_auth_request`. An unknown email gets the same answer with nothing stored. -/
def create (id : Uuid) (secret : String) (req : CreateAuthRequest) : AuthServer :=
  match requestEmail cfg req.email, validateEcdhPublicKey cfg req.publicKey with
  | .ok email, .ok () =>
    let deviceName? : Except AuthError (Option String) :=
      match req.kind, req.deviceName with
      | .device, none => .error (.validation "deviceName is required")
      | .device, some name => (validateDeviceName cfg name).map fun _ => some name
      | _, _ => .ok none
    match deviceName?, s.db.userByEmail? email with
    | .ok deviceName, some user =>
      if (s.db.requests id).isSome then s
      else { s with db := s.db.setRequest id {
        userId := user.id, kind := req.kind, secretHash := cfg.hashToken secret,
        publicKey := req.publicKey, deviceName := deviceName,
        expiresAt := s.clock + DateTime.seconds authRequestTtlSecs, status := .pending,
        respondedByDeviceId := none, respondedAt := none, encryptedAccountKey := none,
        approverPublicKey := none, consumedAt := none } }
    | _, _ => s
  | _, _ => s

/-- The text of a status. -/
def statusText : AuthRequestStatus → String
  | .pending => "pending"
  | .approved => "approved"
  | .denied => "denied"

/-- `validate_device_info`. -/
def validateDeviceInfo (req : PollAuthRequest) : Except AuthError Unit := do
  validateFieldLen "browser" req.browser maxDeviceFieldLen
  validateFieldLen "browserVersion" req.browserVersion maxDeviceFieldLen
  validateFieldLen "platform" req.platform maxDeviceFieldLen
  validateFieldLen "extensionVersion" req.extensionVersion maxDeviceFieldLen

/-- `poll_auth_request`, up to the branch on the kind. An unknown id or a wrong secret reads as
`pending`. -/
def pollLookup (id : Uuid) (req : PollAuthRequest) : Except Answer Call :=
  match (s.db.requests id).filter fun row => tokenHashMatches cfg req.secret row.secretHash with
  | none => .error (.status "pending")
  | some row =>
    if row.consumedAt.isSome ∨ row.expiresAt ≤ s.clock then .error (.status "expired")
    else if row.status ≠ .approved then .error (.status (statusText row.status))
    else match row.kind with
    | .web => .ok (.collectWeb id)
    | .reset => .ok (.collectReset id)
    | .device => match validateDeviceInfo req with
        | .error e => .error (.error e)
        | .ok () => .ok (.collectDevice id)

/-- `respond_auth_request`, up to its `UPDATE` or to `approve_reset`. The identity is the one the
device's token authenticates; a revocation takes effect when the cached answer of an earlier check
expires, so it is not tested here. -/
def respondLookup (deviceId id : Uuid) (req : RespondAuthRequest) : Except Answer Call :=
  match s.db.device? deviceId with
  | none => .error (.error .unauthorized)
  | some d =>
    match (s.db.requests id).filter fun row =>
        row.userId = d.userId ∧ row.status = .pending ∧ s.clock < row.expiresAt with
    | none => .error (.error .notFound)
    | some row =>
      if req.approve = true ∧ row.kind = .reset then .ok (.approveReset ⟨d.userId, d.id⟩ id req)
      else if req.approve = true ∧ row.kind = .device then
        match requireKeyMaterial cfg req.encryptedAccountKey req.approverPublicKey
            "approving a new browser" with
        | .error e => .error (.error e)
        | .ok (key, publicKey) =>
          .ok (.respond ⟨d.userId, d.id⟩ id .approved (some key) (some publicKey))
      else if req.encryptedAccountKey.isSome ∨ req.approverPublicKey.isSome then
        .error (.error (.validation "only an approved new browser receives the account key"))
      else .ok (.respond ⟨d.userId, d.id⟩ id (if req.approve then .approved else .denied) none none)

/-- The checks of `complete_reset` before its first statement. -/
def validateCompleteReset (req : CompleteResetRequest) : Except AuthError Unit := do
  validateAuthKey cfg req.newAuthKey
  validateAuthKey cfg req.newRecoveryAuthKey
  validateKdfSalt cfg "newKdfSalt" req.newKdfSalt
  validateKdfParams "newKdfParams" req.newKdfParams
  validateWrappedKey "newWrappedAk" req.newWrappedAk
  validateWrappedKey "newRecoveryWrappedAk" req.newRecoveryWrappedAk

/-- `complete_reset`, up to the hashing of the new key. -/
def completeLookup (id : Uuid) (req : CompleteResetRequest) : Except Answer Call :=
  match validateCompleteReset cfg req with
  | .error e => .error (.error e)
  | .ok () =>
    match (s.db.requests id).filter fun row => row.kind = .reset with
    | none => .error (.error .unauthorized)
    | some row =>
      if tokenHashMatches cfg req.secret row.secretHash then .ok (.completeReset id req)
      else .error (.error .unauthorized)

/-! ### Statements -/

/-- What every statement that collects an approval asks of the row. -/
def Collectable (now : DateTime) (row : AuthRequestRow) : Prop :=
  row.status = .approved ∧ row.consumedAt = none ∧ now < row.expiresAt

instance (now : DateTime) (row : AuthRequestRow) : Decidable (Collectable now row) :=
  inferInstanceAs (Decidable (_ ∧ _ ∧ _))

/-- `collect_web_approval`: the claim, in one statement. -/
def claimWeb (slot : ℕ) (id : Uuid) (now : DateTime) : AuthServer :=
  match (s.db.requests id).filter fun row =>
      Collectable now row ∧ (s.db.user? row.userId).isSome with
  | none => s.finish slot (.status "expired")
  | some row =>
    if s.available slot id then
      goto { s with
        db := s.db.setRequest id { row with consumedAt := some now }
        consumptions := s.consumptions ++ [⟨id, .web, now, s.db⟩] } slot (.finishLogin id row.userId)
    else s

/-- `finish_login`: the session is created. -/
def finishLogin (slot : ℕ) (id userId : Uuid) (sessionHash : String) : AuthServer :=
  finish { s with
    db := { s.db with webSessions := s.db.webSessions ++ [⟨sessionHash, userId, none⟩] }
    yields := s.yields ++ [.session id sessionHash] } slot (.session userId)

/-- `collect_reset_approval`: the account key is read, and the request not consumed. -/
def collectReset (slot : ℕ) (id : Uuid) : AuthServer :=
  match (s.db.requests id).filter fun row => row.kind = .reset ∧ Collectable s.clock row with
  | none => s.finish slot (.status "expired")
  | some row => match row.encryptedAccountKey, row.approverPublicKey with
      | some key, some publicKey =>
        finish { s with handouts := s.handouts ++ [⟨id, .reset, s.clock, s.db⟩] } slot
          (.accountKey key publicKey)
      | _, _ => s.finish slot (.status "expired")

/-- `collect_device_approval`: the claim. -/
def claimDevice (slot : ℕ) (id : Uuid) (now : DateTime) : AuthServer :=
  match (s.db.requests id).filter fun row =>
      Collectable now row ∧ (s.db.user? row.userId).isSome with
  | none => s.finish slot (.status "expired")
  | some row =>
    if s.available slot id then (s.lock slot id).goto slot (.insertDevice id now row s.db) else s

/-- The devices that count towards the cap. -/
def activeDeviceCount (userId : Uuid) : ℕ :=
  s.db.devices.countP fun d => d.userId = userId ∧ d.revokedAt = none

/-- `insert_device`, or the rollback. -/
def insertDevice (slot : ℕ) (id : Uuid) (now : DateTime) (claimed : AuthRequestRow) (seen : AuthDb)
    (deviceId : Uuid) : AuthServer :=
  match claimed.deviceName, claimed.encryptedAccountKey, claimed.approverPublicKey with
  | some _, some _, some _ =>
    if cfg.maxDevicesPerAccount ≤ s.activeDeviceCount claimed.userId then
      s.finish slot (.error (.conflict "device_limit_reached"))
    else if (s.db.device? deviceId).isSome then s.finish slot (.error .internal)
    else s.goto slot (.commitDevice id now claimed seen {
      id := deviceId, userId := claimed.userId, lastSeenAt := none, createdAt := now,
      revokedAt := none, lastDeviceSequence := 0 })
  | _, _, _ => s.finish slot (.error .internal)

/-- The commit of a claimed device request. Of two inserts of one id, the later one fails. -/
def commitDevice (slot : ℕ) (id : Uuid) (now : DateTime) (claimed : AuthRequestRow) (seen : AuthDb)
    (issued : DeviceRow) : AuthServer :=
  if (s.db.device? issued.id).isSome then s.finish slot (.error .internal)
  else finish { s with
    db := { s.db.setRequest id { claimed with consumedAt := some now } with
      devices := s.db.devices ++ [issued] }
    consumptions := s.consumptions ++ [⟨id, .device, now, seen⟩]
    yields := s.yields ++ [.device id issued.id] } slot
      (.device issued.id (claimed.encryptedAccountKey.getD "") (claimed.approverPublicKey.getD ""))

/-- `respond_auth_request`: the `UPDATE`. -/
def updateStatus (slot : ℕ) (device : AuthenticatedDevice) (id : Uuid) (now : DateTime)
    (status : AuthRequestStatus) (encryptedAccountKey approverPublicKey : Option String) :
    AuthServer :=
  match (s.db.requests id).filter fun row =>
      row.userId = device.userId ∧ row.status = .pending ∧ now < row.expiresAt with
  | none => s.finish slot (.error .notFound)
  | some row =>
    if s.available slot id then
      finish { s with db := s.db.setRequest id { row with
          status := status, respondedByDeviceId := some device.deviceId, respondedAt := some now,
          encryptedAccountKey := encryptedAccountKey,
          approverPublicKey := approverPublicKey } } slot .done
    else s

/-- `approve_reset`: the `SELECT … FOR UPDATE`. -/
def lockReset (slot : ℕ) (device : AuthenticatedDevice) (id : Uuid) (now : DateTime)
    (req : RespondAuthRequest) : AuthServer :=
  match (s.db.requests id).filter fun row => row.userId = device.userId ∧ row.kind = .reset ∧
      row.status = .pending ∧ now < row.expiresAt with
  | none => s.finish slot (.error .notFound)
  | some _ =>
    if s.available slot id then (s.lock slot id).goto slot (.readApprovers device id now req) else s

/-- `approve_reset`: the approvers are read, and it is decided which approval this is. -/
def readApprovers (slot : ℕ) (device : AuthenticatedDevice) (id : Uuid) (now : DateTime)
    (req : RespondAuthRequest) : AuthServer :=
  if device.deviceId ∈ s.db.approvers id then
    s.finish slot (.error (.conflict "already_approved"))
  else if s.db.approvers id = ∅ then
    if req.encryptedAccountKey.isSome ∨ req.approverPublicKey.isSome then
      s.finish slot (.error
        (.validation "the first approval of a password reset carries no key"))
    else s.goto slot (.commitFirstApproval device id)
  else match requireKeyMaterial cfg req.encryptedAccountKey req.approverPublicKey
      "the second approval of a password reset" with
  | .error e => s.finish slot (.error e)
  | .ok (key, publicKey) => s.goto slot (.commitSecondApproval device id now key publicKey)

/-- The commit of a first approval. -/
def commitFirstApproval (slot : ℕ) (device : AuthenticatedDevice) (id : Uuid) : AuthServer :=
  finish { s with db := s.db.insertApproval id device.deviceId } slot .done

/-- The commit of a second approval. -/
def commitSecondApproval (slot : ℕ) (device : AuthenticatedDevice) (id : Uuid) (now : DateTime)
    (encryptedAccountKey approverPublicKey : String) : AuthServer :=
  match s.db.requests id with
  | none => s.finish slot .done
  | some row =>
    finish { s with db := (s.db.insertApproval id device.deviceId).setRequest id { row with
        status := .approved, respondedByDeviceId := some device.deviceId, respondedAt := some now,
        encryptedAccountKey := some encryptedAccountKey,
        approverPublicKey := some approverPublicKey } } slot .done

/-- `complete_reset`: the claim. -/
def claimReset (slot : ℕ) (id : Uuid) (now : DateTime) (req : CompleteResetRequest) : AuthServer :=
  match (s.db.requests id).filter fun row => row.kind = .reset ∧ Collectable now row ∧
      2 ≤ (s.db.activeApprovers id).card with
  | none => s.finish slot (.error .unauthorized)
  | some row =>
    if s.available slot id then
      (s.lock slot id).goto slot (.revokeSessions id now req row.userId s.db)
    else s

/-- `complete_reset`: the web sessions to revoke. -/
def revokeSessions (slot : ℕ) (id : Uuid) (now : DateTime) (req : CompleteResetRequest)
    (userId : Uuid) (seen : AuthDb) : AuthServer :=
  s.goto slot (.commitReset id now req userId seen
    ((s.db.webSessions.filter fun row => row.userId = userId ∧ row.revokedAt = none).map
      WebSessionRow.sessionHash))

/-- The credentials of a completed reset. -/
def newCredentials (req : CompleteResetRequest) : Credentials where
  passwordHash := cfg.hashPassword req.newAuthKey
  kdfSalt := req.newKdfSalt
  kdfParams := req.newKdfParams
  wrappedAccountKey := req.newWrappedAk
  recoveryAuthHash := cfg.hashToken req.newRecoveryAuthKey
  recoveryWrappedAccountKey := req.newRecoveryWrappedAk

/-- The commit of a reset. -/
def commitReset (slot : ℕ) (id : Uuid) (now : DateTime) (req : CompleteResetRequest)
    (userId : Uuid) (seen : AuthDb) (revoked : List String) : AuthServer :=
  match s.db.requests id with
  | none => s.finish slot .done
  | some row =>
    finish { s with
      db := { s.db.setRequest id { row with consumedAt := some now } with
        users := s.db.users.map fun user => if user.id = userId then
          { user with credentials := newCredentials cfg req, recoveryCodeConfirmedAt := none }
          else user
        webSessions := s.db.webSessions.map fun session =>
          if session.sessionHash ∈ revoked then { session with revokedAt := some now }
          else session }
      consumptions := s.consumptions ++ [⟨id, .reset, now, seen⟩]
      yields := s.yields ++ [.reset id userId] } slot .done

/-- A handler executes its next statement. -/
def advance (slot : ℕ) (freshId : Uuid) (freshHash : String) : AuthServer :=
  match s.calls slot with
  | none => s
  | some call => match call with
    | .collectWeb id => s.goto slot (.claimWeb id s.clock)
    | .claimWeb id now => s.claimWeb slot id now
    | .finishLogin id userId => s.finishLogin slot id userId freshHash
    | .collectReset id => s.collectReset slot id
    | .collectDevice id => s.goto slot (.claimDevice id s.clock)
    | .claimDevice id now => s.claimDevice slot id now
    | .insertDevice id now claimed seen => s.insertDevice cfg slot id now claimed seen freshId
    | .commitDevice id now claimed seen issued => s.commitDevice slot id now claimed seen issued
    | .respond device id status key publicKey =>
        s.goto slot (.updateStatus device id s.clock status key publicKey)
    | .updateStatus device id now status key publicKey =>
        s.updateStatus slot device id now status key publicKey
    | .approveReset device id req => s.goto slot (.lockReset device id s.clock req)
    | .lockReset device id now req => s.lockReset slot device id now req
    | .readApprovers device id now req => s.readApprovers cfg slot device id now req
    | .commitFirstApproval device id => s.commitFirstApproval slot device id
    | .commitSecondApproval device id now key publicKey =>
        s.commitSecondApproval slot device id now key publicKey
    | .completeReset id req => s.goto slot (.claimReset id s.clock req)
    | .claimReset id now req => s.claimReset slot id now req
    | .revokeSessions id now req userId seen => s.revokeSessions slot id now req userId seen
    | .commitReset id now req userId seen revoked =>
        s.commitReset cfg slot id now req userId seen revoked

/-- The registration of a device by another route. -/
def register (deviceId userId : Uuid) : AuthServer :=
  if (s.db.device? deviceId).isSome then s
  else { s with db := { s.db with devices := s.db.devices ++ [{
    id := deviceId, userId := userId, lastSeenAt := none, createdAt := s.clock, revokedAt := none,
    lastDeviceSequence := 0 }] } }

/-- The revocation of a device. -/
def revoke (deviceId : Uuid) : AuthServer :=
  { s with db := { s.db with devices := s.db.devices.map fun d =>
    if d.id = deviceId ∧ d.revokedAt = none then { d with revokedAt := some s.clock } else d } }

/-- One event. -/
def step (s : AuthServer) : AuthEvent → AuthServer
  | .tick time => { s with clock := max s.clock time }
  | .register deviceId userId => s.register deviceId userId
  | .revoke deviceId => s.revoke deviceId
  | .create id secret req => s.create cfg id secret req
  | .poll slot id req => s.enter slot (s.pollLookup cfg id req)
  | .respond slot deviceId id req => s.enter slot (s.respondLookup cfg deviceId id req)
  | .completeReset slot id req => s.enter slot (s.completeLookup cfg id req)
  | .advance slot freshId freshHash => s.advance cfg slot freshId freshHash
  | .drop slot => { s.unlock slot with calls := Function.update s.calls slot none }

/-- The state after a list of events. -/
abbrev run (s : AuthServer) (events : List AuthEvent) : AuthServer := Runs.run (step cfg) s events

end AuthServer

end HelixSync
