import HelixSync.Lib.Locks
import HelixSync.Server.AuthRequests

/-!
# Changing credentials

The handlers of `server/src/auth/routes.rs` and `server/src/auth/requests.rs` that let an account in
by its password, or replace its password or its recovery code: `login`, `change_password`,
`regenerate_recovery_code`, `recover_complete` and `complete_reset`.

Each reads what it verifies a request against, hashes for a while, and writes only then. As in
`HelixSync.Server.AuthRequests` a handler occupies a slot and executes one statement at a time. What
its transaction has written is kept with it until it commits, and so are its locks: on the row of the
user, and on the row of the request that it claims. An `UPDATE` that finds its row and finds it locked
waits, which is an event that changes nothing. Inserting a session waits for no lock, since the
foreign key asks only that the user stays.

What takes effect is recorded (`HelixSync.CredentialEffect`), with what it was verified against and
the database in which it took effect. That is when a transaction commits, or when a statement outside
of a transaction runs.

Left out are rate limits, the audit log, the caches (`HelixSync.Server.RevocationCaches`), the check
of the session that changes a password or a recovery code, and the columns that are only shown.
-/

namespace HelixSync

/-! ### Requests -/

/-- `LoginRequest`. -/
structure LoginRequest where
  email : String
  authKey : String

/-- `ChangePasswordRequest`. -/
structure ChangePasswordRequest where
  currentAuthKey : String
  newAuthKey : String
  newKdfSalt : String
  newKdfParams : Json
  newWrappedAk : String

/-- `RegenerateRecoveryCodeRequest`. -/
structure RegenerateRecoveryCodeRequest where
  currentAuthKey : String
  recoveryAuthKey : String
  recoveryWrappedAk : String

/-- `RecoverCompleteRequest`. -/
structure RecoverCompleteRequest where
  email : String
  recoveryAuthKey : String
  newAuthKey : String
  newKdfSalt : String
  newKdfParams : Json
  newWrappedAk : String
  newRecoveryAuthKey : String
  newRecoveryWrappedAk : String

/-- The configuration of the handlers, and argon2: the hash of a key with a salt, and whether a key is
the one of a hash. -/
structure PasswordConfig extends AuthConfig where
  argon2 : String → String → String
  verifyPassword : String → String → Bool

/-! ### What is written -/

/-- The columns of a password. -/
structure NewPassword where
  passwordHash : String
  kdfSalt : String
  kdfParams : Json
  wrappedAccountKey : String

/-- The columns of a recovery code. -/
structure NewRecovery where
  recoveryAuthHash : String
  recoveryWrappedAccountKey : String

/-- A user with a new password. -/
def UserRow.setPassword (user : UserRow) (password : NewPassword) : UserRow :=
  { user with credentials := { user.credentials with
    passwordHash := password.passwordHash, kdfSalt := password.kdfSalt,
    kdfParams := password.kdfParams, wrappedAccountKey := password.wrappedAccountKey } }

/-- A user with a new recovery code, which is unconfirmed. -/
def UserRow.setRecovery (user : UserRow) (recovery : NewRecovery) : UserRow :=
  { user with
    credentials := { user.credentials with
      recoveryAuthHash := recovery.recoveryAuthHash
      recoveryWrappedAccountKey := recovery.recoveryWrappedAccountKey }
    recoveryCodeConfirmedAt := none }

/-- What a handler has verified a request against: the password of the user, its recovery code, or a
request of kind `reset`, with the time of the transaction that claimed it. -/
inductive Authority where
  | password (hash : String)
  | recovery (hash : String)
  | approval (requestId : Uuid) (now : DateTime)

/-- A transaction that replaces the password of a user, with the session that is not revoked. -/
structure PasswordReplacement where
  userId : Uuid
  authority : Authority
  password : NewPassword
  recovery : Option NewRecovery
  keeps : Option String

namespace PasswordReplacement

variable (r : PasswordReplacement)

/-- The `WHERE` of the `UPDATE` of the user: a recovery has to match the recovery code that it has
verified. -/
def matchesUser (user : UserRow) : Bool :=
  match r.authority with
  | .recovery hash => user.credentials.recoveryAuthHash == hash
  | .password _ | .approval _ _ => true

/-- Whether no row is an error. -/
def checksRows : Bool :=
  match r.authority with
  | .recovery _ => true
  | .password _ | .approval _ _ => false

/-- The row of the user that is written. -/
def apply (user : UserRow) : UserRow :=
  match r.recovery with
  | none => user.setPassword r.password
  | some recovery => (user.setPassword r.password).setRecovery recovery

end PasswordReplacement

namespace AuthDb

variable (db : AuthDb)

/-- The row of a user is written. -/
def updateUser (userId : Uuid) (f : UserRow → UserRow) : AuthDb :=
  { db with users := db.users.map fun user => if user.id = userId then f user else user }

/-- The sessions of a user that a replacement of its password revokes. -/
def sessionsToRevoke (userId : Uuid) (keeps : Option String) : List String :=
  (db.webSessions.filter fun row =>
    row.userId = userId ∧ row.revokedAt = none ∧ some row.sessionHash ≠ keeps).map
      WebSessionRow.sessionHash

/-- Sessions are revoked. -/
def revokeSessions (hashes : List String) (now : DateTime) : AuthDb :=
  { db with webSessions := db.webSessions.map fun row =>
    if row.sessionHash ∈ hashes then { row with revokedAt := some now } else row }

/-- A request is consumed. -/
def consume (id : Uuid) (now : DateTime) : AuthDb :=
  { db with
    requests := Function.update db.requests id
      ((db.requests id).map fun row => { row with consumedAt := some now }) }

/-- What the statements before the claim of a replacement wrote: the request it has consumed. -/
def consumeFor : Authority → AuthDb
  | .approval id now => db.consume id now
  | .password _ | .recovery _ => db

/-- The commit of a transaction that replaces a password. -/
def replacePassword (r : PasswordReplacement) (revoked : List String) (now : DateTime) : AuthDb :=
  ((db.consumeFor r.authority).updateUser r.userId r.apply).revokeSessions revoked now

end AuthDb

/-! ### The server -/

/-- A handler, named after the statement it executes next. Those with a `now` are in a transaction
that began at that time. -/
inductive PasswordCall where
  /-- `login`, and `create_session`. -/
  | loginRead (email authKey : String)
  | createSession (userId : Uuid) (passwordHash : String)
  /-- `change_password`, from a session. -/
  | changeRead (userId : Uuid) (session : Option String) (req : ChangePasswordRequest)
  /-- `regenerate_recovery_code`. -/
  | regenerateRead (userId : Uuid) (req : RegenerateRecoveryCodeRequest)
  | regenerateUpdate (userId : Uuid) (passwordHash : String) (recovery : NewRecovery)
  /-- `recover_complete`, for a normalized email. -/
  | recoverRead (email : String) (req : RecoverCompleteRequest)
  /-- `complete_reset`. -/
  | resetRead (id : Uuid) (req : CompleteResetRequest)
  | resetBegin (id : Uuid) (password : NewPassword) (recovery : NewRecovery)
  | claimReset (id : Uuid) (now : DateTime) (password : NewPassword) (recovery : NewRecovery)
  /-- The transaction that replaces a password. -/
  | beginReplacement (r : PasswordReplacement)
  | updateUser (r : PasswordReplacement) (now : DateTime)
  | revokeSessions (r : PasswordReplacement) (now : DateTime)
  | commit (r : PasswordReplacement) (now : DateTime) (revoked : List String)

/-- What has taken effect, and the database in which it did: a session that was created by a login, a
recovery code that was regenerated, and a password that was replaced. -/
inductive CredentialEffect where
  | created (userId : Uuid) (passwordHash sessionHash : String) (seen : AuthDb)
  | regenerated (userId : Uuid) (passwordHash : String) (seen : AuthDb)
  | replaced (r : PasswordReplacement) (seen : AuthDb)

/-- The server, with what has taken effect. -/
structure PasswordServer where
  db : AuthDb
  clock : DateTime
  userLocks : Locks Uuid
  requestLocks : Locks Uuid
  calls : ℕ → Option PasswordCall
  answers : List (ℕ × Answer)
  effects : List CredentialEffect

/-- The events: time passes; a request comes in; a handler executes its next statement, or is cut off.
A salt or a session token that the server draws is in the event. -/
inductive PasswordEvent where
  | tick (time : DateTime)
  | login (slot : ℕ) (req : LoginRequest)
  | changePassword (slot : ℕ) (userId : Uuid) (session : Option String) (req : ChangePasswordRequest)
  | regenerateRecoveryCode (slot : ℕ) (userId : Uuid) (req : RegenerateRecoveryCodeRequest)
  | recoverComplete (slot : ℕ) (req : RecoverCompleteRequest)
  | completeReset (slot : ℕ) (id : Uuid) (req : CompleteResetRequest)
  | advance (slot : ℕ) (drawn : String)
  | drop (slot : ℕ)

/-- The slot whose handler an event is about. -/
def PasswordEvent.slot? : PasswordEvent → Option ℕ
  | .tick _ => none
  | .login slot _ | .changePassword slot _ _ _ | .regenerateRecoveryCode slot _ _
  | .recoverComplete slot _ | .completeReset slot _ _ | .advance slot _ | .drop slot => some slot

namespace PasswordServer

variable (cfg : PasswordConfig) (s : PasswordServer)

/-- A server with its database. -/
def start (db : AuthDb) (clock : DateTime) : PasswordServer where
  db := db
  clock := clock
  userLocks := Locks.empty
  requestLocks := Locks.empty
  calls := fun _ => none
  answers := []
  effects := []

/-! ### Slots -/

/-- A handler goes on to its next statement. -/
def goto (slot : ℕ) (call : PasswordCall) : PasswordServer :=
  { s with calls := Function.update s.calls slot (some call) }

/-- A slot is freed: its transaction is over, and its locks are given up. -/
def release (slot : ℕ) : PasswordServer :=
  { s with
    userLocks := s.userLocks.release slot
    requestLocks := s.requestLocks.release slot
    calls := Function.update s.calls slot none }

/-- A handler answers. -/
def finish (slot : ℕ) (answer : Answer) : PasswordServer :=
  { s.release slot with answers := s.answers ++ [(slot, answer)] }

/-- A request comes in that was checked, unless its slot is in use. -/
def enter {α : Type} (slot : ℕ) (checked : Except AuthError α) (first : α → PasswordCall) :
    PasswordServer :=
  if (s.calls slot).isSome then s
  else match checked with
  | .error e => { s with answers := s.answers ++ [(slot, .error e)] }
  | .ok value => s.goto slot (first value)

/-! ### The checks before the first statement

Those of `complete_reset` are `HelixSync.AuthServer.validateCompleteReset`. -/

/-- `login`. -/
def validateLogin (req : LoginRequest) : Except AuthError String := do
  let email ← requestEmail cfg.toAuthConfig req.email
  validateAuthKey cfg.toAuthConfig req.authKey
  return email

/-- `change_password`. -/
def validateChange (req : ChangePasswordRequest) : Except AuthError Unit := do
  validateAuthKey cfg.toAuthConfig req.currentAuthKey
  validateAuthKey cfg.toAuthConfig req.newAuthKey
  validateKdfSalt cfg.toAuthConfig "newKdfSalt" req.newKdfSalt
  validateKdfParams "newKdfParams" req.newKdfParams
  validateWrappedKey "newWrappedAk" req.newWrappedAk

/-- `regenerate_recovery_code`. -/
def validateRegenerate (req : RegenerateRecoveryCodeRequest) : Except AuthError Unit := do
  validateAuthKey cfg.toAuthConfig req.currentAuthKey
  validateAuthKey cfg.toAuthConfig req.recoveryAuthKey
  validateWrappedKey "recoveryWrappedAk" req.recoveryWrappedAk

/-- `recover_complete`. -/
def validateRecover (req : RecoverCompleteRequest) : Except AuthError String := do
  let email ← requestEmail cfg.toAuthConfig req.email
  validateAuthKey cfg.toAuthConfig req.recoveryAuthKey
  validateAuthKey cfg.toAuthConfig req.newAuthKey
  validateAuthKey cfg.toAuthConfig req.newRecoveryAuthKey
  validateKdfSalt cfg.toAuthConfig "newKdfSalt" req.newKdfSalt
  validateKdfParams "newKdfParams" req.newKdfParams
  validateWrappedKey "newWrappedAk" req.newWrappedAk
  validateWrappedKey "newRecoveryWrappedAk" req.newRecoveryWrappedAk
  return email

/-! ### What is read and verified -/

/-- `login`: the user is read, and the password verified. -/
def loginRead (slot : ℕ) (email authKey : String) : PasswordServer :=
  match s.db.userByEmail? email with
  | none => s.finish slot (.error .unauthorized)
  | some user =>
    if cfg.verifyPassword authKey user.credentials.passwordHash then
      s.goto slot (.createSession user.id user.credentials.passwordHash)
    else s.finish slot (.error .unauthorized)

/-- `change_password`: the same for the current password, and the new one is hashed. -/
def changeRead (slot : ℕ) (userId : Uuid) (session : Option String) (req : ChangePasswordRequest)
    (salt : String) : PasswordServer :=
  match s.db.user? userId with
  | none => s.finish slot (.error .internal)
  | some user =>
    if cfg.verifyPassword req.currentAuthKey user.credentials.passwordHash then
      s.goto slot (.beginReplacement {
        userId := userId, authority := .password user.credentials.passwordHash,
        password :=
          ⟨cfg.argon2 salt req.newAuthKey, req.newKdfSalt, req.newKdfParams, req.newWrappedAk⟩,
        recovery := none, keeps := session })
    else s.finish slot (.error .unauthorized)

/-- `regenerate_recovery_code`: the same. -/
def regenerateRead (slot : ℕ) (userId : Uuid) (req : RegenerateRecoveryCodeRequest) :
    PasswordServer :=
  match s.db.user? userId with
  | none => s.finish slot (.error .internal)
  | some user =>
    if cfg.verifyPassword req.currentAuthKey user.credentials.passwordHash then
      s.goto slot (.regenerateUpdate userId user.credentials.passwordHash
        ⟨cfg.hashToken req.recoveryAuthKey, req.recoveryWrappedAk⟩)
    else s.finish slot (.error .unauthorized)

/-- `recover_complete`: `verify_recovery_code`, and the new password is hashed. -/
def recoverRead (slot : ℕ) (email : String) (req : RecoverCompleteRequest) (salt : String) :
    PasswordServer :=
  match s.db.userByEmail? email with
  | none => s.finish slot (.error .unauthorized)
  | some user =>
    if tokenHashMatches cfg.toAuthConfig req.recoveryAuthKey user.credentials.recoveryAuthHash then
      s.goto slot (.beginReplacement {
        userId := user.id, authority := .recovery user.credentials.recoveryAuthHash,
        password :=
          ⟨cfg.argon2 salt req.newAuthKey, req.newKdfSalt, req.newKdfParams, req.newWrappedAk⟩,
        recovery := some ⟨cfg.hashToken req.newRecoveryAuthKey, req.newRecoveryWrappedAk⟩,
        keeps := none })
    else s.finish slot (.error .unauthorized)

/-- `complete_reset`: the secret is verified, and the new password is hashed. -/
def resetRead (slot : ℕ) (id : Uuid) (req : CompleteResetRequest) (salt : String) :
    PasswordServer :=
  match (s.db.requests id).filter fun row => row.kind = .reset with
  | none => s.finish slot (.error .unauthorized)
  | some row =>
    if tokenHashMatches cfg.toAuthConfig req.secret row.secretHash then
      s.goto slot (.resetBegin id
        ⟨cfg.argon2 salt req.newAuthKey, req.newKdfSalt, req.newKdfParams, req.newWrappedAk⟩
        ⟨cfg.hashToken req.newRecoveryAuthKey, req.newRecoveryWrappedAk⟩)
    else s.finish slot (.error .unauthorized)

/-! ### What is written, outside of a transaction -/

/-- `create_session`. Its token is not the one of another session. -/
def createSession (slot : ℕ) (userId : Uuid) (passwordHash sessionHash : String) : PasswordServer :=
  if ∃ row ∈ s.db.webSessions, row.sessionHash = sessionHash then s
  else finish { s with
    db := { s.db with webSessions := s.db.webSessions ++ [⟨sessionHash, userId, none⟩] }
    effects := s.effects ++ [.created userId passwordHash sessionHash s.db] } slot (.session userId)

/-- `regenerate_recovery_code`: the `UPDATE`. -/
def regenerateUpdate (slot : ℕ) (userId : Uuid) (passwordHash : String) (recovery : NewRecovery) :
    PasswordServer :=
  if s.userLocks.free slot userId then
    finish { s with
      db := s.db.updateUser userId fun user => user.setRecovery recovery
      effects := s.effects ++ [.regenerated userId passwordHash s.db] } slot .done
  else s

/-! ### The transaction that replaces a password -/

/-- The requests that `complete_reset` may claim. -/
def claimable? (db : AuthDb) (id : Uuid) (now : DateTime) : Option AuthRequestRow :=
  (db.requests id).filter fun row =>
    row.kind = .reset ∧ AuthServer.Collectable now row ∧ 2 ≤ (db.activeApprovers id).card

/-- `complete_reset`: the claim. -/
def claimReset (slot : ℕ) (id : Uuid) (now : DateTime) (password : NewPassword)
    (recovery : NewRecovery) : PasswordServer :=
  match claimable? s.db id now with
  | none => s.finish slot (.error .unauthorized)
  | some row =>
    if s.requestLocks.free slot id then
      goto { s with requestLocks := s.requestLocks.acquire slot id } slot (.updateUser {
        userId := row.userId, authority := .approval id now, password := password,
        recovery := some recovery, keeps := none } now)
    else s

/-- The `UPDATE` of the user. -/
def updateUser (slot : ℕ) (r : PasswordReplacement) (now : DateTime) : PasswordServer :=
  match (s.db.user? r.userId).filter r.matchesUser with
  | none => if r.checksRows then s.finish slot (.error .unauthorized)
      else s.goto slot (.revokeSessions r now)
  | some _ =>
    if s.userLocks.free slot r.userId then
      goto { s with userLocks := s.userLocks.acquire slot r.userId } slot (.revokeSessions r now)
    else s

/-- The commit. -/
def commit (slot : ℕ) (r : PasswordReplacement) (now : DateTime) (revoked : List String) :
    PasswordServer :=
  finish { s with
    db := s.db.replacePassword r revoked now
    effects := s.effects ++ [.replaced r s.db] } slot .done

/-! ### Events -/

/-- A handler executes its next statement. -/
def advance (slot : ℕ) (drawn : String) : PasswordServer :=
  match s.calls slot with
  | none => s
  | some call => match call with
    | .loginRead email authKey => s.loginRead cfg slot email authKey
    | .createSession userId passwordHash => s.createSession slot userId passwordHash drawn
    | .changeRead userId session req => s.changeRead cfg slot userId session req drawn
    | .regenerateRead userId req => s.regenerateRead cfg slot userId req
    | .regenerateUpdate userId passwordHash recovery =>
        s.regenerateUpdate slot userId passwordHash recovery
    | .recoverRead email req => s.recoverRead cfg slot email req drawn
    | .resetRead id req => s.resetRead cfg slot id req drawn
    | .resetBegin id password recovery => s.goto slot (.claimReset id s.clock password recovery)
    | .claimReset id now password recovery => s.claimReset slot id now password recovery
    | .beginReplacement r => s.goto slot (.updateUser r s.clock)
    | .updateUser r now => s.updateUser slot r now
    | .revokeSessions r now =>
        s.goto slot (.commit r now (s.db.sessionsToRevoke r.userId r.keeps))
    | .commit r now revoked => s.commit slot r now revoked

/-- One event. -/
def step (s : PasswordServer) : PasswordEvent → PasswordServer
  | .tick time => { s with clock := max s.clock time }
  | .login slot req =>
      s.enter slot (validateLogin cfg req) fun email => .loginRead email req.authKey
  | .changePassword slot userId session req =>
      s.enter slot (validateChange cfg req) fun _ => .changeRead userId session req
  | .regenerateRecoveryCode slot userId req =>
      s.enter slot (validateRegenerate cfg req) fun _ => .regenerateRead userId req
  | .recoverComplete slot req =>
      s.enter slot (validateRecover cfg req) fun email => .recoverRead email req
  | .completeReset slot id req =>
      s.enter slot (AuthServer.validateCompleteReset cfg.toAuthConfig req) fun _ => .resetRead id req
  | .advance slot drawn => s.advance cfg slot drawn
  | .drop slot => s.release slot

/-- The state after a list of events. -/
abbrev run (s : PasswordServer) (events : List PasswordEvent) : PasswordServer :=
  Runs.run (step cfg) s events

end PasswordServer

/-! ### Authorised by what is current -/

/-- **What was verified is current** in a database: the hash is the one that is stored, or the request
is approved, not consumed, not expired, and approved by two active devices. -/
def Authority.Current (db : AuthDb) (userId : Uuid) : Authority → Prop
  | .password hash => ∃ user ∈ db.user? userId, user.credentials.passwordHash = hash
  | .recovery hash => ∃ user ∈ db.user? userId, user.credentials.recoveryAuthHash = hash
  | .approval id now => ∃ row ∈ PasswordServer.claimable? db id now, row.userId = userId

instance (db : AuthDb) (userId : Uuid) : DecidablePred (Authority.Current db userId)
  | .password hash =>
      inferInstanceAs (Decidable (∃ user ∈ db.user? userId, user.credentials.passwordHash = hash))
  | .recovery hash =>
      inferInstanceAs (Decidable (∃ user ∈ db.user? userId, user.credentials.recoveryAuthHash = hash))
  | .approval id now => inferInstanceAs
      (Decidable (∃ row ∈ PasswordServer.claimable? db id now, row.userId = userId))

/-- A session of a user that was there and is revoked. -/
def AuthDb.SessionRevoked (db : AuthDb) (userId : Uuid) (sessionHash : String) : Prop :=
  (∃ row ∈ db.webSessions, row.sessionHash = sessionHash) ∧
    ∀ row ∈ db.webSessions, row.userId = userId → row.sessionHash = sessionHash →
      row.revokedAt ≠ none

instance (db : AuthDb) (userId : Uuid) : DecidablePred (db.SessionRevoked userId) :=
  fun _ => inferInstanceAs (Decidable (_ ∧ _))

/-- What is asked of something that took effect, in a later database: it was authorised by what was
current, or is a session that is revoked; and no session of the user from before its password was
replaced is left, but for the one it was replaced from. -/
def CredentialEffect.Authorised (db : AuthDb) : CredentialEffect → Prop
  | .created userId passwordHash sessionHash seen =>
      (Authority.password passwordHash).Current seen userId ∨ db.SessionRevoked userId sessionHash
  | .regenerated userId passwordHash seen => (Authority.password passwordHash).Current seen userId
  | .replaced r seen => r.authority.Current seen r.userId ∧
      ∀ row ∈ seen.webSessions, row.userId = r.userId → some row.sessionHash ≠ r.keeps →
        db.SessionRevoked r.userId row.sessionHash

instance (db : AuthDb) : DecidablePred (CredentialEffect.Authorised db)
  | .created _ _ _ _ => inferInstanceAs (Decidable (_ ∨ _))
  | .regenerated userId passwordHash seen =>
      inferInstanceAs (Decidable ((Authority.password passwordHash).Current seen userId))
  | .replaced _ _ => inferInstanceAs (Decidable (_ ∧ _))

namespace PasswordServer

/-- **Credential changes are linearizable**: everything that took effect was authorised. -/
def Linearized (s : PasswordServer) : Prop := ∀ effect ∈ s.effects, effect.Authorised s.db

instance (s : PasswordServer) : Decidable s.Linearized :=
  inferInstanceAs (Decidable (∀ effect ∈ s.effects, effect.Authorised s.db))

end PasswordServer

/-! ### What comes between -/

/-- Whether a statement reads the password that its handler verifies. -/
def PasswordCall.readsPassword : PasswordCall → Bool
  | .loginRead _ _ | .changeRead _ _ _ | .regenerateRead _ _ => true
  | .createSession _ _ | .regenerateUpdate _ _ _ | .recoverRead _ _ | .resetRead _ _
  | .resetBegin _ _ _ | .claimReset _ _ _ _ | .beginReplacement _ | .updateUser _ _
  | .revokeSessions _ _ | .commit _ _ _ => false

/-- Whether a statement picks the sessions that its handler revokes. -/
def PasswordCall.listsSessions : PasswordCall → Bool
  | .revokeSessions _ _ => true
  | .loginRead _ _ | .createSession _ _ | .changeRead _ _ _ | .regenerateRead _ _
  | .regenerateUpdate _ _ _ | .recoverRead _ _ | .resetRead _ _ | .resetBegin _ _ _
  | .claimReset _ _ _ _ | .beginReplacement _ | .updateUser _ _ | .commit _ _ _ => false

/-- The hash of the password that authorises something. -/
def Authority.passwordHash? : Authority → Option String
  | .password hash => some hash
  | .recovery _ | .approval _ _ => none

/-- The last password that was committed for a user. -/
def lastPassword? (userId : Uuid) (effects : List CredentialEffect) : Option String :=
  (effects.filterMap fun
    | .replaced r _ => if r.userId = userId then some r.password.passwordHash else none
    | .created _ _ _ _ | .regenerated _ _ _ => none).getLast?

/-- The sessions that were created for a user. -/
def createdSessions (userId : Uuid) (effects : List CredentialEffect) : List String :=
  effects.filterMap fun
    | .created u _ sessionHash _ => if u = userId then some sessionHash else none
    | .regenerated _ _ _ | .replaced _ _ => none

/-- A server that is watched: how much had taken effect when the handler of a slot last read a
password, and when it last picked the sessions to revoke. -/
structure PasswordWatch where
  server : PasswordServer
  readAt : ℕ → ℕ
  listedAt : ℕ → ℕ

namespace PasswordWatch

variable (cfg : PasswordConfig) (w : PasswordWatch)

/-- Before the first event. -/
def start (db : AuthDb) (clock : DateTime) : PasswordWatch :=
  ⟨PasswordServer.start db clock, fun _ => 0, fun _ => 0⟩

/-- The marks, moved to where a slot is if its next statement is one of those that set them. -/
def mark (sets : PasswordCall → Bool) (marks : ℕ → ℕ) : PasswordEvent → ℕ → ℕ
  | .advance slot _ => if (w.server.calls slot).any sets
      then Function.update marks slot w.server.effects.length else marks
  | .tick _ | .login _ _ | .changePassword _ _ _ _ | .regenerateRecoveryCode _ _ _
  | .recoverComplete _ _ | .completeReset _ _ _ | .drop _ => marks

/-- One event of the server. -/
def step (w : PasswordWatch) (e : PasswordEvent) : PasswordWatch where
  server := PasswordServer.step cfg w.server e
  readAt := w.mark PasswordCall.readsPassword w.readAt e
  listedAt := w.mark PasswordCall.listsSessions w.listedAt e

/-- What took effect since the handler of a slot read a password. -/
def sinceRead (slot : ℕ) : List CredentialEffect := w.server.effects.drop (w.readAt slot)

/-- What took effect since the handler of a slot picked the sessions to revoke. -/
def sinceListed (slot : ℕ) : List CredentialEffect := w.server.effects.drop (w.listedAt slot)

/-- The password that the handler of a slot has read gave way to another one. -/
def Overtaken (slot : ℕ) (userId : Uuid) (passwordHash : String) : Prop :=
  ∃ last ∈ lastPassword? userId (w.sinceRead slot), last ≠ passwordHash

/-- **What may not come between** the statements of a handler: from the one that reads the password
to the one that takes effect, the commit of another password of the user; and from the one that
revokes the sessions of a user to the commit, a session that is created for it. -/
def CallUndisturbed (slot : ℕ) (drawn : String) : PasswordCall → Prop
  | .createSession userId passwordHash =>
      (∀ row ∈ w.server.db.webSessions, row.sessionHash ≠ drawn) →
        ¬w.Overtaken slot userId passwordHash
  | .regenerateUpdate userId passwordHash _ =>
      w.server.userLocks.free slot userId = true → ¬w.Overtaken slot userId passwordHash
  | .commit r _ _ =>
      (∀ passwordHash ∈ r.authority.passwordHash?, ¬w.Overtaken slot r.userId passwordHash) ∧
      ∀ sessionHash ∈ createdSessions r.userId (w.sinceListed slot), some sessionHash = r.keeps
  | .loginRead _ _ | .changeRead _ _ _ | .regenerateRead _ _ | .recoverRead _ _ | .resetRead _ _
  | .resetBegin _ _ _ | .claimReset _ _ _ _ | .beginReplacement _ | .updateUser _ _
  | .revokeSessions _ _ => True

/-- The same of an event. -/
def Undisturbed (w : PasswordWatch) : PasswordEvent → Prop
  | .advance slot drawn =>
      ∀ call ∈ w.server.calls slot, w.CallUndisturbed slot drawn call
  | .tick _ | .login _ _ | .changePassword _ _ _ _ | .regenerateRecoveryCode _ _ _
  | .recoverComplete _ _ | .completeReset _ _ _ | .drop _ => True

instance (slot : ℕ) (userId : Uuid) : DecidablePred (w.Overtaken slot userId) := fun hash =>
  inferInstanceAs (Decidable (∃ last ∈ lastPassword? userId (w.sinceRead slot), last ≠ hash))

instance (slot : ℕ) (drawn : String) : DecidablePred (w.CallUndisturbed slot drawn)
  | .createSession _ _ | .regenerateUpdate _ _ _ => inferInstanceAs (Decidable (_ → ¬_))
  | .commit _ _ _ => inferInstanceAs (Decidable (_ ∧ _))
  | .loginRead _ _ | .changeRead _ _ _ | .regenerateRead _ _ | .recoverRead _ _ | .resetRead _ _
  | .resetBegin _ _ _ | .claimReset _ _ _ _ | .beginReplacement _ | .updateUser _ _
  | .revokeSessions _ _ => inferInstanceAs (Decidable True)

instance (w : PasswordWatch) : DecidablePred w.Undisturbed
  | .advance slot drawn =>
      inferInstanceAs (Decidable (∀ call ∈ w.server.calls slot, w.CallUndisturbed slot drawn call))
  | .tick _ | .login _ _ | .changePassword _ _ _ _ | .regenerateRecoveryCode _ _ _
  | .recoverComplete _ _ | .completeReset _ _ _ | .drop _ => inferInstanceAs (Decidable True)

end PasswordWatch

end HelixSync
