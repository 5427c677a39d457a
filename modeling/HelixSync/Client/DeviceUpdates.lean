import HelixSync.Client.DeviceRecord
import HelixSync.Lib.Runs
import Mathlib.Data.List.Basic
import Mathlib.Data.Nat.Basic
import Mathlib.Logic.Function.Basic

/-!
# Updates of the device record

Every update of the device record is a `getDevice`, later followed by a `putDevice` of the
whole record. Both are asynchronous: `getDevice` answers from the memory of its context (the
worker, or the popup), else from session storage, else from the database, and `putDevice`
encrypts two secrets before it stores anything. At each of these `await`s any other call may
run. What a call read is not looked at again, so an update undoes every update that was
stored since it read.

The refresh token suffers most: the server takes each token once (`refresh_credentials`,
`server/src/devices/routes.rs`), and one that comes back costs the device its registration.

* `HelixSync.Client.DeviceStore.Kept` – every field holds what was last set, and no refresh
  token gives way to an older one;
* `HelixSync.Client.DeviceStore.kept_iff` – this is so throughout exactly the runs in which
  every record put back agrees with the stored one outside the fields its update sets;
* `HelixSync.Client.DeviceStore.not_kept` – a checkpoint of the history import brings a spent
  token back.
-/

namespace HelixSync

namespace Client

/-- What a call reads the record for. -/
inductive DevicePurpose where
  /-- To send its refresh token. -/
  | refreshAccessToken
  | update (update : DeviceUpdate)
  deriving DecidableEq

/-- The `await` at which a call is suspended. -/
inductive DeviceStage where
  /-- In `getDevice`, at `chrome.storage.session.get`, -/
  | sessionGet
  /-- at `db.get`, -/
  | databaseGet
  /-- while the record found is decrypted, -/
  | decrypting (found : DeviceRecord)
  /-- or at `chrome.storage.session.set`. -/
  | sessionFill (found : DeviceRecord)
  /-- At the request for new tokens, the device and the token it is made with, -/
  | requesting (deviceId : String) (refreshToken : ℕ)
  /-- or once the server has answered it. -/
  | answered
  /-- In `putDevice`, while the secrets are encrypted: the record read, and the one to put, -/
  | encrypting (read record : DeviceRecord)
  /-- after `db.put`, -/
  | stored (record : DeviceRecord)
  /-- or at `chrome.storage.session.set`. -/
  | sessionSet (record : DeviceRecord)
  | finished
  deriving DecidableEq

/-- A call under way, or finished, and the context it runs in. -/
structure DeviceCall where
  context : ℕ
  purpose : DevicePurpose
  stage : DeviceStage
  deriving DecidableEq

/-- The three places that hold the record, the calls, and the server's side. -/
structure DeviceStore where
  /-- IndexedDB. -/
  stored : DeviceRecord
  /-- `chrome.storage.session`. -/
  session : Option DeviceRecord
  /-- `deviceCache`, in each context. -/
  memory : ℕ → Option DeviceRecord
  calls : List DeviceCall
  /-- The one refresh token the server has not rotated. -/
  valid : ℕ
  /-- Whether the server has revoked the device. -/
  revoked : Bool
  /-- What each field was last set to by an update of its own. -/
  lastSet : DeviceField → DeviceValue
  /-- The refresh token of every record stored so far. -/
  storedTokens : List ℕ

/-- What may happen next. -/
inductive DeviceEvent where
  /-- A call of `refreshAccessToken`. -/
  | refreshAccessToken (context : ℕ)
  /-- A call of a function that updates the record. A refresh is not called for. -/
  | update (context : ℕ) (update : DeviceUpdate)
  /-- The promise a call waits for resolves. -/
  | resume (index : ℕ)
  /-- The server handles the request of a call. -/
  | serve (index : ℕ) (accessToken accessTokenExpiresAt : String) (graceExpired : Bool)
  /-- The request of a call, or its answer, is lost. -/
  | lose (index : ℕ)
  /-- `invalidateDeviceMemory`, when session storage has changed. -/
  | invalidate (context : ℕ)
  /-- A context ends, with its calls. -/
  | restart (context : ℕ)

namespace DeviceStore

/-- A registered device that nothing has read yet. -/
def start (record : DeviceRecord) : DeviceStore where
  stored := record
  session := none
  memory := fun _ => none
  calls := []
  valid := record.refreshToken
  revoked := false
  lastSet := record.get
  storedTokens := [record.refreshToken]

/-- A call moves on. -/
def setCall (s : DeviceStore) (index : ℕ) (call : DeviceCall) : DeviceStore :=
  { s with calls := s.calls.set index call }

/-- `deviceCache = record`. -/
def remember (s : DeviceStore) (context : ℕ) (record : DeviceRecord) : DeviceStore :=
  { s with memory := Function.update s.memory context (some record) }

/-- What a call does with the answer of `getDevice`, up to its next `await`. -/
def afterRead (purpose : DevicePurpose) : Option DeviceRecord → DeviceStage
  | none => .finished
  | some read =>
      match purpose with
      | .refreshAccessToken => .requesting read.deviceId read.refreshToken
      | .update update =>
          if update.wanted read then .encrypting read (update.apply read) else .finished

/-- `getDevice`, up to its first `await`. -/
def getDevice (s : DeviceStore) (call : DeviceCall) : DeviceStage :=
  match s.memory call.context with
  | some record => afterRead call.purpose (some record)
  | none => .sessionGet

/-- A call is added. -/
def addCall (s : DeviceStore) (context : ℕ) (purpose : DevicePurpose) : DeviceStore :=
  { s with calls :=
      s.calls ++ [⟨context, purpose, s.getDevice ⟨context, purpose, .sessionGet⟩⟩] }

/-- Whether a call is a refresh under way. -/
def refreshing (call : DeviceCall) : Bool :=
  call.stage ≠ .finished &&
    match call.purpose with
    | .refreshAccessToken | .update (.refresh _ _ _ _) => true
    | _ => false

/-- `refreshAccessToken`: callers of one context share a refresh under way. -/
def refreshAccessToken (s : DeviceStore) (context : ℕ) : DeviceStore :=
  if s.calls.any fun call => call.context == context && refreshing call then s
  else s.addCall context .refreshAccessToken

/-- The transaction of `putDevice`. -/
def put (s : DeviceStore) (update : DeviceUpdate) (record : DeviceRecord) : DeviceStore :=
  { s with
    stored := record
    lastSet := fun field => if field ∈ update.sets then record.get field else s.lastSet field
    storedTokens := s.storedTokens ++ [record.refreshToken] }

/-- The promise a call waits for resolves. -/
def resume (s : DeviceStore) (index : ℕ) (call : DeviceCall) : DeviceStore :=
  match call.stage, call.purpose with
  | .sessionGet, purpose =>
      match s.session with
      | some record =>
          (s.remember call.context record).setCall index
            { call with stage := afterRead purpose (some record) }
      | none => s.setCall index { call with stage := .databaseGet }
  | .databaseGet, _ => s.setCall index { call with stage := .decrypting s.stored }
  | .decrypting found, _ =>
      (s.remember call.context found).setCall index { call with stage := .sessionFill found }
  | .sessionFill found, purpose =>
      -- the variable is returned, which may have been cleared since
      { s with session := some found }.setCall index
        { call with stage := afterRead purpose (s.memory call.context) }
  | .answered, _ => s.setCall index { call with stage := s.getDevice call }
  | .encrypting _ record, .update update =>
      (s.put update record).setCall index { call with stage := .stored record }
  | .stored record, _ =>
      (s.remember call.context record).setCall index { call with stage := .sessionSet record }
  | .sessionSet record, _ =>
      { s with session := some record }.setCall index { call with stage := .finished }
  | .encrypting _ _, .refreshAccessToken | .requesting _ _, _ | .finished, _ => s

/-- `refresh_credentials`: the valid token is rotated, a spent one refused, and after its
grace period taken for a theft. -/
def serve (s : DeviceStore) (index : ℕ) (call : DeviceCall)
    (accessToken accessTokenExpiresAt : String) (graceExpired : Bool) : DeviceStore :=
  match call.stage with
  | .requesting deviceId refreshToken =>
      if s.revoked = false ∧ refreshToken = s.valid then
        { s with valid := s.valid + 1 }.setCall index
          { call with
            purpose := .update (.refresh deviceId accessToken (s.valid + 1) accessTokenExpiresAt)
            stage := .answered }
      else
        { s with revoked := s.revoked || (graceExpired && refreshToken != s.valid) }.setCall index
          { call with stage := .finished }
  | _ => s

/-- One event. -/
def step (s : DeviceStore) : DeviceEvent → DeviceStore
  | .refreshAccessToken context => s.refreshAccessToken context
  | .update context update =>
      match update with
      | .refresh _ _ _ _ => s
      | update => s.addCall context (.update update)
  | .resume index =>
      match s.calls[index]? with
      | some call => s.resume index call
      | none => s
  | .serve index accessToken accessTokenExpiresAt graceExpired =>
      match s.calls[index]? with
      | some call => s.serve index call accessToken accessTokenExpiresAt graceExpired
      | none => s
  | .lose index =>
      match s.calls[index]? with
      | some call =>
          match call.stage with
          | .requesting _ _ | .answered => s.setCall index { call with stage := .finished }
          | _ => s
      | none => s
  | .invalidate context => { s with memory := Function.update s.memory context none }
  | .restart context =>
      { s with
        memory := Function.update s.memory context none
        calls := s.calls.map fun call =>
          if call.context = context then { call with stage := .finished } else call }

/-- **No update is lost.** -/
structure Kept (s : DeviceStore) : Prop where
  /-- Every field holds what an update of its own last set it to. -/
  fields_kept : ∀ field, s.stored.get field = s.lastSet field
  /-- The refresh token stored is not older than any that was stored before. -/
  token_kept : ∀ token ∈ s.storedTokens, token ≤ s.stored.refreshToken

/-- **The record put back is not stale**: when `db.put` of an update runs, the stored record
still agrees with the one that was read, in all the fields the update does not set. -/
def NotStale (s : DeviceStore) : DeviceEvent → Prop
  | .resume index => ∀ call ∈ s.calls[index]?, ∀ update read record,
      call.purpose = .update update → call.stage = .encrypting read record →
      ∀ field, field ∉ update.sets → read.get field = s.stored.get field
  | _ => True

/-! ### The tokens about

Every record anyone holds was stored once, so its token is not newer than the stored one.
The exception is a token the server has just issued, until it is stored: there is at most
one of these, since nobody can present it. -/

/-- Whether an update of the call is still to be stored. -/
def unstored : DeviceStage → Bool
  | .sessionGet | .databaseGet | .decrypting _ | .sessionFill _ | .answered | .encrypting _ _ => true
  | .requesting _ _ | .stored _ | .sessionSet _ | .finished => false

/-- The token a call has been issued and has not stored. -/
def newToken (call : DeviceCall) : Option ℕ :=
  match call.purpose with
  | .update (.refresh _ _ token _) => if unstored call.stage then some token else none
  | _ => none

/-- The tokens a call has read. -/
def readTokens : DeviceStage → List ℕ
  | .decrypting record | .sessionFill record | .stored record | .sessionSet record
  | .encrypting record _ => [record.refreshToken]
  | .requesting _ refreshToken => [refreshToken]
  | .sessionGet | .databaseGet | .answered | .finished => []

section Calls

variable {call : DeviceCall} {stage : DeviceStage} {purpose : DevicePurpose} {read : DeviceRecord}

/-- A call that moves on keeps its token or stores or drops it. -/
theorem newToken_moveOn (hunstored : unstored call.stage = true) :
    newToken { call with stage } = none ∨ newToken { call with stage } = newToken call := by
  rcases hpurpose : call.purpose with _ | update
  · simp [newToken, hpurpose]
  · cases update with
    | refresh deviceId accessToken token expires =>
      rcases hstage : unstored stage with _ | _
      · simp [newToken, hpurpose, hstage]
      · simp [newToken, hpurpose, hstage, hunstored]
    | _ => simp [newToken, hpurpose]

theorem newToken_of_stored (hstored : unstored call.stage = false) : newToken call = none := by
  rcases hpurpose : call.purpose with _ | update
  · simp [newToken, hpurpose]
  · cases update <;> simp [newToken, hpurpose, hstored]

/-- A call reads the record it was given, and puts back its update of that. -/
theorem readTokens_afterRead :
    ∀ token ∈ readTokens (afterRead purpose (some read)), token = read.refreshToken := by
  intro token htoken
  rcases purpose with _ | update
  · exact List.mem_singleton.mp htoken
  · rw [afterRead] at htoken
    split at htoken
    · exact List.mem_singleton.mp htoken
    · exact absurd htoken List.not_mem_nil

theorem afterRead_encrypting {answer : Option DeviceRecord} {record : DeviceRecord}
    {update : DeviceUpdate} (hstage : afterRead (.update update) answer = .encrypting read record) :
    record = update.apply read := by
  rcases answer with _ | found
  · cases hstage
  · rw [afterRead] at hstage
    split at hstage
    · cases hstage
      rfl
    · cases hstage

end Calls

/-! ### The invariant -/

/-- What may be said of one call, in a store whose token is `current`. -/
structure CallOk (current : ℕ) (call : DeviceCall) : Prop where
  read_le : ∀ token ∈ readTokens call.stage, token ≤ current
  record_eq : ∀ update read record, call.purpose = .update update →
    call.stage = .encrypting read record → record = update.apply read

/-- Nothing was lost, and no token is about that should not be. -/
structure Sound (s : DeviceStore) : Prop where
  kept : s.Kept
  valid_ge : s.stored.refreshToken ≤ s.valid
  session_le : ∀ record ∈ s.session, record.refreshToken ≤ s.stored.refreshToken
  memory_le : ∀ context, ∀ record ∈ s.memory context,
    record.refreshToken ≤ s.stored.refreshToken
  calls_ok : ∀ call ∈ s.calls, CallOk s.stored.refreshToken call
  new_lt : ∀ call ∈ s.calls, ∀ token ∈ newToken call,
    s.stored.refreshToken < token ∧ token = s.valid
  new_alone : ∀ (i j : ℕ) (ci cj : DeviceCall), s.calls[i]? = some ci → s.calls[j]? = some cj →
    newToken ci ≠ none → newToken cj ≠ none → i = j

theorem Sound.start (record : DeviceRecord) : (start record).Sound where
  kept := ⟨fun _ => rfl, by simp [DeviceStore.start]⟩
  valid_ge := Nat.le_refl _
  session_le := by simp [DeviceStore.start]
  memory_le := by simp [DeviceStore.start]
  calls_ok := by simp [DeviceStore.start]
  new_lt := by simp [DeviceStore.start]
  new_alone := by simp [DeviceStore.start]

section Moves

variable {s : DeviceStore} {index : ℕ} {call call' : DeviceCall}

/-- **A call moves on** without a token it did not have. -/
theorem Sound.setCall (h : s.Sound) (hcall : s.calls[index]? = some call)
    (hok : CallOk s.stored.refreshToken call')
    (hnew : newToken call' = none ∨ newToken call' = newToken call) :
    (s.setCall index call').Sound := by
  have hmem : call ∈ s.calls := List.mem_of_getElem? hcall
  refine { h with
    kept := ⟨h.kept.fields_kept, h.kept.token_kept⟩
    calls_ok := fun c hc => ?_
    new_lt := fun c hc token htoken => ?_
    new_alone := fun i j ci cj hi hj hci hcj => ?_ }
  · rcases List.mem_or_eq_of_mem_set hc with hc | rfl
    · exact h.calls_ok c hc
    · exact hok
  · rcases List.mem_or_eq_of_mem_set hc with hc | rfl
    · exact h.new_lt c hc token htoken
    · rcases hnew with hnone | hsame
      · rw [hnone] at htoken
        cases htoken
      · exact h.new_lt call hmem token (hsame ▸ htoken)
  · -- who has a token now had one before
    have hbefore : ∀ (k : ℕ) (ck : DeviceCall), (s.calls.set index call')[k]? = some ck → newToken ck ≠ none →
        ∃ c, s.calls[k]? = some c ∧ newToken c ≠ none := by
      intro k ck hk hck
      by_cases hki : k = index
      · subst hki
        have hlt := (List.getElem?_eq_some_iff.mp hcall).1
        rw [List.getElem?_set_self hlt] at hk
        obtain rfl := Option.some.inj hk
        exact ⟨call, hcall, (hnew.resolve_left hck) ▸ hck⟩
      · rw [List.getElem?_set_ne (Ne.symm hki)] at hk
        exact ⟨ck, hk, hck⟩
    obtain ⟨bi, hbi, hnbi⟩ := hbefore i ci hi hci
    obtain ⟨bj, hbj, hnbj⟩ := hbefore j cj hj hcj
    exact h.new_alone i j bi bj hbi hbj hnbi hnbj

/-- It may always end. -/
theorem Sound.finish (h : s.Sound) (hcall : s.calls[index]? = some call) :
    (s.setCall index { call with stage := .finished }).Sound :=
  h.setCall hcall ⟨by simp [readTokens], by simp⟩ (Or.inl (newToken_of_stored rfl))

theorem Sound.remember (h : s.Sound) {record : DeviceRecord} (context : ℕ)
    (hle : record.refreshToken ≤ s.stored.refreshToken) : (s.remember context record).Sound := by
  refine { h with
    kept := ⟨h.kept.fields_kept, h.kept.token_kept⟩
    memory_le := fun other found hfound => ?_ }
  change found ∈ Function.update s.memory context (some record) other at hfound
  by_cases hother : other = context
  · subst hother
    rw [Function.update_self] at hfound
    obtain rfl := Option.some.inj hfound
    exact hle
  · rw [Function.update_of_ne hother] at hfound
    exact h.memory_le other found hfound

theorem Sound.fillSession (h : s.Sound) {record : DeviceRecord}
    (hle : record.refreshToken ≤ s.stored.refreshToken) :
    ({ s with session := some record } : DeviceStore).Sound :=
  { h with
    kept := ⟨h.kept.fields_kept, h.kept.token_kept⟩
    session_le := fun found hfound => by
      obtain rfl := Option.some.inj hfound
      exact hle }

theorem Sound.forget (h : s.Sound) (context : ℕ) :
    ({ s with memory := Function.update s.memory context none } : DeviceStore).Sound := by
  refine { h with
    kept := ⟨h.kept.fields_kept, h.kept.token_kept⟩
    memory_le := fun other found hfound => ?_ }
  change found ∈ Function.update s.memory context none other at hfound
  by_cases hother : other = context
  · subst hother
    rw [Function.update_self] at hfound
    cases hfound
  · rw [Function.update_of_ne hother] at hfound
    exact h.memory_le other found hfound

/-- The stage after an answer of `getDevice`. -/
theorem callOk_afterRead {current : ℕ} {answer : Option DeviceRecord}
    (hle : ∀ record ∈ answer, record.refreshToken ≤ current) :
    CallOk current { call with stage := afterRead call.purpose answer } where
  read_le token htoken := by
    rcases answer with _ | read
    · exact absurd htoken List.not_mem_nil
    · rw [readTokens_afterRead token htoken]
      exact hle read rfl
  record_eq update read record hpurpose hstage := by
    change call.purpose = _ at hpurpose
    change afterRead call.purpose answer = _ at hstage
    rw [hpurpose] at hstage
    exact afterRead_encrypting hstage

/-- `getDevice`, from the memory or not. -/
theorem Sound.callOk_getDevice (h : s.Sound) (call : DeviceCall) :
    CallOk s.stored.refreshToken { call with stage := s.getDevice call } := by
  rcases hmemory : s.memory call.context with _ | record
  · have hstage : s.getDevice call = .sessionGet := by rw [getDevice, hmemory]
    rw [hstage]
    exact ⟨by simp [readTokens], by simp⟩
  · have hstage : s.getDevice call = afterRead call.purpose (some record) := by
      rw [getDevice, hmemory]
    rw [hstage]
    refine callOk_afterRead fun found hfound => ?_
    obtain rfl := Option.some.inj hfound
    exact h.memory_le call.context record hmemory

/-- **A call is added**, without a token. -/
theorem Sound.addCall (h : s.Sound) {context : ℕ} {purpose : DevicePurpose}
    (hnew : ∀ stage, newToken ⟨context, purpose, stage⟩ = none) :
    (s.addCall context purpose).Sound := by
  have hok : CallOk s.stored.refreshToken
      ⟨context, purpose, s.getDevice ⟨context, purpose, .sessionGet⟩⟩ :=
    h.callOk_getDevice ⟨context, purpose, .sessionGet⟩
  refine { h with
    kept := ⟨h.kept.fields_kept, h.kept.token_kept⟩
    calls_ok := fun c hc => ?_
    new_lt := fun c hc token htoken => ?_
    new_alone := fun i j ci cj hi hj hci hcj => ?_ }
  · rcases List.mem_append.mp hc with hc | hc
    · exact h.calls_ok c hc
    · obtain rfl := List.mem_singleton.mp hc
      exact hok
  · rcases List.mem_append.mp hc with hc | hc
    · exact h.new_lt c hc token htoken
    · obtain rfl := List.mem_singleton.mp hc
      rw [hnew] at htoken
      cases htoken
  · have hbefore : ∀ (k : ℕ) (ck : DeviceCall),
        (s.addCall context purpose).calls[k]? = some ck → newToken ck ≠ none →
          s.calls[k]? = some ck := by
      intro k ck hk hck
      change (s.calls ++ [_])[k]? = some ck at hk
      rw [List.getElem?_append] at hk
      split at hk
      · exact hk
      · have hmem := List.mem_singleton.mp (List.mem_of_getElem? hk)
        rw [hmem, hnew] at hck
        exact absurd rfl hck
    exact h.new_alone i j ci cj (hbefore i ci hi hci) (hbefore j cj hj hcj) hci hcj

end Moves

section Storing

variable {s : DeviceStore} {index : ℕ} {call : DeviceCall} {update : DeviceUpdate}
  {read record : DeviceRecord}

/-- **A record is stored** that agrees with the stored one outside the update's own fields.
Its token is that of the stored one, unless nobody else has a newer one. -/
theorem Sound.put (h : s.Sound) (hfields : ∀ field, field ∉ update.sets →
      record.get field = s.stored.get field)
    (hrising : s.stored.refreshToken ≤ record.refreshToken) (hvalid : record.refreshToken ≤ s.valid)
    (hnew : record.refreshToken = s.stored.refreshToken ∨ ∀ call ∈ s.calls, newToken call = none) :
    (s.put update record).Sound := by
  refine {
    kept := ⟨fun field => ?_, fun token htoken => ?_⟩
    valid_ge := hvalid
    session_le := fun found hfound => (h.session_le found hfound).trans hrising
    memory_le := fun context found hfound => (h.memory_le context found hfound).trans hrising
    calls_ok := fun c hc =>
      ⟨fun token htoken => ((h.calls_ok c hc).read_le token htoken).trans hrising,
        (h.calls_ok c hc).record_eq⟩
    new_lt := fun c hc token htoken => ?_
    new_alone := h.new_alone }
  · change record.get field = if field ∈ update.sets then record.get field else s.lastSet field
    split
    · rfl
    · rename_i hother
      rw [hfields field hother, h.kept.fields_kept]
  · rcases List.mem_append.mp htoken with htoken | htoken
    · exact (h.kept.token_kept token htoken).trans hrising
    · exact (List.mem_singleton.mp htoken).le
  · rcases hnew with hsame | hnone
    · change record.refreshToken < token ∧ token = s.valid
      rw [hsame]
      exact h.new_lt c hc token htoken
    · rw [hnone c hc] at htoken
      cases htoken

/-- An update that sets the token is a refresh, and the token it sets is a new one. -/
theorem newToken_of_sets (hpurpose : call.purpose = .update update)
    (hstage : call.stage = .encrypting read (update.apply read))
    (hsets : .refreshToken ∈ update.sets) :
    newToken call = some (update.apply read).refreshToken := by
  cases update with
  | refresh deviceId accessToken token expires =>
    rw [newToken, hpurpose]
    dsimp only
    rw [hstage]
    rfl
  | checkpoint fields _ _ => cases fields <;> simp [DeviceUpdate.sets] at hsets
  | clearCheckpoint fields => cases fields <;> simp [DeviceUpdate.sets] at hsets
  | _ => simp [DeviceUpdate.sets] at hsets

/-- **`db.put` runs** for a call whose record is not stale. -/
theorem Sound.resumeEncrypting (h : s.Sound) (hcall : s.calls[index]? = some call)
    (hpurpose : call.purpose = .update update) (hstage : call.stage = .encrypting read record)
    (hok : ∀ field, field ∉ update.sets → read.get field = s.stored.get field) :
    ((s.put update record).setCall index { call with stage := .stored record }).Sound := by
  have hmem : call ∈ s.calls := List.mem_of_getElem? hcall
  have hlt : index < s.calls.length := (List.getElem?_eq_some_iff.mp hcall).1
  obtain rfl := (h.calls_ok call hmem).record_eq update read record hpurpose hstage
  -- the call is set aside, so that what it was issued is no longer new
  have haside := h.finish hcall
  have hput : ((s.setCall index { call with stage := .finished }).put update
      (update.apply read)).Sound := by
    have hfields : ∀ field, field ∉ update.sets →
        (update.apply read).get field = s.stored.get field := fun field hother =>
      (DeviceUpdate.get_apply hother read).trans (hok field hother)
    by_cases hsets : .refreshToken ∈ update.sets
    · have hnew := newToken_of_sets hpurpose hstage hsets
      obtain ⟨hrising, hvalid⟩ := h.new_lt call hmem _ hnew
      refine haside.put hfields hrising.le hvalid.le (Or.inr fun other hother => ?_)
      obtain ⟨j, hj⟩ := List.mem_iff_getElem?.mp hother
      change (s.calls.set index _)[j]? = some other at hj
      by_cases hji : j = index
      · subst hji
        rw [List.getElem?_set_self hlt] at hj
        obtain rfl := Option.some.inj hj
        exact newToken_of_stored rfl
      · rw [List.getElem?_set_ne (Ne.symm hji)] at hj
        by_contra hhas
        exact hji (h.new_alone j index other call hj hcall hhas (by rw [hnew]; simp))
    · have hsame : (update.apply read).refreshToken = s.stored.refreshToken := by
        have hget := hfields .refreshToken hsets
        simp only [DeviceRecord.get, DeviceValue.number.injEq, Option.some.injEq] at hget
        exact Int.ofNat.inj hget
      exact haside.put hfields hsame.ge (hsame.le.trans h.valid_ge) (Or.inl hsame)
  have hat : ((s.setCall index { call with stage := .finished }).put update
      (update.apply read)).calls[index]? = some { call with stage := .finished } :=
    List.getElem?_set_self hlt
  have hstored : (((s.setCall index { call with stage := .finished }).put update
      (update.apply read)).setCall index
        { call with stage := .stored (update.apply read) }).Sound :=
    hput.setCall hat ⟨fun token htoken => (List.mem_singleton.mp htoken).le, by simp⟩
      (Or.inl (newToken_of_stored rfl))
  simpa only [DeviceStore.setCall, DeviceStore.put, List.set_set] using hstored

end Storing

section Steps

variable {s : DeviceStore} {index : ℕ} {call : DeviceCall}

/-- **A call resumes.** -/
theorem Sound.resume (h : s.Sound) (hcall : s.calls[index]? = some call)
    (hok : s.NotStale (.resume index)) : (s.resume index call).Sound := by
  have hmem : call ∈ s.calls := List.mem_of_getElem? hcall
  have hread := (h.calls_ok call hmem).read_le
  unfold DeviceStore.resume
  rcases hstage : call.stage with _ | _ | found | found | ⟨deviceId, token⟩ | _ | ⟨read, record⟩ |
    record | record | _
  · -- at `chrome.storage.session.get`
    dsimp only
    rcases hsession : s.session with _ | record
    · exact h.setCall hcall ⟨by simp [readTokens], by simp⟩ (newToken_moveOn (by rw [hstage]; rfl))
    · have hle := h.session_le record hsession
      refine (h.remember call.context hle).setCall hcall ?_ (newToken_moveOn (by rw [hstage]; rfl))
      refine callOk_afterRead fun found hfound => ?_
      obtain rfl := Option.some.inj hfound
      exact hle
  · exact h.setCall hcall ⟨fun token htoken => (List.mem_singleton.mp htoken).le, by simp⟩
      (newToken_moveOn (by rw [hstage]; rfl))
  · rw [hstage] at hread
    have hle := hread found.refreshToken List.mem_cons_self
    exact (h.remember call.context hle).setCall hcall
      ⟨fun token htoken => (List.mem_singleton.mp htoken).trans_le hle, by simp⟩
      (newToken_moveOn (by rw [hstage]; rfl))
  · rw [hstage] at hread
    have hle := hread found.refreshToken List.mem_cons_self
    refine (h.fillSession hle).setCall hcall ?_ (newToken_moveOn (by rw [hstage]; rfl))
    exact callOk_afterRead (h.memory_le call.context)
  · exact h
  · exact h.setCall hcall (h.callOk_getDevice call) (newToken_moveOn (by rw [hstage]; rfl))
  · -- while the secrets are encrypted
    rcases hpurpose : call.purpose with _ | update
    · exact h
    · simpa only [hpurpose] using h.resumeEncrypting hcall hpurpose hstage
        (hok call hcall update read record hpurpose hstage)
  · rw [hstage] at hread
    have hle := hread record.refreshToken List.mem_cons_self
    exact (h.remember call.context hle).setCall hcall
      ⟨fun token htoken => (List.mem_singleton.mp htoken).trans_le hle, by simp⟩
      (Or.inl (newToken_of_stored rfl))
  · rw [hstage] at hread
    have hle := hread record.refreshToken List.mem_cons_self
    exact (h.fillSession hle).setCall hcall ⟨by simp [readTokens], by simp⟩
      (Or.inl (newToken_of_stored rfl))
  · exact h

/-- **The server handles a request.** The token it accepts is not older than the stored one,
so nobody has a newer one yet. -/
theorem Sound.serve (h : s.Sound) (hcall : s.calls[index]? = some call)
    (accessToken accessTokenExpiresAt : String) (graceExpired : Bool) :
    (s.serve index call accessToken accessTokenExpiresAt graceExpired).Sound := by
  have hmem : call ∈ s.calls := List.mem_of_getElem? hcall
  have hlt : index < s.calls.length := (List.getElem?_eq_some_iff.mp hcall).1
  unfold DeviceStore.serve
  rcases hstage : call.stage with _ | _ | found | found | ⟨deviceId, token⟩ | _ | ⟨read, record⟩ |
    record | record | _
  case requesting =>
    dsimp only
    split
    · rename_i haccepted
      obtain ⟨-, rfl⟩ := haccepted
      have hle := (h.calls_ok call hmem).read_le s.valid (by rw [hstage]; exact List.mem_cons_self)
      have hnone : ∀ c ∈ s.calls, newToken c = none := fun c hc => by
        by_contra hhas
        obtain ⟨token, htoken⟩ := Option.ne_none_iff_exists'.mp hhas
        obtain ⟨hnewer, rfl⟩ := h.new_lt c hc token htoken
        omega
      refine { h with
        kept := ⟨h.kept.fields_kept, h.kept.token_kept⟩
        valid_ge := h.valid_ge.trans (Nat.le_succ _)
        calls_ok := fun c hc => ?_
        new_lt := fun c hc token htoken => ?_
        new_alone := fun i j ci cj hi hj hci hcj => ?_ }
      · rcases List.mem_or_eq_of_mem_set hc with hc | rfl
        · exact h.calls_ok c hc
        · exact ⟨by simp [readTokens], by simp⟩
      · rcases List.mem_or_eq_of_mem_set hc with hc | rfl
        · rw [hnone c hc] at htoken
          cases htoken
        · obtain rfl := Option.some.inj htoken
          exact ⟨Nat.lt_succ_of_le h.valid_ge, rfl⟩
      · have hat : ∀ (k : ℕ) (ck : DeviceCall), (s.calls.set index
            { call with
              purpose := .update (.refresh deviceId accessToken (s.valid + 1) accessTokenExpiresAt)
              stage := .answered })[k]? = some ck → newToken ck ≠ none → k = index := by
          intro k ck hk hck
          by_contra hki
          rw [List.getElem?_set_ne (Ne.symm hki)] at hk
          exact hck (hnone ck (List.mem_of_getElem? hk))
        exact (hat i ci hi hci).trans (hat j cj hj hcj).symm
    · have hfinished := h.finish hcall
      exact { hfinished with kept := ⟨h.kept.fields_kept, h.kept.token_kept⟩ }
  all_goals exact h

/-- A context ends. -/
theorem Sound.restart (h : s.Sound) (context : ℕ) : (s.step (.restart context)).Sound := by
  have hforget := h.forget context
  -- a call that remains is as it was
  have hremains : ∀ c : DeviceCall,
      newToken (if c.context = context then { c with stage := .finished } else c) ≠ none →
      newToken (if c.context = context then { c with stage := .finished } else c) = newToken c ∧
        newToken c ≠ none := by
    intro c hc
    split at hc
    · exact absurd (newToken_of_stored rfl) hc
    · rename_i hother
      rw [if_neg hother]
      exact ⟨rfl, hc⟩
  refine { hforget with
    kept := ⟨h.kept.fields_kept, h.kept.token_kept⟩
    calls_ok := fun c hc => ?_
    new_lt := fun c hc token htoken => ?_
    new_alone := fun i j ci cj hi hj hci hcj => ?_ }
  · obtain ⟨before, hbefore, rfl⟩ := List.mem_map.mp hc
    split
    · exact ⟨by simp [readTokens], by simp⟩
    · exact h.calls_ok before hbefore
  · obtain ⟨before, hbefore, rfl⟩ := List.mem_map.mp hc
    have hsame := (hremains before (by rw [Option.mem_def.mp htoken]; simp)).1
    exact h.new_lt before hbefore token (hsame ▸ htoken)
  · obtain ⟨bi, hbi, rfl⟩ := Option.map_eq_some_iff.mp (List.getElem?_map .. ▸ hi)
    obtain ⟨bj, hbj, rfl⟩ := Option.map_eq_some_iff.mp (List.getElem?_map .. ▸ hj)
    exact h.new_alone i j bi bj hbi hbj (hremains bi hci).2 (hremains bj hcj).2

/-- **One event** that puts back no stale record. -/
theorem Sound.step (h : s.Sound) {event : DeviceEvent} (hok : s.NotStale event) :
    (s.step event).Sound := by
  cases event with
  | refreshAccessToken context =>
    change (s.refreshAccessToken context).Sound
    unfold DeviceStore.refreshAccessToken
    split
    · exact h
    · exact h.addCall fun _ => rfl
  | update context update =>
    cases update with
    | refresh _ _ _ _ => exact h
    | _ => exact h.addCall fun _ => rfl
  | resume index =>
    rcases hcall : s.calls[index]? with _ | call
    · simpa only [DeviceStore.step, hcall] using h
    · simpa only [DeviceStore.step, hcall] using h.resume hcall hok
  | serve index accessToken accessTokenExpiresAt graceExpired =>
    rcases hcall : s.calls[index]? with _ | call
    · simpa only [DeviceStore.step, hcall] using h
    · simpa only [DeviceStore.step, hcall] using
        h.serve hcall accessToken accessTokenExpiresAt graceExpired
  | lose index =>
    rcases hcall : s.calls[index]? with _ | call
    · simpa only [DeviceStore.step, hcall] using h
    · have hfinished := h.finish hcall
      simp only [DeviceStore.step, hcall]
      split
      · exact hfinished
      · exact hfinished
      · exact h
  | invalidate context => exact h.forget context
  | restart context => exact h.restart context

/-- A stale record reverts a field that is not its own. -/
theorem Sound.not_kept (h : s.Sound) {event : DeviceEvent} (hbad : ¬s.NotStale event) :
    ¬(s.step event).Kept := by
  intro hkept
  cases event with
  | resume index =>
    simp only [NotStale, not_forall] at hbad
    obtain ⟨call, hcall, update, read, record, hpurpose, hstage, field, hother, hchanged⟩ := hbad
    have hmem : call ∈ s.calls := List.mem_of_getElem? hcall
    have hstep : s.step (.resume index) =
        (s.put update record).setCall index { call with stage := .stored record } := by
      simp only [DeviceStore.step, Option.mem_def.mp hcall, DeviceStore.resume, hstage, hpurpose]
    rw [hstep] at hkept
    have hfield : record.get field =
        if field ∈ update.sets then record.get field else s.lastSet field :=
      hkept.fields_kept field
    rw [if_neg hother, (h.calls_ok call hmem).record_eq update read record hpurpose hstage,
      DeviceUpdate.get_apply hother, ← h.kept.fields_kept] at hfield
    exact hchanged hfield
  | refreshAccessToken _ => exact hbad trivial
  | update _ _ => exact hbad trivial
  | serve _ _ _ _ => exact hbad trivial
  | lose _ => exact hbad trivial
  | invalidate _ => exact hbad trivial
  | restart _ => exact hbad trivial

end Steps

/-- **No update is lost** in any state of a run exactly if no stale record is put back. -/
theorem kept_iff (record : DeviceRecord) (events : List DeviceEvent) :
    Runs.Always step Kept (start record) events ↔ Runs.Meets step NotStale (start record) events :=
  Runs.always_iff_meets (I := Sound) (fun _ h => h.kept) (fun _ _ h hok => h.step hok)
    (fun _ _ h hbad => h.not_kept hbad) (Sound.start record)

/-- A device in the middle of its import. -/
def importingDevice : DeviceRecord where
  deviceId := "laptop"
  accessToken := "expired"
  accessTokenExpiresAt := "2026-01-01T00:00:00Z"
  refreshToken := 0
  initialImportCompletedAt := none
  historyBulkCutoffMs := some 0
  historyBulkEndMs := some 1000
  historyBulkOperationId := none
  historyBulkObjectId := none
  historyBulkUploadedChunks := none
  historyBulkUploadedVisits := none
  historyOlderCutoffMs := none
  historyOlderEndMs := none
  historyOlderUploadedChunks := none
  historyOlderUploadedVisits := none

/-- A chunk is uploaded, and while the record is encrypted with its checkpoint another request
refreshes the tokens. Then the worker is restarted, and needs new tokens again. -/
def refreshDuringCheckpoint : List DeviceEvent :=
  [.update 0 (.checkpoint .initial 1 100), .resume 0, .resume 0, .resume 0, .resume 0,
    .refreshAccessToken 0, .serve 1 "fresh" "2026-01-01T01:00:00Z" false, .resume 1, .resume 1,
    .resume 0, .resume 0, .resume 0, .restart 0, .refreshAccessToken 0, .resume 2,
    .serve 2 "fresh" "2026-01-01T02:00:00Z" true]

/-- The checkpoint puts the spent token back, and its next use gets the device revoked. -/
theorem not_kept :
    (Runs.run step (start importingDevice) refreshDuringCheckpoint).storedTokens = [0, 1, 0] ∧
      (Runs.run step (start importingDevice) refreshDuringCheckpoint).revoked = true ∧
      ¬Runs.Always step Kept (start importingDevice) refreshDuringCheckpoint := by
  have htokens : (Runs.run step (start importingDevice) refreshDuringCheckpoint).storedTokens =
      [0, 1, 0] := by decide
  have hcurrent : (Runs.run step (start importingDevice)
      refreshDuringCheckpoint).stored.refreshToken = 0 := by decide
  refine ⟨htokens, by decide, fun hkept => ?_⟩
  have hlast : (Runs.run step (start importingDevice) refreshDuringCheckpoint).Kept :=
    Runs.always_iff_take.mp hkept 16
  have hle := hlast.token_kept 1 (by rw [htokens]; decide)
  omega

end DeviceStore

end Client

end HelixSync
