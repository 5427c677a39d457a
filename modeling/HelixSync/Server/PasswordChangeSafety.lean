import HelixSync.Server.PasswordChanges

/-!
# What credential changes hold on to

A recovery matches the recovery code it has verified in the statement that replaces it, and a reset
claims its approval in the transaction that uses it; both hold their locks from there to the commit
(`HelixSync.PasswordServer.Written`), so they are authorised whatever else runs. A login, a change of
the password and a regeneration of the recovery code write without looking at the password again, and
a session that is created does not wait for the transaction that revokes the sessions: what takes
effect is authorised exactly if the password is the same still, and no session is missed
(`HelixSync.PasswordServer.linearized_step_iff`). What may come between for that is
`HelixSync.Server.PasswordOvertaking`.
-/

namespace HelixSync

/-! ### Rows -/

namespace PasswordReplacement

@[simp] theorem apply_id (r : PasswordReplacement) (user : UserRow) : (r.apply user).id = user.id := by
  unfold apply
  cases r.recovery <;> rfl

end PasswordReplacement

namespace AuthDb

variable {db : AuthDb} {userId u : Uuid} {f : UserRow → UserRow}

/-- A row that is written keeps its place. -/
theorem user?_updateUser (hid : ∀ user, (f user).id = user.id) :
    (db.updateUser userId f).user? u =
      (db.user? u).map fun user => if user.id = userId then f user else user := by
  have hkeep : ∀ user : UserRow, (if user.id = userId then f user else user).id = user.id := by
    intro user
    split
    · exact hid user
    · rfl
  show (db.users.map _).find? _ = _
  rw [List.find?_map]
  simp only [Function.comp_def, hkeep]
  rfl

theorem user?_updateUser_of_ne (hid : ∀ user, (f user).id = user.id) (hne : u ≠ userId) :
    (db.updateUser userId f).user? u = db.user? u := by
  rw [user?_updateUser hid]
  cases hfound : db.user? u with
  | none => rfl
  | some user =>
    have huser : user.id = u := by simpa using List.find?_some hfound
    exact congrArg some (if_neg (huser ▸ hne))

theorem user?_updateUser_eq_none (hid : ∀ user, (f user).id = user.id) (h : db.user? u = none) :
    (db.updateUser userId f).user? u = none := by
  rw [user?_updateUser hid, h]
  rfl

/-! What a transaction writes besides the row of the user. -/

@[simp] theorem consumeFor_users (authority : Authority) :
    (db.consumeFor authority).users = db.users := by
  cases authority <;> rfl

@[simp] theorem consumeFor_webSessions (authority : Authority) :
    (db.consumeFor authority).webSessions = db.webSessions := by
  cases authority <;> rfl

theorem consumeFor_activeApprovers (authority : Authority) (id : Uuid) :
    (db.consumeFor authority).activeApprovers id = db.activeApprovers id := by
  cases authority <;> rfl

/-- Only the request that was claimed is consumed. -/
theorem consumeFor_requests {authority : Authority} {id : Uuid}
    (hne : ∀ now, authority ≠ .approval id now) :
    (db.consumeFor authority).requests id = db.requests id := by
  cases authority with
  | password | recovery => rfl
  | approval requestId now =>
    refine Function.update_of_ne ?_ _ _
    rintro rfl
    exact hne now rfl

/-! What a replacement leaves of another database. -/

theorem replacePassword_user?_of_ne {r : PasswordReplacement} {revoked : List String}
    {now : DateTime} (hne : u ≠ r.userId) :
    (db.replacePassword r revoked now).user? u = db.user? u := by
  show ((db.consumeFor r.authority).updateUser r.userId r.apply).user? u = _
  rw [user?_updateUser_of_ne r.apply_id hne, user?, user?, consumeFor_users]

theorem replacePassword_user?_eq_none {r : PasswordReplacement} {revoked : List String}
    {now : DateTime} (h : db.user? u = none) :
    (db.replacePassword r revoked now).user? u = none := by
  refine user?_updateUser_eq_none r.apply_id ?_
  rwa [user?, consumeFor_users]

theorem mem_replacePassword {r : PasswordReplacement} {revoked : List String} {now : DateTime}
    {row' : WebSessionRow} (h : row' ∈ (db.replacePassword r revoked now).webSessions) :
    ∃ row ∈ db.webSessions, row.sessionHash = row'.sessionHash ∧ row.userId = row'.userId ∧
      (row'.revokedAt = none → row.revokedAt = none ∧ row.sessionHash ∉ revoked) := by
  have hmem : row' ∈ (db.consumeFor r.authority).webSessions.map fun row =>
    if row.sessionHash ∈ revoked then { row with revokedAt := some now } else row := h
  rw [consumeFor_webSessions] at hmem
  obtain ⟨row, hrow, rfl⟩ := List.mem_map.mp hmem
  refine ⟨row, hrow, ?_⟩
  split
  · exact ⟨rfl, rfl, nofun⟩
  · rename_i hkept
    exact ⟨rfl, rfl, fun hvalid => ⟨hvalid, hkept⟩⟩

theorem exists_mem_replacePassword {r : PasswordReplacement} {revoked : List String}
    {now : DateTime} {row : WebSessionRow} (h : row ∈ db.webSessions) :
    ∃ row' ∈ (db.replacePassword r revoked now).webSessions,
      row'.sessionHash = row.sessionHash ∧ row'.userId = row.userId ∧
        (row.sessionHash ∉ revoked → row' = row) := by
  have hmem : row ∈ (db.consumeFor r.authority).webSessions := by rwa [consumeFor_webSessions]
  refine ⟨_, List.mem_map_of_mem hmem, ?_, ?_, fun hkept => if_neg hkept⟩
  · split <;> rfl
  · split <;> rfl

theorem mem_sessionsToRevoke {keeps : Option String} {row : WebSessionRow}
    (hrow : row ∈ db.webSessions) (huser : row.userId = userId) (hvalid : row.revokedAt = none)
    (hkeeps : some row.sessionHash ≠ keeps) : row.sessionHash ∈ db.sessionsToRevoke userId keeps :=
  List.mem_map_of_mem (List.mem_filter.mpr ⟨hrow, by simp [huser, hvalid, hkeeps]⟩)

/-- **A session that is revoked stays revoked.** -/
theorem SessionRevoked.mono {db' : AuthDb} {sessionHash : String}
    (h : db.SessionRevoked userId sessionHash)
    (hkept : ∀ row ∈ db.webSessions, ∃ row' ∈ db'.webSessions, row'.sessionHash = row.sessionHash)
    (hold : ∀ row' ∈ db'.webSessions, (∃ row ∈ db.webSessions,
      row.sessionHash = row'.sessionHash ∧ row.userId = row'.userId ∧
        (row'.revokedAt = none → row.revokedAt = none)) ∨
      ∀ row ∈ db.webSessions, row.sessionHash ≠ row'.sessionHash) :
    db'.SessionRevoked userId sessionHash := by
  obtain ⟨row, hrow, hhash⟩ := h.1
  obtain ⟨row', hrow', hsame⟩ := hkept row hrow
  refine ⟨⟨row', hrow', hsame.trans hhash⟩, fun new hnew huser hnewHash hvalid => ?_⟩
  rcases hold new hnew with ⟨old, hold, holdHash, holdUser, himp⟩ | hfresh
  · exact h.2 old hold (holdUser.trans huser) (holdHash.trans hnewHash) (himp hvalid)
  · exact hfresh row hrow (hhash.trans hnewHash.symm)

end AuthDb

namespace PasswordServer

variable {cfg : PasswordConfig} {s s' t : PasswordServer} {slot other : ℕ}

/-! ### What a handler knows -/

/-- A replacement that is authorised by an approval has claimed it. -/
def Claimed (s : PasswordServer) (slot : ℕ) (r : PasswordReplacement) : Prop :=
  ∀ id now, r.authority = .approval id now →
    s.requestLocks id = some slot ∧ r.authority.Current s.db r.userId

/-- A replacement that has written the user, if there is one: the user is locked, and the recovery
code that was matched is the one it still has. -/
structure Written (s : PasswordServer) (slot : ℕ) (r : PasswordReplacement) : Prop where
  claimed : s.Claimed slot r
  locked : s.userLocks r.userId = some slot ∨ s.db.user? r.userId = none
  matched : ∀ hash, r.authority = .recovery hash → r.authority.Current s.db r.userId

/-- What a handler under way knows. -/
def CallOk (s : PasswordServer) (slot : ℕ) : PasswordCall → Prop
  | .loginRead _ _ | .createSession _ _ | .changeRead _ _ _ | .regenerateRead _ _
  | .regenerateUpdate _ _ _ | .recoverRead _ _ | .resetRead _ _ | .resetBegin _ _ _
  | .claimReset _ _ _ _ => True
  | .beginReplacement r | .updateUser r _ => s.Claimed slot r
  | .revokeSessions r _ | .commit r _ _ => s.Written slot r

/-- What the handler of a slot knows. -/
def Own (slot : ℕ) (s : PasswordServer) : Prop := ∀ call, s.calls slot = some call → s.CallOk slot call

/-- **What the handler of a slot relies on** while others run: its locks and the rows it has locked
stay, no user and no device comes or goes, and it stays where it is. -/
structure Keeps (slot : ℕ) (s s' : PasswordServer) : Prop where
  user : ∀ u, s.userLocks u = some slot →
    s'.userLocks u = some slot ∧ s'.db.user? u = s.db.user? u
  request : ∀ id, s.requestLocks id = some slot →
    s'.requestLocks id = some slot ∧ s'.db.requests id = s.db.requests id
  noUser : ∀ u, s.db.user? u = none → s'.db.user? u = none
  approvers : ∀ id, s'.db.activeApprovers id = s.db.activeApprovers id
  calls : s'.calls slot = s.calls slot

theorem Keeps.trans (h₁ : Keeps slot s s') (h₂ : Keeps slot s' t) : Keeps slot s t where
  user u hlock := by
    obtain ⟨hlock₁, huser₁⟩ := h₁.user u hlock
    obtain ⟨hlock₂, huser₂⟩ := h₂.user u hlock₁
    exact ⟨hlock₂, huser₂.trans huser₁⟩
  request id hlock := by
    obtain ⟨hlock₁, hrow₁⟩ := h₁.request id hlock
    obtain ⟨hlock₂, hrow₂⟩ := h₂.request id hlock₁
    exact ⟨hlock₂, hrow₂.trans hrow₁⟩
  noUser u hnone := h₂.noUser u (h₁.noUser u hnone)
  approvers id := (h₂.approvers id).trans (h₁.approvers id)
  calls := h₂.calls.trans h₁.calls

section Stable

variable (hkeeps : Keeps slot s s')

include hkeeps

theorem Claimed.keeps {r : PasswordReplacement} (h : s.Claimed slot r) : s'.Claimed slot r := by
  intro id now hauthority
  obtain ⟨hlock, hcurrent⟩ := h id now hauthority
  obtain ⟨hlock', hrow⟩ := hkeeps.request id hlock
  refine ⟨hlock', ?_⟩
  rw [hauthority] at hcurrent ⊢
  obtain ⟨row, hclaim, huser⟩ := hcurrent
  refine ⟨row, ?_, huser⟩
  rw [claimable?, hrow, hkeeps.approvers id]
  exact hclaim

theorem Written.keeps {r : PasswordReplacement} (h : s.Written slot r) : s'.Written slot r where
  claimed := h.claimed.keeps hkeeps
  locked := h.locked.imp (fun hlock => (hkeeps.user _ hlock).1) (hkeeps.noUser _)
  matched hash hauthority := by
    have hcurrent := h.matched hash hauthority
    rw [hauthority] at hcurrent ⊢
    obtain ⟨user, hfound, hhash⟩ := hcurrent
    rcases h.locked with hlock | hnone
    · exact ⟨user, (hkeeps.user _ hlock).2.trans hfound, hhash⟩
    · exact absurd (hnone.symm.trans hfound) (by simp)

theorem Own.keeps (h : Own slot s) : Own slot s' := by
  intro call hcall
  have hok : s.CallOk slot call := h call (hkeeps.calls ▸ hcall)
  cases call with
  | beginReplacement | updateUser => exact Claimed.keeps hkeeps hok
  | revokeSessions | commit => exact Written.keeps hkeeps hok
  | _ => trivial

end Stable

/-! ### Statements that write nothing -/

/-- What a statement of a slot does that writes nothing: it changes where the slot is and what it has
locked. -/
structure Quiet (slot : ℕ) (s s' : PasswordServer) : Prop where
  db : s'.db = s.db
  effects : s'.effects = s.effects
  calls : ∀ other, other ≠ slot → s'.calls other = s.calls other
  userLocks : ∀ other u, other ≠ slot → s.userLocks u = some other → s'.userLocks u = some other
  requestLocks : ∀ other id, other ≠ slot → s.requestLocks id = some other →
    s'.requestLocks id = some other

theorem Quiet.keeps (h : Quiet slot s s') (hne : other ≠ slot) : Keeps other s s' where
  user u hlock := ⟨h.userLocks other u hne hlock, by rw [h.db]⟩
  request id hlock := ⟨h.requestLocks other id hne hlock, by rw [h.db]⟩
  noUser u hnone := by rwa [h.db]
  approvers id := by rw [h.db]
  calls := h.calls other hne

theorem Quiet.trans (h₁ : Quiet slot s s') (h₂ : Quiet slot s' t) : Quiet slot s t where
  db := h₂.db.trans h₁.db
  effects := h₂.effects.trans h₁.effects
  calls other hne := (h₂.calls other hne).trans (h₁.calls other hne)
  userLocks other u hne hlock := h₂.userLocks other u hne (h₁.userLocks other u hne hlock)
  requestLocks other id hne hlock :=
    h₂.requestLocks other id hne (h₁.requestLocks other id hne hlock)

theorem quiet_refl : Quiet slot s s :=
  ⟨rfl, rfl, fun _ _ => rfl, fun _ _ _ h => h, fun _ _ _ h => h⟩

theorem quiet_goto (call : PasswordCall) : Quiet slot s (s.goto slot call) :=
  ⟨rfl, rfl, fun _ hne => Function.update_of_ne hne _ _, fun _ _ _ h => h, fun _ _ _ h => h⟩

theorem quiet_release : Quiet slot s (s.release slot) where
  db := rfl
  effects := rfl
  calls _ hne := Function.update_of_ne hne _ _
  userLocks _ _ hne h := (Locks.release_eq_some_of_ne hne).mpr h
  requestLocks _ _ hne h := (Locks.release_eq_some_of_ne hne).mpr h

theorem quiet_answer (answers : List (ℕ × Answer)) : Quiet slot s { s with answers := answers } :=
  ⟨rfl, rfl, fun _ _ => rfl, fun _ _ _ h => h, fun _ _ _ h => h⟩

theorem quiet_finish (answer : Answer) : Quiet slot s (s.finish slot answer) :=
  quiet_release.trans (quiet_answer _)

theorem quiet_lockUser {u : Uuid} (hfree : s.userLocks.free slot u = true) :
    Quiet slot s { s with userLocks := s.userLocks.acquire slot u } :=
  ⟨rfl, rfl, fun _ _ => rfl, fun _ _ hne h => (Locks.acquire_eq_some_of_ne hne hfree).mpr h,
    fun _ _ _ h => h⟩

theorem quiet_lockRequest {id : Uuid} (hfree : s.requestLocks.free slot id = true) :
    Quiet slot s { s with requestLocks := s.requestLocks.acquire slot id } :=
  ⟨rfl, rfl, fun _ _ => rfl, fun _ _ _ h => h,
    fun _ _ hne h => (Locks.acquire_eq_some_of_ne hne hfree).mpr h⟩

/-- A handler that has read goes on or answers. -/
theorem quiet_ite {p : Prop} [Decidable p] {call : PasswordCall} {answer : Answer} :
    Quiet slot s (if p then s.goto slot call else s.finish slot answer) := by
  split
  · exact quiet_goto call
  · exact quiet_finish answer

theorem quiet_enter {α : Type} (checked : Except AuthError α) (first : α → PasswordCall) :
    Quiet slot s (s.enter slot checked first) := by
  unfold enter
  split
  · exact quiet_refl
  · cases checked with
    | error e => exact quiet_answer _
    | ok value => exact quiet_goto (first value)

theorem quiet_loginRead (email authKey : String) :
    Quiet slot s (s.loginRead cfg slot email authKey) := by
  unfold loginRead
  split
  · exact quiet_finish _
  · exact quiet_ite

theorem quiet_changeRead (userId : Uuid) (session : Option String) (req : ChangePasswordRequest)
    (salt : String) : Quiet slot s (s.changeRead cfg slot userId session req salt) := by
  unfold changeRead
  split
  · exact quiet_finish _
  · exact quiet_ite

theorem quiet_regenerateRead (userId : Uuid) (req : RegenerateRecoveryCodeRequest) :
    Quiet slot s (s.regenerateRead cfg slot userId req) := by
  unfold regenerateRead
  split
  · exact quiet_finish _
  · exact quiet_ite

theorem quiet_recoverRead (email : String) (req : RecoverCompleteRequest) (salt : String) :
    Quiet slot s (s.recoverRead cfg slot email req salt) := by
  unfold recoverRead
  split
  · exact quiet_finish _
  · exact quiet_ite

theorem quiet_resetRead (id : Uuid) (req : CompleteResetRequest) (salt : String) :
    Quiet slot s (s.resetRead cfg slot id req salt) := by
  unfold resetRead
  split
  · exact quiet_finish _
  · exact quiet_ite

theorem quiet_claimReset (id : Uuid) (now : DateTime) (password : NewPassword)
    (recovery : NewRecovery) : Quiet slot s (s.claimReset slot id now password recovery) := by
  unfold claimReset
  split
  · exact quiet_finish _
  · split
    · rename_i hfree
      exact (quiet_lockRequest hfree).trans (quiet_goto _)
    · exact quiet_refl

theorem quiet_updateUser (r : PasswordReplacement) (now : DateTime) :
    Quiet slot s (s.updateUser slot r now) := by
  unfold updateUser
  split
  · split
    · exact quiet_finish _
    · exact quiet_goto _
  · split
    · rename_i hfree
      exact (quiet_lockUser hfree).trans (quiet_goto _)
    · exact quiet_refl

/-! ### What a handler knows after its own statements -/

theorem own_of_none (h : s.calls slot = none) : Own slot s := fun _ hcall =>
  absurd (h.symm.trans hcall) (by simp)

theorem own_release : Own slot (s.release slot) := own_of_none (Function.update_self _ _ _)

theorem own_finish (answer : Answer) : Own slot (s.finish slot answer) :=
  own_of_none (Function.update_self _ _ _)

/-- What a handler knows is about the database and its locks. -/
theorem CallOk.congr {call : PasswordCall} (h : s.CallOk slot call) (hdb : s'.db = s.db)
    (husers : s'.userLocks = s.userLocks) (hrequests : s'.requestLocks = s.requestLocks) :
    s'.CallOk slot call := by
  have hclaimed : ∀ r, s.Claimed slot r → s'.Claimed slot r := fun r hr => by
    rwa [Claimed, hdb, hrequests]
  cases call with
  | beginReplacement | updateUser => exact hclaimed _ h
  | revokeSessions | commit =>
    exact ⟨hclaimed _ h.claimed, by rw [hdb, husers]; exact h.locked, by rw [hdb]; exact h.matched⟩
  | _ => trivial

theorem own_goto {call : PasswordCall} (h : s.CallOk slot call) : Own slot (s.goto slot call) := by
  intro next hnext
  have hself : (s.goto slot call).calls slot = some call :=
    Function.update_self (β := fun _ => Option PasswordCall) slot (some call) s.calls
  obtain rfl : call = next := Option.some.inj (hself.symm.trans hnext)
  exact h.congr rfl rfl rfl

theorem own_ite {p : Prop} [Decidable p] {call : PasswordCall} {answer : Answer}
    (h : s.CallOk slot call) :
    Own slot (if p then s.goto slot call else s.finish slot answer) := by
  split
  · exact own_goto h
  · exact own_finish answer

/-- A replacement that is not authorised by an approval has none to claim. -/
theorem claimed_of_ne {r : PasswordReplacement} (h : ∀ id now, r.authority ≠ .approval id now) :
    s.Claimed slot r := fun id now hauthority => absurd hauthority (h id now)

theorem own_claimReset (h : Own slot s) (id : Uuid) (now : DateTime) (password : NewPassword)
    (recovery : NewRecovery) : Own slot (s.claimReset slot id now password recovery) := by
  unfold claimReset
  split
  · exact own_finish _
  · rename_i row hclaim
    split
    · refine own_goto ?_
      intro id' now' hauthority
      cases hauthority
      exact ⟨Locks.acquire_self, row, hclaim, rfl⟩
    · exact h

theorem own_updateUser {r : PasswordReplacement} (h : Own slot s) (hclaimed : s.Claimed slot r)
    (now : DateTime) : Own slot (s.updateUser slot r now) := by
  unfold updateUser
  split
  · rename_i hmissing
    split
    · exact own_finish _
    · rename_i hunchecked
      have hmatches : ∀ user, r.matchesUser user = true := by
        intro user
        unfold PasswordReplacement.checksRows at hunchecked
        unfold PasswordReplacement.matchesUser
        cases hauthority : r.authority with
        | recovery hash => exact absurd (by rw [hauthority]) hunchecked
        | password | approval => rfl
      refine own_goto ⟨hclaimed, .inr ?_, fun hash hauthority => ?_⟩
      · refine Option.eq_none_iff_forall_ne_some.mpr fun user hfound => ?_
        exact Option.filter_eq_none_iff.mp hmissing user hfound (hmatches user)
      · exact absurd (by rw [PasswordReplacement.checksRows, hauthority]) hunchecked
  · rename_i user hfound
    split
    · refine own_goto ⟨hclaimed, .inl Locks.acquire_self, fun hash hauthority => ?_⟩
      obtain ⟨hfound, hmatch⟩ := Option.filter_eq_some_iff.mp hfound
      rw [PasswordReplacement.matchesUser, hauthority] at hmatch
      rw [hauthority]
      exact ⟨user, hfound, eq_of_beq hmatch⟩
    · exact h

/-! ### Statements that write -/

/-- What a statement that writes keeps for others: the rows that they have locked. -/
theorem keeps_write {db : AuthDb} {effects : List CredentialEffect}
    (huser : ∀ u, s.userLocks u = some other → db.user? u = s.db.user? u)
    (hrequest : ∀ id, s.requestLocks id = some other → db.requests id = s.db.requests id)
    (hnone : ∀ u, s.db.user? u = none → db.user? u = none)
    (happrovers : ∀ id, db.activeApprovers id = s.db.activeApprovers id) :
    Keeps other s { s with db := db, effects := effects } :=
  ⟨fun u hlock => ⟨hlock, huser u hlock⟩, fun id hlock => ⟨hlock, hrequest id hlock⟩, hnone,
    happrovers, rfl⟩

theorem keeps_createSession (hne : other ≠ slot) (userId : Uuid) (passwordHash sessionHash : String) :
    Keeps other s (s.createSession slot userId passwordHash sessionHash) := by
  unfold createSession
  split
  · exact quiet_refl.keeps hne
  · refine (keeps_write ?_ ?_ ?_ ?_).trans ((quiet_finish _).keeps hne)
    · exact fun _ _ => rfl
    · exact fun _ _ => rfl
    · exact fun _ h => h
    · exact fun _ => rfl

theorem keeps_regenerateUpdate (hne : other ≠ slot) (userId : Uuid) (passwordHash : String)
    (recovery : NewRecovery) :
    Keeps other s (s.regenerateUpdate slot userId passwordHash recovery) := by
  unfold regenerateUpdate
  have hid : ∀ user : UserRow, (user.setRecovery recovery).id = user.id := fun _ => rfl
  split
  · rename_i hfree
    refine (keeps_write ?_ ?_ ?_ ?_).trans ((quiet_finish _).keeps hne)
    · intro u hlock
      refine AuthDb.user?_updateUser_of_ne hid ?_
      rintro rfl
      rcases Locks.free_iff.mp hfree with h | h
      · exact absurd (h.symm.trans hlock) (by simp)
      · exact hne (Option.some.inj (hlock.symm.trans h))
    · exact fun _ _ => rfl
    · exact fun u hnone => AuthDb.user?_updateUser_eq_none hid hnone
    · exact fun _ => rfl
  · exact quiet_refl.keeps hne

theorem keeps_commit (hne : other ≠ slot) {r : PasswordReplacement} (h : s.Written slot r)
    (now : DateTime) (revoked : List String) : Keeps other s (s.commit slot r now revoked) := by
  refine (keeps_write ?_ ?_ ?_ ?_).trans ((quiet_finish _).keeps hne)
  · intro u hlock
    by_cases hu : u = r.userId
    · subst hu
      rcases h.locked with hown | hnone
      · exact absurd (Option.some.inj (hlock.symm.trans hown)) hne
      · rw [hnone]
        exact AuthDb.replacePassword_user?_eq_none hnone
    · exact AuthDb.replacePassword_user?_of_ne hu
  · intro id hlock
    refine AuthDb.consumeFor_requests fun now' hauthority => ?_
    exact hne (Option.some.inj (hlock.symm.trans (h.claimed id now' hauthority).1))
  · exact fun u hnone => AuthDb.replacePassword_user?_eq_none hnone
  · exact fun id => AuthDb.consumeFor_activeApprovers r.authority id

/-! ### What others leave alone -/

/-- **What another event leaves alone.** -/
theorem rely_step (hown : ∀ i, Own i s) {e : PasswordEvent} (hactor : e.slot? ≠ some other) :
    Keeps other s (step cfg s e) := by
  have hne : ∀ {slot}, e.slot? = some slot → other ≠ slot := fun hslot heq =>
    hactor (hslot.trans (congrArg some heq.symm))
  cases e with
  | tick time =>
    exact ⟨fun _ hlock => ⟨hlock, rfl⟩, fun _ hlock => ⟨hlock, rfl⟩, fun _ h => h, fun _ => rfl, rfl⟩
  | login | changePassword | regenerateRecoveryCode | recoverComplete | completeReset =>
    exact (quiet_enter _ _).keeps (hne rfl)
  | drop slot => exact quiet_release.keeps (hne rfl)
  | advance slot drawn =>
    have hne : other ≠ slot := hne rfl
    show Keeps other s (s.advance cfg slot drawn)
    unfold advance
    cases hcall : s.calls slot with
    | none => exact quiet_refl.keeps hne
    | some call =>
      have hok : s.CallOk slot call := hown slot call hcall
      cases call with
      | loginRead => exact (quiet_loginRead _ _).keeps hne
      | createSession => exact keeps_createSession hne _ _ _
      | changeRead => exact (quiet_changeRead _ _ _ _).keeps hne
      | regenerateRead => exact (quiet_regenerateRead _ _).keeps hne
      | regenerateUpdate => exact keeps_regenerateUpdate hne _ _ _
      | recoverRead => exact (quiet_recoverRead _ _ _).keeps hne
      | resetRead => exact (quiet_resetRead _ _ _).keeps hne
      | resetBegin | beginReplacement | revokeSessions => exact (quiet_goto _).keeps hne
      | claimReset => exact (quiet_claimReset _ _ _ _).keeps hne
      | updateUser => exact (quiet_updateUser _ _).keeps hne
      | commit => exact keeps_commit hne hok _ _

/-- **What a handler knows, it knows after its next statement.** -/
theorem own_advance (hown : Own slot s) (drawn : String) : Own slot (s.advance cfg slot drawn) := by
  unfold advance
  cases hcall : s.calls slot with
  | none => exact own_of_none hcall
  | some call =>
    have hok : s.CallOk slot call := hown call hcall
    cases call with
    | loginRead =>
      show Own slot (s.loginRead cfg slot _ _)
      unfold loginRead
      split
      · exact own_finish _
      · exact own_ite trivial
    | createSession =>
      show Own slot (s.createSession slot _ _ _)
      unfold createSession
      split
      · exact hown
      · exact own_finish _
    | changeRead =>
      show Own slot (s.changeRead cfg slot _ _ _ _)
      unfold changeRead
      split
      · exact own_finish _
      · exact own_ite (claimed_of_ne nofun)
    | regenerateRead =>
      show Own slot (s.regenerateRead cfg slot _ _)
      unfold regenerateRead
      split
      · exact own_finish _
      · exact own_ite trivial
    | regenerateUpdate =>
      show Own slot (s.regenerateUpdate slot _ _ _)
      unfold regenerateUpdate
      split
      · exact own_finish _
      · exact hown
    | recoverRead =>
      show Own slot (s.recoverRead cfg slot _ _ _)
      unfold recoverRead
      split
      · exact own_finish _
      · exact own_ite (claimed_of_ne nofun)
    | resetRead =>
      show Own slot (s.resetRead cfg slot _ _ _)
      unfold resetRead
      split
      · exact own_finish _
      · exact own_ite trivial
    | resetBegin => exact own_goto trivial
    | claimReset => exact own_claimReset hown _ _ _ _
    | beginReplacement => exact own_goto hok
    | updateUser => exact own_updateUser hown hok _
    | revokeSessions => exact own_goto hok
    | commit => exact own_finish _

theorem own_enter {α : Type} {checked : Except AuthError α} {first : α → PasswordCall}
    (hown : Own slot s) (hfirst : ∀ value, s.CallOk slot (first value)) :
    Own slot (s.enter slot checked first) := by
  unfold enter
  split
  · exact hown
  · cases checked with
    | error e => exact fun call hcall => (hown call hcall).congr rfl rfl rfl
    | ok value => exact own_goto (hfirst value)

/-- **Every handler keeps what it knows.** -/
theorem own_step (hown : ∀ i, Own i s) (e : PasswordEvent) : ∀ i, Own i (step cfg s e) := by
  refine (@Runs.step_of_rely _ _ _ (step cfg) (fun _ => True) Own PasswordEvent.slot? Keeps
    (fun _ _ _ _ => trivial) (fun s e i _ hown hactor => ?_)
    (fun s e i _ hown hactor => rely_step hown hactor) (fun s s' i h hkeeps => h.keeps hkeeps)
    s trivial hown e).2
  cases e with
  | tick time => nomatch hactor
  | advance slot drawn =>
    obtain rfl : slot = i := Option.some.inj hactor
    exact own_advance (hown slot) drawn
  | drop slot =>
    obtain rfl : slot = i := Option.some.inj hactor
    exact own_release
  | login slot | changePassword slot | regenerateRecoveryCode slot | recoverComplete slot
  | completeReset slot =>
    obtain rfl : slot = i := Option.some.inj hactor
    exact own_enter (hown slot) fun _ => trivial

/-! ### What has taken effect -/

theorem Quiet.linearized_iff (h : Quiet slot s s') : s'.Linearized ↔ s.Linearized := by
  rw [Linearized, Linearized, h.effects, h.db]

/-- What was authorised stays so, as long as no session that is revoked is valid again. -/
theorem authorised_mono {db db' : AuthDb} {effect : CredentialEffect}
    (hmono : ∀ userId sessionHash, db.SessionRevoked userId sessionHash →
      db'.SessionRevoked userId sessionHash) (h : effect.Authorised db) : effect.Authorised db' := by
  cases effect with
  | created => exact h.imp_right (hmono _ _)
  | regenerated => exact h
  | replaced => exact ⟨h.1, fun row hrow huser hkeeps => hmono _ _ (h.2 row hrow huser hkeeps)⟩

/-- **Of a statement that writes, only its own effect is in question.** -/
theorem linearized_write {db : AuthDb} {effect : CredentialEffect} (h : s.Linearized)
    (hmono : ∀ userId sessionHash, s.db.SessionRevoked userId sessionHash →
      db.SessionRevoked userId sessionHash) :
    Linearized { s with db := db, effects := s.effects ++ [effect] } ↔ effect.Authorised db := by
  constructor
  · exact fun hall => hall effect (List.mem_append_right _ (List.mem_singleton_self effect))
  · intro heffect old hold
    rcases List.mem_append.mp hold with hold | hnew
    · exact authorised_mono hmono (h old hold)
    · exact List.mem_singleton.mp hnew ▸ heffect

theorem linearized_createSession (h : s.Linearized) (userId : Uuid)
    (passwordHash sessionHash : String) :
    (s.createSession slot userId passwordHash sessionHash).Linearized ↔
      ((∀ row ∈ s.db.webSessions, row.sessionHash ≠ sessionHash) →
        (Authority.password passwordHash).Current s.db userId) := by
  unfold createSession
  split
  · rename_i hused
    obtain ⟨row, hrow, hhash⟩ := hused
    exact iff_of_true h fun hfresh => absurd hhash (hfresh row hrow)
  · rename_i hunused
    have hfresh : ∀ row ∈ s.db.webSessions, row.sessionHash ≠ sessionHash :=
      fun row hrow hhash => hunused ⟨row, hrow, hhash⟩
    rw [(quiet_finish _).linearized_iff, linearized_write h]
    · rw [CredentialEffect.Authorised, forall_prop_of_true hfresh, or_iff_left]
      rintro ⟨-, hrevoked⟩
      exact hrevoked _ (List.mem_append_right _ (List.mem_singleton_self _)) rfl rfl rfl
    · intro u hash hrevoked
      refine hrevoked.mono (fun row hrow => ⟨row, List.mem_append_left _ hrow, rfl⟩) ?_
      intro row' hrow'
      rcases List.mem_append.mp hrow' with hold | hnew
      · exact .inl ⟨row', hold, rfl, rfl, id⟩
      · rw [List.mem_singleton.mp hnew]
        exact .inr hfresh

theorem linearized_regenerateUpdate (h : s.Linearized) (userId : Uuid) (passwordHash : String)
    (recovery : NewRecovery) :
    (s.regenerateUpdate slot userId passwordHash recovery).Linearized ↔
      (s.userLocks.free slot userId = true →
        (Authority.password passwordHash).Current s.db userId) := by
  unfold regenerateUpdate
  split
  · rename_i hfree
    rw [(quiet_finish _).linearized_iff, linearized_write h, forall_prop_of_true hfree]
    · rfl
    · exact fun _ _ hrevoked => hrevoked
  · rename_i hheld
    exact iff_of_true h fun hfree => absurd hfree hheld

theorem linearized_commit (h : s.Linearized) {r : PasswordReplacement} (hr : s.Written slot r)
    (now : DateTime) (revoked : List String) :
    (s.commit slot r now revoked).Linearized ↔
      (∀ passwordHash, r.authority = .password passwordHash → r.authority.Current s.db r.userId) ∧
        ∀ sessionHash ∈ s.db.sessionsToRevoke r.userId r.keeps, sessionHash ∈ revoked := by
  have hmono : ∀ userId sessionHash, s.db.SessionRevoked userId sessionHash →
      (s.db.replacePassword r revoked now).SessionRevoked userId sessionHash := by
    intro userId sessionHash hrevoked
    refine hrevoked.mono (fun row hrow => ?_) fun row' hrow' => .inl ?_
    · obtain ⟨row', hrow', hhash, -⟩ := AuthDb.exists_mem_replacePassword hrow
      exact ⟨row', hrow', hhash⟩
    · obtain ⟨row, hrow, hhash, huser, hkept⟩ := AuthDb.mem_replacePassword hrow'
      exact ⟨row, hrow, hhash, huser, fun hvalid => (hkept hvalid).1⟩
  unfold commit
  rw [(quiet_finish _).linearized_iff, linearized_write h hmono]
  refine and_congr ⟨fun hcurrent _ _ => hcurrent, fun hpassword => ?_⟩ ⟨fun hall => ?_, fun hall => ?_⟩
  · cases hauthority : r.authority with
    | password hash => exact hauthority ▸ hpassword hash hauthority
    | recovery hash => exact hauthority ▸ hr.matched hash hauthority
    | approval id time => exact hauthority ▸ (hr.claimed id time hauthority).2
  · intro sessionHash hmem
    by_contra hmissed
    obtain ⟨row, hrow, rfl⟩ := List.mem_map.mp hmem
    obtain ⟨hrow, hvalid⟩ := List.mem_filter.mp hrow
    obtain ⟨huser, hvalid, hkeeps⟩ := of_decide_eq_true hvalid
    obtain ⟨row', hrow', -, -, hkept⟩ :=
      @AuthDb.exists_mem_replacePassword _ r revoked now row hrow
    have hrevoked := (hall row hrow huser hkeeps).2 row' hrow'
    rw [hkept hmissed] at hrevoked
    exact hrevoked huser rfl hvalid
  · intro row hrow huser hkeeps
    obtain ⟨row', hrow', hhash, -⟩ := @AuthDb.exists_mem_replacePassword _ r revoked now row hrow
    refine ⟨⟨row', hrow', hhash⟩, fun new hnew hnewUser hnewHash hvalid => ?_⟩
    obtain ⟨old, hold, holdHash, holdUser, hkept⟩ := AuthDb.mem_replacePassword hnew
    obtain ⟨holdValid, hmissed⟩ := hkept hvalid
    refine hmissed (hall _ (AuthDb.mem_sessionsToRevoke hold (holdUser.trans hnewUser) holdValid ?_))
    rwa [holdHash, hnewHash]

/-! ### One event -/

/-- What a statement that takes effect is authorised by, and that a replacement revokes every session
that there is at its commit. -/
def CallAuthorised (s : PasswordServer) (slot : ℕ) (drawn : String) : PasswordCall → Prop
  | .createSession userId passwordHash => (∀ row ∈ s.db.webSessions, row.sessionHash ≠ drawn) →
      (Authority.password passwordHash).Current s.db userId
  | .regenerateUpdate userId passwordHash _ => s.userLocks.free slot userId = true →
      (Authority.password passwordHash).Current s.db userId
  | .commit r _ revoked =>
      (∀ passwordHash, r.authority = .password passwordHash → r.authority.Current s.db r.userId) ∧
        ∀ sessionHash ∈ s.db.sessionsToRevoke r.userId r.keeps, sessionHash ∈ revoked
  | .loginRead _ _ | .changeRead _ _ _ | .regenerateRead _ _ | .recoverRead _ _ | .resetRead _ _
  | .resetBegin _ _ _ | .claimReset _ _ _ _ | .beginReplacement _ | .updateUser _ _
  | .revokeSessions _ _ => True

/-- The same of an event. -/
def EventAuthorised (s : PasswordServer) : PasswordEvent → Prop
  | .advance slot drawn => ∀ call, s.calls slot = some call → s.CallAuthorised slot drawn call
  | .tick _ | .login _ _ | .changePassword _ _ _ _ | .regenerateRecoveryCode _ _ _
  | .recoverComplete _ _ | .completeReset _ _ _ | .drop _ => True

/-- What took effect is authorised after an event exactly if the event was. -/
theorem linearized_step_iff (hown : ∀ i, Own i s) (h : s.Linearized) (e : PasswordEvent) :
    (step cfg s e).Linearized ↔ s.EventAuthorised e := by
  cases e with
  | tick time => exact iff_of_true h trivial
  | login | changePassword | regenerateRecoveryCode | recoverComplete | completeReset =>
    exact iff_of_true ((quiet_enter _ _).linearized_iff.mpr h) trivial
  | drop slot => exact iff_of_true (quiet_release.linearized_iff.mpr h) trivial
  | advance slot drawn =>
    show (s.advance cfg slot drawn).Linearized ↔ _
    cases hcall : s.calls slot with
    | none =>
      rw [advance, hcall]
      exact iff_of_true h fun call hsome => absurd (hcall.symm.trans hsome) (by simp)
    | some call =>
      have hiff : s.EventAuthorised (.advance slot drawn) ↔ s.CallAuthorised slot drawn call :=
        ⟨fun hall => hall call hcall, fun hcallOk next hnext =>
          Option.some.inj (hcall.symm.trans hnext) ▸ hcallOk⟩
      have hok : s.CallOk slot call := hown slot call hcall
      rw [hiff, advance, hcall]
      cases call with
      | createSession => exact linearized_createSession h _ _ _
      | regenerateUpdate => exact linearized_regenerateUpdate h _ _ _
      | commit => exact linearized_commit h hok _ _
      | loginRead => exact iff_of_true ((quiet_loginRead _ _).linearized_iff.mpr h) trivial
      | changeRead => exact iff_of_true ((quiet_changeRead _ _ _ _).linearized_iff.mpr h) trivial
      | regenerateRead =>
        exact iff_of_true ((quiet_regenerateRead _ _).linearized_iff.mpr h) trivial
      | recoverRead => exact iff_of_true ((quiet_recoverRead _ _ _).linearized_iff.mpr h) trivial
      | resetRead => exact iff_of_true ((quiet_resetRead _ _ _).linearized_iff.mpr h) trivial
      | claimReset => exact iff_of_true ((quiet_claimReset _ _ _ _).linearized_iff.mpr h) trivial
      | updateUser => exact iff_of_true ((quiet_updateUser _ _).linearized_iff.mpr h) trivial
      | resetBegin | beginReplacement | revokeSessions =>
        exact iff_of_true ((quiet_goto _).linearized_iff.mpr h) trivial

end PasswordServer

end HelixSync
