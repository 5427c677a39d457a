import HelixSync.Server.PasswordChangeSafety

/-!
# When credential changes are linearizable

A handler that has verified a password writes later, by a statement that does not look at the password
again. What was read is known to be the stored password as long as no other one was committed
(`HelixSync.PasswordServer.HashKnown`), and the sessions that a replacement picked are the ones there
are, with those that were created since (`HelixSync.PasswordServer.Listed`). So what takes effect is
authorised in a run exactly if no commit of another password of the user, and no session created for
it, comes between the statements of a handler (`HelixSync.PasswordServer.always_linearized_iff`).
-/

namespace HelixSync

/-! ### Passwords and sessions in what took effect -/

theorem Authority.passwordHash?_eq_some {authority : Authority} {hash : String} :
    authority.passwordHash? = some hash ↔ authority = .password hash := by
  cases authority <;> simp [Authority.passwordHash?]

theorem lastPassword?_append (u : Uuid) (old new : List CredentialEffect) :
    lastPassword? u (old ++ new) = (lastPassword? u new).or (lastPassword? u old) := by
  rw [lastPassword?, List.filterMap_append, List.getLast?_append]
  rfl

theorem lastPassword?_replaced (u : Uuid) (r : PasswordReplacement) (seen : AuthDb) :
    lastPassword? u [.replaced r seen] =
      if r.userId = u then some r.password.passwordHash else none := by
  unfold lastPassword?
  by_cases hu : r.userId = u <;> simp [hu]

theorem createdSessions_append (u : Uuid) (old new : List CredentialEffect) :
    createdSessions u (old ++ new) = createdSessions u old ++ createdSessions u new :=
  List.filterMap_append

theorem createdSessions_created (u userId : Uuid) (passwordHash sessionHash : String)
    (seen : AuthDb) : createdSessions u [.created userId passwordHash sessionHash seen] =
      if userId = u then [sessionHash] else [] := by
  unfold createdSessions
  by_cases hu : userId = u <;> simp [hu]

namespace AuthDb

variable {db : AuthDb} {userId u : Uuid}

/-- The password that is stored of a user. -/
def passwordOf? (db : AuthDb) (u : Uuid) : Option String :=
  (db.user? u).map fun user => user.credentials.passwordHash

theorem current_password_iff {hash : String} :
    (Authority.password hash).Current db u ↔ db.passwordOf? u = some hash := by
  rw [passwordOf?, Option.map_eq_some_iff]
  rfl

theorem passwordOf?_updateUser_setRecovery (recovery : NewRecovery) :
    (db.updateUser userId fun user => user.setRecovery recovery).passwordOf? u =
      db.passwordOf? u := by
  have hid : ∀ user : UserRow, (user.setRecovery recovery).id = user.id := fun _ => rfl
  rw [passwordOf?, user?_updateUser hid, Option.map_map, passwordOf?]
  refine congrArg (Option.map · _) (funext fun user => ?_)
  simp only [Function.comp_apply]
  split <;> rfl

theorem apply_passwordHash (r : PasswordReplacement) (user : UserRow) :
    (r.apply user).credentials.passwordHash = r.password.passwordHash := by
  unfold PasswordReplacement.apply
  cases r.recovery <;> rfl

theorem passwordOf?_replacePassword (r : PasswordReplacement) (revoked : List String)
    (now : DateTime) : (db.replacePassword r revoked now).passwordOf? u =
      (db.passwordOf? u).map fun hash => if r.userId = u then r.password.passwordHash else hash := by
  show (((db.consumeFor r.authority).updateUser r.userId r.apply).user? u).map _ = _
  rw [user?_updateUser r.apply_id, passwordOf?, user?, consumeFor_users, Option.map_map, ← user?]
  cases hfound : db.user? u with
  | none => rfl
  | some user =>
    have hid : user.id = u := by simpa using List.find?_some hfound
    by_cases hu : r.userId = u
    · simp [hid, hu, apply_passwordHash]
    · simp [hid, hu, Ne.symm hu]

theorem user?_eq_some_of_mem {user : UserRow} (hids : (db.users.map UserRow.id).Nodup)
    (h : user ∈ db.users) : db.user? user.id = some user := by
  cases hfound : db.user? user.id with
  | none => exact absurd (List.find?_eq_none.mp hfound user h) (by simp)
  | some found =>
    have hid : found.id = user.id := by simpa using List.find?_some hfound
    rw [List.inj_on_of_nodup_map hids (List.mem_of_find?_eq_some hfound) h hid]

theorem ids_updateUser {f : UserRow → UserRow} (hid : ∀ user, (f user).id = user.id) :
    (db.updateUser userId f).users.map UserRow.id = db.users.map UserRow.id := by
  refine (List.map_map ..).trans (List.map_congr_left fun user _ => ?_)
  simp only [Function.comp_apply]
  split
  · exact hid user
  · rfl

end AuthDb

namespace PasswordServer

variable {cfg : PasswordConfig} {s s' : PasswordServer} {slot other : ℕ}
  {since new : List CredentialEffect} {r : PasswordReplacement} {revoked : List String}

/-! ### What a handler has read -/

/-- The stored password is the last one that was committed since a handler has read one, or else
that one. -/
def HashKnown (s : PasswordServer) (since : List CredentialEffect) (u : Uuid) (hash : String) : Prop :=
  s.db.passwordOf? u = some ((lastPassword? u since).getD hash)

/-- **The sessions a replacement picked**, and those created since: together they are all that are
valid; those that were picked are of the user; and those created are valid, and of nobody else. -/
structure Listed (s : PasswordServer) (since : List CredentialEffect) (r : PasswordReplacement)
    (revoked : List String) : Prop where
  covered : ∀ row ∈ s.db.webSessions, row.userId = r.userId → row.revokedAt = none →
    row.sessionHash ∈ revoked ∨ some row.sessionHash = r.keeps ∨
      row.sessionHash ∈ createdSessions r.userId since
  picked : ∀ hash ∈ revoked, ∃ row ∈ s.db.webSessions, row.sessionHash = hash ∧ row.userId = r.userId
  created : ∀ hash ∈ createdSessions r.userId since, hash ∉ revoked ∧
    (∃ row ∈ s.db.webSessions, row.sessionHash = hash ∧ row.userId = r.userId ∧
      row.revokedAt = none) ∧
    ∀ row ∈ s.db.webSessions, row.sessionHash = hash → row.userId = r.userId
  present : createdSessions r.userId since ≠ [] → s.db.user? r.userId ≠ none

/-- What a handler under way has read. -/
def CallTracked (s : PasswordServer) (sinceRead sinceListed : List CredentialEffect) :
    PasswordCall → Prop
  | .createSession userId hash | .regenerateUpdate userId hash _ => s.HashKnown sinceRead userId hash
  | .beginReplacement r | .updateUser r _ | .revokeSessions r _ =>
      ∀ hash, r.authority = .password hash → s.HashKnown sinceRead r.userId hash
  | .commit r _ revoked =>
      (∀ hash, r.authority = .password hash → s.HashKnown sinceRead r.userId hash) ∧
        s.Listed sinceListed r revoked
  | .loginRead _ _ | .changeRead _ _ _ | .regenerateRead _ _ | .recoverRead _ _ | .resetRead _ _
  | .resetBegin _ _ _ | .claimReset _ _ _ _ => True

/-- The password that is known is the one that was read, unless another one was committed. -/
theorem HashKnown.current_iff {u : Uuid} {hash : String} (h : s.HashKnown since u hash) :
    (Authority.password hash).Current s.db u ↔ ¬∃ last ∈ lastPassword? u since, last ≠ hash := by
  rw [AuthDb.current_password_iff, h]
  cases lastPassword? u since <;> simp

/-- Every valid session was picked exactly if none was created, but for the one that is kept. -/
theorem Listed.sessionsToRevoke_iff (h : s.Listed since r revoked) :
    (∀ sessionHash ∈ s.db.sessionsToRevoke r.userId r.keeps, sessionHash ∈ revoked) ↔
      ∀ sessionHash ∈ createdSessions r.userId since, some sessionHash = r.keeps := by
  constructor
  · intro hall sessionHash hcreated
    obtain ⟨hunpicked, ⟨row, hrow, rfl, huser, hvalid⟩, -⟩ := h.created sessionHash hcreated
    by_contra hkeeps
    exact hunpicked (hall _ (AuthDb.mem_sessionsToRevoke hrow huser hvalid hkeeps))
  · intro hcreated sessionHash hmem
    obtain ⟨row, hrow, rfl⟩ := List.mem_map.mp hmem
    obtain ⟨hrow, hvalid⟩ := List.mem_filter.mp hrow
    obtain ⟨huser, hvalid, hkeeps⟩ := of_decide_eq_true hvalid
    rcases h.covered row hrow huser hvalid with hpicked | hkept | hsince
    · exact hpicked
    · exact absurd hkept hkeeps
    · exact absurd (hcreated _ hsince) hkeeps

/-- When the sessions are picked, none was created since. -/
theorem listed_sessionsToRevoke (r : PasswordReplacement) :
    s.Listed [] r (s.db.sessionsToRevoke r.userId r.keeps) where
  covered row hrow huser hvalid := by
    by_cases hkeeps : some row.sessionHash = r.keeps
    · exact .inr (.inl hkeeps)
    · exact .inl (AuthDb.mem_sessionsToRevoke hrow huser hvalid hkeeps)
  picked hash hmem := by
    obtain ⟨row, hrow, rfl⟩ := List.mem_map.mp hmem
    obtain ⟨hrow, hvalid⟩ := List.mem_filter.mp hrow
    exact ⟨row, hrow, rfl, (of_decide_eq_true hvalid).1⟩
  created hash hmem := absurd hmem List.not_mem_nil
  present hne := absurd rfl hne

/-! ### What a statement adds -/

/-- What a statement does that adds to what took effect: a password that it commits is the one that
is stored then. -/
structure Adds (s s' : PasswordServer) (new : List CredentialEffect) : Prop where
  effects : s'.effects = s.effects ++ new
  ids : s'.db.users.map UserRow.id = s.db.users.map UserRow.id
  password : ∀ u, s'.db.passwordOf? u =
    (s.db.passwordOf? u).map fun hash => (lastPassword? u new).getD hash

/-- A statement that adds nothing changes no row. -/
theorem adds_nil (heffects : s'.effects = s.effects) (hdb : s'.db = s.db) : Adds s s' [] := by
  refine ⟨by rw [heffects, List.append_nil], by rw [hdb], fun u => ?_⟩
  rw [hdb]
  exact Option.map_id'.symm

/-- Nobody goes. -/
theorem Adds.user?_ne_none (h : Adds s s' new) {u : Uuid} (hpresent : s.db.user? u ≠ none) :
    s'.db.user? u ≠ none := by
  have hmap : ∀ db : AuthDb, db.passwordOf? u = none ↔ db.user? u = none :=
    fun _ => Option.map_eq_none_iff
  rw [Ne, ← hmap, h.password u, Option.map_eq_none_iff, hmap]
  exact hpresent

theorem Adds.hashKnown (h : Adds s s' new) {u : Uuid} {hash : String}
    (hknown : s.HashKnown since u hash) : s'.HashKnown (since ++ new) u hash := by
  rw [HashKnown, h.password, hknown, lastPassword?_append]
  cases lastPassword? u new <;> rfl

/-- What a replacement has picked is a matter of the sessions, and of who there is. -/
theorem Listed.congr (h : s.Listed since r revoked) (hadds : Adds s s' new)
    (hsessions : s'.db.webSessions = s.db.webSessions)
    (hcreated : createdSessions r.userId new = []) : s'.Listed (since ++ new) r revoked := by
  have hsame : createdSessions r.userId (since ++ new) = createdSessions r.userId since := by
    rw [createdSessions_append, hcreated, List.append_nil]
  exact ⟨by rw [hsessions, hsame]; exact h.covered, by rw [hsessions]; exact h.picked,
    by rw [hsessions, hsame]; exact h.created, by rw [hsame]; exact fun hne => hadds.user?_ne_none (h.present hne)⟩

/-- **A session that is created** is in none of the lists that were picked. -/
theorem Listed.createSession (h : s.Listed since r revoked) {userId : Uuid}
    {passwordHash sessionHash : String}
    (hadds : Adds s s' [.created userId passwordHash sessionHash s.db])
    (hfresh : ∀ row ∈ s.db.webSessions, row.sessionHash ≠ sessionHash)
    (hpresent : s.db.user? userId ≠ none)
    (hsessions : s'.db.webSessions = s.db.webSessions ++ [⟨sessionHash, userId, none⟩]) :
    s'.Listed (since ++ [.created userId passwordHash sessionHash s.db]) r revoked := by
  have hcreated : ∀ hash, hash ∈ createdSessions r.userId
      (since ++ [.created userId passwordHash sessionHash s.db]) ↔
        hash ∈ createdSessions r.userId since ∨ userId = r.userId ∧ hash = sessionHash := by
    intro hash
    rw [createdSessions_append, List.mem_append, createdSessions_created]
    split <;> simp [*]
  have hrows : ∀ row, row ∈ s'.db.webSessions ↔
      row ∈ s.db.webSessions ∨ row = ⟨sessionHash, userId, none⟩ := by
    intro row
    rw [hsessions, List.mem_append, List.mem_singleton]
  refine ⟨fun row hrow huser hvalid => ?_, fun hash hmem => ?_, fun hash hmem => ?_,
    fun hne => hadds.user?_ne_none ?_⟩
  · rw [hcreated]
    rcases (hrows row).mp hrow with hold | rfl
    · exact (h.covered row hold huser hvalid).imp_right (Or.imp_right .inl)
    · exact .inr (.inr (.inr ⟨huser, rfl⟩))
  · obtain ⟨row, hrow, hhash⟩ := h.picked hash hmem
    exact ⟨row, (hrows row).mpr (.inl hrow), hhash⟩
  · rcases (hcreated hash).mp hmem with hold | ⟨rfl, rfl⟩
    · obtain ⟨hunpicked, ⟨row, hrow, hhash, hvalid⟩, honly⟩ := h.created hash hold
      refine ⟨hunpicked, ⟨row, (hrows row).mpr (.inl hrow), hhash, hvalid⟩, fun row' hrow' hsame => ?_⟩
      rcases (hrows row').mp hrow' with hold' | rfl
      · exact honly row' hold' hsame
      · exact absurd (hhash.trans hsame.symm) (hfresh row hrow)
    · refine ⟨fun hpicked => ?_, ⟨_, (hrows _).mpr (.inr rfl), rfl, rfl, rfl⟩, fun row hrow hsame => ?_⟩
      · obtain ⟨row, hrow, hhash, -⟩ := h.picked _ hpicked
        exact hfresh row hrow hhash
      · rcases (hrows row).mp hrow with hold | rfl
        · exact absurd hsame (hfresh row hold)
        · rfl
  · obtain ⟨hash, hmem⟩ := List.exists_mem_of_ne_nil _ hne
    rcases (hcreated hash).mp hmem with hold | ⟨rfl, -⟩
    · exact h.present (List.ne_nil_of_mem hold)
    · exact hpresent

/-- **The commit of another replacement** revokes none of the sessions that were created for the user
of this one, as it holds the lock of its own user. -/
theorem Listed.commit (h : s.Listed since r revoked) {r' : PasswordReplacement}
    {revoked' : List String} {now : DateTime} (hadds : Adds s s' [.replaced r' s.db])
    (hpicked : ∀ hash ∈ revoked', ∃ row ∈ s.db.webSessions,
      row.sessionHash = hash ∧ row.userId = r'.userId)
    (hother : r'.userId = r.userId → s.db.user? r.userId = none)
    (hdb : s'.db = s.db.replacePassword r' revoked' now) :
    s'.Listed (since ++ [.replaced r' s.db]) r revoked := by
  have hcreated : createdSessions r.userId (since ++ [.replaced r' s.db]) =
      createdSessions r.userId since := by
    rw [createdSessions_append]
    exact List.append_nil _
  refine ⟨fun row' hrow' huser hvalid => ?_, fun hash hmem => ?_, fun hash hmem => ?_, fun hne => ?_⟩
  · obtain ⟨row, hrow, hhash, hsame, hkept⟩ := AuthDb.mem_replacePassword (hdb ▸ hrow')
    rw [hcreated, ← hhash]
    exact h.covered row hrow (hsame.trans huser) (hkept hvalid).1
  · obtain ⟨row, hrow, rfl, huser⟩ := h.picked hash hmem
    rw [hdb]
    obtain ⟨row', hrow', hhash, hsame, -⟩ := @AuthDb.exists_mem_replacePassword _ r' revoked' now _ hrow
    exact ⟨row', hrow', hhash, hsame.trans huser⟩
  · rw [hcreated] at hmem
    obtain ⟨hunpicked, ⟨row, hrow, rfl, huser, hvalid⟩, honly⟩ := h.created hash hmem
    have hspared : row.sessionHash ∉ revoked' := by
      intro hrevoked
      obtain ⟨row', hrow', hhash, huser'⟩ := hpicked _ hrevoked
      exact h.present (List.ne_nil_of_mem hmem) (hother (huser'.symm.trans (honly row' hrow' hhash)))
    rw [hdb]
    obtain ⟨row', hrow', -, -, hkept⟩ := @AuthDb.exists_mem_replacePassword _ r' revoked' now _ hrow
    obtain rfl := hkept hspared
    refine ⟨hunpicked, ⟨row', hrow', rfl, huser, hvalid⟩, fun new hnew hsame => ?_⟩
    obtain ⟨old, hold, hhash, hnewUser, -⟩ := AuthDb.mem_replacePassword hnew
    exact hnewUser.symm.trans (honly old hold (hhash.trans hsame))
  · exact hadds.user?_ne_none (h.present (hcreated ▸ hne))

/-! ### What every statement adds -/

theorem Adds.quiet (h : Adds s s' new) {t : PasswordServer} (hquiet : Quiet slot s' t) :
    Adds s t new := by
  refine ⟨hquiet.effects.trans h.effects, ?_, fun u => ?_⟩
  · rw [hquiet.db]
    exact h.ids
  · rw [hquiet.db]
    exact h.password u

theorem Quiet.adds (h : Quiet slot s s') : Adds s s' [] := adds_nil h.effects h.db

theorem adds_createSession {userId : Uuid} {passwordHash sessionHash : String}
    (hfresh : ∀ row ∈ s.db.webSessions, row.sessionHash ≠ sessionHash) :
    Adds s (s.createSession slot userId passwordHash sessionHash)
        [.created userId passwordHash sessionHash s.db] ∧
      (s.createSession slot userId passwordHash sessionHash).db.webSessions =
        s.db.webSessions ++ [⟨sessionHash, userId, none⟩] := by
  have hunused : ¬∃ row ∈ s.db.webSessions, row.sessionHash = sessionHash :=
    fun ⟨row, hrow, hhash⟩ => hfresh row hrow hhash
  rw [createSession, if_neg hunused]
  exact ⟨⟨rfl, rfl, fun _ => Option.map_id'.symm⟩, rfl⟩

theorem adds_regenerateUpdate {userId : Uuid} {passwordHash : String} {recovery : NewRecovery}
    (hfree : s.userLocks.free slot userId = true) :
    Adds s (s.regenerateUpdate slot userId passwordHash recovery)
      [.regenerated userId passwordHash s.db] := by
  rw [regenerateUpdate, if_pos hfree]
  have hid : ∀ user : UserRow, (user.setRecovery recovery).id = user.id := fun _ => rfl
  refine Adds.quiet ⟨rfl, AuthDb.ids_updateUser hid, fun u => ?_⟩ (quiet_finish _)
  exact (AuthDb.passwordOf?_updateUser_setRecovery recovery).trans Option.map_id'.symm

theorem adds_commit (r : PasswordReplacement) (now : DateTime) (revoked : List String) :
    Adds s (s.commit slot r now revoked) [.replaced r s.db] := by
  refine Adds.quiet ⟨rfl, ?_, fun u => ?_⟩ (quiet_finish _)
  · refine (AuthDb.ids_updateUser r.apply_id).trans ?_
    rw [AuthDb.consumeFor_users]
  · refine (AuthDb.passwordOf?_replacePassword r revoked now).trans ?_
    refine congrArg (Option.map · _) (funext fun hash => ?_)
    rw [lastPassword?_replaced]
    split <;> rfl

/-- What an event adds, and that it leaves what the replacements of other slots have picked. -/
def Passes (s s' : PasswordServer) (actor : Option ℕ) (new : List CredentialEffect) : Prop :=
  Adds s s' new ∧ ∀ other, actor ≠ some other → ∀ r now revoked since,
    s.calls other = some (.commit r now revoked) → s.Listed since r revoked →
      s'.Listed (since ++ new) r revoked

theorem Adds.passes {actor : Option ℕ} (h : Adds s s' new)
    (hsessions : s'.db.webSessions = s.db.webSessions) (hcreated : ∀ u, createdSessions u new = []) :
    Passes s s' actor new :=
  ⟨h, fun _ _ r _ _ _ _ hlisted => hlisted.congr h hsessions (hcreated r.userId)⟩

theorem Quiet.passes {actor : Option ℕ} (h : Quiet slot s s') : Passes s s' actor [] :=
  h.adds.passes (by rw [h.db]) fun _ => rfl

/-- **What an event adds**, whoever's it is. -/
theorem passes_step (hown : ∀ i, Own i s) (htracked : ∀ i call, s.calls i = some call →
    ∃ sinceRead sinceListed, s.CallTracked sinceRead sinceListed call) (e : PasswordEvent) :
    ∃ new, Passes s (step cfg s e) e.slot? new := by
  cases e with
  | tick time =>
    have hadds : Adds s (step cfg s (.tick time)) [] := adds_nil rfl rfl
    exact ⟨[], hadds.passes rfl fun _ => rfl⟩
  | login | changePassword | regenerateRecoveryCode | recoverComplete | completeReset =>
    exact ⟨[], (quiet_enter _ _).passes⟩
  | drop slot => exact ⟨[], quiet_release.passes⟩
  | advance slot drawn =>
    show ∃ new, Passes s (s.advance cfg slot drawn) (some slot) new
    unfold advance
    cases hcall : s.calls slot with
    | none => exact ⟨[], (@quiet_refl s slot).passes⟩
    | some call =>
      obtain ⟨sinceRead, sinceListed, htrack⟩ := htracked slot call hcall
      cases call with
      | loginRead => exact ⟨[], (quiet_loginRead _ _).passes⟩
      | changeRead => exact ⟨[], (quiet_changeRead _ _ _ _).passes⟩
      | regenerateRead => exact ⟨[], (quiet_regenerateRead _ _).passes⟩
      | recoverRead => exact ⟨[], (quiet_recoverRead _ _ _).passes⟩
      | resetRead => exact ⟨[], (quiet_resetRead _ _ _).passes⟩
      | claimReset => exact ⟨[], (quiet_claimReset _ _ _ _).passes⟩
      | updateUser => exact ⟨[], (quiet_updateUser _ _).passes⟩
      | resetBegin | beginReplacement | revokeSessions => exact ⟨[], (quiet_goto _).passes⟩
      | createSession userId passwordHash =>
        by_cases hfresh : ∀ row ∈ s.db.webSessions, row.sessionHash ≠ drawn
        · obtain ⟨hadds, hsessions⟩ := adds_createSession hfresh
          refine ⟨_, hadds, fun _ _ _ _ _ _ _ h => h.createSession hadds hfresh ?_ hsessions⟩
          intro hnone
          have hknown : s.db.passwordOf? userId = some _ := htrack
          rw [AuthDb.passwordOf?, hnone] at hknown
          nomatch hknown
        · have hused : ∃ row ∈ s.db.webSessions, row.sessionHash = drawn := by
            simpa using hfresh
          refine ⟨[], ?_⟩
          show Passes s (s.createSession slot _ _ _) _ _
          rw [createSession, if_pos hused]
          exact (@quiet_refl s slot).passes
      | regenerateUpdate userId passwordHash recovery =>
        by_cases hfree : s.userLocks.free slot userId = true
        · refine ⟨_, (adds_regenerateUpdate hfree).passes ?_ fun _ => rfl⟩
          show (s.regenerateUpdate slot _ _ _).db.webSessions = _
          rw [regenerateUpdate, if_pos hfree]
          rfl
        · refine ⟨[], ?_⟩
          show Passes s (s.regenerateUpdate slot _ _ _) _ _
          rw [regenerateUpdate, if_neg hfree]
          exact (@quiet_refl s slot).passes
      | commit r' now' revoked' =>
        refine ⟨_, adds_commit r' now' revoked', fun other hactor r now revoked since hother h => ?_⟩
        refine h.commit (adds_commit r' now' revoked') htrack.2.picked (fun hsame => ?_) rfl
        have hwritten : s.Written slot r' := hown slot _ hcall
        have hwrittenOther : s.Written other r := hown other _ hother
        -- Two replacements of one user do not both hold its lock.
        rcases hwrittenOther.locked with hlock | hnone
        · rcases hwritten.locked with hlock' | hnone'
          · rw [hsame] at hlock'
            exact absurd (hlock'.symm.trans hlock) hactor
          · rwa [hsame] at hnone'
        · exact hnone

/-- What a handler has read, after another has added something. -/
theorem CallTracked.adds {sinceRead sinceListed : List CredentialEffect} {call : PasswordCall}
    (h : s.CallTracked sinceRead sinceListed call) (hadds : Adds s s' new)
    (hlisted : ∀ r now revoked, call = .commit r now revoked → s.Listed sinceListed r revoked →
      s'.Listed (sinceListed ++ new) r revoked) :
    s'.CallTracked (sinceRead ++ new) (sinceListed ++ new) call := by
  cases call with
  | createSession | regenerateUpdate => exact hadds.hashKnown h
  | beginReplacement | updateUser | revokeSessions =>
    exact fun hash hauthority => hadds.hashKnown (h hash hauthority)
  | commit r now revoked =>
    exact ⟨fun hash hauthority => hadds.hashKnown (h.1 hash hauthority), hlisted r now revoked rfl h.2⟩
  | _ => trivial

/-- What a handler has read is about the database. -/
theorem CallTracked.quiet {sinceRead sinceListed : List CredentialEffect} {call : PasswordCall}
    (h : s.CallTracked sinceRead sinceListed call)
    (hquiet : Quiet slot s s') : s'.CallTracked sinceRead sinceListed call := by
  have hknown : ∀ {u hash}, s.HashKnown sinceRead u hash → s'.HashKnown sinceRead u hash := by
    intro u hash hold
    rwa [HashKnown, hquiet.db]
  cases call with
  | createSession | regenerateUpdate => exact hknown h
  | beginReplacement | updateUser | revokeSessions => exact fun hash hauth => hknown (h hash hauth)
  | commit r now revoked =>
    refine ⟨fun hash hauth => hknown (h.1 hash hauth), ?_⟩
    have hlisted := h.2.congr hquiet.adds (by rw [hquiet.db]) (List.filterMap_nil ..)
    rwa [List.append_nil] at hlisted
  | _ => trivial

/-! ### What a handler has read, after its own statements -/

theorem calls_goto {call next : PasswordCall} (h : (s.goto slot call).calls slot = some next) :
    next = call := by
  have hself : (s.goto slot call).calls slot = some call :=
    Function.update_self (β := fun _ => Option PasswordCall) slot (some call) s.calls
  exact Option.some.inj (h.symm.trans hself)

theorem calls_finish {answer : Answer} : (s.finish slot answer).calls slot = none :=
  Function.update_self ..

section Reads

variable {sinceRead sinceListed : List CredentialEffect} {next : PasswordCall}

/-- A handler that has answered has no next statement. -/
theorem callTracked_finish {answer : Answer} (h : (s.finish slot answer).calls slot = some next) :
    s.CallTracked sinceRead sinceListed next := absurd (calls_finish.symm.trans h) nofun

/-- A handler that has read goes on or answers. -/
theorem callTracked_ite {p : Prop} [Decidable p] {call : PasswordCall} {answer : Answer}
    (h : (if p then s.goto slot call else s.finish slot answer).calls slot = some next)
    (hcall : s.CallTracked sinceRead sinceListed call) : s.CallTracked sinceRead sinceListed next := by
  split at h
  · exact calls_goto h ▸ hcall
  · exact callTracked_finish h

/-- The password that is read is the one that is known. -/
theorem hashKnown_read {u : Uuid} {user : UserRow} (h : s.db.user? u = some user) :
    s.HashKnown [] u user.credentials.passwordHash := by
  rw [HashKnown, AuthDb.passwordOf?, h]
  rfl

theorem callTracked_loginRead {email authKey : String} (hids : (s.db.users.map UserRow.id).Nodup)
    (h : (s.loginRead cfg slot email authKey).calls slot = some next) :
    s.CallTracked [] sinceListed next := by
  unfold loginRead at h
  split at h
  · exact callTracked_finish h
  · rename_i user hfound
    exact callTracked_ite h
      (hashKnown_read (AuthDb.user?_eq_some_of_mem hids (List.mem_of_find?_eq_some hfound)))

theorem callTracked_changeRead {userId : Uuid} {session : Option String}
    {req : ChangePasswordRequest} {salt : String}
    (h : (s.changeRead cfg slot userId session req salt).calls slot = some next) :
    s.CallTracked [] sinceListed next := by
  unfold changeRead at h
  split at h
  · exact callTracked_finish h
  · rename_i user hfound
    refine callTracked_ite h fun hash hauthority => ?_
    obtain rfl := Authority.password.inj hauthority
    exact hashKnown_read hfound

theorem callTracked_regenerateRead {userId : Uuid} {req : RegenerateRecoveryCodeRequest}
    (h : (s.regenerateRead cfg slot userId req).calls slot = some next) :
    s.CallTracked [] sinceListed next := by
  unfold regenerateRead at h
  split at h
  · exact callTracked_finish h
  · rename_i user hfound
    exact callTracked_ite h (hashKnown_read hfound)

theorem callTracked_recoverRead {email : String} {req : RecoverCompleteRequest} {salt : String}
    (h : (s.recoverRead cfg slot email req salt).calls slot = some next) :
    s.CallTracked sinceRead sinceListed next := by
  unfold recoverRead at h
  split at h
  · exact callTracked_finish h
  · exact callTracked_ite h fun _ hauthority => nomatch hauthority

theorem callTracked_resetRead {id : Uuid} {req : CompleteResetRequest} {salt : String}
    (h : (s.resetRead cfg slot id req salt).calls slot = some next) :
    s.CallTracked sinceRead sinceListed next := by
  unfold resetRead at h
  split at h
  · exact callTracked_finish h
  · exact callTracked_ite h trivial

theorem callTracked_claimReset {id : Uuid} {now : DateTime} {password : NewPassword}
    {recovery : NewRecovery} (hcall : s.calls slot = some (.claimReset id now password recovery))
    (h : (s.claimReset slot id now password recovery).calls slot = some next) :
    s.CallTracked sinceRead sinceListed next := by
  unfold claimReset at h
  split at h
  · exact callTracked_finish h
  · split at h
    · refine calls_goto h ▸ ?_
      rintro _ ⟨⟩
    · obtain rfl := Option.some.inj (hcall.symm.trans h)
      trivial

theorem callTracked_updateUser {now : DateTime} (hcall : s.calls slot = some (.updateUser r now))
    (htrack : s.CallTracked sinceRead sinceListed (.updateUser r now))
    (h : (s.updateUser slot r now).calls slot = some next) :
    s.CallTracked sinceRead sinceListed next := by
  unfold updateUser at h
  split at h
  · split at h
    · exact callTracked_finish h
    · exact calls_goto h ▸ htrack
  · split at h
    · exact calls_goto h ▸ htrack
    · obtain rfl := Option.some.inj (hcall.symm.trans h)
      exact htrack

end Reads

end PasswordServer

/-! ### The watched server -/

namespace PasswordWatch

open PasswordServer

variable {cfg : PasswordConfig} {w : PasswordWatch} {slot : ℕ}

/-- What the handler of a slot has read. -/
def OwnTracked (slot : ℕ) (w : PasswordWatch) : Prop := ∀ call, w.server.calls slot = some call →
  w.server.CallTracked (w.sinceRead slot) (w.sinceListed slot) call

/-- **What holds of a watched server**: the ids of users are theirs alone, the marks are in the past,
and the handlers know what they hold on to. -/
structure Shared (w : PasswordWatch) : Prop where
  ids : (w.server.db.users.map UserRow.id).Nodup
  readAt : ∀ slot, w.readAt slot ≤ w.server.effects.length
  listedAt : ∀ slot, w.listedAt slot ≤ w.server.effects.length
  own : ∀ slot, Own slot w.server

/-! ### What comes between, mark by mark -/

theorem mark_advance (sets : PasswordCall → Bool) (marks : ℕ → ℕ) (drawn : String) :
    w.mark sets marks (.advance slot drawn) = if (w.server.calls slot).any sets
      then Function.update marks slot w.server.effects.length else marks := rfl

theorem mark_of_ne {sets : PasswordCall → Bool} {marks : ℕ → ℕ} {e : PasswordEvent}
    (hne : e.slot? ≠ some slot) : w.mark sets marks e slot = marks slot := by
  cases e with
  | advance actor drawn =>
    have hslot : slot ≠ actor := fun heq => hne (congrArg some heq.symm)
    rw [mark_advance]
    split
    · exact Function.update_of_ne hslot _ _
    · rfl
  | _ => rfl

theorem mark_le {sets : PasswordCall → Bool} {marks : ℕ → ℕ} {e : PasswordEvent}
    (h : marks slot ≤ w.server.effects.length) :
    w.mark sets marks e slot ≤ w.server.effects.length := by
  cases e with
  | advance actor drawn =>
    rw [mark_advance]
    split
    · by_cases hslot : slot = actor
      · rw [hslot, Function.update_self]
      · rwa [Function.update_of_ne hslot]
    · exact h
  | _ => exact h

theorem mark_of_sets {sets : PasswordCall → Bool} {marks : ℕ → ℕ} {drawn : String}
    {call : PasswordCall} (hcall : w.server.calls slot = some call) (hsets : sets call = true) :
    w.mark sets marks (.advance slot drawn) slot = w.server.effects.length := by
  rw [mark_advance, hcall, Option.any_some, if_pos hsets, Function.update_self]

theorem mark_of_not_sets {sets : PasswordCall → Bool} {marks : ℕ → ℕ} {drawn : String}
    {call : PasswordCall} (hcall : w.server.calls slot = some call) (hsets : sets call = false) :
    w.mark sets marks (.advance slot drawn) slot = marks slot := by
  rw [mark_advance, hcall, Option.any_some, if_neg (by simp [hsets])]

/-- What the others add comes after what was there. -/
theorem since_of_ne (h : w.Shared) {e : PasswordEvent} {new : List CredentialEffect}
    (hadds : Adds w.server (step cfg w e).server new) (hne : e.slot? ≠ some slot) :
    (step cfg w e).sinceRead slot = w.sinceRead slot ++ new ∧
      (step cfg w e).sinceListed slot = w.sinceListed slot ++ new := by
  have hread : (step cfg w e).readAt slot = w.readAt slot := mark_of_ne hne
  have hlisted : (step cfg w e).listedAt slot = w.listedAt slot := mark_of_ne hne
  unfold sinceRead sinceListed
  rw [hread, hlisted, hadds.effects, List.drop_append_of_le_length (h.readAt slot),
    List.drop_append_of_le_length (h.listedAt slot)]
  exact ⟨rfl, rfl⟩

/-! ### What a handler has read, after its own statements -/

/-- What a statement of a slot that writes nothing keeps, or starts to keep. -/
theorem since_of_quiet {drawn : String} {call : PasswordCall}
    (hcall : w.server.calls slot = some call)
    (hquiet : Quiet slot w.server (step cfg w (.advance slot drawn)).server) :
    (step cfg w (.advance slot drawn)).sinceRead slot =
        (if call.readsPassword then [] else w.sinceRead slot) ∧
      (step cfg w (.advance slot drawn)).sinceListed slot =
        if call.listsSessions then [] else w.sinceListed slot := by
  have hread : (step cfg w (.advance slot drawn)).readAt slot =
      w.mark PasswordCall.readsPassword w.readAt (.advance slot drawn) slot := rfl
  have hlisted : (step cfg w (.advance slot drawn)).listedAt slot =
      w.mark PasswordCall.listsSessions w.listedAt (.advance slot drawn) slot := rfl
  unfold sinceRead sinceListed
  rw [hquiet.effects, hread, hlisted]
  constructor
  · by_cases hreads : call.readsPassword = true
    · rw [if_pos hreads, mark_of_sets hcall hreads, List.drop_length]
    · rw [if_neg hreads, mark_of_not_sets hcall (by simpa using hreads)]
  · by_cases hlists : call.listsSessions = true
    · rw [if_pos hlists, mark_of_sets hcall hlists, List.drop_length]
    · rw [if_neg hlists, mark_of_not_sets hcall (by simpa using hlists)]

/-- A handler goes on to a statement for which it has read what it has to. -/
theorem ownTracked_quiet {drawn : String} {call : PasswordCall} {t : PasswordServer}
    (hcall : w.server.calls slot = some call) (hquiet : Quiet slot w.server t)
    (hstep : (step cfg w (.advance slot drawn)).server = t)
    (hnext : ∀ next, t.calls slot = some next →
      w.server.CallTracked (if call.readsPassword then [] else w.sinceRead slot)
        (if call.listsSessions then [] else w.sinceListed slot) next) :
    OwnTracked slot (step cfg w (.advance slot drawn)) := by
  subst hstep
  intro next hcalls
  obtain ⟨hread, hlisted⟩ := since_of_quiet hcall hquiet
  rw [hread, hlisted]
  exact (hnext next hcalls).quiet hquiet

/-- A handler that has answered has nothing left to read. -/
theorem ownTracked_of_none {e : PasswordEvent} (h : (step cfg w e).server.calls slot = none) :
    OwnTracked slot (step cfg w e) := fun _ hnext => absurd (h.symm.trans hnext) nofun

/-- A handler that waits knows what it knew. -/
theorem ownTracked_wait {drawn : String} {call : PasswordCall} (hown : OwnTracked slot w)
    (hcall : w.server.calls slot = some call)
    (hmarks : call.readsPassword = false ∧ call.listsSessions = false)
    (hstep : (step cfg w (.advance slot drawn)).server = w.server) :
    OwnTracked slot (step cfg w (.advance slot drawn)) := by
  refine ownTracked_quiet hcall quiet_refl hstep fun next hnext => ?_
  rw [hmarks.1, hmarks.2]
  exact hown next hnext

/-- A request that comes in has read nothing. -/
theorem ownTracked_enter {α : Type} {checked : Except AuthError α} {first : α → PasswordCall}
    {e : PasswordEvent} (hown : OwnTracked slot w)
    (hstep : (step cfg w e).server = w.server.enter slot checked first)
    (hmarks : (step cfg w e).readAt = w.readAt ∧ (step cfg w e).listedAt = w.listedAt)
    (hfirst : ∀ value, w.server.CallTracked (w.sinceRead slot) (w.sinceListed slot) (first value)) :
    OwnTracked slot (step cfg w e) := by
  have hquiet : Quiet slot w.server (step cfg w e).server := hstep ▸ quiet_enter checked first
  intro next hnext
  have hread : (step cfg w e).sinceRead slot = w.sinceRead slot := by
    rw [sinceRead, hquiet.effects, hmarks.1, sinceRead]
  have hlisted : (step cfg w e).sinceListed slot = w.sinceListed slot := by
    rw [sinceListed, hquiet.effects, hmarks.2, sinceListed]
  rw [hread, hlisted]
  refine CallTracked.quiet ?_ hquiet
  rw [hstep] at hnext
  unfold enter at hnext
  split at hnext
  · exact hown next hnext
  · cases checked with
    | error e => exact hown next hnext
    | ok value => exact calls_goto hnext ▸ hfirst value

/-- **What a handler has read, after its own next statement.** -/
theorem ownTracked_advance (hshared : w.Shared) (hown : OwnTracked slot w) (drawn : String) :
    OwnTracked slot (step cfg w (.advance slot drawn)) := by
  have hstep : (step cfg w (.advance slot drawn)).server = w.server.advance cfg slot drawn := rfl
  cases hcall : w.server.calls slot with
  | none =>
    refine ownTracked_of_none ?_
    rw [hstep, advance, hcall]
    exact hcall
  | some call =>
    have htrack := hown call hcall
    rw [advance, hcall] at hstep
    cases call with
    | loginRead =>
      exact ownTracked_quiet hcall (quiet_loginRead _ _) hstep fun _ hnext =>
        callTracked_loginRead hshared.ids hnext
    | changeRead =>
      exact ownTracked_quiet hcall (quiet_changeRead _ _ _ _) hstep fun _ hnext =>
        callTracked_changeRead hnext
    | regenerateRead =>
      exact ownTracked_quiet hcall (quiet_regenerateRead _ _) hstep fun _ hnext =>
        callTracked_regenerateRead hnext
    | recoverRead =>
      exact ownTracked_quiet hcall (quiet_recoverRead _ _ _) hstep fun _ hnext =>
        callTracked_recoverRead hnext
    | resetRead =>
      exact ownTracked_quiet hcall (quiet_resetRead _ _ _) hstep fun _ hnext =>
        callTracked_resetRead hnext
    | claimReset =>
      exact ownTracked_quiet hcall (quiet_claimReset _ _ _ _) hstep fun _ hnext =>
        callTracked_claimReset hcall hnext
    | updateUser r now =>
      exact ownTracked_quiet hcall (quiet_updateUser _ _) hstep fun _ hnext =>
        callTracked_updateUser hcall htrack hnext
    | resetBegin =>
      exact ownTracked_quiet hcall (quiet_goto _) hstep fun _ hnext => calls_goto hnext ▸ trivial
    | beginReplacement =>
      exact ownTracked_quiet hcall (quiet_goto _) hstep fun _ hnext => calls_goto hnext ▸ htrack
    | revokeSessions r now =>
      exact ownTracked_quiet hcall (quiet_goto _) hstep fun _ hnext =>
        calls_goto hnext ▸ ⟨htrack, listed_sessionsToRevoke r⟩
    | createSession userId passwordHash =>
      by_cases hused : ∃ row ∈ w.server.db.webSessions, row.sessionHash = drawn
      · exact ownTracked_wait hown hcall ⟨rfl, rfl⟩ (hstep.trans (if_pos hused))
      · exact ownTracked_of_none (hstep.trans (if_neg hused) ▸ calls_finish)
    | regenerateUpdate userId passwordHash recovery =>
      by_cases hfree : w.server.userLocks.free slot userId = true
      · exact ownTracked_of_none (hstep.trans (if_pos hfree) ▸ calls_finish)
      · exact ownTracked_wait hown hcall ⟨rfl, rfl⟩ (hstep.trans (if_neg hfree))
    | commit => exact ownTracked_of_none (hstep ▸ calls_finish)

/-! ### Every run -/

/-- **What every handler has read, after any event.** -/
theorem tracked_step (hshared : w.Shared) (hown : ∀ i, OwnTracked i w) (e : PasswordEvent) :
    (step cfg w e).Shared ∧ ∀ i, OwnTracked i (step cfg w e) := by
  obtain ⟨new, hadds, hlisted⟩ := @passes_step cfg w.server hshared.own
    (fun i call hcall => ⟨_, _, hown i call hcall⟩) e
  have hlength : w.server.effects.length ≤ (step cfg w e).server.effects.length := by
    show _ ≤ (PasswordServer.step cfg w.server e).effects.length
    rw [hadds.effects, List.length_append]
    omega
  refine ⟨⟨?_, fun i => (mark_le (hshared.readAt i)).trans hlength,
    fun i => (mark_le (hshared.listedAt i)).trans hlength, own_step hshared.own e⟩, fun i => ?_⟩
  · show ((PasswordServer.step cfg w.server e).db.users.map UserRow.id).Nodup
    rw [hadds.ids]
    exact hshared.ids
  by_cases hactor : e.slot? = some i
  · cases e with
    | tick time => nomatch hactor
    | advance slot drawn =>
      obtain rfl : slot = i := Option.some.inj hactor
      exact ownTracked_advance hshared (hown slot) drawn
    | drop slot =>
      obtain rfl : slot = i := Option.some.inj hactor
      exact ownTracked_of_none (Function.update_self ..)
    | login slot | changePassword slot | regenerateRecoveryCode slot | recoverComplete slot
    | completeReset slot =>
      obtain rfl : slot = i := Option.some.inj hactor
      exact ownTracked_enter (hown slot) rfl ⟨rfl, rfl⟩ fun _ => trivial
  · intro call hcall
    obtain ⟨hread, hpicked⟩ := since_of_ne hshared hadds hactor
    have hsame : (step cfg w e).server.calls i = w.server.calls i :=
      (rely_step hshared.own hactor).calls
    rw [hread, hpicked]
    exact (hown i call (hsame ▸ hcall)).adds hadds fun r now revoked heq =>
      hlisted i hactor r now revoked _ (heq ▸ hsame ▸ hcall)

/-- A handler takes effect undisturbed exactly if what it has read is current, and nothing is missed. -/
theorem undisturbed_iff (hown : ∀ i, OwnTracked i w) (e : PasswordEvent) :
    w.Undisturbed e ↔ w.server.EventAuthorised e := by
  cases e with
  | advance slot drawn =>
    refine forall_congr' fun call => imp_congr_right fun hcall => ?_
    have htrack := hown slot call hcall
    cases call with
    | createSession | regenerateUpdate => exact imp_congr_right fun _ => htrack.current_iff.symm
    | commit r now revoked =>
      refine and_congr (forall_congr' fun hash => ?_) ?_
      · rw [Option.mem_def, Authority.passwordHash?_eq_some]
        refine imp_congr_right fun hauthority => ?_
        rw [hauthority]
        exact (htrack.1 hash hauthority).current_iff.symm
      · exact htrack.2.sessionsToRevoke_iff.symm
    | _ => rfl
  | _ => rfl

end PasswordWatch

namespace PasswordServer

/-- **When credential changes are linearizable**: along a run everything that took effect is
authorised exactly if no other password of the user is committed between the statement of a login, a
change of the password or a regeneration of the recovery code that reads the password and the one that
takes effect, and no session is created between the revocation of the sessions of its user and the
commit of that. -/
theorem always_linearized_iff (cfg : PasswordConfig) (db : AuthDb) (clock : DateTime)
    (events : List PasswordEvent) (hids : (db.users.map UserRow.id).Nodup) :
    Runs.Always (step cfg) Linearized (start db clock) events ↔
      Runs.Meets (PasswordWatch.step cfg) PasswordWatch.Undisturbed (PasswordWatch.start db clock)
        events := by
  have hserver : ∀ w e, (PasswordWatch.step cfg w e).server = step cfg w.server e := fun _ _ => rfl
  show Runs.Always (step cfg) Linearized (PasswordWatch.start db clock).server events ↔ _
  refine (Runs.always_of_projection PasswordWatch.server hserver).trans
    (Runs.always_iff_meets (I := fun w : PasswordWatch =>
      (w.Shared ∧ ∀ i, PasswordWatch.OwnTracked i w) ∧ w.server.Linearized) (fun _ h => h.2) ?_ ?_ ?_)
  · intro w e ⟨⟨hshared, hown⟩, hlin⟩ hok
    exact ⟨PasswordWatch.tracked_step hshared hown e, (linearized_step_iff hshared.own hlin e).mpr
      ((PasswordWatch.undisturbed_iff hown e).mp hok)⟩
  · intro w e ⟨⟨hshared, hown⟩, hlin⟩ hbad hafter
    exact hbad ((PasswordWatch.undisturbed_iff hown e).mpr
      ((linearized_step_iff hshared.own hlin e).mp hafter))
  · exact ⟨⟨⟨hids, fun _ => Nat.zero_le _, fun _ => Nat.zero_le _, fun _ => own_of_none rfl⟩,
      fun _ _ hcall => nomatch hcall⟩, fun _ h => absurd h List.not_mem_nil⟩

/-- Hashes in clear, and keys that decode to as many bytes as they should. -/
def clearConfig : PasswordConfig where
  hashToken := id
  hashPassword := id
  decodeBase64Url := fun text => some (List.replicate (if text = "salt" then 16 else 32) 0)
  trim := id
  toLowercase := id
  maxDevicesPerAccount := 1
  argon2 := fun _ key => key
  verifyPassword := fun key hash => key == hash

/-- One user, with the session `"browser"`. -/
def oneUser : AuthDb where
  requests := fun _ => none
  approvals := ∅
  devices := []
  users := [⟨1, "user", ⟨"old", "salt", .null, "key", "code", "key"⟩, none⟩]
  webSessions := [⟨"browser", 1, none⟩]

/-- From the old password to a new one. -/
def oldToNew : ChangePasswordRequest where
  currentAuthKey := "old"
  newAuthKey := "new"
  newKdfSalt := "salt"
  newKdfParams := .object [("m", .number "19456"), ("t", .number "2"), ("p", .number "2")]
  newWrappedAk := "rewrapped"

/-- A login, undisturbed. -/
def loginAlone : List PasswordEvent := [.login 0 ⟨"user", "old"⟩, .advance 0 "", .advance 0 "session"]

/-- **What a login creates by itself is authorised.** -/
theorem always_linearized_loginAlone :
    Runs.Always (step clearConfig) Linearized (start oneUser 0) loginAlone :=
  (always_linearized_iff clearConfig oneUser 0 loginAlone (by decide)).mpr (by decide +kernel)

/-- A login with the old password, in slot 0, and a change of the password in slot 1, which is
committed between the two statements of the login. -/
def loginDuringChange : List PasswordEvent :=
  [.login 0 ⟨"user", "old"⟩, .advance 0 "", .changePassword 1 1 (some "browser") oldToNew,
    .advance 1 "", .advance 1 "", .advance 1 "", .advance 1 "", .advance 1 "", .advance 0 "stale"]

theorem validateChange_oldToNew : validateChange clearConfig oldToNew = .ok () := by
  have hm : "19456".toNat? = some 19456 := by
    show "19456".toSlice.toNat? = _
    simp [String.Slice.toNat?, String.Slice.isNat, String.Slice.forIn_eq_forIn_toList,
      String.Slice.foldl_eq_foldl_toList]
  have htwo : "2".toNat? = some 2 := by
    show "2".toSlice.toNat? = _
    simp [String.Slice.toNat?, String.Slice.isNat, String.Slice.forIn_eq_forIn_toList,
      String.Slice.foldl_eq_foldl_toList]
  have hfield : ∀ {params : Json} {key text : String} {n : ℕ} {low high : ℕ},
      params.get? key = some (.number text) → text.toNat? = some n → low ≤ n → n ≤ high →
        fieldWithin params key low high = true := by
    intro params key text n low high hget hnat hlow hhigh
    simp [fieldWithin, hget, hnat, hlow, hhigh]
  have hparams : validateKdfParams "newKdfParams" oldToNew.newKdfParams = .ok () :=
    if_pos ⟨rfl, hfield rfl hm (by omega) (by omega), hfield rfl htwo (by omega) (by omega),
      hfield rfl htwo (by omega) (by omega)⟩
  unfold validateChange
  rw [hparams]
  rfl

/-- **A login survives the replacement of its password.** -/
theorem login_survives_change :
    ¬((start oneUser 0).run clearConfig loginDuringChange).Linearized := by
  have hrun : (start oneUser 0).run clearConfig loginDuringChange =
      (((start oneUser 0).run clearConfig (loginDuringChange.take 2)).enter 1
        (validateChange clearConfig oldToNew) fun _ => .changeRead 1 (some "browser") oldToNew).run
          clearConfig (loginDuringChange.drop 3) := rfl
  rw [hrun, validateChange_oldToNew]
  decide +kernel

end PasswordServer

end HelixSync
