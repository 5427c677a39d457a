import HelixSync.Server.RevocationCaches

/-!
# A revocation is final

No check that begins after a revocation has written its entry lets the revoked session or device in
(`HelixSync.AccessServer.revocation_final`), whatever checks, sweeps and other revocations run at the
same time.

What a revocation has committed stays so: a hash or an id that was drawn once and whose rows are
revoked or gone has no other row again (`HelixSync.AccessServer.SessionDead`,
`HelixSync.AccessServer.DeviceDead`), so the database denies it from then on. With that, both caches
are instances of `CheckedCache`: a revocation takes its `Instant` when the database already denies
what it revoked (`HelixSync.AccessServer.CallOk`).
-/

namespace HelixSync

namespace AccessServer

variable {s s' : AccessServer} {slot : ℕ}

/-! ### What is dead -/

/-- A session that was there and has only revoked rows, if it has any. -/
def SessionDead (s : AccessServer) (sessionHash : String) : Prop :=
  sessionHash ∈ s.drawnHashes ∧
    ∀ row ∈ s.sessions, row.sessionHash = sessionHash → row.revokedAt ≠ none

/-- A device that was there and has only revoked rows, if it has any. -/
def DeviceDead (s : AccessServer) (deviceId : Uuid) : Prop :=
  deviceId ∈ s.drawnDevices ∧ ∀ row ∈ s.devices, row.id = deviceId → row.revokedAt ≠ none

/-- The database denies a session that is dead. -/
theorem SessionDead.not_admits {sessionHash : String} (h : s.SessionDead sessionHash) :
    ¬Admits (s.readSession sessionHash) := by
  intro hadmits
  obtain ⟨user, hread⟩ := Option.isSome_iff_exists.mp hadmits
  obtain ⟨row, hrow, hfound⟩ := List.exists_of_findSome?_eq_some hread
  split at hfound
  · rename_i hvalid
    exact h.2 row hrow hvalid.1 hvalid.2.1
  · cases hfound

/-- The database denies a device that is dead. -/
theorem DeviceDead.not_isActive {deviceId : Uuid} (h : s.DeviceDead deviceId) (userId : Uuid) :
    ¬IsActive (s.readDevice deviceId userId) := by
  intro hactive
  unfold IsActive readDevice at hactive
  cases hfound : s.devices.find? fun row => row.id = deviceId ∧ row.userId = userId with
  | none =>
    rw [hfound] at hactive
    exact absurd hactive Bool.false_ne_true
  | some row =>
    rw [hfound] at hactive
    have hmatch := List.find?_some hfound
    simp only [decide_eq_true_eq] at hmatch
    exact h.2 row (List.mem_of_find?_eq_some hfound) hmatch.1 (of_decide_eq_true hactive)

/-! ### The invariant -/

/-- What the handler of a revocation knows: what it names was drawn; what it lists is its user's;
once it has committed, what it revoked is dead; and once it has its `Instant`, the caches know. -/
def CallOk (s : AccessServer) : RevocationCall → Prop
  | .logoutUpdate sessionHash => sessionHash ∈ s.drawnHashes
  | .reuseUpdate deviceId | .commitDevice deviceId => deviceId ∈ s.drawnDevices
  | .sessionUpdate _ _ | .passwordUpdate _ _ | .resetUpdate _ | .deviceUpdate _ _ | .deleteLock _
  | .deleteLists _ => True
  | .commitSessions hashes => ∀ sessionHash ∈ hashes, sessionHash ∈ s.drawnHashes
  | .deleteCommit userId hashes deviceIds =>
      (∀ sessionHash ∈ hashes, sessionHash ∈ s.drawnHashes ∧
        ∀ row ∈ s.sessions, row.sessionHash = sessionHash → row.userId = userId) ∧
      ∀ deviceId ∈ deviceIds, deviceId ∈ s.drawnDevices ∧
        ∀ row ∈ s.devices, row.id = deviceId → row.userId = userId
  | .stamp hashes deviceIds => (∀ sessionHash ∈ hashes, s.SessionDead sessionHash) ∧
      ∀ deviceId ∈ deviceIds, s.DeviceDead deviceId
  | .write asOf hashes deviceIds =>
      (∀ sessionHash ∈ hashes, (sessionHash, asOf) ∈ s.sessionCache.stamps) ∧
        ∀ deviceId ∈ deviceIds, (deviceId, asOf) ∈ s.deviceCache.stamps

/-- What holds of the rows: their tokens and ids were drawn, and those with the same one have the same
user. -/
structure RowsOk (s : AccessServer) : Prop where
  drawnHashes : ∀ row ∈ s.sessions, row.sessionHash ∈ s.drawnHashes
  drawnDevices : ∀ row ∈ s.devices, row.id ∈ s.drawnDevices
  sessionOwner : ∀ row ∈ s.sessions, ∀ other ∈ s.sessions, row.sessionHash = other.sessionHash →
    row.userId = other.userId
  deviceOwner : ∀ row ∈ s.devices, ∀ other ∈ s.devices, row.id = other.id → row.userId = other.userId

/-- **What holds between any two steps.** -/
structure Safe (s : AccessServer) : Prop where
  rows : s.RowsOk
  sessionCache : s.sessionCache.Invariant Admits webSessionCacheTtl s.now s.SessionDead
  deviceCache : s.deviceCache.Invariant IsActive deviceRevocationCacheTtl s.now s.DeviceDead
  calls : ∀ slot call, s.calls slot = some call → s.CallOk call

/-! ### What every step keeps -/

/-- Rows are old ones of the same user, none of them valid again, or new ones; and nothing that was
drawn or stamped is forgotten. -/
structure Grows (s s' : AccessServer) : Prop where
  drawnHashes : ∀ sessionHash ∈ s.drawnHashes, sessionHash ∈ s'.drawnHashes
  drawnDevices : ∀ deviceId ∈ s.drawnDevices, deviceId ∈ s'.drawnDevices
  sessions : ∀ row' ∈ s'.sessions, (∃ row ∈ s.sessions, row.sessionHash = row'.sessionHash ∧
    row.userId = row'.userId ∧ (row'.revokedAt = none → row.revokedAt = none)) ∨
      row'.sessionHash ∉ s.drawnHashes
  devices : ∀ row' ∈ s'.devices, (∃ row ∈ s.devices, row.id = row'.id ∧
    row.userId = row'.userId ∧ (row'.revokedAt = none → row.revokedAt = none)) ∨
      row'.id ∉ s.drawnDevices
  sessionStamps : ∀ st ∈ s.sessionCache.stamps, st ∈ s'.sessionCache.stamps
  deviceStamps : ∀ st ∈ s.deviceCache.stamps, st ∈ s'.deviceCache.stamps

section Grows

variable (hgrows : Grows s s')

include hgrows

/-- **What is dead stays dead.** -/
theorem SessionDead.grows {sessionHash : String} (h : s.SessionDead sessionHash) :
    s'.SessionDead sessionHash := by
  refine ⟨hgrows.drawnHashes _ h.1, fun row' hrow' hhash hvalid => ?_⟩
  rcases hgrows.sessions row' hrow' with ⟨row, hrow, hsame, -, hkept⟩ | hnew
  · exact h.2 row hrow (hsame.trans hhash) (hkept hvalid)
  · exact hnew (hhash ▸ h.1)

theorem DeviceDead.grows {deviceId : Uuid} (h : s.DeviceDead deviceId) : s'.DeviceDead deviceId := by
  refine ⟨hgrows.drawnDevices _ h.1, fun row' hrow' hid hvalid => ?_⟩
  rcases hgrows.devices row' hrow' with ⟨row, hrow, hsame, -, hkept⟩ | hnew
  · exact h.2 row hrow (hsame.trans hid) (hkept hvalid)
  · exact hnew (hid ▸ h.1)

theorem CallOk.grows {call : RevocationCall} (h : s.CallOk call) : s'.CallOk call := by
  cases call with
  | logoutUpdate => exact hgrows.drawnHashes _ h
  | reuseUpdate | commitDevice => exact hgrows.drawnDevices _ h
  | sessionUpdate | passwordUpdate | resetUpdate | deviceUpdate | deleteLock | deleteLists => trivial
  | commitSessions => exact fun sessionHash hmem => hgrows.drawnHashes _ (h sessionHash hmem)
  | deleteCommit =>
    refine ⟨fun sessionHash hmem => ?_, fun deviceId hmem => ?_⟩
    · obtain ⟨hdrawn, howner⟩ := h.1 sessionHash hmem
      refine ⟨hgrows.drawnHashes _ hdrawn, fun row' hrow' hhash => ?_⟩
      rcases hgrows.sessions row' hrow' with ⟨row, hrow, hsame, huser, -⟩ | hnew
      · exact huser.symm.trans (howner row hrow (hsame.trans hhash))
      · exact absurd (hhash ▸ hdrawn) hnew
    · obtain ⟨hdrawn, howner⟩ := h.2 deviceId hmem
      refine ⟨hgrows.drawnDevices _ hdrawn, fun row' hrow' hid => ?_⟩
      rcases hgrows.devices row' hrow' with ⟨row, hrow, hsame, huser, -⟩ | hnew
      · exact huser.symm.trans (howner row hrow (hsame.trans hid))
      · exact absurd (hid ▸ hdrawn) hnew
  | stamp =>
    exact ⟨fun sessionHash hmem => SessionDead.grows hgrows (h.1 sessionHash hmem),
      fun deviceId hmem => DeviceDead.grows hgrows (h.2 deviceId hmem)⟩
  | write =>
    exact ⟨fun sessionHash hmem => hgrows.sessionStamps _ (h.1 sessionHash hmem),
      fun deviceId hmem => hgrows.deviceStamps _ (h.2 deviceId hmem)⟩

end Grows

/-- What is to be shown of a step. -/
theorem Safe.of_grows (h : s.Safe) (hgrows : Grows s s') (hrows : s'.RowsOk)
    (hsession : s'.sessionCache.Invariant Admits webSessionCacheTtl s'.now s.SessionDead)
    (hdevice : s'.deviceCache.Invariant IsActive deviceRevocationCacheTtl s'.now s.DeviceDead)
    (hcalls : ∀ slot call, s'.calls slot = some call → s.calls slot = some call ∨ s'.CallOk call) :
    s'.Safe where
  rows := hrows
  sessionCache := hsession.mono le_rfl fun _ => SessionDead.grows hgrows
  deviceCache := hdevice.mono le_rfl fun _ => DeviceDead.grows hgrows
  calls slot call hcall := by
    rcases hcalls slot call hcall with hold | hok
    · exact (h.calls slot call hold).grows hgrows
    · exact hok

/-! ### Rows that change -/

/-- Rows are old ones of the same user, none of them valid again. -/
structure Old (s s' : AccessServer) : Prop where
  drawnHashes : s'.drawnHashes = s.drawnHashes
  drawnDevices : s'.drawnDevices = s.drawnDevices
  sessions : ∀ row' ∈ s'.sessions, ∃ row ∈ s.sessions, row.sessionHash = row'.sessionHash ∧
    row.userId = row'.userId ∧ (row'.revokedAt = none → row.revokedAt = none)
  devices : ∀ row' ∈ s'.devices, ∃ row ∈ s.devices, row.id = row'.id ∧
    row.userId = row'.userId ∧ (row'.revokedAt = none → row.revokedAt = none)
  sessionStamps : ∀ st ∈ s.sessionCache.stamps, st ∈ s'.sessionCache.stamps
  deviceStamps : ∀ st ∈ s.deviceCache.stamps, st ∈ s'.deviceCache.stamps

theorem Old.grows (h : Old s s') : Grows s s' where
  drawnHashes := by simp [h.drawnHashes]
  drawnDevices := by simp [h.drawnDevices]
  sessions row hrow := .inl (h.sessions row hrow)
  devices row hrow := .inl (h.devices row hrow)
  sessionStamps := h.sessionStamps
  deviceStamps := h.deviceStamps

theorem Old.rowsOk (hold : Old s s') (h : s.RowsOk) : s'.RowsOk where
  drawnHashes row' hrow' := by
    obtain ⟨row, hrow, hhash, -⟩ := hold.sessions row' hrow'
    rw [hold.drawnHashes, ← hhash]
    exact h.drawnHashes row hrow
  drawnDevices row' hrow' := by
    obtain ⟨row, hrow, hid, -⟩ := hold.devices row' hrow'
    rw [hold.drawnDevices, ← hid]
    exact h.drawnDevices row hrow
  sessionOwner row₁ hrow₁ row₂ hrow₂ hsame := by
    obtain ⟨old₁, hold₁, hhash₁, huser₁, -⟩ := hold.sessions row₁ hrow₁
    obtain ⟨old₂, hold₂, hhash₂, huser₂, -⟩ := hold.sessions row₂ hrow₂
    rw [← huser₁, ← huser₂]
    exact h.sessionOwner old₁ hold₁ old₂ hold₂ (hhash₁.trans (hsame.trans hhash₂.symm))
  deviceOwner row₁ hrow₁ row₂ hrow₂ hsame := by
    obtain ⟨old₁, hold₁, hid₁, huser₁, -⟩ := hold.devices row₁ hrow₁
    obtain ⟨old₂, hold₂, hid₂, huser₂, -⟩ := hold.devices row₂ hrow₂
    rw [← huser₁, ← huser₂]
    exact h.deviceOwner old₁ hold₁ old₂ hold₂ (hid₁.trans (hsame.trans hid₂.symm))

/-- A step that changes no row. -/
theorem old_of_rows (hsessions : s'.sessions = s.sessions) (hdevices : s'.devices = s.devices)
    (hhashes : s'.drawnHashes = s.drawnHashes) (hids : s'.drawnDevices = s.drawnDevices)
    (hsession : ∀ st ∈ s.sessionCache.stamps, st ∈ s'.sessionCache.stamps)
    (hdevice : ∀ st ∈ s.deviceCache.stamps, st ∈ s'.deviceCache.stamps) : Old s s' where
  drawnHashes := hhashes
  drawnDevices := hids
  sessions row hrow := ⟨row, hsessions ▸ hrow, rfl, rfl, id⟩
  devices row hrow := ⟨row, hdevices ▸ hrow, rfl, rfl, id⟩
  sessionStamps := hsession
  deviceStamps := hdevice

theorem mem_revokeSessions {hashes : List String} {row' : SessionRow}
    (h : row' ∈ (s.revokeSessions hashes).sessions) : ∃ row ∈ s.sessions,
      row.sessionHash = row'.sessionHash ∧ row.userId = row'.userId ∧
        (row'.revokedAt = none → row.revokedAt = none ∧ row.sessionHash ∉ hashes) := by
  obtain ⟨row, hrow, rfl⟩ := List.mem_map.mp h
  refine ⟨row, hrow, ?_⟩
  split
  · exact ⟨rfl, rfl, nofun⟩
  · rename_i hkept
    exact ⟨rfl, rfl, fun hvalid => ⟨hvalid, hkept⟩⟩

theorem mem_revokeDevice {deviceId : Uuid} {row' : DeviceRow}
    (h : row' ∈ (s.revokeDevice deviceId).devices) : ∃ row ∈ s.devices, row.id = row'.id ∧
      row.userId = row'.userId ∧
        (row'.revokedAt = none → row.revokedAt = none ∧ row.id ≠ deviceId) := by
  obtain ⟨row, hrow, rfl⟩ := List.mem_map.mp h
  refine ⟨row, hrow, ?_⟩
  split
  · exact ⟨rfl, rfl, nofun⟩
  · rename_i hkept
    exact ⟨rfl, rfl, fun hvalid => ⟨hvalid, fun hid => hkept ⟨hid, hvalid⟩⟩⟩

theorem sessionDead_revokeSessions {hashes : List String} {sessionHash : String}
    (hdrawn : sessionHash ∈ s.drawnHashes) (hmem : sessionHash ∈ hashes) :
    (s.revokeSessions hashes).SessionDead sessionHash := by
  refine ⟨hdrawn, fun row hrow hhash hvalid => ?_⟩
  obtain ⟨old, -, hsame, -, hkept⟩ := mem_revokeSessions hrow
  exact (hkept hvalid).2 (hsame.trans hhash ▸ hmem)

theorem deviceDead_revokeDevice {deviceId : Uuid} (hdrawn : deviceId ∈ s.drawnDevices) :
    (s.revokeDevice deviceId).DeviceDead deviceId := by
  refine ⟨hdrawn, fun row hrow hid hvalid => ?_⟩
  obtain ⟨old, -, hsame, -, hkept⟩ := mem_revokeDevice hrow
  exact (hkept hvalid).2 (hsame.trans hid)

theorem sessionDead_deleteUser {userId : Uuid} {sessionHash : String}
    (hdrawn : sessionHash ∈ s.drawnHashes)
    (howner : ∀ row ∈ s.sessions, row.sessionHash = sessionHash → row.userId = userId) :
    (s.deleteUser userId).SessionDead sessionHash := by
  refine ⟨hdrawn, fun row hrow hhash => ?_⟩
  obtain ⟨hold, hother⟩ := List.mem_filter.mp hrow
  exact absurd (howner row hold hhash) (of_decide_eq_true hother)

theorem deviceDead_deleteUser {userId deviceId : Uuid} (hdrawn : deviceId ∈ s.drawnDevices)
    (howner : ∀ row ∈ s.devices, row.id = deviceId → row.userId = userId) :
    (s.deleteUser userId).DeviceDead deviceId := by
  refine ⟨hdrawn, fun row hrow hid => ?_⟩
  obtain ⟨hold, hother⟩ := List.mem_filter.mp hrow
  exact absurd (howner row hold hid) (of_decide_eq_true hother)

theorem old_revokeSessions (hashes : List String) : Old s (s.revokeSessions hashes) where
  drawnHashes := rfl
  drawnDevices := rfl
  sessions row hrow := by
    obtain ⟨old, hold, hhash, huser, hkept⟩ := mem_revokeSessions hrow
    exact ⟨old, hold, hhash, huser, fun hvalid => (hkept hvalid).1⟩
  devices row hrow := ⟨row, hrow, rfl, rfl, id⟩
  sessionStamps _ hst := hst
  deviceStamps _ hst := hst

theorem old_revokeDevice (deviceId : Uuid) : Old s (s.revokeDevice deviceId) where
  drawnHashes := rfl
  drawnDevices := rfl
  sessions row hrow := ⟨row, hrow, rfl, rfl, id⟩
  devices row hrow := by
    obtain ⟨old, hold, hid, huser, hkept⟩ := mem_revokeDevice hrow
    exact ⟨old, hold, hid, huser, fun hvalid => (hkept hvalid).1⟩
  sessionStamps _ hst := hst
  deviceStamps _ hst := hst

theorem old_deleteUser (userId : Uuid) : Old s (s.deleteUser userId) where
  drawnHashes := rfl
  drawnDevices := rfl
  sessions row hrow := ⟨row, (List.mem_filter.mp hrow).1, rfl, rfl, id⟩
  devices row hrow := ⟨row, (List.mem_filter.mp hrow).1, rfl, rfl, id⟩
  sessionStamps _ hst := hst
  deviceStamps _ hst := hst

/-! ### Steps of a revocation -/

/-- A slot goes on, and each cache as it may. -/
theorem Safe.of_write {u : AccessServer} (h : s.Safe) (hold : Old s u)
    (hsession : u.sessionCache.Invariant Admits webSessionCacheTtl u.now s.SessionDead)
    (hdevice : u.deviceCache.Invariant IsActive deviceRevocationCacheTtl u.now s.DeviceDead)
    (hcalls : u.calls = s.calls) {call : RevocationCall} (hok : u.CallOk call) :
    (u.goto slot call).Safe := by
  have hsame : Old u (u.goto slot call) :=
    old_of_rows rfl rfl rfl rfl (fun _ hst => hst) fun _ hst => hst
  refine h.of_grows ?_ (hsame.rowsOk (hold.rowsOk h.rows)) hsession hdevice fun slot' call' hcall => ?_
  · obtain ⟨h₁, h₂, h₃, h₄, h₅, h₆⟩ := hold.grows
    exact ⟨h₁, h₂, h₃, h₄, h₅, h₆⟩
  · by_cases hslot : slot' = slot
    · subst hslot
      obtain rfl : call = call' := by simpa [AccessServer.goto] using hcall
      exact .inr (hok.grows hsame.grows)
    · exact .inl (hcalls ▸ (Function.update_of_ne hslot _ _).symm.trans hcall)

/-- A revocation that writes rows, and no cache. -/
theorem Safe.goto {u : AccessServer} (h : s.Safe) (hold : Old s u) (hnow : s.now ≤ u.now)
    (hsession : u.sessionCache = s.sessionCache) (hdevice : u.deviceCache = s.deviceCache)
    (hcalls : u.calls = s.calls) {call : RevocationCall} (hok : u.CallOk call) :
    (u.goto slot call).Safe := by
  refine h.of_write hold ?_ ?_ hcalls hok
  · rw [hsession]
    exact h.sessionCache.mono hnow fun _ hdead => hdead
  · rw [hdevice]
    exact h.deviceCache.mono hnow fun _ hdead => hdead

/-- A step that changes no row, call or stamp, and each cache as it may. -/
theorem Safe.of_same (h : s.Safe) (hold : Old s s')
    (hsession : s'.sessionCache.Invariant Admits webSessionCacheTtl s'.now s.SessionDead)
    (hdevice : s'.deviceCache.Invariant IsActive deviceRevocationCacheTtl s'.now s.DeviceDead)
    (hcalls : ∀ slot call, s'.calls slot = some call → s.calls slot = some call) : s'.Safe :=
  h.of_grows hold.grows (hold.rowsOk h.rows) hsession hdevice fun slot call hcall =>
    .inl (hcalls slot call hcall)

theorem lt_later {elapsed : ℕ} : s.now < (s.later elapsed).now := by
  simp only [later]
  omega

section Revocation

variable (h : s.Safe) (elapsed : ℕ)

include h

theorem Safe.sessionCache_later :
    s.sessionCache.Invariant Admits webSessionCacheTtl (s.later elapsed).now s.SessionDead :=
  h.sessionCache.mono lt_later.le fun _ hdead => hdead

theorem Safe.deviceCache_later :
    s.deviceCache.Invariant IsActive deviceRevocationCacheTtl (s.later elapsed).now s.DeviceDead :=
  h.deviceCache.mono lt_later.le fun _ hdead => hdead

/-- Time passes. -/
theorem Safe.later : (s.later elapsed).Safe :=
  h.of_same (old_of_rows rfl rfl rfl rfl (fun _ hst => hst) fun _ hst => hst)
    (h.sessionCache_later elapsed) (h.deviceCache_later elapsed) fun _ _ hcall => hcall

theorem Safe.finish : (s.finish slot).Safe := by
  refine h.of_same (old_of_rows rfl rfl rfl rfl (fun _ hst => hst) fun _ hst => hst) h.sessionCache
    h.deviceCache fun slot' call hcall => ?_
  by_cases hslot : slot' = slot
  · subst hslot
    simp [AccessServer.finish] at hcall
  · exact (Function.update_of_ne hslot _ _).symm.trans hcall

theorem safe_sessionUpdate (id userId : Uuid) : (s.sessionUpdate slot id userId).Safe := by
  unfold sessionUpdate
  split
  · exact h.finish
  · rename_i row hfound
    refine h.goto (old_revokeSessions _) le_rfl rfl rfl rfl ⟨?_, nofun⟩
    rintro sessionHash hmem
    refine sessionDead_revokeSessions ?_ hmem
    rw [List.mem_singleton.mp hmem]
    exact h.rows.drawnHashes row (List.mem_of_find?_eq_some hfound)

theorem unrevokedHashes_drawn {userId : Uuid} :
    ∀ sessionHash ∈ s.unrevokedHashes userId, sessionHash ∈ s.drawnHashes := by
  rintro sessionHash hmem
  obtain ⟨row, hrow, rfl⟩ := List.mem_map.mp hmem
  exact h.rows.drawnHashes row (List.mem_filter.mp hrow).1

theorem safe_deviceUpdate (deviceId userId : Uuid) : (s.deviceUpdate slot deviceId userId).Safe := by
  unfold deviceUpdate
  split
  · exact h.finish
  · rename_i row hfound
    refine h.goto (old_of_rows rfl rfl rfl rfl (fun _ hst => hst) fun _ hst => hst) le_rfl rfl rfl rfl ?_
    exact h.rows.drawnDevices row (List.mem_of_find?_eq_some hfound)

/-- What is listed is what belongs to the user. -/
theorem safe_deleteLists (userId : Uuid) : (s.deleteLists slot userId).Safe := by
  refine h.goto (old_of_rows rfl rfl rfl rfl (fun _ hst => hst) fun _ hst => hst) le_rfl rfl rfl rfl
    ⟨fun sessionHash hmem => ?_, fun deviceId hmem => ?_⟩
  · obtain ⟨row, hrow, rfl⟩ := List.mem_map.mp hmem
    obtain ⟨hrow, huser⟩ := List.mem_filter.mp hrow
    refine ⟨h.rows.drawnHashes row hrow, fun other hother hhash => ?_⟩
    exact (h.rows.sessionOwner other hother row hrow hhash).trans (of_decide_eq_true huser)
  · obtain ⟨row, hrow, rfl⟩ := List.mem_map.mp hmem
    obtain ⟨hrow, huser⟩ := List.mem_filter.mp hrow
    refine ⟨h.rows.drawnDevices row hrow, fun other hother hid => ?_⟩
    exact (h.rows.deviceOwner other hother row hrow hid).trans (of_decide_eq_true huser)

theorem safe_deleteLock (userId : Uuid) : (s.deleteLock slot userId).Safe := by
  unfold deleteLock
  split_ifs
  · exact h.finish
  · let u : AccessServer := { s with userLocks := s.userLocks.acquire slot userId }
    have hok : u.CallOk (.deleteLists userId) := trivial
    show (u.goto slot (.deleteLists userId)).Safe
    refine h.goto (u := u) ?_ le_rfl rfl rfl rfl hok
    exact old_of_rows rfl rfl rfl rfl (fun _ hst => hst) fun _ hst => hst
  · exact h

theorem safe_deleteCommit {userId : Uuid} {hashes : List String} {deviceIds : List Uuid}
    (hok : s.CallOk (.deleteCommit userId hashes deviceIds)) :
    (s.deleteCommit slot userId hashes deviceIds).Safe := by
  obtain ⟨h₁, h₂, h₃, h₄, h₅, h₆⟩ := @old_deleteUser s userId
  refine h.goto (u := { s.deleteUser userId with userLocks := s.userLocks.release slot })
    ⟨h₁, h₂, h₃, h₄, h₅, h₆⟩ le_rfl rfl rfl rfl ⟨fun sessionHash hmem => ?_, fun deviceId hmem => ?_⟩
  · obtain ⟨hdrawn, howner⟩ := hok.1 sessionHash hmem
    exact sessionDead_deleteUser hdrawn howner
  · obtain ⟨hdrawn, howner⟩ := hok.2 deviceId hmem
    exact deviceDead_deleteUser hdrawn howner

/-- **The `Instant` is taken** when the database denies what was revoked. -/
theorem safe_stamp {hashes : List String} {deviceIds : List Uuid}
    (hok : s.CallOk (.stamp hashes deviceIds)) :
    ((s.later elapsed).stamp slot hashes deviceIds).Safe := by
  have hnow := @lt_later s elapsed
  let u : AccessServer := { s.later elapsed with
    sessionCache := s.sessionCache.stamp (s.later elapsed).now hashes
    deviceCache := s.deviceCache.stamp (s.later elapsed).now deviceIds }
  have hold : Old s u :=
    old_of_rows rfl rfl rfl rfl (fun _ hst => List.mem_append_left _ hst) fun _ hst =>
      List.mem_append_left _ hst
  exact h.of_write (u := u) hold (h.sessionCache.stamp hnow hok.1) (h.deviceCache.stamp hnow hok.2) rfl
    ⟨fun _ hmem => List.mem_append_right _ (List.mem_map_of_mem hmem),
      fun _ hmem => List.mem_append_right _ (List.mem_map_of_mem hmem)⟩

/-- **An entry is written**, under the `Instant` taken before. -/
theorem safe_write {asOf : ℕ} {hashes : List String} {deviceIds : List Uuid}
    (hok : s.CallOk (.write asOf hashes deviceIds)) :
    ((s.later elapsed).write slot asOf hashes deviceIds).Safe := by
  have hnow := @lt_later s elapsed
  match hashes, deviceIds with
  | sessionHash :: hashes, deviceIds =>
    let u : AccessServer := { s.later elapsed with
      sessionCache := s.sessionCache.refute (s.later elapsed).now sessionHash asOf none }
    have hold : Old s u := old_of_rows rfl rfl rfl rfl (fun _ hst => hst) fun _ hst => hst
    show (u.goto slot (.write asOf hashes deviceIds)).Safe
    exact h.of_write hold
      (h.sessionCache.refute hnow (hok.1 _ List.mem_cons_self) Bool.false_ne_true)
      (h.deviceCache_later elapsed) rfl ⟨fun _ hmem => hok.1 _ (List.mem_cons_of_mem _ hmem), hok.2⟩
  | [], deviceId :: deviceIds =>
    let u : AccessServer := { s.later elapsed with
      deviceCache := s.deviceCache.refute (s.later elapsed).now deviceId asOf false }
    have hold : Old s u := old_of_rows rfl rfl rfl rfl (fun _ hst => hst) fun _ hst => hst
    show (u.goto slot (.write asOf [] deviceIds)).Safe
    exact h.of_write hold (h.sessionCache_later elapsed)
      (h.deviceCache.refute hnow (hok.2 _ List.mem_cons_self) Bool.false_ne_true) rfl
      ⟨fun _ hmem => absurd hmem List.not_mem_nil, fun _ hmem => hok.2 _ (List.mem_cons_of_mem _ hmem)⟩
  | [], [] => exact (h.later elapsed).finish

/-- **One step of a revocation.** -/
theorem safe_advance : ((s.later elapsed).advance slot).Safe := by
  have h' := h.later elapsed
  have hsame : Old (s.later elapsed) (s.later elapsed) :=
    old_of_rows rfl rfl rfl rfl (fun _ hst => hst) fun _ hst => hst
  unfold AccessServer.advance
  split
  · exact h'
  · rename_i call hcall
    have hok := h.calls slot call hcall
    cases call with
    | logoutUpdate sessionHash =>
      refine h'.goto (old_revokeSessions _) le_rfl rfl rfl rfl ⟨fun other hmem => ?_, nofun⟩
      exact sessionDead_revokeSessions (List.mem_singleton.mp hmem ▸ hok) hmem
    | sessionUpdate id userId => exact safe_sessionUpdate h' id userId
    | passwordUpdate userId current =>
      refine h'.goto hsame le_rfl rfl rfl rfl fun sessionHash hmem => ?_
      exact unrevokedHashes_drawn h' sessionHash (List.mem_filter.mp hmem).1
    | resetUpdate userId => exact h'.goto hsame le_rfl rfl rfl rfl (unrevokedHashes_drawn h')
    | commitSessions hashes =>
      refine h'.goto (old_revokeSessions _) le_rfl rfl rfl rfl ⟨fun sessionHash hmem => ?_, nofun⟩
      exact sessionDead_revokeSessions (hok sessionHash hmem) hmem
    | deviceUpdate deviceId userId => exact safe_deviceUpdate h' deviceId userId
    | commitDevice deviceId | reuseUpdate deviceId =>
      refine h'.goto (old_revokeDevice _) le_rfl rfl rfl rfl ⟨nofun, fun other hmem => ?_⟩
      rw [List.mem_singleton.mp hmem]
      exact deviceDead_revokeDevice hok
    | deleteLock userId => exact safe_deleteLock h' userId
    | deleteLists userId => exact safe_deleteLists h' userId
    | deleteCommit userId hashes deviceIds => exact safe_deleteCommit h' hok
    | stamp hashes deviceIds => exact safe_stamp h elapsed hok
    | write asOf hashes deviceIds => exact safe_write h elapsed hok

/-! ### Checks, and rows that come -/

theorem safe_userCheck (sessionHash : String) : ((s.later elapsed).userCheck slot sessionHash).Safe := by
  unfold userCheck
  split
  · exact h.later elapsed
  · refine h.of_same (old_of_rows rfl rfl rfl rfl ?_ fun _ hst => hst) ?_ (h.deviceCache_later elapsed)
      fun _ _ hcall => hcall
    · simp [AccessServer.later]
    · exact h.sessionCache.lookup lt_later sessionHash

theorem safe_userAdvance : ((s.later elapsed).userAdvance slot).Safe := by
  refine h.of_same (old_of_rows rfl rfl rfl rfl ?_ fun _ hst => hst) ?_ (h.deviceCache_later elapsed)
    fun _ _ hcall => hcall
  · simp [AccessServer.later, userAdvance]
  · refine h.sessionCache.advance lt_later fun check hcheck hdead => ?_
    have hcheck' : (s.later elapsed).sessionCache.checks slot = some check := hcheck
    rw [hcheck']
    exact SessionDead.not_admits (s := s.later elapsed) hdead

theorem safe_deviceCheck (deviceId userId : Uuid) :
    ((s.later elapsed).deviceCheck slot deviceId userId).Safe := by
  unfold deviceCheck
  split
  · exact h.later elapsed
  · refine h.of_same (old_of_rows rfl rfl rfl rfl (fun _ hst => hst) ?_) (h.sessionCache_later elapsed)
      ?_ fun _ _ hcall => hcall
    · simp [AccessServer.later]
    · exact h.deviceCache.lookup lt_later deviceId

theorem safe_deviceAdvance : ((s.later elapsed).deviceAdvance slot).Safe := by
  refine h.of_same (old_of_rows rfl rfl rfl rfl (fun _ hst => hst) ?_) (h.sessionCache_later elapsed)
    ?_ fun _ _ hcall => hcall
  · simp [AccessServer.later, deviceAdvance]
  · refine h.deviceCache.advance lt_later fun check hcheck hdead => ?_
    have hcheck' : (s.later elapsed).deviceCache.checks slot = some check := hcheck
    rw [hcheck']
    exact DeviceDead.not_isActive (s := s.later elapsed) hdead _

theorem safe_createSession (row : SessionRow) : (s.createSession row).Safe := by
  unfold createSession
  split
  · exact h
  · rename_i hfresh
    have hnew : row.sessionHash ∉ s.drawnHashes := fun hmem => hfresh (.inl hmem)
    have hgrows : Grows s { s with
        sessions := s.sessions ++ [{ row with revokedAt := none }]
        drawnHashes := s.drawnHashes ++ [row.sessionHash] } := by
      refine ⟨fun _ hmem => List.mem_append_left _ hmem, fun _ hmem => hmem, fun row' hrow' => ?_,
        fun row' hrow' => .inl ⟨row', hrow', rfl, rfl, id⟩, fun _ hst => hst, fun _ hst => hst⟩
      rcases List.mem_append.mp hrow' with hold | hadded
      · exact .inl ⟨row', hold, rfl, rfl, id⟩
      · exact .inr (List.mem_singleton.mp hadded ▸ hnew)
    refine h.of_grows hgrows ⟨fun row' hrow' => ?_, h.rows.drawnDevices, ?_, h.rows.deviceOwner⟩
      h.sessionCache h.deviceCache fun _ _ hcall => .inl hcall
    · rcases List.mem_append.mp hrow' with hold | hadded
      · exact List.mem_append_left _ (h.rows.drawnHashes row' hold)
      · exact List.mem_append_right _ (List.mem_singleton.mpr (List.mem_singleton.mp hadded ▸ rfl))
    · rintro row₁ hrow₁ row₂ hrow₂ hsame
      rcases List.mem_append.mp hrow₁ with hold₁ | hadded₁ <;>
        rcases List.mem_append.mp hrow₂ with hold₂ | hadded₂
      · exact h.rows.sessionOwner row₁ hold₁ row₂ hold₂ hsame
      · rw [List.mem_singleton.mp hadded₂] at hsame
        exact absurd (hsame ▸ h.rows.drawnHashes row₁ hold₁) hnew
      · rw [List.mem_singleton.mp hadded₁] at hsame
        exact absurd (hsame ▸ h.rows.drawnHashes row₂ hold₂) hnew
      · rw [List.mem_singleton.mp hadded₁, List.mem_singleton.mp hadded₂]

theorem safe_createDevice (row : DeviceRow) : (s.createDevice row).Safe := by
  unfold createDevice
  split
  · exact h
  · rename_i hfresh
    have hnew : row.id ∉ s.drawnDevices := fun hmem => hfresh (.inl hmem)
    have hgrows : Grows s { s with
        devices := s.devices ++ [{ row with revokedAt := none }]
        drawnDevices := s.drawnDevices ++ [row.id] } := by
      refine ⟨fun _ hmem => hmem, fun _ hmem => List.mem_append_left _ hmem,
        fun row' hrow' => .inl ⟨row', hrow', rfl, rfl, id⟩, fun row' hrow' => ?_, fun _ hst => hst,
        fun _ hst => hst⟩
      rcases List.mem_append.mp hrow' with hold | hadded
      · exact .inl ⟨row', hold, rfl, rfl, id⟩
      · exact .inr (List.mem_singleton.mp hadded ▸ hnew)
    refine h.of_grows hgrows ⟨h.rows.drawnHashes, fun row' hrow' => ?_, h.rows.sessionOwner, ?_⟩
      h.sessionCache h.deviceCache fun _ _ hcall => .inl hcall
    · rcases List.mem_append.mp hrow' with hold | hadded
      · exact List.mem_append_left _ (h.rows.drawnDevices row' hold)
      · exact List.mem_append_right _ (List.mem_singleton.mpr (List.mem_singleton.mp hadded ▸ rfl))
    · rintro row₁ hrow₁ row₂ hrow₂ hsame
      rcases List.mem_append.mp hrow₁ with hold₁ | hadded₁ <;>
        rcases List.mem_append.mp hrow₂ with hold₂ | hadded₂
      · exact h.rows.deviceOwner row₁ hold₁ row₂ hold₂ hsame
      · rw [List.mem_singleton.mp hadded₂] at hsame
        exact absurd (hsame ▸ h.rows.drawnDevices row₁ hold₁) hnew
      · rw [List.mem_singleton.mp hadded₁] at hsame
        exact absurd (hsame ▸ h.rows.drawnDevices row₂ hold₂) hnew
      · rw [List.mem_singleton.mp hadded₁, List.mem_singleton.mp hadded₂]

/-! ### Steps and runs -/

omit h in
theorem callOk_of_mayBegin {first : RevocationCall} (hfirst : s.mayBegin first = true) :
    s.CallOk first := by
  cases first with
  | logoutUpdate | reuseUpdate => simpa [mayBegin, CallOk] using hfirst
  | sessionUpdate | passwordUpdate | resetUpdate | deviceUpdate | deleteLock | deleteLists => trivial
  | commitSessions | commitDevice | deleteCommit | stamp | write => cases hfirst

/-- **One event** keeps what holds. -/
theorem Safe.step (event : ℕ × AccessEvent) : (s.step event).Safe := by
  obtain ⟨elapsed, event⟩ := event
  have h' := h.later elapsed
  have hsame : ∀ {u : AccessServer}, u.sessions = s.sessions → u.devices = s.devices →
      u.drawnHashes = s.drawnHashes → u.drawnDevices = s.drawnDevices →
        u.sessionCache = s.sessionCache → u.deviceCache = s.deviceCache → u.calls = s.calls →
          u.now = (s.later elapsed).now → u.Safe := by
    rintro u hsessions hdevices hhashes hids hsession hdevice hcalls hnow
    refine h'.of_same (old_of_rows hsessions hdevices hhashes hids ?_ ?_) ?_ ?_ ?_
    · exact fun _ hst => hsession ▸ hst
    · exact fun _ hst => hdevice ▸ hst
    · rw [hsession, hnow]
      exact h.sessionCache_later elapsed
    · rw [hdevice, hnow]
      exact h.deviceCache_later elapsed
    · exact fun _ _ hcall => hcalls ▸ hcall
  cases event with
  | tick time => exact hsame rfl rfl rfl rfl rfl rfl rfl rfl
  | createUser userId email =>
    simp only [AccessServer.step, handle]
    split
    · exact h'
    · exact hsame rfl rfl rfl rfl rfl rfl rfl rfl
  | createSession row => exact safe_createSession h' row
  | createDevice row => exact safe_createDevice h' row
  | userCheck slot sessionHash => exact safe_userCheck h elapsed sessionHash
  | userAdvance slot => exact safe_userAdvance h elapsed
  | userDrop slot =>
    exact h'.of_same (old_of_rows rfl rfl rfl rfl (fun _ hst => hst) fun _ hst => hst)
      h'.sessionCache.drop h'.deviceCache fun _ _ hcall => hcall
  | deviceCheck slot deviceId userId => exact safe_deviceCheck h elapsed deviceId userId
  | deviceAdvance slot => exact safe_deviceAdvance h elapsed
  | deviceDrop slot =>
    exact h'.of_same (old_of_rows rfl rfl rfl rfl (fun _ hst => hst) fun _ hst => hst)
      h'.sessionCache h'.deviceCache.drop fun _ _ hcall => hcall
  | sweep =>
    exact h'.of_same (old_of_rows rfl rfl rfl rfl (fun _ hst => hst) fun _ hst => hst)
      h'.sessionCache.sweep h'.deviceCache fun _ _ hcall => hcall
  | revoke slot first =>
    simp only [AccessServer.step, handle]
    split
    · rename_i hfirst
      exact h'.goto (old_of_rows rfl rfl rfl rfl (fun _ hst => hst) fun _ hst => hst) le_rfl rfl rfl rfl
        (callOk_of_mayBegin hfirst.2)
    · exact h'
  | advance slot => exact safe_advance h elapsed
  | drop slot => exact h'.finish

end Revocation

theorem safe_start (clock : DateTime) : (start clock).Safe where
  rows := ⟨nofun, nofun, nofun, nofun⟩
  sessionCache := CheckedCache.invariant_empty
  deviceCache := CheckedCache.invariant_empty
  calls _ _ h := nomatch h

/-- **Revocations are final**: in every run of checks, sweeps, revocations and everything that adds
users, sessions and devices, however they interleave, a check that let a session or a device in had
begun before any revocation wrote an entry for it. -/
theorem revocation_final (clock : DateTime) (events : List (ℕ × AccessEvent)) :
    let s := run (start clock) events
    (∀ a ∈ s.sessionCache.accepted, ∀ w ∈ s.sessionCache.refutations, w.key = a.key →
      a.begunAt ≤ w.writtenAt) ∧
    ∀ a ∈ s.deviceCache.accepted, ∀ w ∈ s.deviceCache.refutations, w.key = a.key →
      a.begunAt ≤ w.writtenAt := by
  intro s
  have h : s.Safe := Runs.invariant (fun s event hs => hs.step event) (safe_start clock) events
  exact ⟨fun a ha => (h.sessionCache.accepted a ha).2, fun a ha => (h.deviceCache.accepted a ha).2⟩

end AccessServer

end HelixSync
