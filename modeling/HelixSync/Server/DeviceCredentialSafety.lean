import HelixSync.Server.DeviceCredentialLocks

/-!
# One use of a token, none after a revocation, and the cap

Whatever runs at the same time, a refresh token is redeemed at most once, no refresh that first reads
after a revocation of its device succeeds, and no account has more active devices than it may
(`HelixSync.DeviceServer.refresh_safe`). Each statement keeps what holds and establishes what the
next one of its handler relies on (`HelixSync.DeviceServer.sound_advance`).
-/

namespace HelixSync

namespace DeviceServer

variable {limits : DeviceLimits} {s s' : DeviceServer} {slot : ℕ}

/-! ### Refreshes -/

section Refresh

variable (h : Safe limits s)

include h

/-- The first read: a device that is not revoked has not been. -/
theorem sound_refreshRead (token : RefreshToken) :
    Sound limits slot s (s.refreshRead slot token) := by
  unfold refreshRead
  split
  · exact sound_error h _
  · rename_i cred hfound
    split
    · exact sound_error h _
    · rename_i device hdevice
      split
      · split
        · exact sound_goto h trivial
        · exact sound_error h _
      · split
        · exact sound_error h _
        · rename_i hactive
          have hmem : cred ∈ s.credentials := List.mem_of_find?_eq_some hfound
          have hmem' : device ∈ s.devices := List.mem_of_find?_eq_some hdevice
          have hfound := List.find?_some hfound
          obtain rfl : cred.credentialHash = token := (of_decide_eq_true hfound).1
          obtain ⟨hnamed, hdrawn⟩ := h.named cred hmem
          refine (quiet_goto _).sound h (own_goto ?_)
          refine ⟨hnamed.symm, hnamed ▸ hdrawn, Nat.lt_succ_self _, fun v hv hid => ?_⟩
          have hrevoked := (h.revoked v hv).2 device hmem' hid.symm
          exact absurd (Option.isSome_iff_ne_none.mpr hrevoked) hactive

theorem sound_rotate (hown : Own limits slot s) {claim : RefreshClaim} {now : DateTime}
    (hok : s.ClaimOk claim) : Sound limits slot s (s.rotate slot claim now) := by
  unfold rotate
  split
  · exact sound_error h _
  · rename_i cred hfound
    obtain ⟨hfound, hunused⟩ := Option.filter_eq_some_iff.mp hfound
    have hid : cred.id = claim.credId := by simpa using List.find?_some hfound
    split
    · rename_i hfree
      refine (quiet_lockCredentials (List.forall_mem_singleton.mpr hfree) _).sound h (own_goto ?_)
      refine ⟨hok.keeps (keeps_lockCredentials [cred.id] (.issue claim now)), ?_, cred, ?_, hid, ?_⟩
      · exact hid ▸ Locks.acquire_self
      · exact List.mem_of_find?_eq_some hfound
      · exact of_decide_eq_true hunused
    · exact sound_refl h hown

theorem sound_refreshCommit {claim : RefreshClaim} {now expiresAt : DateTime}
    (hok : s.RotatedOk slot claim) :
    Sound limits slot s (s.refreshCommit slot claim now expiresAt) := by
  obtain ⟨cred, hcred, hid, hunused⟩ := hok.unused
  have hnew : claim.token ∉ s.refreshes.map RefreshClaim.token := by
    intro hmem
    obtain ⟨other, hother, htoken⟩ := List.mem_map.mp hmem
    exact (h.refreshed other hother).used cred hcred (hid.trans (hok.named.trans htoken.symm)) hunused
  let s₁ : DeviceServer := { s with
    credentials := s.credentialsRevoking [claim.credId] now ++
      [⟨s.drawn, claim.deviceId, s.drawn, expiresAt, none⟩]
    drawn := s.drawn + 1
    answers := s.answers ++ [(slot, .refreshed claim s.drawn)] }
  have hrefreshes : s₁.refreshes = s.refreshes ++ [claim] := by
    rw [refreshes, List.filterMap_append]
    rfl
  have hwrites : Writes slot s s₁ :=
    { calls := rfl
      userLocks := rfl
      credentialLocks := rfl
      moment := rfl
      rows := by
        rintro other hne cred hcred hlock
        refine List.mem_append_left _ (mem_credentialsRevoking hcred fun hmem => hne ?_)
        have hlock' := hok.lock
        rw [← List.mem_singleton.mp hmem, hlock] at hlock'
        exact Option.some_injective _ hlock'
      devices := fun device hdevice => ⟨device, hdevice, rfl⟩
      drawn := Nat.le_succ _
      revocations := fun _ hv => .inl hv
      active := fun _ _ _ _ => le_rfl
      follows := by
        rintro cred hcred
        rcases List.mem_append.mp hcred with hcred | hcred
        · exact follows_revoking hcred
        · rw [List.mem_singleton.mp hcred]
          exact .inr ⟨rfl, le_rfl, Nat.lt_succ_self _⟩
      deviceFollows := fun _ => deviceFollows_of_mem }
  show Sound limits slot s (s₁.release slot)
  refine hwrites.sound (hwrites.safe h ?_ ?_ ?_ h.cap) quiet_release own_release
  · exact fun v hv hnew => absurd hv hnew
  · rintro other hother hnot
    rw [hrefreshes, List.mem_append, List.mem_singleton] at hother
    obtain rfl : other = claim := hother.resolve_left hnot
    refine ⟨hok.drawn.trans (Nat.lt_succ_self _), hok.readAt, fun cred hcred hid => ?_, hok.early⟩
    rcases List.mem_append.mp hcred with hcred | hcred
    · refine revoked_of_mem_credentialsRevoking hcred (List.mem_singleton.mpr ?_)
      exact hid.trans hok.named.symm
    · rw [List.mem_singleton.mp hcred] at hid
      exact absurd hid hok.drawn.ne'
  · rw [hrefreshes, List.map_append, List.nodup_append]
    refine ⟨h.once, List.nodup_singleton _, ?_⟩
    rintro token htoken other hother rfl
    exact hnew (List.mem_singleton.mp hother ▸ htoken)

end Refresh

/-! ### Revocations -/

section Revocation

variable (h : Safe limits s) {deviceId : Uuid} {now : DateTime}

/-- What another slot has locked is not revoked. -/
theorem mem_credentialsRevoking_of_free {credIds : List ℕ}
    (hfree : ∀ id ∈ credIds, s.credentialLocks.free slot id = true) {other : ℕ} (hne : other ≠ slot)
    {cred : DeviceCredentialRow} (hcred : cred ∈ s.credentials)
    (hlock : s.credentialLocks cred.id = some other) : cred ∈ s.credentialsRevoking credIds now := by
  refine mem_credentialsRevoking hcred fun hmem => hne ?_
  rcases Locks.free_iff.mp (hfree _ hmem) with hnone | hown
  · simp [hlock] at hnone
  · exact Option.some_injective _ (hlock.symm.trans hown)

/-- **A revocation is committed**: the device, and credentials no other slot has locked. -/
theorem writes_revoking {credIds : List ℕ}
    (hfree : ∀ id ∈ credIds, s.credentialLocks.free slot id = true) :
    Writes slot s { s with
      devices := s.devicesRevoking deviceId now
      credentials := s.credentialsRevoking credIds now
      revocations := s.revocations ++ [⟨deviceId, s.moment⟩] } where
  calls := rfl
  userLocks := rfl
  credentialLocks := rfl
  moment := rfl
  rows := fun _ hne _ => mem_credentialsRevoking_of_free hfree hne
  devices := fun _ => exists_mem_devicesRevoking
  drawn := le_rfl
  revocations := by
    rintro v hv
    rcases List.mem_append.mp hv with hv | hv
    · exact .inl hv
    · exact .inr (congrArg Revocation.committedAt (List.mem_singleton.mp hv))
  active := fun _ _ userId _ => countP_devicesRevoking_le deviceId now userId
  follows := fun _ => follows_revoking
  deviceFollows := fun _ => deviceFollows_revoking

theorem writes_credentials {credIds : List ℕ}
    (hfree : ∀ id ∈ credIds, s.credentialLocks.free slot id = true) :
    Writes slot s { s with credentials := s.credentialsRevoking credIds now } where
  calls := rfl
  userLocks := rfl
  credentialLocks := rfl
  moment := rfl
  rows := fun _ hne _ => mem_credentialsRevoking_of_free hfree hne
  devices := fun device hdevice => ⟨device, hdevice, rfl⟩
  drawn := le_rfl
  revocations := fun _ hv => .inl hv
  active := fun _ _ _ _ => le_rfl
  follows := fun _ => follows_revoking
  deviceFollows := fun _ => deviceFollows_of_mem

theorem credentialsRevoking_nil : s.credentialsRevoking [] now = s.credentials := by
  simp [credentialsRevoking]

include h

theorem Safe.revoking (hdevice : ∃ device ∈ s.devices, device.id = deviceId) {credIds : List ℕ}
    (hfree : ∀ id ∈ credIds, s.credentialLocks.free slot id = true) :
    Safe limits { s with
      devices := s.devicesRevoking deviceId now
      credentials := s.credentialsRevoking credIds now
      revocations := s.revocations ++ [⟨deviceId, s.moment⟩] } := by
  refine (writes_revoking hfree).safe h ?_ ?_ h.once fun userId => ?_
  · rintro v hv hnew
    obtain rfl : v = ⟨deviceId, s.moment⟩ :=
      List.mem_singleton.mp ((List.mem_append.mp hv).resolve_left hnew)
    obtain ⟨device, hmem, hid⟩ := hdevice
    obtain ⟨device', hmem', hid'⟩ := @exists_mem_devicesRevoking s deviceId now device hmem
    exact ⟨⟨device', hmem', hid'.trans hid⟩, fun _ => revoked_of_mem_devicesRevoking⟩
  · exact fun claim hclaim hnew => absurd hclaim hnew
  · exact (Int.ofNat_le.mpr (countP_devicesRevoking_le deviceId now userId)).trans (h.cap userId)

theorem sound_reuseDevice (hown : Own limits slot s) :
    Sound limits slot s (s.reuseDevice slot deviceId) := by
  unfold reuseDevice
  split
  · exact sound_goto h trivial
  · rename_i device hfound
    split
    · obtain ⟨hfound, -⟩ := Option.filter_eq_some_iff.mp hfound
      have hdevice : ∃ device ∈ s.devices, device.id = deviceId :=
        ⟨device, List.mem_of_find?_eq_some hfound, by simpa using List.find?_some hfound⟩
      have hfree : ∀ id ∈ ([] : List ℕ), s.credentialLocks.free slot id = true := nofun
      have hwrites := @writes_revoking s slot deviceId s.clock [] hfree
      have hsafe := @Safe.revoking limits s slot h deviceId s.clock hdevice [] hfree
      rw [credentialsRevoking_nil] at hwrites hsafe
      exact hwrites.sound hsafe (quiet_goto _) (own_goto trivial)
    · exact sound_refl h hown

theorem sound_reuseCredentials (hown : Own limits slot s) {seen : List ℕ} :
    Sound limits slot s (s.reuseCredentials slot now seen) := by
  unfold reuseCredentials
  split
  · rename_i hfree
    have hstill : ∀ id ∈ s.stillUnrevoked seen, s.credentialLocks.free slot id = true :=
      fun id hid => List.all_eq_true.mp hfree id (List.mem_filter.mp hid).1
    have hwrites := @writes_credentials s slot now _ hstill
    refine hwrites.sound (hwrites.safe h ?_ ?_ h.once h.cap) (quiet_finish rfl) (own_finish _)
    · exact fun v hv hnew => absurd hv hnew
    · exact fun claim hclaim hnew => absurd hclaim hnew
  · exact sound_refl h hown

theorem sound_revokeDevice (hown : Own limits slot s) {userId : Uuid} {missing : AuthError} :
    Sound limits slot s (s.revokeDevice slot deviceId userId missing now) := by
  unfold revokeDevice
  split
  · exact sound_error h _
  · rename_i device hfound
    split
    · obtain ⟨hfound, -⟩ := Option.filter_eq_some_iff.mp hfound
      refine Quiet.sound h ⟨rfl, rfl, rfl, rfl, rfl, rfl, fun _ hne => Function.update_of_ne hne _ _,
        fun _ _ _ h => h, fun _ _ _ h => h⟩ (own_goto ?_)
      exact ⟨device, List.mem_of_find?_eq_some hfound, by simpa using List.find?_some hfound⟩
    · exact sound_refl h hown

theorem sound_revokeCredentials (hown : Own limits slot s) {seen : List ℕ}
    (hok : ∃ device ∈ s.devices, device.id = deviceId) :
    Sound limits slot s (s.revokeCredentials slot deviceId now seen) := by
  unfold revokeCredentials
  split
  · rename_i hfree
    have hstill : ∀ id ∈ s.stillUnrevoked seen, s.credentialLocks.free slot id = true :=
      fun id hid => List.all_eq_true.mp hfree id (List.mem_filter.mp hid).1
    refine (quiet_lockCredentials hstill _).sound h (own_goto ⟨hok, fun id hid => ?_⟩)
    exact Locks.acquireAll_of_mem hid
  · exact sound_refl h hown

theorem sound_revokeCommit {credIds : List ℕ}
    (hok : CallOk limits s slot (.revokeCommit deviceId now credIds)) :
    Sound limits slot s (s.revokeCommit slot deviceId now credIds) := by
  have hfree : ∀ id ∈ credIds, s.credentialLocks.free slot id = true :=
    fun id hid => Locks.free_iff.mpr (.inr (hok.2 id hid))
  exact (writes_revoking hfree).sound (h.revoking hok.1 hfree) (quiet_finish rfl)
    (own_finish _)

end Revocation

/-! ### Registrations -/

section Register

variable (h : Safe limits s) {registration : Registration}

include h

theorem sound_claim (hown : Own limits slot s) {id : Uuid} {now : DateTime} :
    Sound limits slot s (s.claim slot id now) := by
  unfold claim
  split
  · exact sound_status h _
  · split
    · split
      · exact Quiet.sound h ⟨rfl, rfl, rfl, rfl, rfl, rfl,
          fun _ hne => Function.update_of_ne hne _ _, fun _ _ _ h => h, fun _ _ _ h => h⟩
          (own_goto trivial)
      · exact sound_error h _
    · exact sound_refl h hown

theorem sound_lockCap (hown : Own limits slot s) :
    Sound limits slot s (s.lockCap slot registration) := by
  unfold lockCap
  split
  · rename_i hfree
    exact (quiet_lockUser hfree _).sound h (own_goto Locks.acquire_self)
  · exact sound_refl h hown

theorem sound_countActive (hlock : s.userLocks registration.userId = some slot) :
    Sound limits slot s (s.countActive limits slot registration) := by
  unfold countActive
  split
  · exact sound_error h _
  · rename_i hbelow
    exact sound_goto h ⟨hlock, not_le.mp hbelow⟩

/-- **A registration is committed**: one device more, of the account that is locked. -/
theorem sound_registerCommit {expiresAt : DateTime} {deviceId : Uuid}
    (hok : BelowCap limits s slot registration.userId) :
    Sound limits slot s (s.registerCommit slot registration expiresAt deviceId) := by
  unfold registerCommit
  split
  · exact sound_error h _
  · rename_i hfresh
    let device : DeviceRow := {
      id := deviceId, userId := registration.userId, lastSeenAt := none,
      createdAt := registration.now, revokedAt := none, lastDeviceSequence := 0 }
    have hcount : ∀ userId, (s.devices ++ [device]).countP
        (fun device => device.userId = userId ∧ device.revokedAt = none) =
          s.activeDeviceCount userId + if registration.userId = userId then 1 else 0 := by
      intro userId
      rw [List.countP_append, List.countP_singleton, activeDeviceCount]
      simp [device]
    have hwrites : Writes slot s { s with
        devices := s.devices ++ [device]
        credentials := s.credentials ++ [⟨s.drawn, deviceId, s.drawn, expiresAt, none⟩]
        requests := s.requestsConsuming registration
        drawn := s.drawn + 1 } :=
      { calls := rfl
        userLocks := rfl
        credentialLocks := rfl
        moment := rfl
        rows := fun _ _ _ hcred _ => List.mem_append_left _ hcred
        devices := fun device hdevice => ⟨device, List.mem_append_left _ hdevice, rfl⟩
        drawn := Nat.le_succ _
        revocations := fun _ hv => .inl hv
        active := by
          rintro other hne userId hlock
          refine (hcount userId).le.trans ?_
          rw [if_neg]
          · exact le_rfl
          · rintro rfl
            exact hne (Option.some_injective _ (hlock.symm.trans hok.lock))
        follows := by
          rintro cred hcred
          rcases List.mem_append.mp hcred with hcred | hcred
          · exact follows_of_mem hcred
          · rw [List.mem_singleton.mp hcred]
            exact .inr ⟨rfl, le_rfl, Nat.lt_succ_self _⟩
        deviceFollows := by
          rintro other hother
          rcases List.mem_append.mp hother with hother | hother
          · exact deviceFollows_of_mem hother
          · rw [List.mem_singleton.mp hother]
            refine .inr fun old hold hid => hfresh ?_
            exact List.find?_isSome.mpr ⟨old, hold, decide_eq_true hid⟩ }
    refine hwrites.sound (hwrites.safe h ?_ ?_ h.once fun userId => ?_) (quiet_finish rfl)
      (own_finish _)
    · exact fun v hv hnew => absurd hv hnew
    · exact fun claim hclaim hnew => absurd hclaim hnew
    · refine (congrArg Nat.cast (hcount userId)).trans_le ?_
      have hbelow := hok.count
      have hcap := h.cap userId
      split
      · rename_i huser
        subst huser
        push_cast
        omega
      · exact hcap

end Register

/-! ### Steps and runs -/

/-- **One statement** keeps what holds, what its handler knows, and what the others rely on. -/
theorem sound_advance (h : Safe limits s) (hown : Own limits slot s) (freshId : Uuid) :
    Sound limits slot s (s.advance limits slot freshId) := by
  unfold advance
  split
  · exact sound_refl h hown
  · rename_i call hcall
    have hok := hown call hcall
    cases call with
    | refreshRead => exact sound_refreshRead h _
    | refreshBegin => exact sound_goto h hok
    | rotate => exact sound_rotate h hown hok
    | issue => exact sound_goto h hok
    | refreshCommit => exact sound_refreshCommit h hok
    | reuseDevice => exact sound_reuseDevice h hown
    | reuseRead => exact sound_goto h trivial
    | reuseCredentials => exact sound_reuseCredentials h hown
    | revokeBegin => exact sound_goto h trivial
    | revokeDevice => exact sound_revokeDevice h hown
    | revokeRead => exact sound_goto h hok
    | revokeCredentials => exact sound_revokeCredentials h hown hok
    | revokeCommit => exact sound_revokeCommit h hok
    | collectBegin => exact sound_goto h trivial
    | claim => exact sound_claim h hown
    | registerBegin => exact sound_goto h trivial
    | lockCap => exact sound_lockCap h hown
    | countActive => exact sound_countActive h hok
    | insertDevice => exact sound_goto h hok
    | issueFirst => exact sound_goto h hok
    | registerCommit => exact sound_registerCommit h hok

theorem sound_enter (h : Safe limits s) (hown : Own limits slot s) {call : DeviceCall}
    (hok : CallOk limits s slot call) : Sound limits slot s (s.enter slot call) := by
  unfold enter
  split
  · exact sound_refl h hown
  · exact sound_goto h hok

theorem sound_handle (h : Safe limits s) {event : DeviceEvent} (hslot : event.slot? = some slot)
    (hown : Own limits slot s) : Sound limits slot s (s.handle limits event) := by
  cases event with
  | tick | request | deleteExpired => cases hslot
  | refresh slot' | revoke slot' | revokeSelf slot' | register slot' | collect slot' =>
    obtain rfl : slot' = slot := Option.some_injective _ hslot
    exact sound_enter h hown trivial
  | advance slot' =>
    obtain rfl : slot' = slot := Option.some_injective _ hslot
    exact sound_advance h hown _
  | drop slot' =>
    obtain rfl : slot' = slot := Option.some_injective _ hslot
    exact quiet_release.sound h own_release

/-- What happens outside the slots: credentials are deleted, none that a slot has locked. -/
structure Background (s s' : DeviceServer) : Prop where
  devices : s'.devices = s.devices
  drawn : s'.drawn = s.drawn
  moment : s'.moment = s.moment
  revocations : s'.revocations = s.revocations
  answers : s'.answers = s.answers
  calls : s'.calls = s.calls
  userLocks : s'.userLocks = s.userLocks
  credentialLocks : s'.credentialLocks = s.credentialLocks
  credentials : ∀ cred ∈ s'.credentials, cred ∈ s.credentials
  locked : ∀ cred ∈ s.credentials, s.credentialLocks cred.id ≠ none → cred ∈ s'.credentials

theorem background_handle {event : DeviceEvent} (hslot : event.slot? = none) :
    Background s (s.handle limits event) := by
  cases event with
  | tick => exact ⟨rfl, rfl, rfl, rfl, rfl, rfl, rfl, rfl, fun _ h => h, fun _ h _ => h⟩
  | request id row =>
    simp only [handle]
    split
    · exact ⟨rfl, rfl, rfl, rfl, rfl, rfl, rfl, rfl, fun _ h => h, fun _ h _ => h⟩
    · exact ⟨rfl, rfl, rfl, rfl, rfl, rfl, rfl, rfl, fun _ h => h, fun _ h _ => h⟩
  | deleteExpired credIds =>
    refine ⟨rfl, rfl, rfl, rfl, rfl, rfl, rfl, rfl, fun _ h => (List.mem_filter.mp h).1, ?_⟩
    exact fun cred hcred hlocked =>
      List.mem_filter.mpr ⟨hcred, decide_eq_true fun hdeleted => hlocked hdeleted.2.1⟩
  | refresh | revoke | revokeSelf | register | collect | advance | drop => cases hslot

theorem Background.writes (hback : Background s s') (slot : ℕ) : Writes slot s s' where
  calls := hback.calls
  userLocks := hback.userLocks
  credentialLocks := hback.credentialLocks
  moment := hback.moment
  rows _ _ cred hcred hlock := hback.locked cred hcred (by simp [hlock])
  devices device hdevice := ⟨device, by rwa [hback.devices], rfl⟩
  drawn := hback.drawn.ge
  revocations v hv := .inl (hback.revocations ▸ hv)
  active _ _ userId _ := by rw [activeDeviceCount, hback.devices, activeDeviceCount]
  follows cred hcred := follows_of_mem (hback.credentials cred hcred)
  deviceFollows device hdevice := deviceFollows_of_mem (hback.devices ▸ hdevice)

theorem Background.safe (hback : Background s s') (h : Safe limits s) : Safe limits s'.next := by
  have hrefreshes : s'.refreshes = s.refreshes := by rw [refreshes, hback.answers, refreshes]
  refine (@quiet_refl s' 0).safe ((hback.writes 0).safe h ?_ ?_ ?_ fun userId => ?_)
  · exact fun v hv hnew => absurd (hback.revocations ▸ hv) hnew
  · exact fun claim hclaim hnew => absurd (hrefreshes ▸ hclaim) hnew
  · rw [hrefreshes]
    exact h.once
  · rw [activeDeviceCount, hback.devices]
    exact h.cap userId

theorem Background.rely (hback : Background s s') (slot : ℕ) : Rely slot s s'.next :=
  ((hback.writes (slot + 1)).rely (by omega)).trans (quiet_refl.rely (Nat.ne_of_lt (Nat.lt_succ_self _)))

theorem safe_start (requests : Uuid → Option AuthRequestRow) (clock : DateTime) :
    Safe limits (start requests clock) where
  named _ hcred := absurd hcred List.not_mem_nil
  revoked _ hv := absurd hv List.not_mem_nil
  refreshed _ hclaim := absurd hclaim List.not_mem_nil
  once := List.nodup_nil
  cap _ := limits.maxDevicesPerAccount_pos.le

/-- **Every run is safe.** -/
theorem safe_run (requests : Uuid → Option AuthRequestRow) (clock : DateTime)
    (events : List DeviceEvent) : Safe limits (run limits (start requests clock) events) := by
  suffices h : Safe limits (run limits (start requests clock) events) ∧
      ∀ slot, Own limits slot (run limits (start requests clock) events) from h.1
  refine Runs.invariant_of_rely DeviceEvent.slot? Rely ?_ ?_ ?_
    (fun _ _ _ hown hrely => hown.rely hrely) (safe_start requests clock)
    (fun _ _ hcall => nomatch hcall) events
  · rintro s event h hown
    cases hslot : event.slot? with
    | none => exact (background_handle hslot).safe h
    | some slot => exact (sound_handle h hslot (hown slot)).safe
  · exact fun s event slot h hown hslot => (sound_handle h hslot (hown slot)).own
  · rintro s event other h hown hother
    cases hslot : event.slot? with
    | none => exact (background_handle hslot).rely other
    | some slot => exact (sound_handle h hslot (hown slot)).rely other fun heq => hother (heq ▸ hslot)

/-- **Refresh tokens and the device cap**: after every run of refreshes, revocations, registrations
and collections, however their statements interleave, no token was redeemed twice; a refresh that
succeeded had read before any revocation of its device was committed; and no account has more active
devices than it may. -/
theorem refresh_safe (limits : DeviceLimits) (requests : Uuid → Option AuthRequestRow)
    (clock : DateTime) (events : List DeviceEvent) :
    let s := run limits (start requests clock) events
    (s.refreshes.map RefreshClaim.token).Nodup ∧
      (∀ claim ∈ s.refreshes, ∀ v ∈ s.revocations, v.deviceId = claim.deviceId →
        claim.readAt < v.committedAt) ∧
      ∀ userId, (s.activeDeviceCount userId : ℤ) ≤ limits.maxDevicesPerAccount := by
  intro s
  have h := @safe_run limits requests clock events
  exact ⟨h.once, fun claim hclaim => (h.refreshed claim hclaim).early, h.cap⟩

end DeviceServer

end HelixSync
