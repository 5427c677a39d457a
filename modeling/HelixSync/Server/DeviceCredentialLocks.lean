import HelixSync.Server.DeviceCredentials

/-!
# What the handlers of devices know

What holds between any two statements (`HelixSync.DeviceServer.Safe`), what a handler knows when it
executes its next one (`HelixSync.DeviceServer.CallOk`), and what it relies on while others run
(`HelixSync.DeviceServer.Rely`).

A refresh checks the device before its transaction only, so a revocation can come in between and
leave the new credential as it is. That does no harm, since a revoked device stays revoked and the
next refresh reads that (`HelixSync.DeviceServer.ClaimOk`). A token is redeemed once because the old
credential is locked from the `UPDATE` that finds it in use until the commit
(`HelixSync.DeviceServer.RotatedOk`). And the cap holds because between the count and the commit of
a registration the account is locked, and what other handlers do makes devices of it inactive at
most (`HelixSync.DeviceServer.BelowCap`).
-/

namespace HelixSync

namespace DeviceServer

variable {limits : DeviceLimits} {s s' : DeviceServer} {slot : ℕ}

/-! ### The invariant -/

/-- A refresh that succeeded: its token is used up, and it read before its device was revoked. -/
structure Refreshed (s : DeviceServer) (claim : RefreshClaim) : Prop where
  drawn : claim.token < s.drawn
  readAt : claim.readAt < s.moment
  used : ∀ cred ∈ s.credentials, cred.id = claim.token → cred.revokedAt ≠ none
  early : ∀ v ∈ s.revocations, v.deviceId = claim.deviceId → claim.readAt < v.committedAt

/-- **What holds between any two statements.** -/
structure Safe (limits : DeviceLimits) (s : DeviceServer) : Prop where
  named : ∀ cred ∈ s.credentials, cred.credentialHash = cred.id ∧ cred.id < s.drawn
  revoked : ∀ v ∈ s.revocations, (∃ device ∈ s.devices, device.id = v.deviceId) ∧
    ∀ device ∈ s.devices, device.id = v.deviceId → device.revokedAt ≠ none
  refreshed : ∀ claim ∈ s.refreshes, s.Refreshed claim
  once : (s.refreshes.map RefreshClaim.token).Nodup
  cap : ∀ userId, (s.activeDeviceCount userId : ℤ) ≤ limits.maxDevicesPerAccount

/-- A refresh whose first read passed the checks. -/
structure ClaimOk (s : DeviceServer) (claim : RefreshClaim) : Prop where
  named : claim.credId = claim.token
  drawn : claim.token < s.drawn
  readAt : claim.readAt < s.moment
  early : ∀ v ∈ s.revocations, v.deviceId = claim.deviceId → claim.readAt < v.committedAt

/-- A refresh that has revoked its old credential: others still see it in use, and it is locked. -/
structure RotatedOk (s : DeviceServer) (slot : ℕ) (claim : RefreshClaim) : Prop
    extends ClaimOk s claim where
  lock : s.credentialLocks claim.credId = some slot
  unused : ∃ cred ∈ s.credentials, cred.id = claim.credId ∧ cred.revokedAt = none

/-- A registration that has counted. -/
structure BelowCap (limits : DeviceLimits) (s : DeviceServer) (slot : ℕ) (userId : Uuid) : Prop where
  lock : s.userLocks userId = some slot
  count : (s.activeDeviceCount userId : ℤ) < limits.maxDevicesPerAccount

/-- What a handler under way knows. -/
def CallOk (limits : DeviceLimits) (s : DeviceServer) (slot : ℕ) : DeviceCall → Prop
  | .refreshRead _ | .reuseDevice _ | .reuseRead _ | .reuseCredentials _ _ | .revokeBegin _ _ _
  | .revokeDevice _ _ _ _ | .collectBegin _ | .claim _ _ | .registerBegin _ | .lockCap _ => True
  | .refreshBegin claim | .rotate claim _ => s.ClaimOk claim
  | .issue claim _ | .refreshCommit claim _ _ => s.RotatedOk slot claim
  | .revokeRead deviceId _ | .revokeCredentials deviceId _ _ =>
      ∃ device ∈ s.devices, device.id = deviceId
  | .revokeCommit deviceId _ credIds => (∃ device ∈ s.devices, device.id = deviceId) ∧
      ∀ id ∈ credIds, s.credentialLocks id = some slot
  | .countActive registration => s.userLocks registration.userId = some slot
  | .insertDevice registration | .issueFirst registration | .registerCommit registration _ =>
      BelowCap limits s slot registration.userId

/-- What the handler of a slot knows. -/
def Own (limits : DeviceLimits) (slot : ℕ) (s : DeviceServer) : Prop :=
  ∀ call, s.calls slot = some call → CallOk limits s slot call

/-! ### What a handler relies on -/

/-- What keeps all that the handler of a slot knows: its locks and the rows it has locked stay; no
device vanishes; what is new is numbered later; and of an account it has locked no device becomes
active. -/
structure Keeps (slot : ℕ) (s s' : DeviceServer) : Prop where
  userLocks : ∀ userId, s.userLocks userId = some slot → s'.userLocks userId = some slot
  credentialLocks : ∀ id, s.credentialLocks id = some slot → s'.credentialLocks id = some slot
  rows : ∀ cred ∈ s.credentials, s.credentialLocks cred.id = some slot → cred ∈ s'.credentials
  devices : ∀ device ∈ s.devices, ∃ device' ∈ s'.devices, device'.id = device.id
  drawn : s.drawn ≤ s'.drawn
  moment : s.moment ≤ s'.moment
  revocations : ∀ v ∈ s'.revocations, v ∈ s.revocations ∨ s.moment ≤ v.committedAt
  active : ∀ userId, s.userLocks userId = some slot →
    s'.activeDeviceCount userId ≤ s.activeDeviceCount userId

/-- **What the handler of a slot relies on** while others run. -/
structure Rely (slot : ℕ) (s s' : DeviceServer) : Prop extends Keeps slot s s' where
  calls : s'.calls slot = s.calls slot

theorem Keeps.trans {s₁ s₂ : DeviceServer} (h₁ : Keeps slot s s₁) (h₂ : Keeps slot s₁ s₂) :
    Keeps slot s s₂ where
  userLocks userId hlock := h₂.userLocks userId (h₁.userLocks userId hlock)
  credentialLocks id hlock := h₂.credentialLocks id (h₁.credentialLocks id hlock)
  rows cred hcred hlock :=
    h₂.rows cred (h₁.rows cred hcred hlock) (h₁.credentialLocks cred.id hlock)
  devices device hdevice := by
    obtain ⟨device₁, hdevice₁, hid₁⟩ := h₁.devices device hdevice
    obtain ⟨device₂, hdevice₂, hid₂⟩ := h₂.devices device₁ hdevice₁
    exact ⟨device₂, hdevice₂, hid₂.trans hid₁⟩
  drawn := h₁.drawn.trans h₂.drawn
  moment := h₁.moment.trans h₂.moment
  revocations v hv := by
    rcases h₂.revocations v hv with hv | hv
    · exact h₁.revocations v hv
    · exact .inr (h₁.moment.trans hv)
  active userId hlock :=
    (h₂.active userId (h₁.userLocks userId hlock)).trans (h₁.active userId hlock)

theorem Rely.trans {s₁ s₂ : DeviceServer} (h₁ : Rely slot s s₁) (h₂ : Rely slot s₁ s₂) :
    Rely slot s s₂ :=
  ⟨h₁.toKeeps.trans h₂.toKeeps, h₂.calls.trans h₁.calls⟩

section Stable

variable (hkeeps : Keeps slot s s')

include hkeeps

theorem ClaimOk.keeps {claim : RefreshClaim} (h : s.ClaimOk claim) : s'.ClaimOk claim where
  named := h.named
  drawn := h.drawn.trans_le hkeeps.drawn
  readAt := h.readAt.trans_le hkeeps.moment
  early v hv hdevice := by
    rcases hkeeps.revocations v hv with hv | hv
    · exact h.early v hv hdevice
    · exact h.readAt.trans_le hv

theorem RotatedOk.keeps {claim : RefreshClaim} (h : s.RotatedOk slot claim) :
    s'.RotatedOk slot claim where
  toClaimOk := h.toClaimOk.keeps hkeeps
  lock := hkeeps.credentialLocks _ h.lock
  unused := by
    obtain ⟨cred, hcred, hid, hunused⟩ := h.unused
    exact ⟨cred, hkeeps.rows cred hcred (hid ▸ h.lock), hid, hunused⟩

theorem BelowCap.keeps {userId : Uuid} (h : BelowCap limits s slot userId) :
    BelowCap limits s' slot userId where
  lock := hkeeps.userLocks _ h.lock
  count := by
    have := hkeeps.active userId h.lock
    have := h.count
    omega

theorem Keeps.exists_device {deviceId : Uuid} (h : ∃ device ∈ s.devices, device.id = deviceId) :
    ∃ device ∈ s'.devices, device.id = deviceId := by
  obtain ⟨device, hdevice, rfl⟩ := h
  exact hkeeps.devices device hdevice

/-- **What a handler knows survives** what it relies on. -/
theorem CallOk.keeps {call : DeviceCall} (h : CallOk limits s slot call) :
    CallOk limits s' slot call := by
  cases call with
  | refreshRead | reuseDevice | reuseRead | reuseCredentials | revokeBegin | revokeDevice
  | collectBegin | claim | registerBegin | lockCap => trivial
  | refreshBegin | rotate => exact ClaimOk.keeps hkeeps h
  | issue | refreshCommit => exact RotatedOk.keeps hkeeps h
  | revokeRead | revokeCredentials => exact hkeeps.exists_device h
  | revokeCommit =>
    exact ⟨hkeeps.exists_device h.1, fun id hid => hkeeps.credentialLocks id (h.2 id hid)⟩
  | countActive => exact hkeeps.userLocks _ h
  | insertDevice | issueFirst | registerCommit => exact BelowCap.keeps hkeeps h

end Stable

theorem Own.rely (h : Own limits slot s) (hrely : Rely slot s s') : Own limits slot s' := by
  intro call hcall
  rw [hrely.calls] at hcall
  exact (h call hcall).keeps hrely.toKeeps

/-! ### Statements that write nothing -/

/-- A step of a slot that writes no row. -/
structure Quiet (slot : ℕ) (s s' : DeviceServer) : Prop where
  devices : s'.devices = s.devices
  credentials : s'.credentials = s.credentials
  drawn : s'.drawn = s.drawn
  moment : s'.moment = s.moment
  revocations : s'.revocations = s.revocations
  refreshes : s'.refreshes = s.refreshes
  calls : ∀ other, other ≠ slot → s'.calls other = s.calls other
  userLocks : ∀ other, other ≠ slot → ∀ userId, s.userLocks userId = some other →
    s'.userLocks userId = some other
  credentialLocks : ∀ other, other ≠ slot → ∀ id, s.credentialLocks id = some other →
    s'.credentialLocks id = some other

theorem Refreshed.next {claim : RefreshClaim} (h : s.Refreshed claim) : s.next.Refreshed claim :=
  ⟨h.drawn, h.readAt.trans (Nat.lt_succ_self _), h.used, h.early⟩

theorem Quiet.safe (hquiet : Quiet slot s s') (h : Safe limits s) : Safe limits s'.next := by
  obtain ⟨hdevices, hcredentials, hdrawn, hmoment, hrevocations, hrefreshes, -⟩ := hquiet
  constructor
  · show ∀ cred ∈ s'.credentials, cred.credentialHash = cred.id ∧ cred.id < s'.drawn
    rw [hcredentials, hdrawn]
    exact h.named
  · show ∀ v ∈ s'.revocations, (∃ device ∈ s'.devices, device.id = v.deviceId) ∧
      ∀ device ∈ s'.devices, device.id = v.deviceId → device.revokedAt ≠ none
    rw [hrevocations, hdevices]
    exact h.revoked
  · rintro claim hclaim
    have hold := h.refreshed claim (hrefreshes ▸ hclaim)
    refine Refreshed.next ⟨hdrawn ▸ hold.drawn, hmoment ▸ hold.readAt, ?_, ?_⟩
    · rw [hcredentials]
      exact hold.used
    · rw [hrevocations]
      exact hold.early
  · show (s'.refreshes.map RefreshClaim.token).Nodup
    rw [hrefreshes]
    exact h.once
  · intro userId
    show (s'.devices.countP _ : ℤ) ≤ limits.maxDevicesPerAccount
    rw [hdevices]
    exact h.cap userId

theorem Quiet.rely (hquiet : Quiet slot s s') {other : ℕ} (hne : other ≠ slot) :
    Rely other s s'.next where
  calls := hquiet.calls other hne
  userLocks := hquiet.userLocks other hne
  credentialLocks := hquiet.credentialLocks other hne
  rows cred hcred _ := by
    show cred ∈ s'.credentials
    rwa [hquiet.credentials]
  devices device hdevice := ⟨device, show device ∈ s'.devices by rwa [hquiet.devices], rfl⟩
  drawn := hquiet.drawn.ge
  moment := hquiet.moment.ge.trans (Nat.le_succ _)
  revocations v hv := .inl (hquiet.revocations ▸ hv)
  active userId _ := by
    show s'.devices.countP _ ≤ s.devices.countP _
    rw [hquiet.devices]

theorem quiet_refl : Quiet slot s s :=
  ⟨rfl, rfl, rfl, rfl, rfl, rfl, fun _ _ => rfl, fun _ _ _ h => h, fun _ _ _ h => h⟩

theorem quiet_goto (call : DeviceCall) : Quiet slot s (s.goto slot call) :=
  ⟨rfl, rfl, rfl, rfl, rfl, rfl, fun _ hne => Function.update_of_ne hne _ _, fun _ _ _ h => h,
    fun _ _ _ h => h⟩

theorem quiet_release : Quiet slot s (s.release slot) :=
  ⟨rfl, rfl, rfl, rfl, rfl, rfl, fun _ hne => Function.update_of_ne hne _ _,
    fun _ hne _ h => (Locks.release_eq_some_of_ne hne).mpr h,
    fun _ hne _ h => (Locks.release_eq_some_of_ne hne).mpr h⟩

/-- The refreshes that succeeded, after an answer that is none. -/
theorem refreshes_finish {answer : DeviceAnswer} (h : answer.refresh? = none) :
    (s.finish slot answer).refreshes = s.refreshes := by
  have hnone : [(slot, answer)].filterMap (fun answer => answer.2.refresh?) = [] :=
    List.filterMap_cons_none h
  rw [refreshes, finish, List.filterMap_append, hnone, List.append_nil]
  rfl

theorem quiet_finish {answer : DeviceAnswer} (h : answer.refresh? = none) :
    Quiet slot s (s.finish slot answer) := by
  obtain ⟨h₁, h₂, h₃, h₄, h₅, -, h₇, h₈, h₉⟩ := @quiet_release s slot
  exact ⟨h₁, h₂, h₃, h₄, h₅, refreshes_finish h, h₇, h₈, h₉⟩

theorem quiet_lockCredentials {ids : List ℕ}
    (hfree : ∀ id ∈ ids, s.credentialLocks.free slot id = true) (call : DeviceCall) :
    Quiet slot s (goto { s with credentialLocks := s.credentialLocks.acquireAll slot ids } slot call) :=
  ⟨rfl, rfl, rfl, rfl, rfl, rfl, fun _ hne => Function.update_of_ne hne _ _, fun _ _ _ h => h,
    fun _ hne _ h => (Locks.acquireAll_eq_some_of_ne hne hfree).mpr h⟩

theorem quiet_lockUser {userId : Uuid} (hfree : s.userLocks.free slot userId = true)
    (call : DeviceCall) :
    Quiet slot s (goto { s with userLocks := s.userLocks.acquire slot userId } slot call) :=
  ⟨rfl, rfl, rfl, rfl, rfl, rfl, fun _ hne => Function.update_of_ne hne _ _,
    fun _ hne _ h => (Locks.acquire_eq_some_of_ne hne hfree).mpr h, fun _ _ _ h => h⟩

/-! ### What a statement keeps -/

/-- What a statement of a slot keeps: what holds between any two statements, what its handler knows,
and what the others rely on. -/
structure Sound (limits : DeviceLimits) (slot : ℕ) (s s' : DeviceServer) : Prop where
  safe : Safe limits s'.next
  own : Own limits slot s'.next
  rely : ∀ other, other ≠ slot → Rely other s s'.next

/-- What a slot that only takes locks keeps of its own. -/
theorem keeps_goto (call : DeviceCall) : Keeps slot s (s.goto slot call).next :=
  ⟨fun _ h => h, fun _ h => h, fun _ h _ => h, fun d h => ⟨d, h, rfl⟩, le_rfl, Nat.le_succ _,
    fun _ h => .inl h, fun _ _ => le_rfl⟩

theorem keeps_lockCredentials (ids : List ℕ) (call : DeviceCall) :
    Keeps slot s
      (goto { s with credentialLocks := s.credentialLocks.acquireAll slot ids } slot call).next :=
  ⟨fun _ h => h, fun _ h => Locks.acquireAll_of_held h, fun _ h _ => h, fun d h => ⟨d, h, rfl⟩,
    le_rfl, Nat.le_succ _, fun _ h => .inl h, fun _ _ => le_rfl⟩

theorem own_goto {call : DeviceCall} (hok : CallOk limits (s.goto slot call).next slot call) :
    Own limits slot (s.goto slot call).next := by
  intro other hother
  obtain rfl : call = other := by simpa [goto, next] using hother
  exact hok

theorem own_release : Own limits slot (s.release slot).next := by
  intro call hcall
  simp [release, next] at hcall

theorem own_finish (answer : DeviceAnswer) : Own limits slot (s.finish slot answer).next := by
  intro call hcall
  simp [finish, release, next] at hcall

section Statements

variable (h : Safe limits s)

include h

theorem Quiet.sound (hquiet : Quiet slot s s') (hown : Own limits slot s'.next) :
    Sound limits slot s s' :=
  ⟨hquiet.safe h, hown, fun _ => hquiet.rely⟩

/-- A statement that waits. -/
theorem sound_refl (hown : Own limits slot s) : Sound limits slot s s := by
  refine quiet_refl.sound h fun call hcall => (hown call hcall).keeps ?_
  exact ⟨fun _ h => h, fun _ h => h, fun _ h _ => h, fun d h => ⟨d, h, rfl⟩, le_rfl, Nat.le_succ _,
    fun _ h => .inl h, fun _ _ => le_rfl⟩

theorem sound_goto {call : DeviceCall} (hok : CallOk limits s slot call) :
    Sound limits slot s (s.goto slot call) :=
  (quiet_goto call).sound h (own_goto (hok.keeps (keeps_goto call)))

theorem sound_error (error : AuthError) : Sound limits slot s (s.finish slot (.error error)) :=
  (quiet_finish rfl).sound h (own_finish _)

theorem sound_status (status : String) : Sound limits slot s (s.finish slot (.status status)) :=
  (quiet_finish rfl).sound h (own_finish _)

end Statements

/-! ### Rows that are written -/

/-- A credential after a statement: an old one, not in use again, or a new one. -/
def Follows (s s' : DeviceServer) (cred' : DeviceCredentialRow) : Prop :=
  (∃ cred ∈ s.credentials, cred.id = cred'.id ∧ cred.credentialHash = cred'.credentialHash ∧
    (cred'.revokedAt = none → cred.revokedAt = none)) ∨
  cred'.credentialHash = cred'.id ∧ s.drawn ≤ cred'.id ∧ cred'.id < s'.drawn

/-- A device after a statement: an old one, not active again, or one with a new id. -/
def DeviceFollows (s : DeviceServer) (device' : DeviceRow) : Prop :=
  (∃ device ∈ s.devices, device.id = device'.id ∧
    (device'.revokedAt = none → device.revokedAt = none)) ∨
  ∀ device ∈ s.devices, device.id ≠ device'.id

/-- What a slot may write: rows that another slot has locked stay, and no device of an account that
another slot has locked becomes active. -/
structure Writes (slot : ℕ) (s s' : DeviceServer) : Prop where
  calls : s'.calls = s.calls
  userLocks : s'.userLocks = s.userLocks
  credentialLocks : s'.credentialLocks = s.credentialLocks
  moment : s'.moment = s.moment
  rows : ∀ other, other ≠ slot → ∀ cred ∈ s.credentials, s.credentialLocks cred.id = some other →
    cred ∈ s'.credentials
  devices : ∀ device ∈ s.devices, ∃ device' ∈ s'.devices, device'.id = device.id
  drawn : s.drawn ≤ s'.drawn
  revocations : ∀ v ∈ s'.revocations, v ∈ s.revocations ∨ v.committedAt = s.moment
  active : ∀ other, other ≠ slot → ∀ userId, s.userLocks userId = some other →
    s'.activeDeviceCount userId ≤ s.activeDeviceCount userId
  follows : ∀ cred ∈ s'.credentials, Follows s s' cred
  deviceFollows : ∀ device ∈ s'.devices, DeviceFollows s device

theorem Writes.rely (hwrites : Writes slot s s') {other : ℕ} (hne : other ≠ slot) : Rely other s s' where
  calls := by rw [hwrites.calls]
  userLocks userId hlock := by rwa [hwrites.userLocks]
  credentialLocks id hlock := by rwa [hwrites.credentialLocks]
  rows := hwrites.rows other hne
  devices := hwrites.devices
  drawn := hwrites.drawn
  moment := hwrites.moment.ge
  revocations v hv := (hwrites.revocations v hv).imp_right Eq.ge
  active := hwrites.active other hne

/-- A refresh that succeeded stays one. -/
theorem Writes.refreshed (hwrites : Writes slot s s') {claim : RefreshClaim}
    (h : s.Refreshed claim) : s'.Refreshed claim where
  drawn := h.drawn.trans_le hwrites.drawn
  readAt := h.readAt.trans_eq hwrites.moment.symm
  used cred hcred hid hunused := by
    rcases hwrites.follows cred hcred with ⟨old, hold, hold_id, -, hrevoked⟩ | ⟨-, hnew, -⟩
    · exact h.used old hold (hold_id.trans hid) (hrevoked hunused)
    · exact absurd (hid ▸ hnew) (not_le.mpr h.drawn)
  early v hv hdevice := by
    rcases hwrites.revocations v hv with hv | hv
    · exact h.early v hv hdevice
    · exact hv ▸ h.readAt

/-- **What a slot writes is safe** if what is new is: a revoked device is revoked, a token redeemed
was not before, and the cap holds. -/
theorem Writes.safe (hwrites : Writes slot s s') (h : Safe limits s)
    (hrevoked : ∀ v ∈ s'.revocations, v ∉ s.revocations →
      (∃ device ∈ s'.devices, device.id = v.deviceId) ∧
        ∀ device ∈ s'.devices, device.id = v.deviceId → device.revokedAt ≠ none)
    (hrefreshed : ∀ claim ∈ s'.refreshes, claim ∉ s.refreshes → s'.Refreshed claim)
    (honce : (s'.refreshes.map RefreshClaim.token).Nodup)
    (hcap : ∀ userId, (s'.activeDeviceCount userId : ℤ) ≤ limits.maxDevicesPerAccount) :
    Safe limits s' where
  named cred hcred := by
    rcases hwrites.follows cred hcred with ⟨old, hold, hid, hhash, -⟩ | ⟨hhash, -, hlt⟩
    · obtain ⟨hnamed, hlt⟩ := h.named old hold
      exact ⟨hhash ▸ hnamed.trans hid, (hid ▸ hlt).trans_le hwrites.drawn⟩
    · exact ⟨hhash, hlt⟩
  revoked v hv := by
    by_cases hold : v ∈ s.revocations
    · obtain ⟨⟨device, hdevice, hid⟩, hall⟩ := h.revoked v hold
      obtain ⟨device', hdevice', hid'⟩ := hwrites.devices device hdevice
      refine ⟨⟨device', hdevice', hid'.trans hid⟩, fun other hother hother_id hactive => ?_⟩
      rcases hwrites.deviceFollows other hother with ⟨old, hold, hold_id, hkept⟩ | hnew
      · exact hall old hold (hold_id.trans hother_id) (hkept hactive)
      · exact hnew device hdevice (hid.trans hother_id.symm)
    · exact hrevoked v hv hold
  refreshed claim hclaim := by
    by_cases hold : claim ∈ s.refreshes
    · exact hwrites.refreshed (h.refreshed claim hold)
    · exact hrefreshed claim hclaim hold
  once := honce
  cap := hcap

/-- Rows are written, and nothing but the slot's own call and locks changes with that. -/
theorem Writes.sound {s₁ : DeviceServer} (hwrites : Writes slot s s₁) (hsafe : Safe limits s₁)
    (hquiet : Quiet slot s₁ s') (hown : Own limits slot s'.next) : Sound limits slot s s' :=
  ⟨hquiet.safe hsafe, hown, fun _ hne => (hwrites.rely hne).trans (hquiet.rely hne)⟩

theorem follows_of_mem {cred : DeviceCredentialRow} (hcred : cred ∈ s.credentials) :
    Follows s s' cred :=
  .inl ⟨cred, hcred, rfl, rfl, id⟩

theorem follows_revoking {credIds : List ℕ} {now : DateTime} {cred : DeviceCredentialRow}
    (hcred : cred ∈ s.credentialsRevoking credIds now) : Follows s s' cred := by
  obtain ⟨old, hold, rfl⟩ := List.mem_map.mp hcred
  refine .inl ⟨old, hold, ?_⟩
  split
  · exact ⟨rfl, rfl, nofun⟩
  · exact ⟨rfl, rfl, id⟩

theorem mem_credentialsRevoking {credIds : List ℕ} {now : DateTime} {cred : DeviceCredentialRow}
    (hcred : cred ∈ s.credentials) (hid : cred.id ∉ credIds) :
    cred ∈ s.credentialsRevoking credIds now :=
  List.mem_map.mpr ⟨cred, hcred, if_neg hid⟩

theorem revoked_of_mem_credentialsRevoking {credIds : List ℕ} {now : DateTime}
    {cred : DeviceCredentialRow} (hcred : cred ∈ s.credentialsRevoking credIds now)
    (hid : cred.id ∈ credIds) : cred.revokedAt ≠ none := by
  obtain ⟨old, -, rfl⟩ := List.mem_map.mp hcred
  split
  · exact nofun
  · rename_i hnot
    rw [if_neg hnot] at hid
    exact absurd hid hnot

theorem deviceFollows_of_mem {device : DeviceRow} (hdevice : device ∈ s.devices) :
    DeviceFollows s device :=
  .inl ⟨device, hdevice, rfl, id⟩

theorem deviceFollows_revoking {deviceId : Uuid} {now : DateTime} {device : DeviceRow}
    (hdevice : device ∈ s.devicesRevoking deviceId now) : DeviceFollows s device := by
  obtain ⟨old, hold, rfl⟩ := List.mem_map.mp hdevice
  refine .inl ⟨old, hold, ?_⟩
  split
  · exact ⟨rfl, nofun⟩
  · exact ⟨rfl, id⟩

theorem revoked_of_mem_devicesRevoking {deviceId : Uuid} {now : DateTime} {device : DeviceRow}
    (hdevice : device ∈ s.devicesRevoking deviceId now) (hid : device.id = deviceId) :
    device.revokedAt ≠ none := by
  obtain ⟨old, -, rfl⟩ := List.mem_map.mp hdevice
  split
  · exact nofun
  · rename_i hne
    rw [if_neg hne] at hid
    exact absurd hid hne

theorem exists_mem_devicesRevoking {deviceId : Uuid} {now : DateTime} {device : DeviceRow}
    (h : device ∈ s.devices) : ∃ device' ∈ s.devicesRevoking deviceId now, device'.id = device.id := by
  refine ⟨_, List.mem_map_of_mem h, ?_⟩
  split <;> rfl

/-- A revocation makes devices inactive only. -/
theorem countP_devicesRevoking_le (deviceId : Uuid) (now : DateTime) (userId : Uuid) :
    (s.devicesRevoking deviceId now).countP
      (fun device => device.userId = userId ∧ device.revokedAt = none) ≤
        s.activeDeviceCount userId := by
  rw [devicesRevoking, List.countP_map]
  refine List.countP_mono_left fun device _ hactive => ?_
  simp only [Function.comp_apply, decide_eq_true_eq] at hactive ⊢
  split at hactive
  · exact absurd hactive.2 nofun
  · exact hactive

end DeviceServer

end HelixSync
