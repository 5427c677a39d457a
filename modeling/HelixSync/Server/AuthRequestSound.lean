import HelixSync.Server.AuthRequests

/-!
# The invariant of the auth requests

`HelixSync.AuthServer.Sound`, kept by every event (`HelixSync.AuthServer.Sound.step`). Two things
carry it. A handler that holds the lock of a row still finds it as it read it, since every
statement that changes a row has to wait for the lock; so a claim that was checked when it was made
is still good when it is committed. And the kind of a request never changes, so a handler that has
branched on it is right about it whenever it comes to its own statement.

`HelixSync.AuthServer.Frame` is what a handler can rely on while the others run. A statement that
writes a row says what it commits (`HelixSync.AuthServer.Commits`), and the rest is the same for
all of them (`HelixSync.AuthServer.Sound.write`).
-/

namespace HelixSync

/-- Two devices of a user, not revoked, have approved a request. -/
def AuthDb.TwoApprovers (db : AuthDb) (id userId : Uuid) : Prop :=
  ∃ a b : DeviceRow, a ∈ db.devices ∧ b ∈ db.devices ∧ a.id ≠ b.id ∧
    (a.userId = userId ∧ a.revokedAt = none ∧ (id, a.id) ∈ db.approvals) ∧
    (b.userId = userId ∧ b.revokedAt = none ∧ (id, b.id) ∈ db.approvals)

/-- What holds of a row, whatever its kind. -/
structure AuthRequestRow.Ok (row : AuthRequestRow) : Prop where
  consumed : row.consumedAt.isSome = true → row.status = .approved
  stored : row.encryptedAccountKey.isSome = true ∨ row.approverPublicKey.isSome = true →
    row.status = .approved ∧ row.kind ≠ .web
  material : row.status = .approved → row.kind ≠ .web →
    row.encryptedAccountKey.isSome = true ∧ row.approverPublicKey.isSome = true
  named : row.kind = .device → row.deviceName.isSome = true

/-- The statement saw an approved request of its kind, not consumed and not expired. -/
def Consumption.Collected (c : Consumption) : Prop :=
  ∃ row, c.seen.requests c.requestId = some row ∧ row.kind = c.kind ∧
    AuthServer.Collectable c.time row

/-- A statement that completes a reset saw two active approvers. -/
def Consumption.Approved (c : Consumption) : Prop :=
  c.kind = .reset → ∃ row, c.seen.requests c.requestId = some row ∧
    c.seen.TwoApprovers c.requestId row.userId

namespace AuthServer

/-! ### The invariant -/

/-- The database knows a request of a kind. -/
def HasKind (s : AuthServer) (id : Uuid) (kind : AuthRequestKind) : Prop :=
  ∃ row, s.db.requests id = some row ∧ row.kind = kind

/-- A device is registered for its user. -/
def Registered (s : AuthServer) (device : AuthenticatedDevice) : Prop :=
  ∃ d ∈ s.db.devices, d.id = device.deviceId ∧ d.userId = device.userId

/-- A status and key material that may be stored with a request. -/
def Storable (s : AuthServer) (id : Uuid) (status : AuthRequestStatus)
    (key publicKey : Option String) : Prop :=
  ∃ row, s.db.requests id = some row ∧
    (key.isSome = true ∨ publicKey.isSome = true → status = .approved ∧ row.kind ≠ .web) ∧
    (status = .approved → row.kind ≠ .web → key.isSome = true ∧ publicKey.isSome = true)

/-- A pending reset, locked for a slot, and a device of its user. -/
def LockedReset (s : AuthServer) (slot : ℕ) (device : AuthenticatedDevice) (id : Uuid) : Prop :=
  s.Registered device ∧ s.locks id = some slot ∧ ∃ row, s.db.requests id = some row ∧
    row.userId = device.userId ∧ row.kind = .reset ∧ row.status = .pending

/-- A claimed request, locked for a slot, still as the claim saw it. -/
def Claimed (s : AuthServer) (slot : ℕ) (id : Uuid) (kind : AuthRequestKind) (now : DateTime)
    (seen : AuthDb) (row : AuthRequestRow) : Prop :=
  s.locks id = some slot ∧ s.db.requests id = some row ∧ seen.requests id = some row ∧
    row.kind = kind ∧ Collectable now row ∧ (kind = .reset → seen.TwoApprovers id row.userId)

/-- What a handler under way may rely on. -/
def CallOk (s : AuthServer) (slot : ℕ) : Call → Prop
  | .collectWeb id | .claimWeb id _ => s.HasKind id .web
  | .finishLogin id _ => (∃ c ∈ s.consumptions, c.requestId = id ∧ c.kind = .web) ∧
      (∀ y ∈ s.yields, y.requestId ≠ id) ∧
        ∀ slot' userId', s.calls slot' = some (.finishLogin id userId') → slot' = slot
  | .collectReset _ | .completeReset _ _ | .claimReset _ _ _ => True
  | .collectDevice id | .claimDevice id _ => s.HasKind id .device
  | .insertDevice id now claimed seen | .commitDevice id now claimed seen _ =>
      s.Claimed slot id .device now seen claimed
  | .respond _ id status key publicKey | .updateStatus _ id _ status key publicKey =>
      s.Storable id status key publicKey
  | .approveReset device _ _ | .lockReset device _ _ _ => s.Registered device
  | .readApprovers device id _ _ | .commitFirstApproval device id
  | .commitSecondApproval device id _ _ _ => s.LockedReset slot device id
  | .revokeSessions id now _ userId seen | .commitReset id now _ userId seen _ =>
      ∃ row, s.Claimed slot id .reset now seen row ∧ row.userId = userId

/-- **The invariant.** -/
structure Sound (s : AuthServer) : Prop where
  rows : ∀ id row, s.db.requests id = some row → row.Ok
  approvals : ∀ id deviceId, (id, deviceId) ∈ s.db.approvals →
    ∃ row, s.db.requests id = some row ∧ s.Registered ⟨row.userId, deviceId⟩
  deviceIds : (s.db.devices.map DeviceRow.id).Nodup
  calls : ∀ slot call, s.calls slot = some call → s.CallOk slot call
  consumptions : ∀ c ∈ s.consumptions, c.Collected ∧ c.Approved
  handouts : ∀ c ∈ s.handouts, c.Collected
  consumed : ∀ id, id ∈ s.consumptions.map Consumption.requestId ↔
    ∃ row, s.db.requests id = some row ∧ row.consumedAt.isSome = true
  once : (s.consumptions.map Consumption.requestId).Nodup
  yields : ∀ y ∈ s.yields, ∃ c ∈ s.consumptions, c.requestId = y.requestId ∧ c.kind = y.kind
  yieldsOnce : (s.yields.map Yield.requestId).Nodup

/-! ### What a handler may rely on while others run -/

/-- **The frame.** A step of the handler in a slot (or of none) changes rows only if no other
handler has locked them, and never their kind and user; it keeps the devices, the locks and calls
of the other handlers, and what has been consumed. -/
structure Frame (who : Option ℕ) (s s' : AuthServer) : Prop where
  requests : ∀ id row, s.db.requests id = some row → s'.db.requests id = some row ∨
    (s.locks id = none ∨ s.locks id = who) ∧ ∃ row', s'.db.requests id = some row' ∧
      row'.kind = row.kind ∧ row'.userId = row.userId
  locks : ∀ id slot, who ≠ some slot → s.locks id = some slot → s'.locks id = some slot
  devices : ∀ d ∈ s.db.devices, ∃ d' ∈ s'.db.devices, d'.id = d.id ∧ d'.userId = d.userId
  calls : ∀ slot, who ≠ some slot → s'.calls slot = s.calls slot
  consumptions : s.consumptions ⊆ s'.consumptions
  yields : ∀ y ∈ s'.yields, y ∈ s.yields ∨
    ∀ slot userId, who ≠ some slot → s.calls slot ≠ some (.finishLogin y.requestId userId)
  login : ∀ slot id userId, who = some slot → s'.calls slot = some (.finishLogin id userId) →
    ∀ slot' userId', slot' ≠ slot → s.calls slot' ≠ some (.finishLogin id userId')

section Frame

variable {who : Option ℕ} {s s' : AuthServer} {slot : ℕ} {id : Uuid}

theorem HasKind.frame {kind : AuthRequestKind} (hf : Frame who s s') (h : s.HasKind id kind) :
    s'.HasKind id kind := by
  obtain ⟨row, hrow, hkind⟩ := h
  rcases hf.requests id row hrow with hsame | ⟨-, row', hrow', hkind', -⟩
  · exact ⟨row, hsame, hkind⟩
  · exact ⟨row', hrow', hkind'.trans hkind⟩

theorem Registered.frame {device : AuthenticatedDevice} (hf : Frame who s s')
    (h : s.Registered device) : s'.Registered device := by
  obtain ⟨d, hd, hid, hu⟩ := h
  obtain ⟨d', hd', hid', hu'⟩ := hf.devices d hd
  exact ⟨d', hd', hid'.trans hid, hu'.trans hu⟩

theorem Storable.frame {status : AuthRequestStatus} {key publicKey : Option String}
    (hf : Frame who s s') (h : s.Storable id status key publicKey) :
    s'.Storable id status key publicKey := by
  obtain ⟨row, hrow, hstored, hmaterial⟩ := h
  rcases hf.requests id row hrow with hsame | ⟨-, row', hrow', hkind, -⟩
  · exact ⟨row, hsame, hstored, hmaterial⟩
  · rw [← hkind] at hstored hmaterial
    exact ⟨row', hrow', hstored, hmaterial⟩

/-- A row that another handler has locked stays as it is. -/
theorem requests_of_locked (hf : Frame who s s') (hwho : who ≠ some slot)
    (hlock : s.locks id = some slot) {row : AuthRequestRow} (hrow : s.db.requests id = some row) :
    s'.db.requests id = some row := by
  rcases hf.requests id row hrow with hsame | ⟨hfree | hfree, -⟩
  · exact hsame
  · rw [hlock] at hfree
    exact absurd hfree (by simp)
  · exact absurd (hfree.symm.trans hlock) hwho

theorem LockedReset.frame {device : AuthenticatedDevice} (hf : Frame who s s')
    (hwho : who ≠ some slot) (h : s.LockedReset slot device id) :
    s'.LockedReset slot device id := by
  obtain ⟨hdevice, hlock, row, hrow, hrest⟩ := h
  exact ⟨hdevice.frame hf, hf.locks id slot hwho hlock, row, requests_of_locked hf hwho hlock hrow,
    hrest⟩

theorem Claimed.frame {kind : AuthRequestKind} {now : DateTime} {seen : AuthDb}
    {row : AuthRequestRow} (hf : Frame who s s') (hwho : who ≠ some slot)
    (h : s.Claimed slot id kind now seen row) : s'.Claimed slot id kind now seen row := by
  obtain ⟨hlock, hrow, hrest⟩ := h
  exact ⟨hf.locks id slot hwho hlock, requests_of_locked hf hwho hlock hrow, hrest⟩

/-- **The other handlers may go on.** -/
theorem CallOk.frame {call : Call} (hf : Frame who s s') (hwho : who ≠ some slot)
    (hcall : s.calls slot = some call) (h : s.CallOk slot call) : s'.CallOk slot call := by
  cases call with
  | collectWeb id => exact HasKind.frame hf h
  | claimWeb id now => exact HasKind.frame hf h
  | finishLogin id userId =>
    obtain ⟨⟨c, hc, hcid, hkind⟩, hyields, honly⟩ := h
    refine ⟨⟨c, hf.consumptions hc, hcid, hkind⟩, fun y hy hyid => ?_, fun slot' userId' h' => ?_⟩
    · rcases hf.yields y hy with hold | hother
      · exact hyields y hold hyid
      · exact hother slot userId hwho (hyid ▸ hcall)
    · by_cases hwho' : who = some slot'
      · by_contra hne
        exact hf.login slot' id userId' hwho' h' slot userId (Ne.symm hne) hcall
      · rw [hf.calls slot' hwho'] at h'
        exact honly slot' userId' h'
  | collectReset id => trivial
  | collectDevice id => exact HasKind.frame hf h
  | claimDevice id now => exact HasKind.frame hf h
  | insertDevice id now claimed seen => exact Claimed.frame hf hwho h
  | commitDevice id now claimed seen issued => exact Claimed.frame hf hwho h
  | respond device id status key publicKey => exact Storable.frame hf h
  | updateStatus device id now status key publicKey => exact Storable.frame hf h
  | approveReset device id req => exact Registered.frame hf h
  | lockReset device id now req => exact Registered.frame hf h
  | readApprovers device id now req => exact LockedReset.frame hf hwho h
  | commitFirstApproval device id => exact LockedReset.frame hf hwho h
  | commitSecondApproval device id now key publicKey => exact LockedReset.frame hf hwho h
  | completeReset id req => trivial
  | claimReset id now req => trivial
  | revokeSessions id now req userId seen =>
    obtain ⟨row, hclaimed, hu⟩ := h
    exact ⟨row, hclaimed.frame hf hwho, hu⟩
  | commitReset id now req userId seen revoked =>
    obtain ⟨row, hclaimed, hu⟩ := h
    exact ⟨row, hclaimed.frame hf hwho, hu⟩

/-- All handlers may go on, if the one that made the step may. -/
theorem Sound.calls_frame (h : Sound s) (hf : Frame who s s')
    (hown : ∀ slot call, who = some slot → s'.calls slot = some call → s'.CallOk slot call)
    (slot : ℕ) (call : Call) (hcall : s'.calls slot = some call) : s'.CallOk slot call := by
  by_cases hwho : who = some slot
  · exact hown slot call hwho hcall
  · rw [hf.calls slot hwho] at hcall
    exact (h.calls slot call hcall).frame hf hwho hcall

/-- **A step that writes no row.** -/
theorem Sound.quiet (h : Sound s) (hf : Frame who s s') (hrequests : s'.db.requests = s.db.requests)
    (happrovals : ∀ id deviceId, (id, deviceId) ∈ s'.db.approvals →
      (id, deviceId) ∈ s.db.approvals ∨
        ∃ row, s.db.requests id = some row ∧ s.Registered ⟨row.userId, deviceId⟩)
    (hids : (s'.db.devices.map DeviceRow.id).Nodup) (hconsumptions : s'.consumptions = s.consumptions)
    (hhandouts : ∀ c ∈ s'.handouts, c ∈ s.handouts ∨ c.Collected) (hyields : s'.yields = s.yields)
    (hown : ∀ slot call, who = some slot → s'.calls slot = some call → s'.CallOk slot call) :
    Sound s' where
  rows := hrequests ▸ h.rows
  approvals id deviceId hmem := by
    have hold : ∃ row, s.db.requests id = some row ∧ s.Registered ⟨row.userId, deviceId⟩ := by
      rcases happrovals id deviceId hmem with hold | hnew
      · exact h.approvals id deviceId hold
      · exact hnew
    obtain ⟨row, hrow, hdevice⟩ := hold
    exact ⟨row, hrequests ▸ hrow, hdevice.frame hf⟩
  deviceIds := hids
  calls := h.calls_frame hf hown
  consumptions := hconsumptions ▸ h.consumptions
  handouts c hc := (hhandouts c hc).elim (h.handouts c) id
  consumed := by
    rw [hrequests, hconsumptions]
    exact h.consumed
  once := hconsumptions ▸ h.once
  yields := by
    rw [hyields, hconsumptions]
    exact h.yields
  yieldsOnce := hyields ▸ h.yieldsOnce

/-- What a step that writes a row commits with it: the consumption of the request, if any, and what
that yields. -/
structure Commits (s s' : AuthServer) (id : Uuid) (row : AuthRequestRow) (new : Option Consumption)
    (newYield : Option Yield) : Prop where
  requests : s'.db.requests = Function.update s.db.requests id (some row)
  ok : row.Ok
  approvals : ∀ id' deviceId, (id', deviceId) ∈ s'.db.approvals →
    (id', deviceId) ∈ s.db.approvals ∨ id' = id ∧ s'.Registered ⟨row.userId, deviceId⟩
  deviceIds : (s'.db.devices.map DeviceRow.id).Nodup
  handouts : s'.handouts = s.handouts
  consumptions : s'.consumptions = s.consumptions ++ new.toList
  yields : s'.yields = s.yields ++ newYield.toList
  consumed : row.consumedAt.isSome = true ↔ new.isSome = true ∨
    ∃ old, s.db.requests id = some old ∧ old.consumedAt.isSome = true
  consumption : ∀ c, new = some c → c.requestId = id ∧ c.Collected ∧ c.Approved ∧
    ∀ old, s.db.requests id = some old → old.consumedAt = none
  outcome : ∀ y, newYield = some y → y.requestId = id ∧ ∃ c, new = some c ∧ c.kind = y.kind

/-- **A step that writes a row.** -/
theorem Sound.write (h : Sound s) (hf : Frame who s s') {row : AuthRequestRow}
    {new : Option Consumption} {newYield : Option Yield} (hc : Commits s s' id row new newYield)
    (hown : ∀ slot call, who = some slot → s'.calls slot = some call → s'.CallOk slot call) :
    Sound s' := by
  have hsame : s'.db.requests id = some row := by rw [hc.requests, Function.update_self]
  have hother : ∀ id', id' ≠ id → s'.db.requests id' = s.db.requests id' := fun id' hne => by
    rw [hc.requests, Function.update_of_ne hne]
  -- a request that is consumed now was not consumed before
  have hfresh : ∀ c, new = some c → id ∉ s.consumptions.map Consumption.requestId := by
    intro c hnew hmem
    obtain ⟨old, hold, hsome⟩ := (h.consumed id).mp hmem
    rw [(hc.consumption c hnew).2.2.2 old hold] at hsome
    exact absurd hsome (by simp)
  refine ⟨fun id' row' hrow' => ?_, fun id' deviceId hmem => ?_, hc.deviceIds,
    h.calls_frame hf hown, fun c hmem => ?_, hc.handouts ▸ h.handouts, fun id' => ?_, ?_,
    fun y hy => ?_, ?_⟩
  · by_cases hid : id' = id
    · rw [hid, hsame, Option.some.injEq] at hrow'
      exact hrow' ▸ hc.ok
    · exact h.rows id' row' (hother id' hid ▸ hrow')
  · rcases hc.approvals id' deviceId hmem with hold | ⟨rfl, hdevice⟩
    · obtain ⟨old, hold, hdevice⟩ := h.approvals id' deviceId hold
      rcases hf.requests id' old hold with hkept | ⟨-, row', hrow', -, hu⟩
      · exact ⟨old, hkept, hdevice.frame hf⟩
      · exact ⟨row', hrow', hu ▸ hdevice.frame hf⟩
    · exact ⟨row, hsame, hdevice⟩
  · rw [hc.consumptions, List.mem_append, Option.mem_toList] at hmem
    rcases hmem with hmem | hmem
    · exact h.consumptions c hmem
    · exact ⟨(hc.consumption c hmem).2.1, (hc.consumption c hmem).2.2.1⟩
  · rw [hc.consumptions, List.map_append, List.mem_append]
    by_cases hid : id' = id
    · subst hid
      simp only [hsame, Option.some.injEq, exists_eq_left', hc.consumed, h.consumed id']
      rw [or_comm]
      refine or_congr_left ?_
      rcases hnew : new with _ | c
      · simp
      · simp [(hc.consumption c hnew).1]
    · rw [hother id' hid, ← h.consumed id']
      refine ⟨fun hmem => hmem.resolve_right fun hnew => hid ?_, Or.inl⟩
      obtain ⟨c, hcmem, rfl⟩ := List.mem_map.mp hnew
      exact (hc.consumption c (Option.mem_toList.mp hcmem)).1
  · rw [hc.consumptions, List.map_append]
    rcases hnew : new with _ | c
    · simpa using h.once
    · refine List.nodup_append.mpr ⟨h.once, List.nodup_singleton _, fun a ha b hb hab => ?_⟩
      rw [List.mem_singleton.mp hb, (hc.consumption c hnew).1] at hab
      exact hfresh c hnew (hab ▸ ha)
  · rw [hc.yields, List.mem_append, Option.mem_toList] at hy
    rw [hc.consumptions]
    rcases hy with hy | hy
    · obtain ⟨c, hcmem, hrest⟩ := h.yields y hy
      exact ⟨c, List.mem_append_left _ hcmem, hrest⟩
    · obtain ⟨hyid, c, hnew, hkind⟩ := hc.outcome y hy
      exact ⟨c, List.mem_append_right _ (Option.mem_toList.mpr hnew),
        (hc.consumption c hnew).1.trans hyid.symm, hkind⟩
  · rw [hc.yields, List.map_append]
    rcases hy : newYield with _ | y
    · simpa using h.yieldsOnce
    · refine List.nodup_append.mpr ⟨h.yieldsOnce, List.nodup_singleton _, fun a ha b hb hab => ?_⟩
      obtain ⟨hyid, c, hnew, -⟩ := hc.outcome y hy
      obtain ⟨y', hy', rfl⟩ := List.mem_map.mp ha
      obtain ⟨c', hc', hcid, -⟩ := h.yields y' hy'
      rw [List.mem_singleton.mp hb, hyid, ← hcid] at hab
      exact hfresh c hnew (hab ▸ List.mem_map_of_mem hc')

end Frame

/-! ### Going on and finishing -/

section Slots

variable {cfg : AuthConfig} {s t : AuthServer} {slot : ℕ} {id : Uuid} {call : Call} {answer : Answer}

/-- A call that is not about to start a session. -/
def NoLogin (call : Call) : Prop := ∀ id userId, call ≠ .finishLogin id userId

/-- The database that the claim of a call has seen. -/
def seen? : Call → Option AuthDb
  | .insertDevice _ _ _ seen | .commitDevice _ _ _ seen _ | .revokeSessions _ _ _ _ seen
  | .commitReset _ _ _ _ seen _ => some seen
  | _ => none

/-- What a statement may do to the tables before its handler goes on or finishes. -/
structure Local (slot : ℕ) (s t : AuthServer) : Prop where
  requests : ∀ id row, s.db.requests id = some row → t.db.requests id = some row ∨
    s.available slot id = true ∧ ∃ row', t.db.requests id = some row' ∧
      row'.kind = row.kind ∧ row'.userId = row.userId
  locks : ∀ id slot', slot' ≠ slot → s.locks id = some slot' → t.locks id = some slot'
  devices : ∀ d ∈ s.db.devices, d ∈ t.db.devices
  calls : t.calls = s.calls
  consumptions : s.consumptions ⊆ t.consumptions
  yields : ∀ y ∈ t.yields, y ∈ s.yields ∨
    ∀ slot' userId, slot' ≠ slot → s.calls slot' ≠ some (.finishLogin y.requestId userId)

theorem Local.refl (slot : ℕ) (s : AuthServer) : Local slot s s :=
  ⟨fun _ _ h => Or.inl h, fun _ _ _ h => h, fun _ h => h, rfl, List.Subset.refl _,
    fun _ h => Or.inl h⟩

theorem available_iff : s.available slot id = true ↔
    s.locks id = none ∨ s.locks id = some slot := by
  simp [available]

theorem Local.lock (hfree : s.available slot id = true) : Local slot s (s.lock slot id) := by
  refine ⟨fun _ _ h => Or.inl h, fun id' slot' hne h => ?_, fun _ h => h, rfl, List.Subset.refl _,
    fun _ h => Or.inl h⟩
  by_cases hid : id' = id
  · rcases available_iff.mp hfree with hnone | hsome
    · rw [hid, hnone] at h
      exact absurd h (by simp)
    · rw [hid, hsome, Option.some.injEq] at h
      exact absurd h.symm hne
  · exact (Function.update_of_ne hid _ _).trans h

theorem Local.frame_requests (hl : Local slot s t) (id : Uuid) (row : AuthRequestRow)
    (hrow : s.db.requests id = some row) : t.db.requests id = some row ∨
      (s.locks id = none ∨ s.locks id = some slot) ∧ ∃ row', t.db.requests id = some row' ∧
        row'.kind = row.kind ∧ row'.userId = row.userId :=
  (hl.requests id row hrow).imp_right (And.imp_left available_iff.mp)

theorem Frame.goto (hl : Local slot s t)
    (hlogin : ∀ id userId, call = .finishLogin id userId → ∀ slot' userId', slot' ≠ slot →
      s.calls slot' ≠ some (.finishLogin id userId')) : Frame (some slot) s (t.goto slot call) where
  requests := hl.frame_requests
  locks id slot' hne h := hl.locks id slot' (fun heq => hne (congrArg some heq.symm)) h
  devices d hd := ⟨d, hl.devices d hd, rfl, rfl⟩
  calls slot' hne := by
    rw [← hl.calls]
    exact Function.update_of_ne (fun heq => hne (congrArg some heq.symm)) _ _
  consumptions := hl.consumptions
  yields y hy := (hl.yields y hy).imp_right fun h slot' userId hne =>
    h slot' userId fun heq => hne (congrArg some heq.symm)
  login slot' id userId heq h := by
    obtain rfl := Option.some.inj heq
    rw [show (t.goto slot call).calls slot = some call from Function.update_self _ _ _,
      Option.some.injEq] at h
    exact hlogin id userId h

theorem Frame.finish (hl : Local slot s t) : Frame (some slot) s (t.finish slot answer) where
  requests := hl.frame_requests
  locks id slot' hne h := by
    have hkept := hl.locks id slot' (fun heq => hne (congrArg some heq.symm)) h
    have hother : t.locks id ≠ some slot := fun heq => hne (heq.symm.trans hkept)
    exact (if_neg hother).trans hkept
  devices d hd := ⟨d, hl.devices d hd, rfl, rfl⟩
  calls slot' hne := by
    rw [← hl.calls]
    exact Function.update_of_ne (fun heq => hne (congrArg some heq.symm)) _ _
  consumptions := hl.consumptions
  yields y hy := (hl.yields y hy).imp_right fun h slot' userId hne =>
    h slot' userId fun heq => hne (congrArg some heq.symm)
  login slot' id userId heq h := by
    obtain rfl := Option.some.inj heq
    rw [show (t.finish slot answer).calls slot = none from Function.update_self _ _ _] at h
    exact absurd h (by simp)

/-- A handler that has finished relies on nothing. -/
theorem own_finish {slot' : ℕ} {call' : Call} (hwho : some slot = some slot')
    (hcall : (t.finish slot answer).calls slot' = some call') :
    (t.finish slot answer).CallOk slot' call' := by
  obtain rfl := Option.some.inj hwho
  rw [show (t.finish slot answer).calls slot = none from Function.update_self _ _ _] at hcall
  exact absurd hcall (by simp)

theorem own_goto (hok : (t.goto slot call).CallOk slot call) {slot' : ℕ} {call' : Call}
    (hwho : some slot = some slot') (hcall : (t.goto slot call).calls slot' = some call') :
    (t.goto slot call).CallOk slot' call' := by
  obtain rfl := Option.some.inj hwho
  rw [show (t.goto slot call).calls slot = some call from Function.update_self _ _ _,
    Option.some.injEq] at hcall
  exact hcall ▸ hok

/-- **A statement that only reads**, and maybe locks a row. -/
theorem Sound.goto (h : Sound s) (hl : Local slot s t) (hdb : t.db = s.db)
    (hconsumptions : t.consumptions = s.consumptions) (hhandouts : t.handouts = s.handouts)
    (hyields : t.yields = s.yields) (hlogin : NoLogin call)
    (hok : (t.goto slot call).CallOk slot call) : Sound (t.goto slot call) :=
  h.quiet (Frame.goto hl fun id userId heq => absurd heq (hlogin id userId)) (congrArg _ hdb)
    (fun _ _ hmem => Or.inl (hdb ▸ hmem)) (hdb ▸ h.deviceIds) hconsumptions
    (fun _ hc => Or.inl (hhandouts ▸ hc)) hyields fun _ _ hwho hcall => own_goto hok hwho hcall

/-- **A handler finishes** without writing anything. -/
theorem Sound.finish (h : Sound s) (slot : ℕ) (answer : Answer) : Sound (s.finish slot answer) :=
  h.quiet (Frame.finish (Local.refl slot s)) rfl (fun _ _ hmem => Or.inl hmem) h.deviceIds rfl
    (fun _ hc => Or.inl hc) rfl fun _ _ hwho hcall => own_finish hwho hcall

theorem CallOk.goto (hlogin : NoLogin call) (h : s.CallOk slot call) :
    (s.goto slot call).CallOk slot call := by
  cases call with
  | finishLogin id userId => exact absurd rfl (hlogin id userId)
  | _ => exact h

/-! ### Facts about one request -/

theorem not_mem_consumptions (h : Sound s) {row : AuthRequestRow} (hrow : s.db.requests id = some row)
    (hnone : row.consumedAt = none) : id ∉ s.consumptions.map Consumption.requestId := by
  intro hmem
  obtain ⟨row', hrow', hsome⟩ := (h.consumed id).mp hmem
  obtain rfl := Option.some.inj (hrow.symm.trans hrow')
  rw [hnone] at hsome
  exact absurd hsome (by simp)

/-- A request that is not consumed is about to start no session, -/
theorem no_login (h : Sound s) (hnot : id ∉ s.consumptions.map Consumption.requestId) (slot' : ℕ)
    (userId : Uuid) : s.calls slot' ≠ some (.finishLogin id userId) := by
  intro hcall
  obtain ⟨⟨c, hc, rfl, -⟩, -⟩ := h.calls slot' _ hcall
  exact hnot (List.mem_map_of_mem hc)

/-- and has yielded nothing. -/
theorem no_yield (h : Sound s) (hnot : id ∉ s.consumptions.map Consumption.requestId) :
    ∀ y ∈ s.yields, y.requestId ≠ id := by
  rintro y hy rfl
  obtain ⟨c, hc, hid, -⟩ := h.yields y hy
  exact hnot (hid ▸ List.mem_map_of_mem hc)

theorem Local.setRequest {row : AuthRequestRow} (row' : AuthRequestRow) (hrow : s.db.requests id = some row)
    (hfree : s.available slot id = true) (hkind : row'.kind = row.kind)
    (hu : row'.userId = row.userId)
    (hrequests : t.db.requests = Function.update s.db.requests id (some row'))
    (hlocks : t.locks = s.locks) (hdevices : ∀ d ∈ s.db.devices, d ∈ t.db.devices)
    (hcalls : t.calls = s.calls) (hconsumptions : s.consumptions ⊆ t.consumptions)
    (hyields : ∀ y ∈ t.yields, y ∈ s.yields ∨
      ∀ slot' userId, slot' ≠ slot → s.calls slot' ≠ some (.finishLogin y.requestId userId)) :
    Local slot s t where
  requests id' old hold := by
    rw [hrequests]
    by_cases hid : id' = id
    · subst hid
      obtain rfl := Option.some.inj (hrow.symm.trans hold)
      exact Or.inr ⟨hfree, row', Function.update_self _ _ _, hkind, hu⟩
    · rw [Function.update_of_ne hid]
      exact Or.inl hold
  locks id' slot' _ h := hlocks ▸ h
  devices := hdevices
  calls := hcalls
  consumptions := hconsumptions
  yields := hyields

/-- A claimed row, consumed, is still a row. -/
theorem ok_consume {row : AuthRequestRow} (hok : row.Ok) {now now' : DateTime}
    (hc : Collectable now row) : ({ row with consumedAt := some now' } : AuthRequestRow).Ok :=
  ⟨fun _ => hc.1, hok.stored, hok.material, hok.named⟩

/-- Two approvers that the count has found are two devices of the user. -/
theorem twoApprovers_of_card (h : Sound s) {row : AuthRequestRow}
    (hrow : s.db.requests id = some row) (hcard : 2 ≤ (s.db.activeApprovers id).card) :
    s.db.TwoApprovers id row.userId := by
  have hactive : ∀ deviceId ∈ s.db.activeApprovers id, ∃ d ∈ s.db.devices, d.id = deviceId ∧
      d.userId = row.userId ∧ d.revokedAt = none ∧ (id, d.id) ∈ s.db.approvals := by
    intro deviceId hmem
    obtain ⟨hmem, d, hd, rfl, hrevoked⟩ := Finset.mem_filter.mp hmem
    obtain ⟨⟨id', deviceId⟩, hmem, heq⟩ := Finset.mem_image.mp hmem
    obtain ⟨happroval, hid⟩ := Finset.mem_filter.mp hmem
    obtain rfl : id' = id := hid
    obtain rfl : deviceId = d.id := heq
    obtain ⟨row', hrow', d', hd', hid', hu'⟩ := h.approvals _ _ happroval
    obtain rfl := Option.some.inj (hrow.symm.trans hrow')
    -- device ids are unique, so the active device is the one that was approved with
    obtain rfl := List.inj_on_of_nodup_map h.deviceIds hd' hd hid'
    exact ⟨d', hd, rfl, hu', hrevoked, happroval⟩
  obtain ⟨a, ha, b, hb, hne⟩ := Finset.one_lt_card.mp hcard
  obtain ⟨da, hda, rfl, hua, hra, hia⟩ := hactive a ha
  obtain ⟨db, hdb, rfl, hub, hrb, hib⟩ := hactive b hb
  exact ⟨da, db, hda, hdb, hne, ⟨hua, hra, hia⟩, hub, hrb, hib⟩

/-- The statement of a claimed request is consumed by its commit. -/
theorem seen_of_claimed {kind : AuthRequestKind} {now : DateTime} {seen : AuthDb}
    {row : AuthRequestRow} (hrow : s.db.requests id = some row) (hseen : seen.requests id = some row)
    (hkind : row.kind = kind) (hc : Collectable now row)
    (happroved : kind = .reset → seen.TwoApprovers id row.userId) (c : Consumption)
    (heq : some (⟨id, kind, now, seen⟩ : Consumption) = some c) :
    c.requestId = id ∧ c.Collected ∧ c.Approved ∧
      ∀ old, s.db.requests id = some old → old.consumedAt = none := by
  obtain rfl := Option.some.inj heq
  refine ⟨rfl, ⟨row, hseen, hkind, hc⟩, fun hreset => ⟨row, hseen, happroved hreset⟩,
    fun old hold => ?_⟩
  obtain rfl := Option.some.inj (hrow.symm.trans hold)
  exact hc.2.1

/-! ### The statements -/

theorem sound_claimWeb {now : DateTime} (h : Sound s) (hcall : s.calls slot = some (.claimWeb id now)) :
    Sound (s.claimWeb slot id now) := by
  rw [claimWeb]
  split
  · exact h.finish _ _
  · rename_i row hfilter
    obtain ⟨hrow, hcond⟩ := Option.filter_eq_some_iff.mp hfilter
    obtain ⟨hc, -⟩ := of_decide_eq_true hcond
    split
    · rename_i hfree
      obtain ⟨row', hrow', hkind⟩ := h.calls slot _ hcall
      obtain rfl := Option.some.inj (hrow.symm.trans hrow')
      have hnot := not_mem_consumptions h hrow hc.2.1
      set t : AuthServer := { s with
        db := s.db.setRequest id { row with consumedAt := some now }
        consumptions := s.consumptions ++ [⟨id, .web, now, s.db⟩] } with ht
      have hlocal : Local slot s t :=
        Local.setRequest { row with consumedAt := some now } hrow hfree rfl rfl rfl rfl
          (fun _ hd => hd) rfl (List.subset_append_left _ _) fun _ hy => Or.inl hy
      have hcommits : Commits s (t.goto slot (.finishLogin id row.userId)) id
          { row with consumedAt := some now } (some ⟨id, .web, now, s.db⟩) none :=
        ⟨rfl, ok_consume (h.rows id row hrow) hc, fun _ _ hmem => Or.inl hmem, h.deviceIds, rfl, rfl,
          (List.append_nil _).symm, by simp,
          seen_of_claimed hrow hrow hkind hc fun hreset => absurd hreset (by simp), by simp⟩
      refine h.write (Frame.goto hlocal ?_) hcommits fun _ _ hwho hcall => own_goto ?_ hwho hcall
      · rintro id' userId heq slot' userId' -
        obtain ⟨rfl, -⟩ := Call.finishLogin.inj heq
        exact no_login h hnot slot' userId'
      · refine ⟨⟨_, List.mem_append_right _ List.mem_cons_self, rfl, rfl⟩,
          fun y hy => no_yield h hnot y hy, fun slot' userId' hlogin => ?_⟩
        by_contra hne
        exact no_login h hnot slot' userId' ((Function.update_of_ne hne _ _).symm.trans hlogin)
    · exact h

theorem sound_finishLogin {userId : Uuid} {sessionHash : String} (h : Sound s)
    (hcall : s.calls slot = some (.finishLogin id userId)) :
    Sound (s.finishLogin slot id userId sessionHash) := by
  obtain ⟨⟨c, hc, hcid, hkind⟩, hyields, honly⟩ := h.calls slot _ hcall
  have hlocal : Local slot s { s with
      db := { s.db with webSessions := s.db.webSessions ++ [⟨sessionHash, userId, none⟩] }
      yields := s.yields ++ [.session id sessionHash] } := by
    refine ⟨fun _ _ h => Or.inl h, fun _ _ _ h => h, fun _ h => h, rfl, List.Subset.refl _,
      fun y hy => (List.mem_append.mp hy).imp_right fun hy slot' userId' hne hlogin => ?_⟩
    rw [List.mem_singleton.mp hy] at hlogin
    exact hne (honly slot' userId' hlogin)
  have hframe : Frame (some slot) s (s.finishLogin slot id userId sessionHash) :=
    Frame.finish hlocal
  refine ⟨h.rows, fun id' deviceId hmem => ?_, h.deviceIds,
    h.calls_frame hframe fun _ _ hwho hcall => own_finish hwho hcall, h.consumptions, h.handouts,
    h.consumed, h.once, fun y hy => ?_, ?_⟩
  · obtain ⟨row, hrow, hdevice⟩ := h.approvals id' deviceId hmem
    exact ⟨row, hrow, hdevice.frame hframe⟩
  · rcases List.mem_append.mp hy with hy | hy
    · exact h.yields y hy
    · rw [List.mem_singleton.mp hy]
      exact ⟨c, hc, hcid, hkind⟩
  · change ((s.yields ++ [Yield.session id sessionHash]).map Yield.requestId).Nodup
    rw [List.map_append]
    refine List.nodup_append.mpr ⟨h.yieldsOnce, List.nodup_singleton _, fun a ha b hb hab => ?_⟩
    obtain ⟨y, hy, rfl⟩ := List.mem_map.mp ha
    exact hyields y hy (hab.trans (List.mem_singleton.mp hb))

theorem sound_collectReset (h : Sound s) : Sound (s.collectReset slot id) := by
  rw [collectReset]
  split
  · exact h.finish _ _
  · rename_i row hfilter
    obtain ⟨hrow, hcond⟩ := Option.filter_eq_some_iff.mp hfilter
    obtain ⟨hkind, hc⟩ := of_decide_eq_true hcond
    split
    · have hlocal : Local slot s { s with
          handouts := s.handouts ++ [⟨id, .reset, s.clock, s.db⟩] } :=
        ⟨fun _ _ h => Or.inl h, fun _ _ _ h => h, fun _ h => h, rfl, List.Subset.refl _,
          fun _ h => Or.inl h⟩
      refine h.quiet (Frame.finish hlocal) rfl (fun _ _ hmem => Or.inl hmem) h.deviceIds rfl
        (fun c hmem => (List.mem_append.mp hmem).imp_right fun hnew => ?_) rfl
        fun _ _ hwho hcall => own_finish hwho hcall
      rw [List.mem_singleton.mp hnew]
      exact ⟨row, hrow, hkind, hc⟩
    · exact h.finish _ _

theorem sound_claimDevice {now : DateTime} (h : Sound s)
    (hcall : s.calls slot = some (.claimDevice id now)) : Sound (s.claimDevice slot id now) := by
  rw [claimDevice]
  split
  · exact h.finish _ _
  · rename_i row hfilter
    obtain ⟨hrow, hcond⟩ := Option.filter_eq_some_iff.mp hfilter
    obtain ⟨hc, -⟩ := of_decide_eq_true hcond
    split
    · rename_i hfree
      obtain ⟨row', hrow', hkind⟩ := h.calls slot _ hcall
      obtain rfl := Option.some.inj (hrow.symm.trans hrow')
      exact h.goto (Local.lock hfree) rfl rfl rfl rfl (fun _ _ => by simp)
        ⟨Function.update_self _ _ _, hrow, hrow, hkind, hc, fun hreset => absurd hreset (by simp)⟩
    · exact h

theorem sound_insertDevice {now : DateTime} {claimed : AuthRequestRow} {seen : AuthDb}
    {deviceId : Uuid} (h : Sound s)
    (hcall : s.calls slot = some (.insertDevice id now claimed seen)) :
    Sound (s.insertDevice cfg slot id now claimed seen deviceId) := by
  rw [insertDevice]
  split
  · split
    · exact h.finish _ _
    · split
      · exact h.finish _ _
      · exact h.goto (Local.refl slot s) rfl rfl rfl rfl (fun _ _ => by simp) (h.calls slot _ hcall)
  · exact h.finish _ _

theorem nodup_deviceIds_append (h : Sound s) {d : DeviceRow}
    (hnew : ¬(s.db.device? d.id).isSome = true) :
    ((s.db.devices ++ [d]).map DeviceRow.id).Nodup := by
  rw [List.map_append]
  refine List.nodup_append.mpr ⟨h.deviceIds, List.nodup_singleton _, fun a ha b hb hab => hnew ?_⟩
  obtain ⟨d', hd', rfl⟩ := List.mem_map.mp ha
  rw [AuthDb.device?, List.find?_isSome]
  exact ⟨d', hd', by simpa using hab.trans (List.mem_singleton.mp hb)⟩

theorem sound_commitDevice {now : DateTime} {claimed : AuthRequestRow} {seen : AuthDb}
    {issued : DeviceRow} (h : Sound s)
    (hcall : s.calls slot = some (.commitDevice id now claimed seen issued)) :
    Sound (s.commitDevice slot id now claimed seen issued) := by
  obtain ⟨hlock, hrow, hseen, hkind, hc, happroved⟩ := h.calls slot _ hcall
  have hnot := not_mem_consumptions h hrow hc.2.1
  rw [commitDevice]
  split
  · exact h.finish _ _
  · rename_i hnew
    set t : AuthServer := { s with
      db := { s.db.setRequest id { claimed with consumedAt := some now } with
        devices := s.db.devices ++ [issued] }
      consumptions := s.consumptions ++ [⟨id, .device, now, seen⟩]
      yields := s.yields ++ [.device id issued.id] } with ht
    have hlocal : Local slot s t := by
      refine Local.setRequest { claimed with consumedAt := some now } hrow
        (available_iff.mpr (Or.inr hlock)) rfl rfl rfl rfl (fun _ hd => List.mem_append_left _ hd)
        rfl (List.subset_append_left _ _) fun y hy => (List.mem_append.mp hy).imp_right
          fun hy slot' userId' _ => ?_
      rw [List.mem_singleton.mp hy]
      exact no_login h hnot slot' userId'
    have hcommits : ∀ answer, Commits s (t.finish slot answer) id
        { claimed with consumedAt := some now } (some ⟨id, .device, now, seen⟩)
        (some (.device id issued.id)) := fun answer =>
      ⟨rfl, ok_consume (h.rows id claimed hrow) hc, fun _ _ hmem => Or.inl hmem,
        nodup_deviceIds_append h hnew, rfl, rfl, rfl, by simp,
        seen_of_claimed hrow hseen hkind hc happroved, by
          rintro y ⟨⟩
          exact ⟨rfl, _, rfl, rfl⟩⟩
    exact h.write (Frame.finish hlocal) (hcommits _) fun _ _ hwho hcall => own_finish hwho hcall

theorem sound_updateStatus {device : AuthenticatedDevice} {now : DateTime}
    {status : AuthRequestStatus} {key publicKey : Option String} (h : Sound s)
    (hcall : s.calls slot = some (.updateStatus device id now status key publicKey)) :
    Sound (s.updateStatus slot device id now status key publicKey) := by
  rw [updateStatus]
  split
  · exact h.finish _ _
  · rename_i row hfilter
    obtain ⟨hrow, hcond⟩ := Option.filter_eq_some_iff.mp hfilter
    obtain ⟨-, hpending, -⟩ := of_decide_eq_true hcond
    obtain ⟨row', hrow', hstored, hmaterial⟩ := h.calls slot _ hcall
    obtain rfl := Option.some.inj (hrow.symm.trans hrow')
    have hok := h.rows id row hrow
    have hnone : ¬row.consumedAt.isSome = true := fun hsome => by
      rw [hok.consumed hsome] at hpending
      exact absurd hpending (by simp)
    split
    · rename_i hfree
      set updated : AuthRequestRow := { row with
        status := status, respondedByDeviceId := some device.deviceId, respondedAt := some now,
        encryptedAccountKey := key, approverPublicKey := publicKey } with hupdated
      have hlocal : Local slot s { s with db := s.db.setRequest id updated } :=
        Local.setRequest updated hrow hfree rfl rfl rfl rfl (fun _ hd => hd) rfl
          (List.Subset.refl _) fun _ hy => Or.inl hy
      have hcommits : Commits s (finish { s with db := s.db.setRequest id updated } slot .done) id
          updated none none :=
        ⟨rfl, ⟨fun hsome => absurd hsome hnone, hstored, hmaterial, hok.named⟩,
          fun _ _ hmem => Or.inl hmem, h.deviceIds, rfl, (List.append_nil _).symm,
          (List.append_nil _).symm, by simp [hrow, hupdated], by simp, by simp⟩
      exact h.write (Frame.finish hlocal) hcommits fun _ _ hwho hcall => own_finish hwho hcall
    · exact h

theorem sound_lockReset {device : AuthenticatedDevice} {now : DateTime} {req : RespondAuthRequest}
    (h : Sound s) (hcall : s.calls slot = some (.lockReset device id now req)) :
    Sound (s.lockReset slot device id now req) := by
  rw [lockReset]
  split
  · exact h.finish _ _
  · rename_i row hfilter
    obtain ⟨hrow, hcond⟩ := Option.filter_eq_some_iff.mp hfilter
    obtain ⟨hu, hkind, hpending, -⟩ := of_decide_eq_true hcond
    split
    · rename_i hfree
      exact h.goto (Local.lock hfree) rfl rfl rfl rfl (fun _ _ => by simp)
        ⟨h.calls slot _ hcall, Function.update_self _ _ _, row, hrow, hu, hkind, hpending⟩
    · exact h

theorem sound_readApprovers {device : AuthenticatedDevice} {now : DateTime}
    {req : RespondAuthRequest} (h : Sound s)
    (hcall : s.calls slot = some (.readApprovers device id now req)) :
    Sound (s.readApprovers cfg slot device id now req) := by
  have hlocked : s.LockedReset slot device id := h.calls slot _ hcall
  rw [readApprovers]
  split
  · exact h.finish _ _
  · split
    · split
      · exact h.finish _ _
      · exact h.goto (Local.refl slot s) rfl rfl rfl rfl (fun _ _ => by simp) hlocked
    · split
      · exact h.finish _ _
      · exact h.goto (Local.refl slot s) rfl rfl rfl rfl (fun _ _ => by simp) hlocked

theorem sound_commitFirstApproval {device : AuthenticatedDevice} (h : Sound s)
    (hcall : s.calls slot = some (.commitFirstApproval device id)) :
    Sound (s.commitFirstApproval slot device id) := by
  obtain ⟨hdevice, -, row, hrow, hu, -⟩ := h.calls slot _ hcall
  have hlocal : Local slot s { s with db := s.db.insertApproval id device.deviceId } :=
    ⟨fun _ _ h => Or.inl h, fun _ _ _ h => h, fun _ h => h, rfl, List.Subset.refl _,
      fun _ h => Or.inl h⟩
  refine h.quiet (Frame.finish hlocal) rfl (fun id' deviceId hmem => ?_) h.deviceIds rfl
    (fun _ hc => Or.inl hc) rfl fun _ _ hwho hcall => own_finish hwho hcall
  rcases Finset.mem_insert.mp hmem with heq | hold
  · obtain ⟨rfl, rfl⟩ := Prod.mk.inj heq
    exact Or.inr ⟨row, hrow, hu ▸ hdevice⟩
  · exact Or.inl hold

theorem sound_commitSecondApproval {device : AuthenticatedDevice} {now : DateTime}
    {key publicKey : String} (h : Sound s)
    (hcall : s.calls slot = some (.commitSecondApproval device id now key publicKey)) :
    Sound (s.commitSecondApproval slot device id now key publicKey) := by
  obtain ⟨hdevice, hlock, row, hrow, hu, hkind, hpending⟩ := h.calls slot _ hcall
  have hok := h.rows id row hrow
  rw [commitSecondApproval, hrow]
  set updated : AuthRequestRow := { row with
    status := .approved, respondedByDeviceId := some device.deviceId, respondedAt := some now,
    encryptedAccountKey := some key, approverPublicKey := some publicKey } with hupdated
  set t : AuthServer := { s with
    db := (s.db.insertApproval id device.deviceId).setRequest id updated } with ht
  have hlocal : Local slot s t :=
    Local.setRequest updated hrow (available_iff.mpr (Or.inr hlock)) rfl rfl rfl rfl
      (fun _ hd => hd) rfl (List.Subset.refl _) fun _ hy => Or.inl hy
  have hcommits : Commits s (t.finish slot .done) id updated none none := by
    refine ⟨rfl, ⟨fun _ => rfl, fun _ => ⟨rfl, by simp [hupdated, hkind]⟩, fun _ _ => ⟨rfl, rfl⟩,
      hok.named⟩, fun id' deviceId hmem => ?_, h.deviceIds, rfl, (List.append_nil _).symm,
      (List.append_nil _).symm, by simp [hrow, hupdated], by simp, by simp⟩
    rcases Finset.mem_insert.mp hmem with heq | hold
    · obtain ⟨rfl, rfl⟩ := Prod.mk.inj heq
      refine Or.inr ⟨rfl, ?_⟩
      change Registered s ⟨row.userId, device.deviceId⟩
      exact hu ▸ hdevice
    · exact Or.inl hold
  exact h.write (Frame.finish hlocal) hcommits fun _ _ hwho hcall => own_finish hwho hcall

theorem sound_claimReset {now : DateTime} {req : CompleteResetRequest} (h : Sound s) :
    Sound (s.claimReset slot id now req) := by
  rw [claimReset]
  split
  · exact h.finish _ _
  · rename_i row hfilter
    obtain ⟨hrow, hcond⟩ := Option.filter_eq_some_iff.mp hfilter
    obtain ⟨hkind, hc, hcard⟩ := of_decide_eq_true hcond
    split
    · rename_i hfree
      exact h.goto (Local.lock hfree) rfl rfl rfl rfl (fun _ _ => by simp)
        ⟨row, ⟨Function.update_self _ _ _, hrow, hrow, hkind, hc,
          fun _ => twoApprovers_of_card h hrow hcard⟩, rfl⟩
    · exact h

theorem sound_revokeSessions {now : DateTime} {req : CompleteResetRequest} {userId : Uuid}
    {seen : AuthDb} (h : Sound s)
    (hcall : s.calls slot = some (.revokeSessions id now req userId seen)) :
    Sound (s.revokeSessions slot id now req userId seen) :=
  h.goto (Local.refl slot s) rfl rfl rfl rfl (fun _ _ => by simp) (h.calls slot _ hcall)

theorem sound_commitReset {now : DateTime} {req : CompleteResetRequest} {userId : Uuid}
    {seen : AuthDb} {revoked : List String} (h : Sound s)
    (hcall : s.calls slot = some (.commitReset id now req userId seen revoked)) :
    Sound (s.commitReset cfg slot id now req userId seen revoked) := by
  obtain ⟨row, ⟨hlock, hrow, hseen, hkind, hc, happroved⟩, rfl⟩ := h.calls slot _ hcall
  have hnot := not_mem_consumptions h hrow hc.2.1
  rw [commitReset, hrow]
  dsimp only
  set t : AuthServer := { s with
      db := { s.db.setRequest id { row with consumedAt := some now } with
        users := s.db.users.map fun user => if user.id = row.userId then
          { user with credentials := newCredentials cfg req, recoveryCodeConfirmedAt := none }
          else user
        webSessions := s.db.webSessions.map fun session =>
          if session.sessionHash ∈ revoked then { session with revokedAt := some now }
          else session }
      consumptions := s.consumptions ++ [⟨id, .reset, now, seen⟩]
      yields := s.yields ++ [.reset id row.userId] } with ht
  have hlocal : Local slot s t := by
    refine Local.setRequest { row with consumedAt := some now } hrow
      (available_iff.mpr (Or.inr hlock)) rfl rfl rfl rfl (fun _ hd => hd) rfl
      (List.subset_append_left _ _) fun y hy => (List.mem_append.mp hy).imp_right
        fun hy slot' userId' _ => ?_
    rw [List.mem_singleton.mp hy]
    exact no_login h hnot slot' userId'
  have hcommits : Commits s (t.finish slot .done) id { row with consumedAt := some now }
      (some ⟨id, .reset, now, seen⟩) (some (.reset id row.userId)) :=
    ⟨rfl, ok_consume (h.rows id row hrow) hc, fun _ _ hmem => Or.inl hmem, h.deviceIds, rfl, rfl,
      rfl, by simp, seen_of_claimed hrow hseen hkind hc happroved, by
        rintro y ⟨⟩
        exact ⟨rfl, _, rfl, rfl⟩⟩
  exact h.write (Frame.finish hlocal) hcommits fun _ _ hwho hcall => own_finish hwho hcall

theorem sound_advance {freshId : Uuid} {freshHash : String} (h : Sound s) :
    Sound (s.advance cfg slot freshId freshHash) := by
  have hbegin : ∀ call, NoLogin call → s.CallOk slot call → Sound (s.goto slot call) :=
    fun call hlogin hok =>
      h.goto (Local.refl slot s) rfl rfl rfl rfl hlogin (hok.goto hlogin)
  rw [advance]
  rcases hcall : s.calls slot with _ | call
  · exact h
  · have hok : s.CallOk slot call := h.calls slot call hcall
    cases call with
    | collectWeb id => exact hbegin _ (fun _ _ => by simp) hok
    | claimWeb id now => exact sound_claimWeb h hcall
    | finishLogin id userId => exact sound_finishLogin h hcall
    | collectReset id => exact sound_collectReset h
    | collectDevice id => exact hbegin _ (fun _ _ => by simp) hok
    | claimDevice id now => exact sound_claimDevice h hcall
    | insertDevice id now claimed seen => exact sound_insertDevice h hcall
    | commitDevice id now claimed seen issued => exact sound_commitDevice h hcall
    | respond device id status key publicKey => exact hbegin _ (fun _ _ => by simp) hok
    | updateStatus device id now status key publicKey => exact sound_updateStatus h hcall
    | approveReset device id req => exact hbegin _ (fun _ _ => by simp) hok
    | lockReset device id now req => exact sound_lockReset h hcall
    | readApprovers device id now req => exact sound_readApprovers h hcall
    | commitFirstApproval device id => exact sound_commitFirstApproval h hcall
    | commitSecondApproval device id now key publicKey => exact sound_commitSecondApproval h hcall
    | completeReset id req => exact hbegin _ (fun _ _ => by simp) trivial
    | claimReset id now req => exact sound_claimReset h
    | revokeSessions id now req userId seen => exact sound_revokeSessions h hcall
    | commitReset id now req userId seen revoked => exact sound_commitReset h hcall

/-! ### Requests that come in -/

theorem sound_enter (h : Sound s) {first : Except Answer Call}
    (hfirst : ∀ call, first = .ok call → (NoLogin call ∧ seen? call = none) ∧ s.CallOk slot call) :
    Sound (s.enter slot first) := by
  unfold enter
  split
  · exact h
  · rcases first with answer | call
    · exact ⟨h.rows, h.approvals, h.deviceIds, h.calls, h.consumptions, h.handouts, h.consumed,
        h.once, h.yields, h.yieldsOnce⟩
    · obtain ⟨⟨hlogin, -⟩, hok⟩ := hfirst call rfl
      exact h.goto (Local.refl slot s) rfl rfl rfl rfl hlogin (hok.goto hlogin)

theorem callOk_pollLookup {req : PollAuthRequest} (call : Call)
    (hcall : s.pollLookup cfg id req = .ok call) :
    (NoLogin call ∧ seen? call = none) ∧ s.CallOk slot call := by
  rw [pollLookup] at hcall
  split at hcall
  · exact absurd hcall (by simp)
  · rename_i row hfilter
    obtain ⟨hrow, -⟩ := Option.filter_eq_some_iff.mp hfilter
    split_ifs at hcall
    split at hcall
    · rename_i hkind
      obtain rfl := Except.ok.inj hcall
      exact ⟨⟨fun _ _ => by simp, rfl⟩, row, hrow, hkind⟩
    · obtain rfl := Except.ok.inj hcall
      exact ⟨⟨fun _ _ => by simp, rfl⟩, trivial⟩
    · rename_i hkind
      split at hcall
      · exact absurd hcall (by simp)
      · obtain rfl := Except.ok.inj hcall
        exact ⟨⟨fun _ _ => by simp, rfl⟩, row, hrow, hkind⟩

theorem callOk_respondLookup {deviceId : Uuid} {req : RespondAuthRequest} (call : Call)
    (hcall : s.respondLookup cfg deviceId id req = .ok call) :
    (NoLogin call ∧ seen? call = none) ∧ s.CallOk slot call := by
  rw [respondLookup] at hcall
  split at hcall
  · exact absurd hcall (by simp)
  · rename_i d hd
    split at hcall
    · exact absurd hcall (by simp)
    · rename_i row hfilter
      obtain ⟨hrow, -⟩ := Option.filter_eq_some_iff.mp hfilter
      split_ifs at hcall with hreset hdevice hkeys happrove
      · obtain rfl := Except.ok.inj hcall
        exact ⟨⟨fun _ _ => by simp, rfl⟩, d, List.mem_of_find?_eq_some hd, rfl, rfl⟩
      · split at hcall
        · exact absurd hcall (by simp)
        · obtain rfl := Except.ok.inj hcall
          exact ⟨⟨fun _ _ => by simp, rfl⟩, row, hrow, fun _ => ⟨rfl, by simp [hdevice.2]⟩,
            fun _ _ => ⟨rfl, rfl⟩⟩
      · -- approved without key material: a dashboard
        obtain rfl := Except.ok.inj hcall
        refine ⟨⟨fun _ _ => by simp, rfl⟩, row, hrow, by simp, fun _ hweb => absurd ?_ hweb⟩
        rcases hkind : row.kind with _ | _ | _
        · rfl
        · exact absurd ⟨happrove, hkind⟩ hdevice
        · exact absurd ⟨happrove, hkind⟩ hreset
      · obtain rfl := Except.ok.inj hcall
        exact ⟨⟨fun _ _ => by simp, rfl⟩, row, hrow, by simp, by simp⟩

theorem callOk_completeLookup {req : CompleteResetRequest} (call : Call)
    (hcall : s.completeLookup cfg id req = .ok call) :
    (NoLogin call ∧ seen? call = none) ∧ s.CallOk slot call := by
  rw [completeLookup] at hcall
  split at hcall
  · exact absurd hcall (by simp)
  · split at hcall
    · exact absurd hcall (by simp)
    · split_ifs at hcall
      obtain rfl := Except.ok.inj hcall
      exact ⟨⟨fun _ _ => by simp, rfl⟩, trivial⟩

/-! ### Every event -/

/-- A step of no handler: it may add a request and devices, or revoke them. -/
theorem Sound.outside (h : Sound s)
    (hrequests : ∀ id row, s.db.requests id = some row → t.db.requests id = some row)
    (hnew : ∀ id row, t.db.requests id = some row → s.db.requests id = some row ∨
      row.Ok ∧ row.consumedAt = none)
    (happrovals : t.db.approvals = s.db.approvals)
    (hdevices : ∀ d ∈ s.db.devices, ∃ d' ∈ t.db.devices, d'.id = d.id ∧ d'.userId = d.userId)
    (hids : (t.db.devices.map DeviceRow.id).Nodup) (hlocks : t.locks = s.locks)
    (hcalls : t.calls = s.calls) (hconsumptions : t.consumptions = s.consumptions)
    (hhandouts : t.handouts = s.handouts) (hyields : t.yields = s.yields) : Sound t := by
  have hframe : Frame none s t :=
    ⟨fun id row hrow => Or.inl (hrequests id row hrow), fun _ _ _ hlock => hlocks ▸ hlock, hdevices,
      fun _ _ => by rw [hcalls], by rw [hconsumptions]; exact List.Subset.refl _,
      fun y hy => Or.inl (hyields ▸ hy), fun _ _ _ hwho => absurd hwho (by simp)⟩
  refine ⟨fun id row hrow => ?_, fun id deviceId hmem => ?_, hids,
    h.calls_frame hframe fun _ _ hwho => absurd hwho (by simp), hconsumptions ▸ h.consumptions,
    hhandouts ▸ h.handouts, fun id => ?_, hconsumptions ▸ h.once, ?_, hyields ▸ h.yieldsOnce⟩
  · rcases hnew id row hrow with hold | ⟨hok, -⟩
    · exact h.rows id row hold
    · exact hok
  · obtain ⟨row, hrow, hdevice⟩ := h.approvals id deviceId (happrovals ▸ hmem)
    exact ⟨row, hrequests id row hrow, hdevice.frame hframe⟩
  · rw [hconsumptions, h.consumed]
    constructor
    · rintro ⟨row, hrow, hsome⟩
      exact ⟨row, hrequests id row hrow, hsome⟩
    · rintro ⟨row, hrow, hsome⟩
      rcases hnew id row hrow with hold | ⟨-, hnone⟩
      · exact ⟨row, hold, hsome⟩
      · rw [hnone] at hsome
        exact absurd hsome (by simp)
  · rw [hyields, hconsumptions]
    exact h.yields

theorem sound_create {secret : String} {req : CreateAuthRequest} (h : Sound s) :
    Sound (s.create cfg id secret req) := by
  rw [create]
  split
  · dsimp only
    split
    · rename_i deviceName user hname huser
      split
      · exact h
      · rename_i hfresh
        rw [Bool.not_eq_true, Option.isSome_eq_false_iff, Option.isNone_iff_eq_none] at hfresh
        refine h.outside (fun id' row hrow => ?_) (fun id' row hrow => ?_) rfl
          (fun d hd => ⟨d, hd, rfl, rfl⟩) h.deviceIds rfl rfl rfl rfl rfl
        · refine (Function.update_of_ne (fun heq => ?_) _ _).trans hrow
          rw [heq, hfresh] at hrow
          exact absurd hrow (by simp)
        · by_cases hid : id' = id
          · subst hid
            have hrow' := (Function.update_self id' _ s.db.requests).symm.trans hrow
            obtain rfl := Option.some.inj hrow'
            refine Or.inr ⟨⟨by simp, by simp, by simp, fun hkind => ?_⟩, rfl⟩
            dsimp only at hkind ⊢
            rw [hkind] at hname
            rcases hreq : req.deviceName with _ | name
            · rw [hreq] at hname
              exact absurd hname (by simp)
            · rw [hreq] at hname
              dsimp only at hname
              rcases hvalid : validateDeviceName cfg name with e | u
              · rw [hvalid] at hname
                exact absurd hname (by simp [Except.map])
              · rw [hvalid] at hname
                rw [← Except.ok.inj hname]
                rfl
          · exact Or.inl ((Function.update_of_ne hid _ _).symm.trans hrow)
    · exact h
  · exact h

/-- **Every event keeps the invariant.** -/
theorem Sound.step (h : Sound s) (e : AuthEvent) : Sound (step cfg s e) := by
  have hsame : ∀ d ∈ s.db.devices, ∃ d' ∈ s.db.devices, d'.id = d.id ∧ d'.userId = d.userId :=
    fun d hd => ⟨d, hd, rfl, rfl⟩
  cases e with
  | tick time =>
    exact h.outside (fun _ _ h => h) (fun _ _ h => Or.inl h) rfl hsame h.deviceIds rfl rfl rfl rfl rfl
  | register deviceId userId =>
    rw [AuthServer.step, register]
    split
    · exact h
    · rename_i hnew
      exact h.outside (fun _ _ h => h) (fun _ _ h => Or.inl h) rfl
        (fun d hd => ⟨d, List.mem_append_left _ hd, rfl, rfl⟩) (nodup_deviceIds_append h hnew)
        rfl rfl rfl rfl rfl
  | revoke deviceId =>
    refine h.outside (fun _ _ h => h) (fun _ _ h => Or.inl h) rfl
      (fun d hd => ⟨_, List.mem_map_of_mem hd, ?_, ?_⟩) ?_ rfl rfl rfl rfl rfl
    · split <;> rfl
    · split <;> rfl
    · change ((s.db.devices.map _).map DeviceRow.id).Nodup
      rw [List.map_map]
      refine (List.map_congr_left fun d _ => ?_) ▸ h.deviceIds
      rw [Function.comp_apply]
      split <;> rfl
  | create id secret req => exact sound_create h
  | poll slot id req => exact sound_enter h callOk_pollLookup
  | respond slot deviceId id req => exact sound_enter h callOk_respondLookup
  | completeReset slot id req => exact sound_enter h callOk_completeLookup
  | advance slot freshId freshHash => exact sound_advance h
  | drop slot =>
    have hfinish := h.finish slot .done
    exact ⟨hfinish.rows, hfinish.approvals, hfinish.deviceIds, hfinish.calls, hfinish.consumptions,
      hfinish.handouts, hfinish.consumed, hfinish.once, hfinish.yields, hfinish.yieldsOnce⟩

theorem Sound.start (users : List UserRow) (sessions : List WebSessionRow) (clock : DateTime) :
    Sound (start users sessions clock) where
  rows _ _ hrow := absurd hrow (by simp [AuthServer.start])
  approvals _ _ hmem := absurd hmem (by simp [AuthServer.start])
  deviceIds := List.nodup_nil
  calls _ _ hcall := absurd hcall (by simp [AuthServer.start])
  consumptions _ hc := absurd hc List.not_mem_nil
  handouts _ hc := absurd hc List.not_mem_nil
  consumed _ := by simp [AuthServer.start]
  once := List.nodup_nil
  yields _ hy := absurd hy List.not_mem_nil
  yieldsOnce := List.nodup_nil

theorem Sound.run (users : List UserRow) (sessions : List WebSessionRow) (clock : DateTime)
    (events : List AuthEvent) : Sound ((AuthServer.start users sessions clock).run cfg events) :=
  Runs.invariant (fun _ e h => h.step e) (Sound.start users sessions clock) events

end Slots

end AuthServer

end HelixSync
