import HelixSync.Server.OneByOne
import HelixSync.Server.Steps

/-!
# Accounts do not interfere

An upload looks up operation ids in the whole log, and its device by the id alone; every other
statement names the user. So a second account can only be noticed through the ids it has used,
and through rows that stand under a device of the first one. The latter there are none: a device
belongs to one account, and so do its rows (`HelixSync.Db.Holds`,
`HelixSync.Server.holds_of_authenticate`).

`HelixSync.accounts_isolated` compares two databases that agree on one account
(`HelixSync.SameAccount`) and on the operation ids of the others. An upload to that account has
the same answer in both and leaves the account the same, and leaves every other account as it
was.
-/

namespace HelixSync

/-- The devices of a user. -/
def Db.userDevices (db : Db) (userId : Uuid) : List DeviceRow :=
  db.devices.filter fun d => d.userId = userId

/-- The snapshots of a user. -/
def Db.userSnapshots (db : Db) (userId : Uuid) : List SnapshotRow :=
  db.syncSnapshots.filter fun snapshot => snapshot.userId = userId

/-- Whether an operation id is used by another user. -/
def Db.TakenByOthers (db : Db) (userId operationId : Uuid) : Prop :=
  ∃ row ∈ db.syncOperations.rows, row.userId ≠ userId ∧ row.operationId = operationId

/-- Two databases with the same rows of a user, in every table. -/
structure SameAccount (userId : Uuid) (db db' : Db) : Prop where
  rows : db.userRows userId = db'.userRows userId
  devices : db.userDevices userId = db'.userDevices userId
  cursorAllocator : db.cursorAllocator userId = db'.cursorAllocator userId
  deviceCursors : db.deviceCursors userId = db'.deviceCursors userId
  ledger : ∀ key, (userId, key) ∈ db.syncObjects ↔ (userId, key) ∈ db'.syncObjects
  tombstones : db.tombstones userId = db'.tombstones userId
  syncStats : db.syncStats userId = db'.syncStats userId
  hours : db.historyVisitHours userId = db'.historyVisitHours userId
  snapshots : db.userSnapshots userId = db'.userSnapshots userId
  settings : db.userSettings userId = db'.userSettings userId

theorem SameAccount.refl (userId : Uuid) (db : Db) : SameAccount userId db db :=
  ⟨rfl, rfl, rfl, rfl, fun _ => Iff.rfl, rfl, rfl, rfl, rfl, rfl⟩

theorem SameAccount.symm {userId : Uuid} {db db' : Db} (h : SameAccount userId db db') :
    SameAccount userId db' db :=
  ⟨h.rows.symm, h.devices.symm, h.cursorAllocator.symm, h.deviceCursors.symm,
    fun key => (h.ledger key).symm, h.tombstones.symm, h.syncStats.symm, h.hours.symm,
    h.snapshots.symm, h.settings.symm⟩

/-- A device and its rows belong to the account it is authenticated for. -/
structure Db.Holds (db : Db) (device : AuthenticatedDevice) : Prop where
  devices : ∀ d ∈ db.devices, d.id = device.deviceId → d.userId = device.userId
  rows : ∀ row ∈ db.syncOperations.rows, row.deviceId = device.deviceId → row.userId = device.userId

/-! ### Lookups -/

section Lookups

variable {db db' : Db} {device : AuthenticatedDevice} {userId : Uuid}

/-- The owner of an id is the user of the row that bears it; there is one such row at most. -/
theorem operationOwner?_eq_some_iff {id : Uuid} : db.operationOwner? id = some userId ↔
    ∃ row ∈ db.userRows userId, row.operationId = id := by
  constructor
  · intro h
    obtain ⟨row, hrow, hid, hu⟩ := exists_of_operationOwner? h
    exact ⟨row, List.mem_filter.mpr ⟨hrow, by simpa using hu⟩, hid⟩
  · rintro ⟨row, hrow, hid⟩
    obtain ⟨hrow, hu⟩ := List.mem_filter.mp hrow
    rw [decide_eq_true_eq] at hu
    rcases howner : db.operationOwner? id with _ | owner
    · exact absurd hid (operationOwner?_eq_none_iff.mp howner row hrow)
    · obtain ⟨row', hrow', hid', rfl⟩ := exists_of_operationOwner? howner
      have hids : (db.syncOperations.rows.map OperationRow.operationId).Nodup :=
        List.pairwise_map.mpr (db.syncOperations.unique.imp And.left)
      rw [List.inj_on_of_nodup_map hids hrow' hrow (hid'.trans hid.symm), hu]

theorem operationOwner?_eq_none_iff_taken {id : Uuid} : db.operationOwner? id = none ↔
    (∀ row ∈ db.userRows userId, row.operationId ≠ id) ∧ ¬db.TakenByOthers userId id := by
  rw [operationOwner?_eq_none_iff]
  constructor
  · intro h
    refine ⟨fun row hrow => h row (List.mem_of_mem_filter hrow), ?_⟩
    rintro ⟨row, hrow, -, hid⟩
    exact h row hrow hid
  · rintro ⟨hown, hother⟩ row hrow hid
    by_cases hu : row.userId = userId
    · exact hown row (List.mem_filter.mpr ⟨hrow, by simpa using hu⟩) hid
    · exact hother ⟨row, hrow, hu, hid⟩

/-- A device is found among the devices of its user. -/
theorem device?_eq_find? (h : db.Holds device) : db.device? device.deviceId =
    (db.userDevices device.userId).find? fun d => d.id = device.deviceId := by
  have hall := h.devices
  rw [Db.device?, Db.userDevices]
  generalize db.devices = devices at hall
  induction devices with
  | nil => rfl
  | cons d ds ih =>
    have hrest := ih fun e he => hall e (List.mem_cons_of_mem _ he)
    by_cases hid : d.id = device.deviceId
    · rw [List.find?_cons_of_pos (by simpa using hid),
        List.filter_cons_of_pos (by simpa using hall d List.mem_cons_self hid),
        List.find?_cons_of_pos (by simpa using hid)]
    · rw [List.find?_cons_of_neg (by simpa using hid), hrest]
      by_cases hu : d.userId = device.userId
      · rw [List.filter_cons_of_pos (by simpa using hu), List.find?_cons_of_neg (by simpa using hid)]
      · rw [List.filter_cons_of_neg (by simpa using hu)]

end Lookups

/-! ### Validation -/

/-- Two validation contexts of a user that differ at most in which other user an id belongs
to. -/
structure SameContext (ctx ctx' : BatchContext) : Prop where
  userId : ctx.userId = ctx'.userId
  now : ctx.now = ctx'.now
  fresh : ∀ id, ctx.existing id = none ↔ ctx'.existing id = none
  own : ∀ id, ctx.existing id = some ctx.userId ↔ ctx'.existing id = some ctx'.userId
  persistedLastSeq : ctx.persistedLastSeq = ctx'.persistedLastSeq
  requireEncryption : ctx.requireEncryption = ctx'.requireEncryption
  quota : ctx.storageQuotaExceeded = ctx'.storageQuotaExceeded
  owned : ctx.owned = ctx'.owned
  knownBulk : ctx.knownBulk = ctx'.knownBulk

theorem validateOp_congr {ctx ctx' : BatchContext} (h : SameContext ctx ctx')
    (st : ValidationState) (op : OperationIn) : validateOp ctx st op = validateOp ctx' st op := by
  have hfresh := h.fresh op.operationId
  have hown := h.own op.operationId
  unfold validateOp
  rcases hctx : ctx.existing op.operationId with _ | owner
  · rw [hfresh.mp hctx, h.now, h.persistedLastSeq, h.requireEncryption, h.quota, h.owned,
      h.knownBulk]
  · rcases hctx' : ctx'.existing op.operationId with _ | owner'
    · rw [hfresh.mpr hctx'] at hctx
      exact absurd hctx (by simp)
    · dsimp only
      rw [hctx, hctx', Option.some.injEq, Option.some.injEq] at hown
      by_cases howner : owner = ctx.userId
      · rw [if_pos howner, if_pos (hown.mp howner)]
      · rw [if_neg howner, if_neg fun h' => howner (hown.mpr h')]

theorem validateOps_congr {ctx ctx' : BatchContext} (h : SameContext ctx ctx')
    (ops : List OperationIn) :
    ∀ st : ValidationState, validateOps ctx st ops = validateOps ctx' st ops := by
  induction ops with
  | nil => exact fun _ => rfl
  | cons op ops ih =>
    intro st
    rw [validateOps_cons, validateOps_cons, validateOp_congr h, ih]

/-- **An operation on an object comes after its origination**: it is accepted if the account has
the object, or if the batch has had an origination of it accepted. -/
theorem originated_of_validateOps {ctx : BatchContext} {op : OperationIn}
    {after : List (OperationIn × Decision)} (ops : List OperationIn) :
    ∀ (st : ValidationState) (before : List (OperationIn × Decision)),
      (validateOps ctx st ops).1 = before ++ (op, .accept) :: after → op.isOrigination = false →
        op.objectKey ∈ ctx.owned ∨ op.objectKey ∈ st.originatedInBatch ∨
          ∃ c, (c, Decision.accept) ∈ before ∧ c.isOrigination = true ∧
            c.objectKey = op.objectKey := by
  induction ops with
  | nil =>
    intro st before heq
    exact absurd heq (by simp [validateOps])
  | cons o ops ih =>
    intro st before heq horig
    rw [validateOps_cons] at heq
    rcases before with _ | ⟨head, before⟩
    · obtain ⟨hhead, -⟩ := List.cons.inj heq
      obtain ⟨rfl, haccept⟩ := Prod.mk.inj hhead
      have hadmits : Admits ctx st o := by
        by_contra hnot
        exact (validateOp_of_not_admits hnot).1 haccept
      rcases hadmits.known with hk | hk | hk
      · rw [horig] at hk
        exact absurd hk (by simp)
      · exact Or.inl hk
      · exact Or.inr (Or.inl hk)
    · obtain ⟨rfl, htail⟩ := List.cons.inj heq
      rcases ih _ before htail horig with hk | hk | ⟨c, hc, hrest⟩
      · exact Or.inl hk
      · by_cases hadmits : Admits ctx st o
        · rw [validateOp_of_admits hadmits] at hk ⊢
          by_cases ho : o.isOrigination = true
          · simp only [ValidationState.accept, ho, if_true, Finset.mem_insert] at hk
            rcases hk with hk | hk
            · exact Or.inr (Or.inr ⟨o, List.mem_cons_self, ho, hk.symm⟩)
            · exact Or.inr (Or.inl hk)
          · simp only [ValidationState.accept, ho] at hk
            exact Or.inr (Or.inl hk)
        · rw [(validateOp_of_not_admits hadmits).2] at hk
          exact Or.inr (Or.inl hk)
      · exact Or.inr (Or.inr ⟨c, List.mem_cons_of_mem _ hc, hrest⟩)

/-! ### The write -/

section Write

variable {now : DateTime} {device : AuthenticatedDevice} {accepted : List OperationIn}
  {lastSeq : ℤ} {db db' : Db}

theorem userDevices_updateDevice (userId id : Uuid) {f : DeviceRow → DeviceRow}
    (hf : ∀ d, (f d).userId = d.userId) : (db.updateDevice id f).userDevices userId =
      (db.userDevices userId).map fun d => if d.id = id then f d else d := by
  rw [Db.userDevices, Db.userDevices, Db.updateDevice]
  dsimp only
  rw [List.filter_map]
  congr 1
  refine List.filter_congr fun d _ => ?_
  by_cases hid : d.id = id
  · simp [hid, hf]
  · simp [hid]

/-- **No other account is written to.** -/
theorem sameAccount_writeBatch_of_ne (hdevice : db.Holds device)
    (h : writeBatch now device accepted lastSeq db = some db') {userId : Uuid}
    (hu : userId ≠ device.userId) : SameAccount userId db db' := by
  have hrows := userRows_writeBatch h userId
  obtain ⟨htombstones, hstats, hhours⟩ := tombstones_writeBatch_of_ne h hu
  rw [if_neg hu, List.append_nil] at hrows
  obtain ⟨table, -, rfl⟩ := (writeBatch_eq_some_iff.mp h).2
  refine ⟨hrows.symm, ?_, (Function.update_of_ne hu _ _).symm, rfl, fun key => ?_,
    htombstones.symm, hstats.symm, hhours.symm, rfl, rfl⟩
  · -- the device that is updated is not one of this user
    refine Eq.trans ?_ (userDevices_updateDevice userId device.deviceId
      (f := fun d => { d with lastDeviceSequence := lastSeq }) fun _ => rfl).symm
    rw [List.map_congr_left (g := id), List.map_id]
    intro d hd
    obtain ⟨hmem, hduser⟩ := List.mem_filter.mp hd
    rw [decide_eq_true_eq] at hduser
    exact if_neg fun hid => hu (hduser.symm.trans (hdevice.devices d hmem hid))
  · rw [Finset.mem_union, Finset.mem_image]
    refine ⟨Or.inl, fun hmem => hmem.resolve_right ?_⟩
    rintro ⟨key', -, heq⟩
    exact hu (Prod.mk.inj heq).1.symm

theorem currentCursor_congr {userId : Uuid} (hsame : SameAccount userId db db') :
    db.currentCursor userId = db'.currentCursor userId := by
  rw [Db.currentCursor, Db.currentCursor, hsame.cursorAllocator]

theorem liveDelta_congr {userId : Uuid} (hsame : SameAccount userId db db') (w : BatchWrites)
    (types : List ObjectType) : w.liveDelta db userId types = w.liveDelta db' userId types := by
  have hnew : w.newlyOriginated db userId = w.newlyOriginated db' userId :=
    Finset.filter_congr fun key _ => not_congr (hsame.ledger key)
  rw [BatchWrites.liveDelta, BatchWrites.liveDelta, BatchWrites.newOriginationDelta,
    BatchWrites.newOriginationDelta, hnew, BatchWrites.transitionDelta, BatchWrites.transitionDelta]
  simp only [Db.tombstoned, hsame.tombstones]

/-- **What is written does not depend on the other accounts**, -/
theorem sameAccount_writeBatch (hsame : SameAccount device.userId db db') {result result' : Db}
    (h : writeBatch now device accepted lastSeq db = some result)
    (h' : writeBatch now device accepted lastSeq db' = some result') :
    SameAccount device.userId result result' := by
  have hcursor := currentCursor_congr hsame
  have hwrites : db.writesOf device.userId accepted = db'.writesOf device.userId accepted := by
    rw [Db.writesOf, Db.writesOf, hcursor]
  have hrows := userRows_writeBatch h device.userId
  have hrows' := userRows_writeBatch h' device.userId
  rw [← hsame.rows, ← hcursor, ← hrows] at hrows'
  have hdevices : ∀ d : Db, (d.updateDevice device.deviceId
      fun row => { row with lastDeviceSequence := lastSeq }).userDevices device.userId =
        (d.userDevices device.userId).map fun row =>
          if row.id = device.deviceId then { row with lastDeviceSequence := lastSeq } else row :=
    fun d => userDevices_updateDevice _ _ fun _ => rfl
  obtain ⟨table, -, rfl⟩ := (writeBatch_eq_some_iff.mp h).2
  obtain ⟨table', -, rfl⟩ := (writeBatch_eq_some_iff.mp h').2
  refine ⟨hrows'.symm, ?_, ?_, hsame.deviceCursors, fun key => ?_, ?_, ?_, ?_, hsame.snapshots,
    hsame.settings⟩
  · exact (hdevices db).trans ((congrArg _ hsame.devices).trans (hdevices db').symm)
  · simp only [Function.update_self, hcursor]
  · simp only [Finset.mem_union, hsame.ledger key, hwrites]
  · simp only [Function.update_self, hwrites, hsame.tombstones]
  · simp only [Function.update_self, hwrites, liveDelta_congr hsame, hcursor, hsame.syncStats]
  · simp only [Function.update_self, hwrites, hsame.hours]

/-- nor does whether it can be: the ids are fresh, and no other account has rows of the device. -/
theorem exists_writeBatch_congr (hdevice' : db'.Holds device)
    (hsame : SameAccount device.userId db db')
    (hfresh : ∀ op ∈ accepted, db'.operationOwner? op.operationId = none) {result : Db}
    (h : writeBatch now device accepted lastSeq db = some result) :
    ∃ result', writeBatch now device accepted lastSeq db' = some result' := by
  have hcursor := currentCursor_congr hsame
  obtain ⟨hstorable, table, htable, -⟩ := writeBatch_eq_some_iff.mp h
  have hunique := table.unique
  rw [htable, List.pairwise_append] at hunique
  obtain ⟨-, hnew, hcross⟩ := hunique
  have hdistinct : (db'.syncOperations.rows ++
      batchRows now device (db'.currentCursor device.userId + 1) accepted).Pairwise
        OperationRow.Distinct := by
    rw [← hcursor]
    refine List.pairwise_append.mpr ⟨db'.syncOperations.unique, hnew, fun a ha b hb => ?_⟩
    by_cases hu : a.userId = device.userId
    · have hown : a ∈ db'.userRows device.userId := List.mem_filter.mpr ⟨ha, by simpa using hu⟩
      rw [← hsame.rows] at hown
      exact hcross a (List.mem_of_mem_filter hown) b hb
    · obtain ⟨op, hop, cursor, -, -, rfl⟩ := exists_of_mem_batchRows hb
      refine ⟨operationOwner?_eq_none_iff.mp (hfresh op hop) a ha, fun heq => ?_, fun heq => ?_⟩
      · exact hu (hdevice'.rows a ha (Prod.mk.inj heq).1)
      · exact hu (Prod.mk.inj heq).1
  exact ⟨_, writeBatch_eq_some_iff.mpr ⟨hstorable, ⟨_, hdistinct⟩, rfl, rfl⟩⟩

end Write

/-! ### Reachable states -/

namespace Server

variable {cfg : Config} {s : Server}

/-- Device ids stay, and a registration adds one that is new. -/
theorem deviceIds_step (e : Event) :
    (step cfg s e).db.devices.map DeviceRow.id = s.db.devices.map DeviceRow.id ∨
      ∃ id ∉ s.db.devices.map DeviceRow.id,
        (step cfg s e).db.devices.map DeviceRow.id = s.db.devices.map DeviceRow.id ++ [id] := by
  have hupdate : ∀ (id : Uuid) (f : DeviceRow → DeviceRow), (∀ d, (f d).id = d.id) →
      (s.db.updateDevice id f).devices.map DeviceRow.id = s.db.devices.map DeviceRow.id := by
    intro id f hf
    rw [Db.updateDevice]
    dsimp only
    rw [List.map_map]
    refine List.map_congr_left fun d _ => ?_
    by_cases hid : d.id = id <;> simp [hid, hf]
  cases e with
  | register deviceId userId =>
    rw [step, register]
    split
    · exact Or.inl rfl
    · rename_i hnone
      refine Or.inr ⟨deviceId, fun hmem => hnone ?_, by simp⟩
      obtain ⟨d, hd, rfl⟩ := List.mem_map.mp hmem
      rw [Db.device?, List.find?_isSome]
      exact ⟨d, hd, by simp⟩
  | touch deviceId =>
    refine Or.inl (hupdate deviceId _ fun d => ?_)
    split
    · rfl
    · split <;> rfl
  | revoke deviceId =>
    refine Or.inl (hupdate deviceId _ fun d => ?_)
    split <;> rfl
  | upload deviceId ops =>
    refine Or.inl ?_
    rw [step]
    split
    · rfl
    · rw [upload]
      split
      · rfl
      · rename_i out db' hproc
        rcases processBatch_ok hproc with ⟨rfl, -⟩ | ⟨d, -, -, hwrite⟩
        · rfl
        · obtain ⟨table, -, rfl⟩ := (writeBatch_eq_some_iff.mp hwrite).2
          exact hupdate _ _ fun _ => rfl
  | commitSnapshot index =>
    refine Or.inl ?_
    rw [step, commitSnapshot]
    split
    · rfl
    · split
      · rfl
      · rename_i hcommit
        rw [(commitSnapshot_frame hcommit).2.2.1]
  | compact userId =>
    refine Or.inl ?_
    rw [step, compact]
    split <;> rfl
  | pruneChunk index =>
    refine Or.inl ?_
    rw [step, pruneChunk]
    split <;> rfl
  | downloadBounds deviceId query =>
    refine Or.inl ?_
    rw [step]
    split
    · rfl
    · rw [downloadBounds, readBounds]
      split <;> (rename_i h; obtain ⟨-, rfl⟩ := Prod.mk.inj h; rfl)
  | downloadPage index =>
    refine Or.inl ?_
    rw [step, downloadPage]
    split
    · rfl
    · split <;> rfl
  | downloadRows index =>
    refine Or.inl ?_
    rw [step, downloadRows]
    split
    · rfl
    · split <;> rfl
  | tick _ | dropRebuild _ | dropPrune _ | dropDownload _ => exact Or.inl rfl

theorem nodup_deviceIds (settings : Uuid → Option UserSettings) (now : DateTime)
    (events : List Event) :
    (((start settings now).run cfg events).db.devices.map DeviceRow.id).Nodup := by
  have hnone : ((start settings now).db.devices.map DeviceRow.id).Nodup := List.nodup_nil
  refine Runs.invariant (I := fun s : Server => (s.db.devices.map DeviceRow.id).Nodup)
    (fun s e h => ?_) hnone events
  rcases @deviceIds_step cfg s e with hsame | ⟨id, hid, happend⟩
  · rwa [hsame]
  · rw [happend, List.nodup_append]
    exact ⟨h, List.nodup_singleton id, fun a ha b hb hab =>
      hid (List.mem_singleton.mp hb ▸ hab ▸ ha)⟩

/-- **In every state the server reaches**, a device and its rows belong to the account the device
is authenticated for. -/
theorem holds_of_authenticate (settings : Uuid → Option UserSettings) (now : DateTime)
    (events : List Event) {deviceId : Uuid} {device : AuthenticatedDevice}
    (hauth : ((start settings now).run cfg events).authenticate deviceId = some device) :
    ((start settings now).run cfg events).db.Holds device := by
  have hwf : WellFormed ((start settings now).run cfg events) := WellFormed.run settings now events
  have hids : (((start settings now).run cfg events).db.devices.map DeviceRow.id).Nodup :=
    nodup_deviceIds settings now events
  generalize (start settings now).run cfg events = s at hauth hwf hids
  obtain ⟨d, hd, rfl⟩ := Option.map_eq_some_iff.mp hauth
  obtain rfl := Db.device?_id hd
  refine ⟨fun d' hd' hid => ?_, fun row hrow hid => ?_⟩
  · rw [List.inj_on_of_nodup_map hids hd' (List.mem_of_find?_eq_some hd) hid]
  · obtain ⟨lastSeq, hstate, -⟩ := hwf.devices row (hwf.log.subset hrow)
    rw [hid, Db.deviceState?, hd] at hstate
    exact (Prod.mk.inj (Option.some.inj hstate)).1.symm

/-! ### A small run -/

/-- Two accounts, the second with one object. -/
def twoAccounts (objectType : ObjectType) (objectId : Uuid) : Server :=
  smallStart.run smallConfig [.register 1 100, .register 2 200,
    .upload 2 [smallOp 11 1 1 objectType objectId .create]]

/-- A create, an update of it, an id that the other account has used, and an object that the
account does not have. -/
def firstAccountRequest : List OperationIn :=
  [smallOp 12 1 1 .bookmark 21 .create, smallOp 13 2 2 .bookmark 21 .update,
    smallOp 11 3 3 .bookmark 22 .create, smallOp 14 4 4 .bookmark 23 .update]

/-- The first account is the same whatever the second has. -/
theorem sameAccount_twoAccounts :
    SameAccount 100 (twoAccounts .bookmark 21).db (twoAccounts .tab 5).db := by
  refine ⟨rfl, rfl, rfl, rfl, fun key => ?_, rfl, rfl, rfl, rfl, rfl⟩
  have hleft : (twoAccounts .bookmark 21).db.syncObjects = {(200, .bookmark, 21)} := by decide
  have hright : (twoAccounts .tab 5).db.syncObjects = {(200, .tab, 5)} := by decide
  rw [hleft, hright]
  simp

end Server

/-! ### The request -/

section Request

variable {cfg : Config} {now : DateTime} {device : AuthenticatedDevice} {db db' : Db}

theorem sameContext (hsame : SameAccount device.userId db db')
    (hids : ∀ id, db.TakenByOthers device.userId id ↔ db'.TakenByOthers device.userId id)
    (lastSeq : ℤ) (ops : List OperationIn) :
    SameContext (batchContext cfg now db device lastSeq ops)
      (batchContext cfg now db' device lastSeq ops) := by
  have hfresh : ∀ id, db.operationOwner? id = none ↔ db'.operationOwner? id = none := by
    intro id
    rw [@operationOwner?_eq_none_iff_taken db device.userId id,
      @operationOwner?_eq_none_iff_taken db' device.userId id, hsame.rows, hids id]
  have hnone : ∀ id, (db.operationOwner? id).isNone = (db'.operationOwner? id).isNone := by
    intro id
    rw [Bool.eq_iff_iff, Option.isNone_iff_eq_none, Option.isNone_iff_eq_none, hfresh id]
  refine ⟨rfl, rfl, hfresh, fun id => ?_, rfl, ?_, ?_, ?_, ?_⟩
  · change db.operationOwner? id = some device.userId ↔ db'.operationOwner? id = some device.userId
    rw [operationOwner?_eq_some_iff, operationOwner?_eq_some_iff, hsame.rows]
  · change (_ || _) = (_ || _)
    rw [hsame.settings]
  · change db.storageQuotaExceeded cfg device.userId = db'.storageQuotaExceeded cfg device.userId
    rw [Db.storageQuotaExceeded, Db.storageQuotaExceeded, Db.storageBytes, Db.storageBytes,
      hsame.syncStats]
  · change db.ownedObjects device.userId ops = db'.ownedObjects device.userId ops
    rw [Db.ownedObjects, Db.ownedObjects]
    simp only [hnone]
    exact Finset.filter_congr fun key _ => hsame.ledger key
  · change db.knownBulk device.userId ops = db'.knownBulk device.userId ops
    rw [Db.knownBulk, Db.knownBulk]
    simp only [hnone]
    exact Finset.filter_congr fun id _ => hsame.ledger _

/-- The same answer with the same account after it, or the same error. -/
def SameResult (userId : Uuid) :
    Except AppError (BatchOutcome × Db) → Except AppError (BatchOutcome × Db) → Prop
  | .ok (out, db), .ok (out', db') => out = out' ∧ SameAccount userId db db'
  | .error error, .error error' => error = error'
  | _, _ => False

theorem sameResult_processBatch (hdevice : db.Holds device) (hdevice' : db'.Holds device)
    (hsame : SameAccount device.userId db db')
    (hids : ∀ id, db.TakenByOthers device.userId id ↔ db'.TakenByOthers device.userId id)
    (ops : List OperationIn) : SameResult device.userId (processBatch cfg now db device ops)
      (processBatch cfg now db' device ops) := by
  have hcursor := currentCursor_congr hsame
  have hlookup : db.device? device.deviceId = db'.device? device.deviceId := by
    rw [device?_eq_find? hdevice, device?_eq_find? hdevice', hsame.devices]
  unfold processBatch
  rw [← hlookup, ← hcursor]
  split
  · exact ⟨rfl, hsame⟩
  · rcases db.device? device.deviceId with _ | d
    · rfl
    · have hvalidated : validateBatch cfg now db device d ops =
          validateBatch cfg now db' device d ops :=
        validateOps_congr (sameContext hsame hids _ _) ops _
      dsimp only
      rw [← hvalidated]
      split
      · exact ⟨rfl, hsame⟩
      · have hfresh : ∀ op ∈ acceptedOps (validateBatch cfg now db device d ops).1,
            db.operationOwner? op.operationId = none := fun op hop =>
          (ready_of_mem_accepts hop).fresh
        have hfresh' : ∀ op ∈ acceptedOps (validateBatch cfg now db device d ops).1,
            db'.operationOwner? op.operationId = none := fun op hop =>
          ((@sameContext cfg now device db db' hsame hids d.lastDeviceSequence ops).fresh _).mp
            (hfresh op hop)
        rcases hwrite : writeBatch now device (acceptedOps (validateBatch cfg now db device d ops).1)
          (validateBatch cfg now db device d ops).2.lastSeq db with _ | result
        · rcases hwrite' : writeBatch now device
            (acceptedOps (validateBatch cfg now db device d ops).1)
            (validateBatch cfg now db device d ops).2.lastSeq db' with _ | result'
          · rfl
          · obtain ⟨_, hsome⟩ := exists_writeBatch_congr hdevice hsame.symm hfresh hwrite'
            rw [hwrite] at hsome
            exact absurd hsome (by simp)
        · obtain ⟨result', hwrite'⟩ := exists_writeBatch_congr hdevice' hsame hfresh' hwrite
          have hresult := sameAccount_writeBatch hsame hwrite hwrite'
          rw [hwrite']
          exact ⟨by rw [currentCursor_congr hresult], hresult⟩

/-- **Accounts do not interfere.** Two databases agree on an account and on the operation ids that
other accounts have used. A request of a device of the account has the same verdict on every
operation and the same answer in both, and leaves the account the same; it changes no other
account; and an operation that introduces no object is accepted only if the account has its
object, or an earlier operation of the request introduces it and is accepted. -/
theorem accounts_isolated (cfg : Config) (now : DateTime) (device : AuthenticatedDevice)
    (db db' : Db) (hdevice : db.Holds device) (hdevice' : db'.Holds device)
    (hsame : SameAccount device.userId db db')
    (hids : ∀ id, db.TakenByOthers device.userId id ↔ db'.TakenByOthers device.userId id)
    (ops : List OperationIn) :
    (db.device? device.deviceId = db'.device? device.deviceId ∧
      ∀ d, (validateBatch cfg now db device d ops).1 = (validateBatch cfg now db' device d ops).1) ∧
    SameResult device.userId (processBatch cfg now db device ops)
      (processBatch cfg now db' device ops) ∧
    (∀ out result, processBatch cfg now db device ops = .ok (out, result) →
      ∀ userId, userId ≠ device.userId → SameAccount userId db result) ∧
    (∀ d op before after,
      (validateBatch cfg now db device d ops).1 = before ++ (op, .accept) :: after →
        op.isOrigination = false → (device.userId, op.objectKey) ∈ db.syncObjects ∨
          ∃ c, (c, Decision.accept) ∈ before ∧ c.isOrigination = true ∧
            c.objectKey = op.objectKey) := by
  refine ⟨⟨?_, fun d => ?_⟩, sameResult_processBatch hdevice hdevice' hsame hids ops,
    fun out result hproc userId hu => ?_, fun d op before after heq horig => ?_⟩
  · rw [device?_eq_find? hdevice, device?_eq_find? hdevice', hsame.devices]
  · exact congrArg Prod.fst (validateOps_congr (sameContext hsame hids _ _) ops _)
  · rcases processBatch_ok hproc with ⟨rfl, -⟩ | ⟨d, -, -, hwrite⟩
    · exact SameAccount.refl userId result
    · exact sameAccount_writeBatch_of_ne hdevice hwrite hu
  · rcases originated_of_validateOps ops _ before heq horig with hk | hk | hk
    · exact Or.inl (mem_ownedObjects hk)
    · exact absurd hk (Finset.notMem_empty _)
    · exact Or.inr hk

end Request

open Server

/-- The verdicts on a request, with another account that has the object under its own id, and
with one that does not. -/
theorem accounts_isolated_twoAccounts :
    ((processBatch smallConfig 0 (twoAccounts .bookmark 21).db ⟨100, 1⟩ firstAccountRequest).map
      fun r => (r.1.accepted, r.1.rejected)) =
        .ok ([12, 13], [(11, .operationIdConflict), (14, .objectNotFound)]) ∧
    SameResult 100
      (processBatch smallConfig 0 (twoAccounts .bookmark 21).db ⟨100, 1⟩ firstAccountRequest)
      (processBatch smallConfig 0 (twoAccounts .tab 5).db ⟨100, 1⟩ firstAccountRequest) := by
  have hauth : (twoAccounts .bookmark 21).authenticate 1 = some ⟨100, 1⟩ := by decide
  have hauth' : (twoAccounts .tab 5).authenticate 1 = some ⟨100, 1⟩ := by decide
  have hleft : (twoAccounts .bookmark 21).db.syncOperations.rows.map
      (fun row => (row.userId, row.operationId)) = [(200, 11)] := by decide
  have hright : (twoAccounts .tab 5).db.syncOperations.rows.map
      (fun row => (row.userId, row.operationId)) = [(200, 11)] := by decide
  refine ⟨by decide, (accounts_isolated smallConfig 0 ⟨100, 1⟩
    (twoAccounts .bookmark 21).db (twoAccounts .tab 5).db (holds_of_authenticate _ _ _ hauth)
    (holds_of_authenticate _ _ _ hauth') sameAccount_twoAccounts (fun id => ?_) firstAccountRequest).2.1⟩
  have htaken : ∀ db : Db, db.TakenByOthers 100 id ↔ ∃ p ∈ db.syncOperations.rows.map
      (fun row => (row.userId, row.operationId)), p.1 ≠ 100 ∧ p.2 = id := by
    intro db
    simp [Db.TakenByOthers]
  rw [htaken, htaken, hleft, hright]

end HelixSync
