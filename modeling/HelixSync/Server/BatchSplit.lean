import HelixSync.Server.BatchTables
import HelixSync.Server.CompleteAnswers

/-!
# A batch and its operations

`process_batch` on a whole batch against `process_batch` on each of its operations alone, in the
same order (`HelixSync.processEach`). With sequences in increasing order and distinct ids every
operation gets the same verdict, unless a history chunk follows a single visit of its object: the
batch takes it for a repetition, the ledger does not; or unless the database refuses an operation,
which fails its whole call (`HelixSync.callBatch`). With equal verdicts the log, the ledger, the
keys of the tombstones and the hour buckets are equal too; the active flags are equal if no object
is deleted after its last restore, and then the counts are equal if clamping them at zero in the
middle of the batch loses nothing (`HelixSync.Server.batchInvisible_iff`).
-/

namespace HelixSync

/-! ### One operation at a time -/

/-- A call of `process_batch`: the verdicts it gives and the database it leaves. One that fails
gives no verdict and changes nothing. -/
def callBatch (cfg : Config) (now : DateTime) (device : AuthenticatedDevice) (db : Db)
    (ops : List OperationIn) : BatchOutcome × Db :=
  match processBatch cfg now db device ops with
  | .error _ => (outcomeOf [] (db.currentCursor device.userId), db)
  | .ok result => result

/-- `process_batch` on each operation alone, in order: the answers and the last database. -/
def processEach (cfg : Config) (now : DateTime) (device : AuthenticatedDevice) :
    Db → List OperationIn → List BatchOutcome × Db
  | db, [] => ([], db)
  | db, op :: ops =>
    let call := callBatch cfg now device db [op]
    let rest := processEach cfg now device call.2 ops
    (call.1 :: rest.1, rest.2)

/-- The same verdicts and the same tables, but for the times of the tombstones. -/
structure SameEffect (whole : BatchOutcome × Db) (each : List BatchOutcome × Db) : Prop where
  accepted : whole.1.accepted = each.1.flatMap BatchOutcome.accepted
  duplicate : whole.1.duplicate = each.1.flatMap BatchOutcome.duplicate
  rejected : whole.1.rejected = each.1.flatMap BatchOutcome.rejected
  rows : whole.2.syncOperations.rows = each.2.syncOperations.rows
  ledger : whole.2.syncObjects = each.2.syncObjects
  tombstones : ∀ userId key,
    (whole.2.tombstones userId key).map (fun row => (row.active, row.orderingKey)) =
      (each.2.tombstones userId key).map fun row => (row.active, row.orderingKey)
  stats : whole.2.syncStats = each.2.syncStats
  hours : whole.2.historyVisitHours = each.2.historyVisitHours

/-- Batching makes no difference. -/
def BatchInvisible (cfg : Config) (now : DateTime) (db : Db) (device : AuthenticatedDevice)
    (ops : List OperationIn) : Prop :=
  SameEffect (callBatch cfg now device db ops) (processEach cfg now device db ops)

/-- The account is below its quota before, between and after the operations. -/
def BelowQuota (cfg : Config) (now : DateTime) (db : Db) (device : AuthenticatedDevice)
    (ops : List OperationIn) : Prop :=
  ∀ before ∈ ops.inits,
    (processEach cfg now device db before).2.storageQuotaExceeded cfg device.userId = false

instance (cfg : Config) (now : DateTime) (db : Db) (device : AuthenticatedDevice)
    (ops : List OperationIn) : Decidable (BelowQuota cfg now db device ops) :=
  inferInstanceAs (Decidable (∀ before ∈ ops.inits, _))

/-! ### When it makes none -/

section Condition

variable (cfg : Config) (now : DateTime) (db : Db) (device : AuthenticatedDevice) (d : DeviceRow)
  (ops : List OperationIn)

instance (op : OperationIn) : Decidable (db.Ready cfg now device d op) :=
  decidable_of_iff
    (db.operationOwner? op.operationId = none ∧
      (op.isBulkHistoryImport = true → (device.userId, op.objectKey) ∉ db.syncObjects) ∧
      ShapeOk now (cfg.requireEncryption
        || ((db.userSettings device.userId).map UserSettings.requireEncryption).getD false) op ∧
      1 ≤ op.deviceSequence ∧ d.lastDeviceSequence < op.deviceSequence ∧
      db.storageQuotaExceeded cfg device.userId = false)
    ⟨fun ⟨h₁, h₂, h₃, h₄, h₅, h₆⟩ => ⟨h₁, h₂, h₃, h₄, h₅, h₆⟩,
      fun ⟨h₁, h₂, h₃, h₄, h₅, h₆⟩ => ⟨h₁, h₂, h₃, h₄, h₅, h₆⟩⟩

instance (op : OperationIn) : Decidable (db.Acceptable cfg now device d ops op) :=
  inferInstanceAs (Decidable (_ ∧ _))

/-- The acceptable operations of a batch on objects other than history visits. -/
def Db.objectOps : List OperationIn :=
  ops.filter fun op =>
    decide (op.objectType ≠ .historyVisit ∧ db.Acceptable cfg now device d ops op)

/-- A history chunk is not preceded by a single visit of its object: what the batch takes for a
repetition is one. -/
def Db.RepeatsChunk (c : OperationIn) : Prop :=
  c.isBulkHistoryImport = true → db.operationOwner? c.operationId = none →
    (device.userId, c.objectKey) ∉ db.syncObjects →
      (∃ v ∈ ops, v.deviceSequence < c.deviceSequence ∧ v.objectKey = c.objectKey ∧
        db.Ready cfg now device d v) →
      ∃ v ∈ ops, v.deviceSequence < c.deviceSequence ∧ v.objectKey = c.objectKey ∧
        db.Ready cfg now device d v ∧ v.isBulkHistoryImport = true

/-- The batches that can be split. -/
structure Db.Splits : Prop where
  chunks : ∀ c ∈ ops, db.RepeatsChunk cfg now device d ops c
  restores : EndsRestored (db.objectOps cfg now device d ops)
  bookmarks : db.ClampsOnce device bookmarkTypes (db.bookmarkCount device.userId)
    (db.objectOps cfg now device d ops)
  tabs : db.ClampsOnce device tabTypes (db.tabCount device.userId)
    (db.objectOps cfg now device d ops)

/-- An operation that passes the checks alone, and that the database then refuses. -/
def Db.RefusedAlone (op : OperationIn) : Prop :=
  db.accepts cfg now device d [op] = [op] ∧ op.isStorable = false

/-- The database can store what the batch accepts. -/
def Db.Storable : Prop := ∀ op ∈ db.accepts cfg now device d ops, op.isStorable = true

instance (types : List ObjectType) (count : ℕ) (accepted : List OperationIn) :
    Decidable (db.ClampsOnce device types count accepted) :=
  decidable_of_iff (∀ before ∈ accepted.inits,
      ((db.liveKeys device.userId types).card : ℤ) ≤
          count + ((db.liveAfter device.userId types before).card : ℤ) ∨
        (db.liveAfter device.userId types accepted).card ≤
          (db.liveAfter device.userId types before).card)
    (forall_congr' fun before => imp_congr_left (List.mem_inits before accepted))

instance (c : OperationIn) : Decidable (db.RepeatsChunk cfg now device d ops c) :=
  inferInstanceAs (Decidable (_ → _ → _ → _ → _))

instance (accepted : List OperationIn) : Decidable (EndsRestored accepted) :=
  inferInstanceAs (Decidable (∀ r ∈ accepted, _ → ∀ t ∈ accepted, _ → _ → ∃ r' ∈ accepted, _))

instance : Decidable (db.Storable cfg now device d ops) :=
  inferInstanceAs (Decidable (∀ op ∈ db.accepts cfg now device d ops, op.isStorable = true))

instance : Decidable (db.Splits cfg now device d ops) :=
  decidable_of_iff
    ((∀ c ∈ ops, db.RepeatsChunk cfg now device d ops c) ∧
      EndsRestored (db.objectOps cfg now device d ops) ∧
      db.ClampsOnce device bookmarkTypes (db.bookmarkCount device.userId)
        (db.objectOps cfg now device d ops) ∧
      db.ClampsOnce device tabTypes (db.tabCount device.userId)
        (db.objectOps cfg now device d ops))
    ⟨fun ⟨h₁, h₂, h₃, h₄⟩ => ⟨h₁, h₂, h₃, h₄⟩, fun ⟨h₁, h₂, h₃, h₄⟩ => ⟨h₁, h₂, h₃, h₄⟩⟩

end Condition

/-! ### One operation, in a batch and alone -/

section Verdict

variable {ctx ctx' : BatchContext} {st st' : ValidationState} {op : OperationIn}

/-- A verdict depends on what the checks read. -/
theorem verdict_congr (huser : ctx'.userId = ctx.userId) (hnow : ctx'.now = ctx.now)
    (henc : ctx'.requireEncryption = ctx.requireEncryption)
    (hquota : ctx'.storageQuotaExceeded = ctx.storageQuotaExceeded)
    (hexisting : ctx'.existing op.operationId = ctx.existing op.operationId)
    (hbulk : ctx.existing op.operationId = none → op.isBulkHistoryImport = true →
      ((op.objectId ∈ ctx'.knownBulk ∨ op.objectKey ∈ st'.originatedInBatch) ↔
        (op.objectId ∈ ctx.knownBulk ∨ op.objectKey ∈ st.originatedInBatch)))
    (hlast : op.deviceSequence ≤ st'.lastSeq ↔ op.deviceSequence ≤ st.lastSeq)
    (hpersisted : op.deviceSequence ≤ st.lastSeq →
      (op.deviceSequence ≤ ctx'.persistedLastSeq ↔ op.deviceSequence ≤ ctx.persistedLastSeq))
    (hknown : ctx.existing op.operationId = none → ShapeOk ctx.now ctx.requireEncryption op →
      op.isOrigination = false →
      ((op.objectKey ∈ ctx'.owned ∨ op.objectKey ∈ st'.originatedInBatch) ↔
        (op.objectKey ∈ ctx.owned ∨ op.objectKey ∈ st.originatedInBatch))) :
    (validateOp ctx' st' op).1 = (validateOp ctx st op).1 := by
  unfold validateOp
  rw [hexisting, huser]
  rcases hex : ctx.existing op.operationId with _ | ownerId
  · dsimp only
    have hb : (op.isBulkHistoryImport = true ∧
        (op.objectId ∈ ctx'.knownBulk ∨ op.objectKey ∈ st'.originatedInBatch)) ↔
        (op.isBulkHistoryImport = true ∧
          (op.objectId ∈ ctx.knownBulk ∨ op.objectKey ∈ st.originatedInBatch)) :=
      and_congr_right fun h => hbulk hex h
    by_cases hdup : op.isBulkHistoryImport = true ∧
        (op.objectId ∈ ctx.knownBulk ∨ op.objectKey ∈ st.originatedInBatch)
    · rw [if_pos hdup, if_pos (hb.mpr hdup)]
    · rw [if_neg hdup, if_neg (mt hb.mp hdup), hnow, henc]
      rcases hshape : checkOpShape ctx.now ctx.requireEncryption op with reason | ⟨⟩
      · rfl
      · dsimp only
        have hk : (op.isOrigination = false ∧ op.objectKey ∉ ctx'.owned ∧
            op.objectKey ∉ st'.originatedInBatch) ↔ (op.isOrigination = false ∧
            op.objectKey ∉ ctx.owned ∧ op.objectKey ∉ st.originatedInBatch) := by
          refine and_congr_right fun ho => ?_
          rw [← not_or, ← not_or]
          exact not_congr (hknown hex hshape ho)
        by_cases hseq : op.deviceSequence ≤ st.lastSeq
        · simp only [hlast, hpersisted hseq, hseq, hk, hquota, if_true]
          split_ifs <;> rfl
        · simp only [hlast, hseq, hk, hquota, if_false]
          split_ifs <;> rfl
  · dsimp only
    split_ifs <;> rfl

/-- What is new and above the device's sequence is no duplicate. -/
theorem validateOp_ne_duplicate (hfresh : ctx.existing op.operationId = none)
    (hbulk : ¬(op.isBulkHistoryImport = true ∧
      (op.objectId ∈ ctx.knownBulk ∨ op.objectKey ∈ st.originatedInBatch)))
    (hseq : st.lastSeq < op.deviceSequence) : (validateOp ctx st op).1 ≠ .duplicate := by
  unfold validateOp
  rw [hfresh]
  dsimp only
  rw [if_neg hbulk]
  split
  · simp
  · rw [if_neg (not_le.mpr hseq)]
    split_ifs <;> simp

theorem validateOp_duplicate_of_bulk (hfresh : ctx.existing op.operationId = none)
    (hbulk : op.isBulkHistoryImport = true)
    (hin : op.objectId ∈ ctx.knownBulk ∨ op.objectKey ∈ st.originatedInBatch) :
    (validateOp ctx st op).1 = .duplicate := by
  unfold validateOp
  rw [hfresh]
  dsimp only
  rw [if_pos ⟨hbulk, hin⟩]

end Verdict

section Call

variable {cfg : Config} {now : DateTime} {device : AuthenticatedDevice} {t : Db} {d' : DeviceRow}
  {op : OperationIn}

/-- The verdict on an operation uploaded alone. -/
def Db.verdictAlone (cfg : Config) (now : DateTime) (t : Db) (device : AuthenticatedDevice)
    (d' : DeviceRow) (op : OperationIn) : Decision :=
  (validateOp (batchContext cfg now t device d'.lastDeviceSequence [op])
    ⟨d'.lastDeviceSequence, ∅⟩ op).1

theorem verdictAlone_eq_accept_iff : t.verdictAlone cfg now device d' op = .accept ↔
    Admits (batchContext cfg now t device d'.lastDeviceSequence [op])
      ⟨d'.lastDeviceSequence, ∅⟩ op := by
  constructor
  · intro h
    by_contra hnot
    exact (validateOp_of_not_admits hnot).1 h
  · intro h
    rw [Db.verdictAlone, validateOp_of_admits h]

theorem processBatch_of_accept {t' : Db} (hd : t.device? device.deviceId = some d')
    (h : t.verdictAlone cfg now device d' op = .accept)
    (hwrite : writeBatch now device [op] op.deviceSequence t = some t') :
    processBatch cfg now t device [op] =
      .ok (outcomeOf [(op, .accept)] (t'.currentCursor device.userId), t') := by
  have hvalid : validateBatch cfg now t device d' [op] =
      ([(op, .accept)], ⟨op.deviceSequence, if op.isOrigination then {op.objectKey} else ∅⟩) := by
    rw [validateBatch, validateOps_cons,
      validateOp_of_admits (verdictAlone_eq_accept_iff.mp h)]
    rfl
  unfold processBatch
  rw [if_neg (by simp), hd]
  dsimp only
  rw [hvalid]
  dsimp only
  rw [if_neg (by simp [acceptedOps])]
  have haccepted : acceptedOps [(op, Decision.accept)] = [op] := by simp [acceptedOps]
  rw [haccepted, hwrite]

theorem processBatch_of_ne_accept (hd : t.device? device.deviceId = some d')
    (h : t.verdictAlone cfg now device d' op ≠ .accept) :
    processBatch cfg now t device [op] =
      .ok (outcomeOf [(op, t.verdictAlone cfg now device d' op)]
        (t.currentCursor device.userId), t) := by
  have hvalid : (validateBatch cfg now t device d' [op]).1 =
      [(op, t.verdictAlone cfg now device d' op)] := rfl
  unfold processBatch
  rw [if_neg (by simp), hd]
  dsimp only
  rw [hvalid, if_pos (by simp [acceptedOps, h])]

end Call

/-! ### The answers -/

section Answers

variable {cfg : Config} {now : DateTime} {device : AuthenticatedDevice}

theorem callBatch_of_ok {t : Db} {ops : List OperationIn} {result : BatchOutcome × Db}
    (h : processBatch cfg now t device ops = .ok result) :
    callBatch cfg now device t ops = result := by
  rw [callBatch, h]

theorem callBatch_of_error {t : Db} {ops : List OperationIn} {e : AppError}
    (h : processBatch cfg now t device ops = .error e) :
    callBatch cfg now device t ops = (outcomeOf [] (t.currentCursor device.userId), t) := by
  rw [callBatch, h]

theorem processEach_cons (t : Db) (op : OperationIn) (ops : List OperationIn) :
    processEach cfg now device t (op :: ops) =
      ((callBatch cfg now device t [op]).1 ::
          (processEach cfg now device (callBatch cfg now device t [op]).2 ops).1,
        (processEach cfg now device (callBatch cfg now device t [op]).2 ops).2) := rfl

/-- An answer names operations of its request only. -/
theorem mem_of_mem_duplicate_callBatch {t : Db} {ops : List OperationIn} {id : Uuid}
    (h : id ∈ (callBatch cfg now device t ops).1.duplicate) :
    id ∈ ops.map OperationIn.operationId := by
  rcases hcall : processBatch cfg now t device ops with e | ⟨out, t'⟩
  · rw [callBatch_of_error hcall] at h
    exact absurd h List.not_mem_nil
  · rw [callBatch_of_ok hcall] at h
    rcases hd : t.device? device.deviceId with _ | d'
    · -- only the empty request is answered without a device
      unfold processBatch at hcall
      split at hcall
      · obtain ⟨rfl, -⟩ := Prod.mk.inj (Except.ok.inj hcall)
        exact absurd h List.not_mem_nil
      · rw [hd] at hcall
        exact absurd hcall (by simp)
    · obtain ⟨cursor, rfl⟩ := processBatch_outcome hd hcall
      obtain ⟨o, ho, rfl⟩ := exists_of_mem_duplicate h
      exact List.mem_map_of_mem (exists_of_mem_validateOps ho).1

theorem mem_of_mem_duplicate_processEach {ops : List OperationIn} {id : Uuid} :
    ∀ {t : Db}, id ∈ (processEach cfg now device t ops).1.flatMap BatchOutcome.duplicate →
      id ∈ ops.map OperationIn.operationId := by
  induction ops with
  | nil => exact fun hid => absurd hid List.not_mem_nil
  | cons op ops ih =>
    intro t hid
    rw [processEach_cons, List.flatMap_cons, List.mem_append] at hid
    rw [List.map_cons, List.mem_cons]
    refine hid.imp (fun hid => ?_) ih
    exact List.mem_singleton.mp (mem_of_mem_duplicate_callBatch hid)

theorem verdictAlone_of_mem_duplicate {t : Db} {d' : DeviceRow} {op : OperationIn} {id : Uuid}
    (hd : t.device? device.deviceId = some d')
    (h : id ∈ (callBatch cfg now device t [op]).1.duplicate) :
    t.verdictAlone cfg now device d' op = .duplicate := by
  rcases hcall : processBatch cfg now t device [op] with e | ⟨out, t'⟩
  · rw [callBatch_of_error hcall] at h
    exact absurd h List.not_mem_nil
  · rw [callBatch_of_ok hcall] at h
    obtain ⟨cursor, rfl⟩ := processBatch_outcome hd hcall
    obtain ⟨o, ho, -⟩ := exists_of_mem_duplicate h
    exact (Prod.mk.inj (List.mem_singleton.mp ho)).2.symm

theorem mem_accepts_cons {ctx : BatchContext} {st : ValidationState} {op c : OperationIn}
    {ops : List OperationIn} (h : c ∈ accepts ctx (validateOp ctx st op).2 ops) :
    c ∈ accepts ctx st (op :: ops) := by
  by_cases hadm : Admits ctx st op
  · rw [accepts_cons_of_admits hadm]
    rw [validateOp_of_admits hadm] at h
    exact List.mem_cons_of_mem _ h
  · rw [accepts_cons_of_not_admits hadm]
    rwa [(validateOp_of_not_admits hadm).2] at h

/-- Answers, one for each decision, that say what the answer to the whole batch says. -/
def SameAnswers (outs : List BatchOutcome) (decisions : List (OperationIn × Decision)) : Prop :=
  ∀ cursor, (outcomeOf decisions cursor).accepted = outs.flatMap BatchOutcome.accepted ∧
    (outcomeOf decisions cursor).duplicate = outs.flatMap BatchOutcome.duplicate ∧
    (outcomeOf decisions cursor).rejected = outs.flatMap BatchOutcome.rejected

theorem outcomeOf_cons (decision : OperationIn × Decision)
    (decisions : List (OperationIn × Decision)) (cursor : ℕ) :
    (outcomeOf (decision :: decisions) cursor).accepted =
        (outcomeOf [decision] cursor).accepted ++ (outcomeOf decisions cursor).accepted ∧
      (outcomeOf (decision :: decisions) cursor).duplicate =
        (outcomeOf [decision] cursor).duplicate ++ (outcomeOf decisions cursor).duplicate ∧
      (outcomeOf (decision :: decisions) cursor).rejected =
        (outcomeOf [decision] cursor).rejected ++ (outcomeOf decisions cursor).rejected := by
  obtain ⟨op, verdict⟩ := decision
  cases verdict <;> simp [outcomeOf]

theorem SameAnswers.cons {outs : List BatchOutcome} {decisions : List (OperationIn × Decision)}
    (h : SameAnswers outs decisions) (decision : OperationIn × Decision) (cursor : ℕ) :
    SameAnswers (outcomeOf [decision] cursor :: outs) (decision :: decisions) := by
  intro cursor'
  obtain ⟨ha, hd, hr⟩ := h cursor'
  obtain ⟨ha', hd', hr'⟩ := outcomeOf_cons decision decisions cursor'
  rw [ha', hd', hr', ha, hd, hr]
  exact ⟨rfl, rfl, rfl⟩

end Answers

/-! ### The batch and the single operations in step -/

section Sides

variable {db : Db} {userId : Uuid} {ops : List OperationIn} {op : OperationIn}

theorem mem_knownBulk_iff (hop : op ∈ ops) (hfresh : db.operationOwner? op.operationId = none)
    (hbulk : op.isBulkHistoryImport = true) :
    op.objectId ∈ db.knownBulk userId ops ↔ (userId, op.objectKey) ∈ db.syncObjects := by
  rw [Db.knownBulk, Finset.mem_filter, List.mem_toFinset, objectKey_of_isBulk hbulk]
  refine and_iff_right (List.mem_map_of_mem ?_)
  exact List.mem_filter.mpr ⟨hop, by simp [hfresh, hbulk]⟩

theorem mem_ownedObjects_iff (hop : op ∈ ops) (hfresh : db.operationOwner? op.operationId = none)
    (ho : op.isOrigination = false) :
    op.objectKey ∈ db.ownedObjects userId ops ↔ (userId, op.objectKey) ∈ db.syncObjects := by
  rw [Db.ownedObjects, Finset.mem_filter, List.mem_toFinset]
  refine and_iff_right (List.mem_map_of_mem ?_)
  exact List.mem_filter.mpr ⟨hop, by simp [hfresh, ho]⟩

theorem isOrigination_of_historyVisit (h : op.objectType = .historyVisit) :
    op.isOrigination = true := by
  rw [OperationIn.isOrigination, h]
  exact isOrigination_historyVisit

theorem historyVisit_of_isBulk (h : op.isBulkHistoryImport = true) :
    op.objectType = .historyVisit := by
  simp only [OperationIn.isBulkHistoryImport, Bool.and_eq_true, beq_iff_eq] at h
  exact h.1

/-- On other objects than history visits, every origination leaves a ledger row. -/
theorem leavesRow_iff (h : op.objectType ≠ .historyVisit) :
    op.leavesRow = true ↔ op.isOrigination = true := by
  simp [OperationIn.leavesRow, h]

/-- On history visits, only the chunks do. -/
theorem leavesRow_iff_isBulk (h : op.objectType = .historyVisit) :
    op.leavesRow = true ↔ op.isBulkHistoryImport = true := by
  simp [OperationIn.leavesRow, h, isOrigination_of_historyVisit h]

end Sides

/-- After some operations of a batch: the state of the batch's validation, and the database that
the accepted ones have been written to one by one. -/
structure InStep (cfg : Config) (now : DateTime) (db : Db) (device : AuthenticatedDevice)
    (d : DeviceRow) (ops pre : List OperationIn) (st : ValidationState)
    (accepted : List OperationIn) (t : Db) : Prop where
  written : WrittenAlone now device db accepted t
  row : ∃ d', t.device? device.deviceId = some d' ∧ d'.lastDeviceSequence = st.lastSeq
  originated : ∀ key, key ∈ st.originatedInBatch ↔
    ∃ c ∈ accepted, c.isOrigination = true ∧ c.objectKey = key
  le_lastSeq : d.lastDeviceSequence ≤ st.lastSeq
  lastSeq : st.lastSeq = d.lastDeviceSequence ∨ ∃ c ∈ pre, c.deviceSequence = st.lastSeq
  ready : ∀ c ∈ accepted, c ∈ pre ∧ db.Ready cfg now device d c ∧ c.deviceSequence ≤ st.lastSeq
  history : ∀ o ∈ pre, db.Ready cfg now device d o → o.objectType = .historyVisit →
    ∃ v ∈ accepted, v.objectKey = o.objectKey ∧
      (o.isBulkHistoryImport = true → v.isBulkHistoryImport = true)
  objects : accepted.filter (fun op => op.objectType ≠ .historyVisit) =
    pre.filter fun op => decide (op.objectType ≠ .historyVisit ∧
      db.Acceptable cfg now device d ops op)

namespace InStep

variable {cfg : Config} {now : DateTime} {db t : Db} {device : AuthenticatedDevice} {d d' : DeviceRow}
  {ops pre rest : List OperationIn} {st : ValidationState} {accepted : List OperationIn}
  {op : OperationIn}

theorem start (hd : db.device? device.deviceId = some d) :
    InStep cfg now db device d ops [] ⟨d.lastDeviceSequence, ∅⟩ [] db where
  written := .none
  row := ⟨d, hd, rfl⟩
  originated := by simp
  le_lastSeq := le_refl _
  lastSeq := Or.inl rfl
  ready := fun _ h => absurd h List.not_mem_nil
  history := fun _ h => absurd h List.not_mem_nil
  objects := rfl

section Next

variable (h : InStep cfg now db device d ops pre st accepted t)
  (hops : ops = pre ++ op :: rest)
  (hsorted : ops.Pairwise fun a b => a.deviceSequence < b.deviceSequence)
  (hids : (ops.map OperationIn.operationId).Nodup)

include hops in
theorem mem_next : op ∈ ops := hops ▸ List.mem_append_right _ List.mem_cons_self

include hops hsorted in
/-- What stands before an operation has a lower sequence, and nothing else has. -/
theorem lt_iff_mem {o : OperationIn} (ho : o ∈ ops) :
    o.deviceSequence < op.deviceSequence ↔ o ∈ pre := by
  subst hops
  obtain ⟨-, htail, hcross⟩ := List.pairwise_append.mp hsorted
  constructor
  · intro hlt
    rcases List.mem_append.mp ho with ho | ho
    · exact ho
    · rcases List.mem_cons.mp ho with rfl | ho
      · exact absurd hlt (lt_irrefl _)
      · exact absurd hlt (not_lt_of_gt ((List.pairwise_cons.mp htail).1 o ho))
  · exact fun ho => hcross o ho op List.mem_cons_self

include h hops hids in
/-- Its id is stored if it was before. -/
theorem operationOwner?_eq : t.operationOwner? op.operationId = db.operationOwner? op.operationId := by
  have hnew : ∀ row ∈ batchRows now device (db.currentCursor device.userId + 1) accepted,
      row.operationId ≠ op.operationId := by
    intro row hrow heq
    obtain ⟨o, ho, cursor, -, -, rfl⟩ := exists_of_mem_batchRows hrow
    rw [hops, List.map_append, List.map_cons, List.nodup_append] at hids
    exact hids.2.2 _ (List.mem_map_of_mem (h.ready o ho).1) _ List.mem_cons_self heq
  have hnone : (batchRows now device (db.currentCursor device.userId + 1) accepted).find?
      (fun row => decide (row.operationId = op.operationId)) = none := by
    simpa using hnew
  rw [Db.operationOwner?, h.written.rows, List.find?_append, hnone, Option.or_none]
  rfl

include h in
/-- The ledger, on an object of the operation. -/
theorem mem_ledger_iff (key : ObjectKey) : (device.userId, key) ∈ t.syncObjects ↔
    (device.userId, key) ∈ db.syncObjects ∨
      ∃ o ∈ accepted, o.leavesRow = true ∧ o.objectKey = key := by
  rw [h.written.mem_ledger]
  simp

include h hops hsorted in
/-- The last accepted sequence is below, unless the operation is an old one. -/
theorem lastSeq_lt (hseq : d.lastDeviceSequence < op.deviceSequence) :
    st.lastSeq < op.deviceSequence := by
  rcases h.lastSeq with heq | ⟨c, hc, heq⟩
  · exact heq ▸ hseq
  · exact heq ▸ (lt_iff_mem hops hsorted
      (hops ▸ List.mem_append_left _ hc)).mpr hc

include h hops in
theorem mem_of_mem_accepted {o : OperationIn} (ho : o ∈ accepted) : o ∈ ops :=
  hops ▸ List.mem_append_left _ (h.ready o ho).1

/-- A batch takes a chunk for a repetition when the ledger does. -/
theorem repeats_iff (h : InStep cfg now db device d ops pre st accepted t)
    (hops : ops = pre ++ op :: rest)
    (hsorted : ops.Pairwise fun a b => a.deviceSequence < b.deviceSequence)
    (hfresh : db.operationOwner? op.operationId = none)
    (hbulk : op.isBulkHistoryImport = true) :
    db.RepeatsChunk cfg now device d ops op ↔
      ((device.userId, op.objectKey) ∈ db.syncObjects ∨ op.objectKey ∈ st.originatedInBatch →
        (device.userId, op.objectKey) ∈ t.syncObjects) := by
  have hkey : ∀ o : OperationIn, o.objectKey = op.objectKey → o.objectType = .historyVisit :=
    fun o ho => (congrArg Prod.fst ho).trans (historyVisit_of_isBulk hbulk)
  rw [h.mem_ledger_iff, h.originated]
  constructor
  · rintro hrep (hold | ⟨c, hc, -, hck⟩)
    · exact Or.inl hold
    · by_cases hold : (device.userId, op.objectKey) ∈ db.syncObjects
      · exact Or.inl hold
      · -- the earlier operation is a chunk, or a chunk of the object stands before it
        obtain ⟨hcpre, hcready, -⟩ := h.ready c hc
        obtain ⟨v, hv, hlt, hvk, hvready, hvbulk⟩ := hrep hbulk hfresh hold
          ⟨c, h.mem_of_mem_accepted hops hc,
            (lt_iff_mem hops hsorted (h.mem_of_mem_accepted hops hc)).mpr hcpre, hck, hcready⟩
        obtain ⟨w, hw, hwk, hwbulk⟩ := h.history v ((lt_iff_mem hops hsorted hv).mp hlt) hvready
          (hkey v hvk)
        exact Or.inr ⟨w, hw, (leavesRow_iff_isBulk (hkey w (hwk.trans hvk))).mpr (hwbulk hvbulk),
          hwk.trans hvk⟩
  · rintro himp - - hold ⟨v, hv, hlt, hvk, hvready⟩
    obtain ⟨c, hc, hck, -⟩ := h.history v ((lt_iff_mem hops hsorted hv).mp hlt) hvready (hkey v hvk)
    have horig : c.isOrigination = true := isOrigination_of_historyVisit (hkey c (hck.trans hvk))
    obtain ⟨w, hw, hrow, hwk⟩ := (himp (Or.inr ⟨c, hc, horig, hck.trans hvk⟩)).resolve_left hold
    obtain ⟨hwpre, hwready, -⟩ := h.ready w hw
    have hwmem := h.mem_of_mem_accepted hops hw
    exact ⟨w, hwmem, (lt_iff_mem hops hsorted hwmem).mpr hwpre, hwk, hwready,
      (leavesRow_iff_isBulk (hkey w hwk)).mp hrow⟩

/-- **The verdict** on an operation alone is that of the batch. -/
theorem verdictAlone_eq (h : InStep cfg now db device d ops pre st accepted t)
    (hops : ops = pre ++ op :: rest)
    (hsorted : ops.Pairwise fun a b => a.deviceSequence < b.deviceSequence)
    (hids : (ops.map OperationIn.operationId).Nodup)
    (hquota : t.storageQuotaExceeded cfg device.userId = db.storageQuotaExceeded cfg device.userId)
    (hlast : d'.lastDeviceSequence = st.lastSeq) (hrep : db.RepeatsChunk cfg now device d ops op) :
    t.verdictAlone cfg now device d' op =
      (validateOp (batchContext cfg now db device d.lastDeviceSequence ops) st op).1 := by
  have howner := h.operationOwner?_eq hops hids
  have hop := mem_next hops
  refine verdict_congr rfl rfl ?_ hquota howner (fun hfresh hbulk => ?_) ?_ (fun hle => ?_)
    fun hfresh hshape ho => ?_
  · rw [batchContext, batchContext, h.written.userSettings]
  · change db.operationOwner? op.operationId = none at hfresh
    change _ ∈ t.knownBulk device.userId [op] ∨ _ ↔ _ ∈ db.knownBulk device.userId ops ∨ _
    rw [mem_knownBulk_iff List.mem_cons_self (howner.trans hfresh) hbulk,
      mem_knownBulk_iff hop hfresh hbulk]
    refine ⟨fun hin => ?_, fun hin => Or.inl ((h.repeats_iff hops hsorted hfresh hbulk).mp hrep hin)⟩
    rcases (h.mem_ledger_iff _).mp (hin.resolve_right (Finset.notMem_empty _)) with
      hold | ⟨o, ho, hrow, hk⟩
    · exact Or.inl hold
    · refine Or.inr ((h.originated _).mpr ⟨o, ho, ?_, hk⟩)
      rw [OperationIn.leavesRow, Bool.and_eq_true] at hrow
      exact hrow.1
  · rw [hlast]
  · -- an operation that is not above the last accepted one is an old one
    change op.deviceSequence ≤ d'.lastDeviceSequence ↔ op.deviceSequence ≤ d.lastDeviceSequence
    rw [hlast, iff_true_left hle]
    by_contra hnot
    exact absurd hle (not_le.mpr (h.lastSeq_lt hops hsorted (not_le.mp hnot)))
  · change db.operationOwner? op.operationId = none at hfresh
    have htype : op.objectType ≠ .historyVisit := fun ht => by
      rw [isOrigination_of_historyVisit ht] at ho
      exact absurd ho (by simp)
    have hrow : ∀ o : OperationIn, o.objectKey = op.objectKey →
        (o.leavesRow = true ↔ o.isOrigination = true) :=
      fun o hk => leavesRow_iff fun ht => htype ((congrArg Prod.fst hk).symm.trans ht)
    change _ ∈ t.ownedObjects device.userId [op] ∨ _ ↔ _ ∈ db.ownedObjects device.userId ops ∨ _
    rw [mem_ownedObjects_iff List.mem_cons_self (howner.trans hfresh) ho,
      mem_ownedObjects_iff hop hfresh ho, or_iff_left (Finset.notMem_empty _), h.mem_ledger_iff,
      h.originated]
    exact or_congr_right (exists_congr fun o => and_congr_right fun _ =>
      and_congr_left fun hk => hrow o hk)

/-- Where the batch sees a repetition and the ledger does not, the verdicts differ. -/
theorem verdictAlone_ne (h : InStep cfg now db device d ops pre st accepted t)
    (hops : ops = pre ++ op :: rest)
    (hsorted : ops.Pairwise fun a b => a.deviceSequence < b.deviceSequence)
    (hids : (ops.map OperationIn.operationId).Nodup)
    (hlast : d'.lastDeviceSequence = st.lastSeq) (hrep : ¬db.RepeatsChunk cfg now device d ops op) :
    (validateOp (batchContext cfg now db device d.lastDeviceSequence ops) st op).1 = .duplicate ∧
      t.verdictAlone cfg now device d' op ≠ .duplicate := by
  have howner := h.operationOwner?_eq hops hids
  obtain ⟨hbulk, hfresh, -⟩ : op.isBulkHistoryImport = true ∧
      db.operationOwner? op.operationId = none ∧ True := by
    unfold Db.RepeatsChunk at hrep
    push Not at hrep
    exact ⟨hrep.1, hrep.2.1, trivial⟩
  rw [h.repeats_iff hops hsorted hfresh hbulk] at hrep
  push Not at hrep
  obtain ⟨hin, hnot⟩ := hrep
  have hin' : op.objectKey ∈ st.originatedInBatch :=
    hin.resolve_left fun hold => hnot ((h.mem_ledger_iff _).mpr (Or.inl hold))
  refine ⟨validateOp_duplicate_of_bulk hfresh hbulk (Or.inr hin'), ?_⟩
  refine validateOp_ne_duplicate (howner.trans hfresh) ?_ ?_
  · rintro ⟨-, hk | hk⟩
    · exact hnot ((mem_knownBulk_iff List.mem_cons_self (howner.trans hfresh) hbulk).mp hk)
    · exact Finset.notMem_empty _ hk
  · -- the operation that introduced the object was accepted, and it is below this one
    obtain ⟨c, hc, -, -⟩ := (h.originated _).mp hin'
    obtain ⟨hcpre, hcready, hcle⟩ := h.ready c hc
    change d'.lastDeviceSequence < op.deviceSequence
    rw [hlast]
    refine h.lastSeq_lt hops hsorted (lt_trans hcready.lastSeq_lt ?_)
    exact (lt_iff_mem hops hsorted (h.mem_of_mem_accepted hops hc)).mpr hcpre

/-- An accepted operation passes the checks that concern it alone, -/
theorem ready_of_admits (h : InStep cfg now db device d ops pre st accepted t)
    (hop : op ∈ ops)
    (hadm : Admits (batchContext cfg now db device d.lastDeviceSequence ops) st op) :
    db.Ready cfg now device d op where
  fresh := hadm.fresh
  notKnownBulk := fun hbulk hold => hadm.notKnownBulk
    ⟨hbulk, Or.inl ((mem_knownBulk_iff hop hadm.fresh hbulk).mpr hold)⟩
  shape := hadm.shape
  one_le := hadm.one_le
  lastSeq_lt := lt_of_le_of_lt h.le_lastSeq hadm.lastSeq_lt
  quota := hadm.quota

/-- and that is all, apart from what the batch has seen of its object. -/
theorem admits_of_ready (h : InStep cfg now db device d ops pre st accepted t)
    (hops : ops = pre ++ op :: rest)
    (hsorted : ops.Pairwise fun a b => a.deviceSequence < b.deviceSequence)
    (hready : db.Ready cfg now device d op)
    (hbulk : op.isBulkHistoryImport = true → op.objectKey ∉ st.originatedInBatch)
    (hknown : op.isOrigination = true ∨ (device.userId, op.objectKey) ∈ db.syncObjects ∨
      op.objectKey ∈ st.originatedInBatch) :
    Admits (batchContext cfg now db device d.lastDeviceSequence ops) st op where
  fresh := hready.fresh
  notKnownBulk := by
    rintro ⟨hb, hk | hk⟩
    · exact hready.notKnownBulk hb ((mem_knownBulk_iff (mem_next hops) hready.fresh hb).mp hk)
    · exact hbulk hb hk
  shape := hready.shape
  one_le := hready.one_le
  lastSeq_lt := h.lastSeq_lt hops hsorted hready.lastSeq_lt
  known := by
    by_cases ho : op.isOrigination = true
    · exact Or.inl ho
    · refine Or.inr (hknown.resolve_left ho |>.imp_left fun hold => ?_)
      exact (mem_ownedObjects_iff (mem_next hops) hready.fresh (by simpa using ho)).mpr hold
  quota := hready.quota

/-- The accepted operations on objects other than history visits are the acceptable ones. -/
theorem acceptable_iff (h : InStep cfg now db device d ops pre st accepted t)
    (hops : ops = pre ++ op :: rest)
    (hsorted : ops.Pairwise fun a b => a.deviceSequence < b.deviceSequence)
    (htype : op.objectType ≠ .historyVisit) :
    db.Acceptable cfg now device d ops op ↔
      Admits (batchContext cfg now db device d.lastDeviceSequence ops) st op := by
  have hop := mem_next hops
  have hnot : ¬op.isBulkHistoryImport = true := fun hb => htype (historyVisit_of_isBulk hb)
  constructor
  · rintro ⟨hready, hknown⟩
    refine h.admits_of_ready hops hsorted hready (fun hb => absurd hb hnot)
      (hknown.imp_right (Or.imp_right ?_))
    rintro ⟨c, hc, hlt, hco, hck, hcready⟩
    have hctype : c.objectType ≠ .historyVisit := fun ht =>
      htype ((congrArg Prod.fst hck).symm.trans ht)
    have hcmem : c ∈ accepted.filter fun op => op.objectType ≠ .historyVisit := by
      rw [h.objects]
      refine List.mem_filter.mpr ⟨(lt_iff_mem hops hsorted hc).mp hlt, decide_eq_true ?_⟩
      exact ⟨hctype, hcready, Or.inl hco⟩
    exact (h.originated _).mpr ⟨c, (List.mem_filter.mp hcmem).1, hco, hck⟩
  · intro hadm
    refine ⟨h.ready_of_admits hop hadm, hadm.known.imp_right (Or.imp mem_ownedObjects ?_)⟩
    intro hin
    obtain ⟨c, hc, hco, hck⟩ := (h.originated _).mp hin
    obtain ⟨hcpre, hcready, -⟩ := h.ready c hc
    have hcops := h.mem_of_mem_accepted hops hc
    exact ⟨c, hcops, (lt_iff_mem hops hsorted hcops).mpr hcpre, hco, hck, hcready⟩

/-- **An accepted operation.** -/
theorem accept {t' : Db} (h : InStep cfg now db device d ops pre st accepted t)
    (hops : ops = pre ++ op :: rest)
    (hsorted : ops.Pairwise fun a b => a.deviceSequence < b.deviceSequence)
    (hadm : Admits (batchContext cfg now db device d.lastDeviceSequence ops) st op)
    (hknown : op.isOrigination = false → (device.userId, op.objectKey) ∈ t.syncObjects)
    (hwrite : writeBatch now device [op] op.deviceSequence t = some t') :
    InStep cfg now db device d ops (pre ++ [op]) (st.accept op) (accepted ++ [op]) t' where
  written := h.written.append hknown hwrite
  row := by
    obtain ⟨d', hd', -⟩ := h.row
    obtain ⟨table, -, rfl⟩ := (writeBatch_eq_some_iff.mp hwrite).2
    have hdev := t.device?_updateDevice
      (f := fun d => { d with lastDeviceSequence := op.deviceSequence }) (fun _ => rfl)
      device.deviceId device.deviceId
    rw [if_pos rfl, hd'] at hdev
    exact ⟨_, hdev, rfl⟩
  originated := by
    intro key
    simp only [ValidationState.accept, List.mem_append, List.mem_singleton, or_and_right, exists_or,
      exists_eq_left, ← h.originated]
    by_cases ho : op.isOrigination = true
    · rw [if_pos ho, Finset.mem_insert, or_comm, eq_comm]
      simp [ho]
    · rw [if_neg ho]
      simp [ho]
  le_lastSeq := le_trans h.le_lastSeq (le_of_lt hadm.lastSeq_lt)
  lastSeq := Or.inr ⟨op, List.mem_append_right _ (List.mem_singleton.mpr rfl), rfl⟩
  ready := by
    intro c hc
    rcases List.mem_append.mp hc with hc | hc
    · obtain ⟨hpre, hready, hle⟩ := h.ready c hc
      exact ⟨List.mem_append_left _ hpre, hready, le_trans hle (le_of_lt hadm.lastSeq_lt)⟩
    · obtain rfl := List.mem_singleton.mp hc
      exact ⟨List.mem_append_right _ (List.mem_singleton.mpr rfl),
        h.ready_of_admits (mem_next hops) hadm, le_refl _⟩
  history := by
    intro o ho hready htype
    rcases List.mem_append.mp ho with ho | ho
    · obtain ⟨v, hv, hrest⟩ := h.history o ho hready htype
      exact ⟨v, List.mem_append_left _ hv, hrest⟩
    · obtain rfl := List.mem_singleton.mp ho
      exact ⟨o, List.mem_append_right _ (List.mem_singleton.mpr rfl), rfl, id⟩
  objects := by
    rw [List.filter_append, List.filter_append, h.objects]
    congr 1
    refine List.filter_congr fun o ho => ?_
    obtain rfl := List.mem_singleton.mp ho
    by_cases htype : o.objectType = .historyVisit
    · simp [htype]
    · simp [htype, (h.acceptable_iff hops hsorted htype).mpr hadm]

/-- **An operation that is not accepted.** -/
theorem skip (h : InStep cfg now db device d ops pre st accepted t)
    (hops : ops = pre ++ op :: rest)
    (hsorted : ops.Pairwise fun a b => a.deviceSequence < b.deviceSequence)
    (hnot : ¬Admits (batchContext cfg now db device d.lastDeviceSequence ops) st op)
    (hrep : db.RepeatsChunk cfg now device d ops op) :
    InStep cfg now db device d ops (pre ++ [op]) st accepted t where
  written := h.written
  row := h.row
  originated := h.originated
  le_lastSeq := h.le_lastSeq
  lastSeq := h.lastSeq.imp_right fun ⟨c, hc, heq⟩ => ⟨c, List.mem_append_left _ hc, heq⟩
  ready := fun c hc => ⟨List.mem_append_left _ (h.ready c hc).1, (h.ready c hc).2⟩
  history := by
    intro o ho hready htype
    rcases List.mem_append.mp ho with ho | ho
    · exact h.history o ho hready htype
    · obtain rfl := List.mem_singleton.mp ho
      have horig := isOrigination_of_historyVisit htype
      -- only a chunk whose object the batch has seen is passed over
      obtain ⟨hbulk, hin⟩ : o.isBulkHistoryImport = true ∧ o.objectKey ∈ st.originatedInBatch := by
        by_contra hcon
        push Not at hcon
        exact hnot (h.admits_of_ready hops hsorted hready hcon (Or.inl horig))
      have hledger := (h.repeats_iff hops hsorted hready.fresh hbulk).mp hrep (Or.inr hin)
      obtain ⟨v, hv, hrow, hvk⟩ := ((h.mem_ledger_iff _).mp hledger).resolve_left
        (hready.notKnownBulk hbulk)
      refine ⟨v, hv, hvk, fun _ => (leavesRow_iff_isBulk ?_).mp hrow⟩
      exact (congrArg Prod.fst hvk).trans htype
  objects := by
    rw [List.filter_append, h.objects]
    refine (List.append_right_eq_self.mpr (List.filter_eq_nil_iff.mpr fun o ho => ?_)).symm
    obtain rfl := List.mem_singleton.mp ho
    simp only [decide_eq_true_eq, not_and]
    exact fun htype hacc => hnot ((h.acceptable_iff hops hsorted htype).mp hacc)

/-- The rows of the device and of its user lie below its sequence and the user's cursor, so the
operation is written if it is accepted. -/
theorem exists_write (h : InStep cfg now db device d ops pre st accepted t)
    (hrows : ∀ row ∈ db.syncOperations.rows, row.deviceId = device.deviceId →
      row.deviceSequence ≤ d.lastDeviceSequence)
    (hcursors : ∀ row ∈ db.syncOperations.rows, row.userId = device.userId →
      row.serverCursor ≤ db.currentCursor device.userId)
    (hlast : d'.lastDeviceSequence = st.lastSeq)
    (hadm : Admits (batchContext cfg now t device d'.lastDeviceSequence [op])
      ⟨d'.lastDeviceSequence, ∅⟩ op) (hstorable : op.isStorable = true) :
    ∃ t', writeBatch now device [op] op.deviceSequence t = some t' := by
  have haccepts : t.accepts cfg now device d' [op] = [op] := by
    rw [Db.accepts, accepts_cons_of_admits hadm, accepts_nil]
  have hlog := h.written.rows
  have hcur := h.written.currentCursor
  rw [← haccepts]
  refine exists_writeBatch (by simp) (fun c hc => ?_) (fun row hrow hdev => ?_)
    (fun row hrow huser => ?_) _
  · rw [List.mem_singleton.mp ((accepts_sublist _).mem hc)]
    exact hstorable
  · rw [hlast]
    rw [hlog] at hrow
    rcases List.mem_append.mp hrow with hrow | hrow
    · exact le_trans (hrows row hrow hdev) h.le_lastSeq
    · obtain ⟨c, hc, cursor, -, -, rfl⟩ := exists_of_mem_batchRows hrow
      exact (h.ready c hc).2.2
  · rw [hcur]
    rw [hlog] at hrow
    rcases List.mem_append.mp hrow with hrow | hrow
    · exact le_trans (hcursors row hrow huser) (Nat.le_add_right _ _)
    · have hhi := (cursor_of_mem_batchRows hrow).2
      omega

/-- **One operation**: alone it gets the verdict of the batch. -/
theorem next (h : InStep cfg now db device d ops pre st accepted t)
    (hops : ops = pre ++ op :: rest)
    (hsorted : ops.Pairwise fun a b => a.deviceSequence < b.deviceSequence)
    (hids : (ops.map OperationIn.operationId).Nodup)
    (hrows : ∀ row ∈ db.syncOperations.rows, row.deviceId = device.deviceId →
      row.deviceSequence ≤ d.lastDeviceSequence)
    (hcursors : ∀ row ∈ db.syncOperations.rows, row.userId = device.userId →
      row.serverCursor ≤ db.currentCursor device.userId)
    (hquota : t.storageQuotaExceeded cfg device.userId = db.storageQuotaExceeded cfg device.userId)
    (hrep : db.RepeatsChunk cfg now device d ops op)
    (hstorable : op ∈ HelixSync.accepts (batchContext cfg now db device d.lastDeviceSequence ops) st
      (op :: rest) → op.isStorable = true) :
    ∃ cursor t' accepted',
      callBatch cfg now device t [op] = (outcomeOf [(op, (validateOp
        (batchContext cfg now db device d.lastDeviceSequence ops) st op).1)] cursor, t') ∧
      InStep cfg now db device d ops (pre ++ [op]) (validateOp
        (batchContext cfg now db device d.lastDeviceSequence ops) st op).2 accepted' t' ∧
      accepted' ++ HelixSync.accepts (batchContext cfg now db device d.lastDeviceSequence ops)
          (validateOp (batchContext cfg now db device d.lastDeviceSequence ops) st op).2 rest =
        accepted ++ HelixSync.accepts (batchContext cfg now db device d.lastDeviceSequence ops)
          st (op :: rest) := by
  obtain ⟨d', hd', hlast⟩ := h.row
  have hverdict := h.verdictAlone_eq hops hsorted hids hquota hlast hrep
  by_cases hadm : Admits (batchContext cfg now db device d.lastDeviceSequence ops) st op
  · rw [validateOp_of_admits hadm] at hverdict ⊢
    have halone := verdictAlone_eq_accept_iff.mp hverdict
    rw [accepts_cons_of_admits hadm] at hstorable
    obtain ⟨t', hwrite⟩ := h.exists_write hrows hcursors hlast halone
      (hstorable List.mem_cons_self)
    refine ⟨_, t', accepted ++ [op], callBatch_of_ok (processBatch_of_accept hd' hverdict hwrite),
      h.accept hops hsorted hadm (fun ho => ?_) hwrite, ?_⟩
    · rcases halone.known with hk | hk | hk
      · rw [ho] at hk
        exact absurd hk (by simp)
      · exact mem_ownedObjects hk
      · exact absurd hk (Finset.notMem_empty _)
    · rw [accepts_cons_of_admits hadm, List.append_assoc]
      rfl
  · obtain ⟨hne, hst⟩ := validateOp_of_not_admits hadm
    have hcall := processBatch_of_ne_accept hd' (hverdict.trans_ne hne)
    rw [hverdict] at hcall
    refine ⟨_, t, accepted, callBatch_of_ok hcall, ?_, ?_⟩
    · rw [hst]
      exact h.skip hops hsorted hadm hrep
    · rw [hst, accepts_cons_of_not_admits hadm]

end Next

section Run

variable (hsorted : ops.Pairwise fun a b => a.deviceSequence < b.deviceSequence)
  (hids : (ops.map OperationIn.operationId).Nodup)
  (hrows : ∀ row ∈ db.syncOperations.rows, row.deviceId = device.deviceId →
    row.deviceSequence ≤ d.lastDeviceSequence)
  (hcursors : ∀ row ∈ db.syncOperations.rows, row.userId = device.userId →
    row.serverCursor ≤ db.currentCursor device.userId)
  (hquota : db.storageQuotaExceeded cfg device.userId = false)

include hsorted hids hrows hcursors hquota in
/-- **The operations of a batch that can be split**, one after the other. -/
theorem run : ∀ (rest pre : List OperationIn) (st : ValidationState)
    (accepted : List OperationIn) (t : Db), ops = pre ++ rest →
    InStep cfg now db device d ops pre st accepted t →
    (∀ c ∈ rest, db.RepeatsChunk cfg now device d ops c) →
    (∀ c ∈ HelixSync.accepts (batchContext cfg now db device d.lastDeviceSequence ops) st rest,
      c.isStorable = true) →
    (∀ before, before <+: rest →
      (processEach cfg now device t before).2.storageQuotaExceeded cfg device.userId = false) →
    SameAnswers (processEach cfg now device t rest).1 (validateOps
        (batchContext cfg now db device d.lastDeviceSequence ops) st rest).1 ∧
      ∃ st', InStep cfg now db device d ops ops st' (accepted ++ HelixSync.accepts
        (batchContext cfg now db device d.lastDeviceSequence ops) st rest)
          (processEach cfg now device t rest).2 := by
  intro rest
  induction rest with
  | nil =>
    intro pre st accepted t hops h _ _ _
    rw [List.append_nil] at hops
    refine ⟨fun _ => ⟨rfl, rfl, rfl⟩, st, ?_⟩
    rw [accepts_nil, List.append_nil]
    exact hops ▸ h
  | cons op rest ih =>
    intro pre st accepted t hops h hrep hstorable hbelow
    have hnow := hbelow [] List.nil_prefix
    obtain ⟨cursor, t₁, accepted', hcall, hnext, haccepts⟩ := h.next hops hsorted hids hrows hcursors
      (hnow.trans hquota.symm) (hrep op List.mem_cons_self) (hstorable op)
    obtain ⟨hsame, st', hlast⟩ := ih (pre ++ [op]) _ accepted' t₁
      (by simp [hops]) hnext (fun c hc => hrep c (List.mem_cons_of_mem _ hc))
      (fun c hc => hstorable c (mem_accepts_cons hc))
      (fun before hbefore => by
        have hquota := hbelow (op :: before) (List.cons_prefix_cons.mpr ⟨rfl, hbefore⟩)
        rwa [processEach_cons, hcall] at hquota)
    rw [processEach_cons, hcall]
    exact ⟨hsame.cons _ cursor, st', haccepts ▸ hlast⟩

include hsorted hids hrows hcursors hquota in
/-- **If the answers agree, the batch can be split** as far as the verdicts go. -/
theorem repeats_of_duplicate : ∀ (rest pre : List OperationIn) (st : ValidationState)
    (accepted : List OperationIn) (t : Db), ops = pre ++ rest →
    InStep cfg now db device d ops pre st accepted t →
    (∀ c ∈ HelixSync.accepts (batchContext cfg now db device d.lastDeviceSequence ops) st rest,
      c.isStorable = true) →
    (∀ before, before <+: rest →
      (processEach cfg now device t before).2.storageQuotaExceeded cfg device.userId = false) →
    (∀ c, (c, Decision.duplicate) ∈ (validateOps
        (batchContext cfg now db device d.lastDeviceSequence ops) st rest).1 →
      c.operationId ∈ (processEach cfg now device t rest).1.flatMap BatchOutcome.duplicate) →
    ∀ c ∈ rest, db.RepeatsChunk cfg now device d ops c := by
  intro rest
  induction rest with
  | nil => exact fun _ _ _ _ _ _ _ _ _ _ hc => absurd hc List.not_mem_nil
  | cons op rest ih =>
    intro pre st accepted t hops h hstorable hbelow hdup
    have hnow := hbelow [] List.nil_prefix
    have hfresh : ∀ c ∈ rest, c.operationId ≠ op.operationId := by
      intro c hc heq
      rw [hops, List.map_append, List.map_cons, List.nodup_append, List.nodup_cons] at hids
      exact hids.2.1.1 (heq ▸ List.mem_map_of_mem hc)
    rw [processEach_cons] at hdup
    obtain ⟨d', hd', hlast⟩ := h.row
    have hop : db.RepeatsChunk cfg now device d ops op := by
      by_contra hrep
      obtain ⟨hbatch, halone⟩ := h.verdictAlone_ne hops hsorted hids hlast hrep
      have hin := hdup op (by rw [validateOps_cons, hbatch]; exact List.mem_cons_self)
      rw [List.flatMap_cons, List.mem_append] at hin
      rcases hin with hin | hin
      · exact halone (verdictAlone_of_mem_duplicate hd' hin)
      · obtain ⟨c, hc, hid⟩ := List.mem_map.mp (mem_of_mem_duplicate_processEach hin)
        exact hfresh c hc hid
    obtain ⟨cursor, t₁, accepted', hcall, hnext, -⟩ := h.next hops hsorted hids hrows hcursors
      (hnow.trans hquota.symm) hop (hstorable op)
    intro c hc
    rcases List.mem_cons.mp hc with rfl | hc
    · exact hop
    · rw [hcall] at hdup
      refine ih (pre ++ [op]) _ accepted' t₁ (by simp [hops]) hnext
        (fun c hc => hstorable c (mem_accepts_cons hc))
        (fun before hbefore => by
          have hquota := hbelow (op :: before) (List.cons_prefix_cons.mpr ⟨rfl, hbefore⟩)
          rwa [processEach_cons, hcall] at hquota) (fun o ho => ?_) c hc
      have hin := hdup o (by rw [validateOps_cons]; exact List.mem_cons_of_mem _ ho)
      rw [List.flatMap_cons, List.mem_append] at hin
      refine hin.resolve_left fun hin => ?_
      obtain ⟨o', ho', hid⟩ := exists_of_mem_duplicate hin
      obtain ⟨rfl, -⟩ := Prod.mk.inj (List.mem_singleton.mp ho')
      exact hfresh o (exists_of_mem_validateOps ho).1 hid.symm

end Run

end InStep

/-! ### The whole batch -/

section Whole

variable {cfg : Config} {now : DateTime} {db : Db} {device : AuthenticatedDevice} {d : DeviceRow}
  {ops : List OperationIn}

/-- Nothing accepted, nothing to clamp. -/
theorem clampsOnce_nil (types : List ObjectType) (count : ℕ) :
    db.ClampsOnce device types count [] := by
  intro before hbefore
  rw [List.prefix_nil.mp hbefore]
  exact Or.inr (le_refl _)

section Stored

variable (hd : db.device? device.deviceId = some d)
  (hrows : ∀ row ∈ db.syncOperations.rows, row.deviceId = device.deviceId →
    row.deviceSequence ≤ d.lastDeviceSequence)
  (hcursors : ∀ row ∈ db.syncOperations.rows, row.userId = device.userId →
    row.serverCursor ≤ db.currentCursor device.userId)

include hd hrows hcursors

/-- A call with distinct ids fails exactly if it accepts what the database cannot store. -/
theorem processBatch_error_iff (hids : (ops.map OperationIn.operationId).Nodup) :
    (∃ e, processBatch cfg now db device ops = .error e) ↔ ¬db.Storable cfg now device d ops := by
  constructor
  · rintro ⟨e, herror⟩ hstorable
    obtain ⟨out, db', hok⟩ := exists_processBatch hd
      (exists_writeBatch hids hstorable hrows hcursors (db.lastSeqAfter cfg now device d ops))
    rw [herror] at hok
    exact absurd hok (by simp)
  · intro hnot
    have hne : db.accepts cfg now device d ops ≠ [] := fun hnil =>
      hnot fun op hop => absurd hop (by simp [hnil])
    rw [processBatch_eq hd, if_neg hne]
    rcases hwrite : writeBatch now device (db.accepts cfg now device d ops)
        (db.lastSeqAfter cfg now device d ops) db with _ | db'
    · exact ⟨_, rfl⟩
    · exact absurd (nodup_of_writeBatch hwrite).2 hnot

/-- A single operation whose call fails is refused, -/
theorem refusedAlone_iff (op : OperationIn) :
    (∃ e, processBatch cfg now db device [op] = .error e) ↔
      db.RefusedAlone cfg now device d op := by
  rw [processBatch_error_iff hd hrows hcursors (by simp), Db.Storable, Db.RefusedAlone]
  have hsub : (db.accepts cfg now device d [op]).Sublist [op] := accepts_sublist [op]
  rcases List.sublist_singleton.mp hsub with hnil | hop
  · simp [hnil]
  · simp [hop]

/-- and a call that does not fail has a verdict. -/
theorem refusedAlone_of_noVerdicts
    (hacc : (processEach cfg now device db ops).1.flatMap BatchOutcome.accepted = [])
    (hdup : (processEach cfg now device db ops).1.flatMap BatchOutcome.duplicate = [])
    (hrej : (processEach cfg now device db ops).1.flatMap BatchOutcome.rejected = []) :
    ∀ op ∈ ops, db.RefusedAlone cfg now device d op := by
  induction ops with
  | nil => exact fun op hop => absurd hop List.not_mem_nil
  | cons op ops ih =>
    rw [processEach_cons, List.flatMap_cons, List.append_eq_nil_iff] at hacc hdup hrej
    rcases hcall : processBatch cfg now db device [op] with e | ⟨out, db'⟩
    · rw [callBatch_of_error hcall] at hacc hdup hrej
      intro c hc
      rcases List.mem_cons.mp hc with rfl | hc
      · exact (refusedAlone_iff hd hrows hcursors c).mp ⟨e, hcall⟩
      · exact ih hacc.2 hdup.2 hrej.2 c hc
    · exfalso
      rw [callBatch_of_ok hcall] at hacc hdup hrej
      obtain ⟨cursor, rfl⟩ := processBatch_outcome hd hcall
      have hone : (validateBatch cfg now db device d [op]).1 =
          [(op, db.verdictAlone cfg now device d op)] := rfl
      rw [hone] at hacc hdup hrej
      rcases hverdict : db.verdictAlone cfg now device d op with _ | reason | _
      · simp [outcomeOf, hverdict] at hdup
      · simp [outcomeOf, hverdict] at hrej
      · simp [outcomeOf, hverdict] at hacc

/-- Operations that are all refused leave the database and get no verdict. -/
theorem processEach_of_refused (hrefused : ∀ op ∈ ops, db.RefusedAlone cfg now device d op) :
    processEach cfg now device db ops =
      (ops.map fun _ => outcomeOf [] (db.currentCursor device.userId), db) := by
  induction ops with
  | nil => rfl
  | cons op ops ih =>
    obtain ⟨e, hcall⟩ := (refusedAlone_iff hd hrows hcursors op).mpr
      (hrefused op List.mem_cons_self)
    rw [processEach_cons, callBatch_of_error hcall,
      ih fun c hc => hrefused c (List.mem_cons_of_mem _ hc)]
    rfl

/-- **A batch that cannot be stored** gives no verdict. Batching then makes no difference exactly
if the database refuses each of its operations. -/
theorem batchInvisible_iff_refused (hids : (ops.map OperationIn.operationId).Nodup)
    (hnot : ¬db.Storable cfg now device d ops) : BatchInvisible cfg now db device ops ↔
      ∀ op ∈ ops, db.RefusedAlone cfg now device d op := by
  obtain ⟨e, hfails⟩ := (processBatch_error_iff hd hrows hcursors hids).mpr hnot
  rw [BatchInvisible, callBatch_of_error hfails]
  constructor
  · intro hsame
    exact refusedAlone_of_noVerdicts hd hrows hcursors hsame.accepted.symm hsame.duplicate.symm
      hsame.rejected.symm
  · intro hrefused
    rw [processEach_of_refused hd hrows hcursors hrefused]
    refine ⟨?_, ?_, ?_, rfl, rfl, fun _ _ => rfl, rfl, rfl⟩ <;> simp [outcomeOf]

end Stored

/-- **Batching makes no difference** exactly for the batches that can be split, among those that
can be stored, on a database whose rows lie below the device's sequence and the user's cursor and
whose tombstones are about objects of the ledger. -/
theorem batchInvisible_iff_splits (hd : db.device? device.deviceId = some d)
    (hsorted : ops.Pairwise fun a b => a.deviceSequence < b.deviceSequence)
    (hids : (ops.map OperationIn.operationId).Nodup)
    (hrows : ∀ row ∈ db.syncOperations.rows, row.deviceId = device.deviceId →
      row.deviceSequence ≤ d.lastDeviceSequence)
    (hcursors : ∀ row ∈ db.syncOperations.rows, row.userId = device.userId →
      row.serverCursor ≤ db.currentCursor device.userId)
    (hknown : ∀ key, db.tombstoned device.userId key = true →
      (device.userId, key) ∈ db.syncObjects)
    (hbelow : BelowQuota cfg now db device ops) (hstorable : db.Storable cfg now device d ops) :
    BatchInvisible cfg now db device ops ↔ db.Splits cfg now device d ops := by
  have hquota : ∀ before, before <+: ops →
      (processEach cfg now device db before).2.storageQuotaExceeded cfg device.userId = false :=
    fun before hbefore => hbelow before ((List.mem_inits _ _).mpr hbefore)
  have hnow := hquota [] List.nil_prefix
  have hstart : InStep cfg now db device d ops [] ⟨d.lastDeviceSequence, ∅⟩ [] db := InStep.start hd
  obtain ⟨out, whole, hwhole⟩ : ∃ out whole, processBatch cfg now db device ops = .ok (out, whole) :=
    exists_processBatch hd (exists_writeBatch hids hstorable hrows hcursors _)
  obtain ⟨cursor, rfl⟩ := processBatch_outcome hd hwhole
  have heffect : BatchInvisible cfg now db device ops ↔
      SameEffect (outcomeOf (validateBatch cfg now db device d ops).1 cursor, whole)
        (processEach cfg now device db ops) := by rw [BatchInvisible, callBatch_of_ok hwhole]
  have hchunks : BatchInvisible cfg now db device ops →
      ∀ c ∈ ops, db.RepeatsChunk cfg now device d ops c := by
    intro hinvisible
    refine hstart.repeats_of_duplicate hsorted hids hrows hcursors hnow ops [] _ [] db rfl
      hstorable hquota fun c hc => ?_
    rw [← (heffect.mp hinvisible).duplicate]
    exact mem_duplicate_outcomeOf hc
  suffices hrest : (∀ c ∈ ops, db.RepeatsChunk cfg now device d ops c) →
      (BatchInvisible cfg now db device ops ↔ db.Splits cfg now device d ops) by
    constructor
    · exact fun h => (hrest (hchunks h)).mp h
    · exact fun h => (hrest h.chunks).mpr h
  intro hrep
  obtain ⟨hanswers, st', hlast⟩ := InStep.run hsorted hids hrows hcursors hnow
    ops [] _ [] db rfl hstart hrep hstorable hquota
  rw [heffect]
  generalize processEach cfg now device db ops = result at hanswers hlast
  obtain ⟨outs, each⟩ := result
  rw [List.nil_append] at hlast
  have hwritten : WrittenAlone now device db (db.accepts cfg now device d ops) each := hlast.written
  have hobjects : (db.accepts cfg now device d ops).filter
      (fun op => op.objectType ≠ .historyVisit) = db.objectOps cfg now device d ops := hlast.objects
  obtain ⟨hacc, hdup, hrej⟩ := hanswers cursor
  have hsplits : db.Splits cfg now device d ops ↔
      EndsRestored (db.accepts cfg now device d ops) ∧
        db.ClampsOnce device bookmarkTypes (db.bookmarkCount device.userId)
            (db.accepts cfg now device d ops) ∧
          db.ClampsOnce device tabTypes (db.tabCount device.userId)
            (db.accepts cfg now device d ops) := by
    rw [← endsRestored_filter,
      ← clampsOnce_filter (show ObjectType.historyVisit ∉ bookmarkTypes by decide),
      ← clampsOnce_filter (show ObjectType.historyVisit ∉ tabTypes by decide), hobjects]
    exact ⟨fun h => ⟨h.restores, h.bookmarks, h.tabs⟩, fun ⟨h₁, h₂, h₃⟩ => ⟨hrep, h₁, h₂, h₃⟩⟩
  rw [hsplits]
  rcases processBatch_ok hwhole with ⟨rfl, hnone⟩ | ⟨d', hd', hne, hwrite⟩
  · -- nothing was accepted, and nothing is written
    have hempty := hnone d hd
    obtain rfl := hwritten.eq_of_eq_nil hempty
    rw [hempty]
    refine iff_of_true ⟨hacc, hdup, hrej, rfl, rfl, fun _ _ => rfl, rfl, rfl⟩
      ⟨fun _ h => absurd h List.not_mem_nil, clampsOnce_nil _ _, clampsOnce_nil _ _⟩
  · obtain rfl := Option.some.inj (hd.symm.trans hd')
    obtain ⟨hlog, hledger, hhours, -⟩ := hwritten.sameTables hwrite
    have htombs := hwritten.tombstones_iff hwrite
    have hactive := hwritten.tombstoned_iff hwrite (accepts_pairwise ops)
    constructor
    · intro h
      have hsame := htombs.mp h.tombstones
      exact ⟨hactive.mp hsame, (hwritten.stats_iff hwrite hne hknown hsame).mp h.stats⟩
    · rintro ⟨hends, hclamps⟩
      have hsame := hactive.mpr hends
      exact ⟨hacc, hdup, hrej, hlog, hledger, htombs.mpr hsame,
        (hwritten.stats_iff hwrite hne hknown hsame).mpr hclamps, hhours⟩

end Whole

namespace Server

/-- Tombstones are about objects of the ledger. -/
def TombstonesKnown (s : Server) : Prop :=
  ∀ userId key, s.db.tombstoned userId key = true → (userId, key) ∈ s.db.syncObjects

variable {cfg : Config} {s s' : Server}

theorem TombstonesKnown.step {e : Event} (h : TombstonesKnown s) (hstep : Step cfg s e s') :
    TombstonesKnown s' := by
  cases hstep with
  | quiet hq =>
    intro userId key
    rw [Db.tombstoned, hq.data.tombstones, hq.data.syncObjects]
    exact h userId key
  | idle => exact h
  | @wrote device d ops db' _ _ _ hwrite =>
    refine tombstones_known_writeBatch hwrite h fun op hop htouches => ?_
    have hnot := WrittenAlone.not_isOrigination_of_touches htouches
    rw [mem_syncObjects_writeBatch hwrite (Tracked.ne_historyVisit_of_isTerminal htouches)]
    rcases known_of_mem_accepts hop with ho | hold | hnew
    · rw [hnot] at ho
      exact absurd ho (by simp)
    · exact Or.inl hold
    · exact Or.inr ⟨rfl, hnew⟩
  | @committed index userId boundary db' hindex hcommit =>
    intro userId key
    have hstep : Step cfg s (.commitSnapshot index) _ := Step.committed hindex hcommit
    have hledger := (frame_of_ne_upload hstep (by simp)).2.2.2
    rw [Db.tombstoned, (commitSnapshot_frame hcommit).2.2.2.2.1]
    exact fun htomb => hledger (h userId key htomb)
  | pruned _ => exact h

theorem TombstonesKnown.run (settings : Uuid → Option UserSettings) (now : DateTime)
    (events : List Event) : TombstonesKnown (Server.run cfg (start settings now) events) :=
  Runs.invariant (fun _ e h => TombstonesKnown.step h (step_spec e))
    (fun _ _ h => absurd h (by simp [start, Db.empty, Db.tombstoned])) events

/-- **Batching is invisible** in every reachable state exactly for the batches that the database
can store and that can be split, or that it refuses operation by operation: strictly increasing in
sequence, with distinct ids and the quota not reached, a batch gives every operation the verdict
and leaves the tables that its operations give and leave one by one, unless it carries a new
history chunk after a single visit of its object, deletes an object after its last restore, moves a
count through zero that would have been clamped on the way, or accepts an operation that the
database refuses beside one that it does not. -/
theorem batchInvisible_iff (settings : Uuid → Option UserSettings) (now : DateTime)
    (events : List Event) (device : AuthenticatedDevice) {d : DeviceRow} {ops : List OperationIn}
    (hd : (Server.run cfg (start settings now) events).db.device? device.deviceId = some d)
    (hsorted : ops.Pairwise fun a b => a.deviceSequence < b.deviceSequence)
    (hids : (ops.map OperationIn.operationId).Nodup)
    (hbelow : BelowQuota cfg (Server.run cfg (start settings now) events).now
      (Server.run cfg (start settings now) events).db device ops) :
    let s := Server.run cfg (start settings now) events
    BatchInvisible cfg s.now s.db device ops ↔
      s.db.Storable cfg s.now device d ops ∧ s.db.Splits cfg s.now device d ops ∨
      ¬s.db.Storable cfg s.now device d ops ∧ ∀ op ∈ ops, s.db.RefusedAlone cfg s.now device d op := by
  intro s
  have hwf : WellFormed s := WellFormed.run settings now events
  have hrows : ∀ row ∈ s.db.syncOperations.rows, row.deviceId = device.deviceId →
      row.deviceSequence ≤ d.lastDeviceSequence := by
    intro row hrow hdev
    obtain ⟨lastSeq, hstate, hle⟩ := hwf.devices row (hwf.log.mem hrow)
    rw [hdev, Db.deviceState?, hd, Option.map_some, Option.some.injEq, Prod.mk.injEq] at hstate
    exact hstate.2 ▸ hle
  have hcursors : ∀ row ∈ s.db.syncOperations.rows, row.userId = device.userId →
      row.serverCursor ≤ s.db.currentCursor device.userId := fun row hrow huser =>
    huser ▸ (hwf.cursor_mem (hwf.log.mem hrow)).2
  by_cases hstorable : s.db.Storable cfg s.now device d ops
  · rw [batchInvisible_iff_splits hd hsorted hids hrows hcursors
      (TombstonesKnown.run settings now events device.userId) hbelow hstorable]
    exact ⟨fun h => Or.inl ⟨hstorable, h⟩, fun h => h.elim And.right fun h => absurd hstorable h.1⟩
  · rw [batchInvisible_iff_refused hd hrows hcursors hids hstorable]
    exact ⟨fun h => Or.inr ⟨hstorable, h⟩, fun h => h.elim (fun h => absurd h.1 hstorable) And.right⟩

/-- A bookmark is created and deleted. -/
def deletedBookmark : List Event :=
  [.register 1 9, .upload 1 [smallOp 11 1 1 .bookmark 50 .create, smallOp 12 2 2 .bookmark 50 .delete]]

/-- It is restored and deleted again in one batch. -/
def restoreAndDelete : List OperationIn :=
  [smallOp 13 3 3 .bookmark 50 .restore, smallOp 14 4 4 .bookmark 50 .delete]

/-- It is deleted again, restored, and another bookmark is created, in one batch. -/
def deleteAndRestore : List OperationIn :=
  [smallOp 13 3 3 .bookmark 50 .delete, smallOp 14 4 4 .bookmark 50 .restore,
    smallOp 15 5 5 .bookmark 51 .create]

/-- The device of these runs. -/
def smallDevice : AuthenticatedDevice := ⟨9, 1⟩

theorem batchInvisible_iff_deleteAndRestore :
    BatchInvisible smallConfig (Server.run smallConfig smallStart deletedBookmark).now
      (Server.run smallConfig smallStart deletedBookmark).db smallDevice deleteAndRestore := by
  obtain ⟨d, hd⟩ : ∃ d, (Server.run smallConfig smallStart deletedBookmark).db.device? 1 = some d :=
    Option.isSome_iff_exists.mp (by decide +kernel)
  have hsplits : ∀ d ∈ (Server.run smallConfig smallStart deletedBookmark).db.device? 1,
      (Server.run smallConfig smallStart deletedBookmark).db.Storable smallConfig
          (Server.run smallConfig smallStart deletedBookmark).now smallDevice d deleteAndRestore ∧
        (Server.run smallConfig smallStart deletedBookmark).db.Splits smallConfig
          (Server.run smallConfig smallStart deletedBookmark).now smallDevice d deleteAndRestore := by
    decide +kernel
  exact (batchInvisible_iff (fun _ => none) 0 deletedBookmark smallDevice hd
    (by decide) (by decide) (by decide +kernel)).mpr (Or.inl (hsplits d hd))

/-- The batch leaves the bookmark without an active tombstone; one by one, the last operation
deletes it. -/
theorem not_batchInvisible :
    (Server.run smallConfig smallStart deletedBookmark).authenticate 1 = some smallDevice ∧
      (restoreAndDelete.Pairwise fun a b => a.deviceSequence < b.deviceSequence) ∧
      (restoreAndDelete.map OperationIn.operationId).Nodup ∧
      BelowQuota smallConfig (Server.run smallConfig smallStart deletedBookmark).now
        (Server.run smallConfig smallStart deletedBookmark).db smallDevice restoreAndDelete ∧
      ¬BatchInvisible smallConfig (Server.run smallConfig smallStart deletedBookmark).now
        (Server.run smallConfig smallStart deletedBookmark).db smallDevice restoreAndDelete := by
  have hwhole : ((callBatch smallConfig (Server.run smallConfig smallStart deletedBookmark).now
      smallDevice (Server.run smallConfig smallStart deletedBookmark).db
      restoreAndDelete).2.tombstones 9 (.bookmark, 50)).map TombstoneRow.active = some false := by
    decide +kernel
  have heach : ((processEach smallConfig (Server.run smallConfig smallStart deletedBookmark).now
      smallDevice (Server.run smallConfig smallStart deletedBookmark).db
      restoreAndDelete).2.tombstones 9 (.bookmark, 50)).map TombstoneRow.active = some true := by
    decide +kernel
  refine ⟨by decide +kernel, by decide, by decide, by decide +kernel, fun hsame => ?_⟩
  have htomb := congrArg (Option.map Prod.fst) (hsame.tombstones 9 (.bookmark, 50))
  rw [Option.map_map, Option.map_map] at htomb
  exact absurd (hwhole.symm.trans (htomb.trans heach)) (by decide)

/-- A create beside one whose payload the database refuses: it is accepted alone, not in the
batch. -/
example : (callBatch smallConfig oneDevice.now smallDevice oneDevice.db
      [smallOp 11 1 1 .bookmark 50 .create, refusedOp 12 2 51]).1.accepted = [] ∧
    (processEach smallConfig oneDevice.now smallDevice oneDevice.db
      [smallOp 11 1 1 .bookmark 50 .create, refusedOp 12 2 51]).1.flatMap BatchOutcome.accepted =
        [11] := by decide +kernel

end Server

end HelixSync
