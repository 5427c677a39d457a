import HelixSync.Server.Upload

/-!
# What an upload does

The facts about `HelixSync.processBatch` that the rest of the development uses, so that
no later proof opens it again.

* An operation is accepted exactly when it satisfies `HelixSync.Admits`, and only then
  does the validation state change (`HelixSync.validateOp_of_admits`,
  `HelixSync.validateOp_of_not_admits`).
* The accepted operations of a batch are a sublist of it whose sequences increase
  strictly and lie above the device's (`HelixSync.accepts_pairwise`,
  `HelixSync.lt_of_mem_accepts`), and the new sequence of the device is that of the last
  of them (`HelixSync.validateOps_lastSeq`).
* A successful request either changes nothing or writes the accepted operations
  (`HelixSync.processBatch_ok`), and what it writes is known field by field
  (`HelixSync.writeBatch_eq_some_iff`).
-/

namespace HelixSync

/-! ### Acceptance -/

/-- The conditions under which the validation pass accepts an operation. -/
structure Admits (ctx : BatchContext) (st : ValidationState) (op : OperationIn) : Prop where
  fresh : ctx.existing op.operationId = none
  notKnownBulk : ¬(op.isBulkHistoryImport = true ∧
    (op.objectId ∈ ctx.knownBulk ∨ op.objectKey ∈ st.originatedInBatch))
  shape : ShapeOk ctx.now ctx.requireEncryption op
  one_le : 1 ≤ op.deviceSequence
  lastSeq_lt : st.lastSeq < op.deviceSequence
  known : op.isOrigination = true ∨ op.objectKey ∈ ctx.owned ∨ op.objectKey ∈ st.originatedInBatch
  quota : ctx.storageQuotaExceeded = false

/-- The validation state after an operation is accepted. -/
def ValidationState.accept (st : ValidationState) (op : OperationIn) : ValidationState :=
  ⟨op.deviceSequence,
    if op.isOrigination then insert op.objectKey st.originatedInBatch else st.originatedInBatch⟩

instance (ctx : BatchContext) (st : ValidationState) (op : OperationIn) :
    Decidable (Admits ctx st op) :=
  decidable_of_iff
    (ctx.existing op.operationId = none ∧
      ¬(op.isBulkHistoryImport = true ∧
        (op.objectId ∈ ctx.knownBulk ∨ op.objectKey ∈ st.originatedInBatch)) ∧
      ShapeOk ctx.now ctx.requireEncryption op ∧ 1 ≤ op.deviceSequence ∧
      st.lastSeq < op.deviceSequence ∧
      (op.isOrigination = true ∨ op.objectKey ∈ ctx.owned ∨
        op.objectKey ∈ st.originatedInBatch) ∧ ctx.storageQuotaExceeded = false)
    ⟨fun ⟨h₁, h₂, h₃, h₄, h₅, h₆, h₇⟩ => ⟨h₁, h₂, h₃, h₄, h₅, h₆, h₇⟩,
      fun ⟨h₁, h₂, h₃, h₄, h₅, h₆, h₇⟩ => ⟨h₁, h₂, h₃, h₄, h₅, h₆, h₇⟩⟩

variable {ctx : BatchContext} {st : ValidationState} {op : OperationIn}

theorem validateOp_of_admits (h : Admits ctx st op) :
    validateOp ctx st op = (.accept, st.accept op) := by
  have hknown : ¬(op.isOrigination = false ∧
      op.objectKey ∉ ctx.owned ∧ op.objectKey ∉ st.originatedInBatch) := by
    rintro ⟨ho, hown, hin⟩
    rcases h.known with hk | hk | hk
    · rw [ho] at hk
      exact absurd hk (by simp)
    · exact hown hk
    · exact hin hk
  have hshape : checkOpShape ctx.now ctx.requireEncryption op = .ok () := h.shape
  unfold validateOp
  rw [h.fresh]
  dsimp only
  rw [if_neg h.notKnownBulk, hshape]
  dsimp only
  rw [if_neg (not_lt.mpr h.one_le), if_neg (not_le.mpr h.lastSeq_lt), if_neg hknown, h.quota]
  rfl

theorem validateOp_of_not_admits (h : ¬Admits ctx st op) :
    (validateOp ctx st op).1 ≠ .accept ∧ (validateOp ctx st op).2 = st := by
  unfold validateOp
  split
  · split <;> simp
  · rename_i hfresh
    split
    · simp
    · rename_i hbulk
      split
      · simp
      · rename_i hshape
        split_ifs with hone hlast hpers hknown hquota
        · simp
        · simp
        · simp
        · simp
        · simp
        all_goals
          -- every check passed, so the operation is admissible after all
          refine absurd ⟨hfresh, hbulk, hshape, not_lt.mp hone, not_le.mp hlast, ?_, ?_⟩ h
          · by_contra hk
            push Not at hk
            exact hknown ⟨by simpa using hk.1, hk.2⟩
          · simpa using hquota

/-- **A replay is a duplicate**: an operation of the right shape whose sequence the device
has passed, and whose id no other user has taken. -/
theorem validateOp_eq_duplicate
    (howner : ∀ userId, ctx.existing op.operationId = some userId → userId = ctx.userId)
    (hshape : ShapeOk ctx.now ctx.requireEncryption op) (hone : 1 ≤ op.deviceSequence)
    (hseq : op.deviceSequence ≤ ctx.persistedLastSeq) (hlast : ctx.persistedLastSeq ≤ st.lastSeq) :
    (validateOp ctx st op).1 = .duplicate := by
  have hok : checkOpShape ctx.now ctx.requireEncryption op = .ok () := hshape
  unfold validateOp
  rcases hex : ctx.existing op.operationId with _ | userId
  · dsimp only
    split
    · rfl
    · rw [hok]
      dsimp only
      rw [if_neg (not_lt.mpr hone), if_pos (le_trans hseq hlast)]
  · dsimp only
    rw [if_pos (howner userId hex)]

/-- An operation is called duplicate if the account has its id, if it is a history chunk, or
if its shape is right and the device had passed its sequence before the batch. -/
theorem validateOp_duplicate_cases (h : (validateOp ctx st op).1 = .duplicate) :
    ctx.existing op.operationId = some ctx.userId ∨ op.isBulkHistoryImport = true ∨
      ShapeOk ctx.now ctx.requireEncryption op ∧ op.deviceSequence ≤ ctx.persistedLastSeq := by
  unfold validateOp at h
  split at h
  · rename_i ownerId hex
    split at h
    · rename_i howner
      rw [hex, howner]
      exact Or.inl rfl
    · exact absurd h (by simp)
  · split at h
    · rename_i hbulk
      exact Or.inr (Or.inl hbulk.1)
    · split at h
      · exact absurd h (by simp)
      · rename_i hshape
        split_ifs at h with hone hlast hpers
        exact Or.inr (Or.inr ⟨hshape, hpers⟩)

theorem validateOps_cons (ops : List OperationIn) :
    validateOps ctx st (op :: ops) =
      ((op, (validateOp ctx st op).1) :: (validateOps ctx (validateOp ctx st op).2 ops).1,
        (validateOps ctx (validateOp ctx st op).2 ops).2) := rfl

/-- The operations of a batch that are accepted. -/
def accepts (ctx : BatchContext) (st : ValidationState) (ops : List OperationIn) :
    List OperationIn :=
  acceptedOps (validateOps ctx st ops).1

@[simp] theorem accepts_nil : accepts ctx st [] = [] := rfl

theorem accepts_cons_of_admits (h : Admits ctx st op) (ops : List OperationIn) :
    accepts ctx st (op :: ops) = op :: accepts ctx (st.accept op) ops := by
  rw [accepts, validateOps_cons, validateOp_of_admits h]
  simp [accepts, acceptedOps]

theorem accepts_cons_of_not_admits (h : ¬Admits ctx st op) (ops : List OperationIn) :
    accepts ctx st (op :: ops) = accepts ctx st ops := by
  obtain ⟨hne, hst⟩ := validateOp_of_not_admits h
  rw [accepts, validateOps_cons, hst]
  simp [accepts, acceptedOps, hne]

theorem validateOps_snd_cons_of_admits (h : Admits ctx st op) (ops : List OperationIn) :
    (validateOps ctx st (op :: ops)).2 = (validateOps ctx (st.accept op) ops).2 := by
  rw [validateOps_cons, validateOp_of_admits h]

theorem validateOps_snd_cons_of_not_admits (h : ¬Admits ctx st op) (ops : List OperationIn) :
    (validateOps ctx st (op :: ops)).2 = (validateOps ctx st ops).2 := by
  rw [validateOps_cons, (validateOp_of_not_admits h).2]

theorem accepts_sublist (ops : List OperationIn) : (accepts ctx st ops).Sublist ops := by
  induction ops generalizing st with
  | nil => exact List.Sublist.refl _
  | cons op ops ih =>
    by_cases h : Admits ctx st op
    · rw [accepts_cons_of_admits h]
      exact ih.cons_cons op
    · rw [accepts_cons_of_not_admits h]
      exact ih.cons op

/-- What holds of every accepted operation, whatever was accepted before it. -/
theorem admits_of_mem_accepts {ops : List OperationIn} (h : op ∈ accepts ctx st ops) :
    ∃ st', Admits ctx st' op ∧ st.lastSeq ≤ st'.lastSeq ∧
      st.originatedInBatch ⊆ st'.originatedInBatch := by
  induction ops generalizing st with
  | nil => exact absurd h (by simp)
  | cons o ops ih =>
    by_cases ho : Admits ctx st o
    · rw [accepts_cons_of_admits ho, List.mem_cons] at h
      rcases h with rfl | h
      · exact ⟨st, ho, le_refl _, Finset.Subset.refl _⟩
      · obtain ⟨st', hadm, hseq, horig⟩ := ih h
        refine ⟨st', hadm, le_trans (le_of_lt ho.lastSeq_lt) hseq, fun key hkey => horig ?_⟩
        simp only [ValidationState.accept]
        split
        · exact Finset.mem_insert_of_mem hkey
        · exact hkey
    · rw [accepts_cons_of_not_admits ho] at h
      exact ih h

theorem lt_of_mem_accepts {ops : List OperationIn} (h : op ∈ accepts ctx st ops) :
    st.lastSeq < op.deviceSequence := by
  obtain ⟨st', hadm, hseq, -⟩ := admits_of_mem_accepts h
  exact lt_of_le_of_lt hseq hadm.lastSeq_lt

/-- The sequences of the accepted operations increase strictly. -/
theorem accepts_pairwise (ops : List OperationIn) :
    (accepts ctx st ops).Pairwise fun a b => a.deviceSequence < b.deviceSequence := by
  induction ops generalizing st with
  | nil => exact List.Pairwise.nil
  | cons op ops ih =>
    by_cases h : Admits ctx st op
    · rw [accepts_cons_of_admits h]
      exact List.Pairwise.cons (fun o ho => lt_of_mem_accepts ho) ih
    · rw [accepts_cons_of_not_admits h]
      exact ih

theorem objectKey_of_isBulk {o : OperationIn} (h : o.isBulkHistoryImport = true) :
    o.objectKey = (.historyVisit, o.objectId) := by
  simp only [OperationIn.isBulkHistoryImport, Bool.and_eq_true, beq_iff_eq] at h
  rw [OperationIn.objectKey, h.1]

theorem isOrigination_of_isBulk {o : OperationIn} (h : o.isBulkHistoryImport = true) :
    o.isOrigination = true := by
  simp only [OperationIn.isBulkHistoryImport, Bool.and_eq_true, beq_iff_eq] at h
  rw [OperationIn.isOrigination, h.1]
  exact isOrigination_historyVisit

/-- No batch accepts two history chunks of one id. -/
theorem accepts_pairwise_bulk (ops : List OperationIn) :
    (accepts ctx st ops).Pairwise fun a b =>
      a.isBulkHistoryImport = true → b.isBulkHistoryImport = true → a.objectId ≠ b.objectId := by
  induction ops generalizing st with
  | nil => exact List.Pairwise.nil
  | cons op ops ih =>
    by_cases h : Admits ctx st op
    · rw [accepts_cons_of_admits h]
      refine List.Pairwise.cons (fun o ho ha hb heq => ?_) ih
      -- the first chunk is among the objects originated when the second is validated
      obtain ⟨st', hadm, -, horig⟩ := admits_of_mem_accepts ho
      refine hadm.notKnownBulk ⟨hb, Or.inr (horig ?_)⟩
      rw [objectKey_of_isBulk hb, ← heq, ← objectKey_of_isBulk ha]
      simp [ValidationState.accept, isOrigination_of_isBulk ha]
    · rw [accepts_cons_of_not_admits h]
      exact ih

/-- The sequence a batch leaves the device with: that of the last accepted operation. -/
theorem validateOps_lastSeq (ops : List OperationIn) :
    (validateOps ctx st ops).2.lastSeq =
      ((accepts ctx st ops).getLast?.map OperationIn.deviceSequence).getD st.lastSeq := by
  induction ops generalizing st with
  | nil => rfl
  | cons op ops ih =>
    by_cases h : Admits ctx st op
    · rw [accepts_cons_of_admits h, validateOps_snd_cons_of_admits h, ih, List.getLast?_cons]
      cases (accepts ctx (st.accept op) ops).getLast? <;> rfl
    · rw [accepts_cons_of_not_admits h, validateOps_snd_cons_of_not_admits h, ih]

/-- Every accepted sequence is at most the one the batch leaves. -/
theorem le_lastSeq_of_mem_accepts {ops : List OperationIn} (h : op ∈ accepts ctx st ops) :
    op.deviceSequence ≤ (validateOps ctx st ops).2.lastSeq := by
  rw [validateOps_lastSeq]
  have hpair : (accepts ctx st ops).Pairwise fun a b => a.deviceSequence < b.deviceSequence :=
    accepts_pairwise ops
  obtain ⟨init, last, hlast⟩ := List.eq_nil_or_concat (accepts ctx st ops) |>.resolve_left
    (List.ne_nil_of_mem h)
  rw [hlast] at h hpair ⊢
  rw [List.concat_eq_append] at h hpair ⊢
  rw [List.getLast?_append_of_ne_nil _ (by simp)]
  simp only [List.getLast?_singleton, Option.map_some, Option.getD_some]
  rcases List.mem_append.mp h with h | h
  · exact le_of_lt ((List.pairwise_append.mp hpair).2.2 op h last (by simp))
  · rw [List.mem_singleton.mp h]

theorem le_validateOps_lastSeq (ops : List OperationIn) :
    st.lastSeq ≤ (validateOps ctx st ops).2.lastSeq := by
  rcases hempty : accepts ctx st ops with _ | ⟨op, rest⟩
  · rw [validateOps_lastSeq, hempty]
    exact le_refl _
  · have hmem : op ∈ accepts ctx st ops := by rw [hempty]; exact List.mem_cons_self
    exact le_trans (le_of_lt (lt_of_mem_accepts hmem)) (le_lastSeq_of_mem_accepts hmem)

/-- Every operation of a batch is validated in some state the pass goes through. -/
theorem exists_mem_validateOps {ops : List OperationIn} (h : op ∈ ops) :
    ∃ st', (op, (validateOp ctx st' op).1) ∈ (validateOps ctx st ops).1 ∧
      st.lastSeq ≤ st'.lastSeq := by
  induction ops generalizing st with
  | nil => exact absurd h (by simp)
  | cons o ops ih =>
    rw [validateOps_cons]
    rcases List.mem_cons.mp h with rfl | h
    · exact ⟨st, List.mem_cons_self, le_refl _⟩
    · obtain ⟨st', hmem, hle⟩ := @ih (validateOp ctx st o).2 h
      refine ⟨st', List.mem_cons_of_mem _ hmem, le_trans ?_ hle⟩
      by_cases ho : Admits ctx st o
      · rw [validateOp_of_admits ho]
        exact le_of_lt ho.lastSeq_lt
      · rw [(validateOp_of_not_admits ho).2]

/-- Every decision is one about an operation of the batch. -/
theorem exists_of_mem_validateOps {ops : List OperationIn} {decision : Decision}
    (h : (op, decision) ∈ (validateOps ctx st ops).1) :
    op ∈ ops ∧ ∃ st', (validateOp ctx st' op).1 = decision := by
  induction ops generalizing st with
  | nil => exact absurd h List.not_mem_nil
  | cons o ops ih =>
    rw [validateOps_cons] at h
    rcases List.mem_cons.mp h with h | h
    · obtain ⟨rfl, rfl⟩ := Prod.mk.inj h
      exact ⟨List.mem_cons_self, st, rfl⟩
    · obtain ⟨hmem, hst⟩ := ih h
      exact ⟨List.mem_cons_of_mem _ hmem, hst⟩

/-! ### The rows of a batch -/

/-- The rows of `sync_operations` a list of accepted operations becomes. -/
def batchRows (now : DateTime) (device : AuthenticatedDevice) (start : ℕ)
    (accepted : List OperationIn) : List OperationRow :=
  (numbered start accepted).map fun entry => operationRow now device entry.1 entry.2

section Rows

variable {now : DateTime} {device : AuthenticatedDevice} {start : ℕ} {accepted : List OperationIn}
  {row : OperationRow}

@[simp] theorem length_numbered (start : ℕ) (ops : List OperationIn) :
    (numbered start ops).length = ops.length := by
  induction ops generalizing start with
  | nil => rfl
  | cons op ops ih => simp [numbered, ih]

theorem map_snd_numbered (start : ℕ) (ops : List OperationIn) :
    (numbered start ops).map Prod.snd = ops := by
  induction ops generalizing start with
  | nil => rfl
  | cons op ops ih => simp [numbered, ih]

theorem map_fst_numbered (start : ℕ) (ops : List OperationIn) :
    (numbered start ops).map Prod.fst = List.range' start ops.length := by
  induction ops generalizing start with
  | nil => rfl
  | cons op ops ih => simp [numbered, ih, List.range'_succ]

@[simp] theorem length_batchRows : (batchRows now device start accepted).length = accepted.length := by
  simp [batchRows]

@[simp] theorem batchRows_nil : batchRows now device start [] = [] := rfl

theorem batchRows_cons (op : OperationIn) :
    batchRows now device start (op :: accepted) =
      operationRow now device start op :: batchRows now device (start + 1) accepted := rfl

/-- The cursors of a batch are a block of consecutive numbers. -/
theorem map_serverCursor_batchRows :
    (batchRows now device start accepted).map OperationRow.serverCursor =
      List.range' start accepted.length := by
  rw [← map_fst_numbered, batchRows, List.map_map]
  rfl

theorem map_operationId_batchRows :
    (batchRows now device start accepted).map OperationRow.operationId =
      accepted.map OperationIn.operationId := by
  conv_rhs => rw [← map_snd_numbered start accepted, List.map_map]
  rw [batchRows, List.map_map]
  rfl

/-- A row of a batch is the row of one of its operations, at a cursor of its block. -/
theorem exists_of_mem_batchRows (h : row ∈ batchRows now device start accepted) :
    ∃ op ∈ accepted, ∃ cursor, start ≤ cursor ∧ cursor < start + accepted.length ∧
      row = operationRow now device cursor op := by
  obtain ⟨entry, hentry, rfl⟩ := List.mem_map.mp h
  refine ⟨entry.2, ?_, entry.1, ?_⟩
  · rw [← map_snd_numbered start accepted]
    exact List.mem_map_of_mem hentry
  · have hcursor : entry.1 ∈ List.range' start accepted.length := by
      rw [← map_fst_numbered]
      exact List.mem_map_of_mem hentry
    rw [List.mem_range'_1] at hcursor
    exact ⟨hcursor.1, hcursor.2, rfl⟩

theorem exists_of_mem_accepted {op : OperationIn} (h : op ∈ accepted) :
    ∃ cursor, operationRow now device cursor op ∈ batchRows now device start accepted := by
  rw [← map_snd_numbered start accepted] at h
  obtain ⟨entry, hentry, rfl⟩ := List.mem_map.mp h
  exact ⟨entry.1, List.mem_map_of_mem hentry⟩

/-- A relation between the operations of a batch, in order, carries over to its rows. -/
theorem pairwise_batchRows {R : OperationRow → OperationRow → Prop}
    {S : OperationIn → OperationIn → Prop} (h : accepted.Pairwise S)
    (hRS : ∀ a b i j, i < j → S a b → R (operationRow now device i a) (operationRow now device j b)) :
    (batchRows now device start accepted).Pairwise R := by
  induction accepted generalizing start with
  | nil => exact List.Pairwise.nil
  | cons op ops ih =>
    obtain ⟨hhead, htail⟩ := List.pairwise_cons.mp h
    rw [batchRows_cons]
    refine List.Pairwise.cons (fun row hrow => ?_) (ih htail)
    obtain ⟨o, ho, cursor, hlo, -, rfl⟩ := exists_of_mem_batchRows hrow
    exact hRS op o start cursor (by omega) (hhead o ho)

theorem userId_of_mem_batchRows (h : row ∈ batchRows now device start accepted) :
    row.userId = device.userId := by
  obtain ⟨op, -, cursor, -, -, rfl⟩ := exists_of_mem_batchRows h
  rfl

/-- The rows of a batch all belong to the user of its device. -/
theorem filter_userId_batchRows (userId : Uuid) :
    (batchRows now device start accepted).filter (fun row => row.userId = userId) =
      if userId = device.userId then batchRows now device start accepted else [] := by
  split
  · rename_i hu
    refine List.filter_eq_self.mpr fun row hrow => ?_
    rw [userId_of_mem_batchRows hrow, hu]
    exact decide_eq_true rfl
  · rename_i hu
    refine List.filter_eq_nil_iff.mpr fun row hrow => ?_
    rw [userId_of_mem_batchRows hrow]
    simpa using Ne.symm hu

theorem cursor_of_mem_batchRows (h : row ∈ batchRows now device start accepted) :
    start ≤ row.serverCursor ∧ row.serverCursor < start + accepted.length := by
  obtain ⟨op, -, cursor, hlo, hhi, rfl⟩ := exists_of_mem_batchRows h
  exact ⟨hlo, hhi⟩

end Rows

/-! ### What is collected -/

section Collected

variable {entries : List (ℕ × OperationIn)}

theorem batchWrites_append_singleton (entries : List (ℕ × OperationIn)) (e : ℕ × OperationIn) :
    batchWrites (entries ++ [e]) = (batchWrites entries).collect e := by
  simp [batchWrites]

/-- A set the write pass collects: what some of the operations contribute. -/
theorem mem_collected {α : Type} [DecidableEq α] {field : BatchWrites → Finset α}
    {p : OperationIn → Bool} {f : OperationIn → α} (hempty : field BatchWrites.empty = ∅)
    (hcollect : ∀ w e, field (BatchWrites.collect w e) =
      if p e.2 = true then insert (f e.2) (field w) else field w) {x : α} :
    x ∈ field (batchWrites entries) ↔ ∃ e ∈ entries, p e.2 = true ∧ f e.2 = x := by
  induction entries using List.reverseRecOn with
  | nil => simp [batchWrites, hempty]
  | append_singleton entries e ih =>
    rw [batchWrites_append_singleton, hcollect]
    by_cases hp : p e.2 = true
    · rw [if_pos hp, Finset.mem_insert, ih]
      simp only [List.mem_append, List.mem_singleton, or_and_right, exists_or, exists_eq_left, hp,
        true_and]
      rw [or_comm, eq_comm]
    · rw [if_neg hp, ih]
      simp only [List.mem_append, List.mem_singleton, or_and_right, exists_or, exists_eq_left, hp,
        false_and, or_false, Bool.false_eq_true]

theorem mem_originations {key : ObjectKey} :
    key ∈ (batchWrites entries).originations ↔
      ∃ e ∈ entries, e.2.isOrigination = true ∧ e.2.objectKey = key :=
  mem_collected rfl fun _ _ => rfl

theorem mem_bulkObjectIds {id : Uuid} :
    id ∈ (batchWrites entries).bulkObjectIds ↔
      ∃ e ∈ entries, e.2.isBulkHistoryImport = true ∧ e.2.objectId = id :=
  mem_collected rfl fun _ _ => rfl

theorem mem_restores {key : ObjectKey} :
    key ∈ (batchWrites entries).restores ↔
      ∃ e ∈ entries, e.2.isRestore = true ∧ e.2.objectKey = key := by
  refine mem_collected rfl fun w e => ?_
  rw [BatchWrites.collect]
  dsimp only
  split
  · rename_i hterm
    rw [if_neg]
    rw [OperationIn.isRestore, not_isRestore_of_isTerminal hterm]
    simp
  · rfl

/-- The tombstone collected for an object is that of its last terminal operation. -/
theorem get_tombstones (key : ObjectKey) :
    (batchWrites entries).tombstones.get key =
      (entries.filter fun e => e.2.isTerminal = true ∧ e.2.objectKey = key).getLast?.map fun e =>
        ⟨e.1, e.2.lamportTimestamp, e.2.operationId⟩ := by
  induction entries using List.reverseRecOn with
  | nil => rfl
  | append_singleton entries e ih =>
    rw [batchWrites_append_singleton, BatchWrites.collect, List.filter_append]
    dsimp only
    by_cases hterm : e.2.isTerminal = true
    · rw [if_pos hterm, FinMap.get_insert]
      by_cases hkey : key = e.2.objectKey
      · simp [hterm, hkey]
      · simp [hterm, hkey, Ne.symm hkey, ih]
    · rw [if_neg hterm, ih]
      simp [hterm]

/-- The ledger rows of a batch: all originations but single history visits. -/
theorem mem_ledgerKeys {key : ObjectKey} :
    key ∈ (batchWrites entries).ledgerKeys ↔
      ∃ e ∈ entries, e.2.objectKey = key ∧ e.2.isOrigination = true ∧
        (key.1 ≠ .historyVisit ∨
          ∃ e' ∈ entries, e'.2.isBulkHistoryImport = true ∧ e'.2.objectKey = key) := by
  have hbulk : ∀ e : ℕ × OperationIn, e.2.isBulkHistoryImport = true →
      e.2.objectType = .historyVisit := by
    intro e h
    simp only [OperationIn.isBulkHistoryImport, Bool.and_eq_true, beq_iff_eq] at h
    exact h.1
  rw [BatchWrites.ledgerKeys, Finset.mem_filter, mem_originations, mem_bulkObjectIds]
  constructor
  · rintro ⟨⟨e, he, ho, hkey⟩, hkind⟩
    refine ⟨e, he, hkey, ho, ?_⟩
    by_cases ht : key.1 = .historyVisit
    · obtain ⟨e', he', hb, hid⟩ := hkind.resolve_left (not_not.mpr ht)
      refine Or.inr ⟨e', he', hb, Prod.ext ?_ hid⟩
      exact (hbulk e' hb).trans ht.symm
    · exact Or.inl ht
  · rintro ⟨e, he, hkey, ho, hkind⟩
    refine ⟨⟨e, he, ho, hkey⟩, hkind.imp_right ?_⟩
    rintro ⟨e', he', hb, rfl⟩
    exact ⟨e', he', hb, rfl⟩

end Collected

/-! ### The writes -/

section Writes

variable {now : DateTime} {device : AuthenticatedDevice} {accepted : List OperationIn}
  {lastSeq : ℤ} {db db' : Db}

/-- What the accepted operations of a batch are collected into. -/
def Db.writesOf (db : Db) (userId : Uuid) (accepted : List OperationIn) : BatchWrites :=
  batchWrites (numbered (db.currentCursor userId + 1) accepted)

/-- **The write half of a batch**, field by field. It fails only on a unique
violation or on an operation that cannot be stored. -/
theorem writeBatch_eq_some_iff :
    writeBatch now device accepted lastSeq db = some db' ↔
      (∀ op ∈ accepted, op.isStorable = true) ∧ ∃ table : OperationTable,
        table.rows = db.syncOperations.rows ++
          batchRows now device (db.currentCursor device.userId + 1) accepted ∧
        db' = { db with
          syncOperations := table
          cursorAllocator := Function.update db.cursorAllocator device.userId
            (some (db.currentCursor device.userId + accepted.length))
          syncObjects := db.syncObjects ∪ (db.writesOf device.userId accepted).ledgerKeys.image
            fun key => (device.userId, key)
          tombstones := Function.update db.tombstones device.userId fun key =>
            (db.writesOf device.userId accepted).writeTombstone now device.deviceId key
              (db.tombstones device.userId key)
          syncStats := Function.update db.syncStats device.userId
            (addStats ((db.writesOf device.userId accepted).liveDelta db device.userId bookmarkTypes)
              ((db.writesOf device.userId accepted).liveDelta db device.userId tabTypes)
              ((batchRows now device (db.currentCursor device.userId + 1) accepted).map
                OperationRow.payloadBytes).sum
              (db.syncStats device.userId))
          historyVisitHours := Function.update db.historyVisitHours device.userId fun hour =>
            addVisits ((db.writesOf device.userId accepted).hourBuckets hour)
              (db.historyVisitHours device.userId hour)
          devices := (db.updateDevice device.deviceId
            fun d => { d with lastDeviceSequence := lastSeq }).devices } := by
  have hstart : db.currentCursor device.userId + accepted.length - accepted.length + 1 =
      db.currentCursor device.userId + 1 := by omega
  unfold writeBatch writeBlock reserveBlock
  by_cases hstorable : accepted.all OperationIn.isStorable = true
  · simp only [hstart, hstorable, Bool.not_true, Bool.false_eq_true, if_false,
      Option.map_eq_some_iff, OperationTable.insert?_eq_some_iff]
    rw [and_iff_right (List.all_eq_true.mp hstorable)]
    constructor
    · rintro ⟨table, hrows, rfl⟩
      exact ⟨table, hrows, rfl⟩
    · rintro ⟨table, hrows, rfl⟩
      exact ⟨table, hrows, rfl⟩
  · rw [if_pos (by simpa using hstorable)]
    exact iff_of_false (by simp) fun h => hstorable (List.all_eq_true.mpr h.1)

/-- The log of each user after a write. -/
theorem userRows_writeBatch (h : writeBatch now device accepted lastSeq db = some db')
    (userId : Uuid) :
    db'.userRows userId = db.userRows userId ++ if userId = device.userId then
      batchRows now device (db.currentCursor device.userId + 1) accepted else [] := by
  obtain ⟨table, htable, rfl⟩ := (writeBatch_eq_some_iff.mp h).2
  rw [Db.userRows, htable, List.filter_append, Db.userRows, filter_userId_batchRows]

theorem currentCursor_writeBatch (h : writeBatch now device accepted lastSeq db = some db')
    (userId : Uuid) :
    db'.currentCursor userId =
      if userId = device.userId then db.currentCursor userId + accepted.length
      else db.currentCursor userId := by
  obtain ⟨table, -, rfl⟩ := (writeBatch_eq_some_iff.mp h).2
  simp only [Db.currentCursor, Function.update_apply]
  by_cases hu : userId = device.userId
  · subst hu
    simp
  · simp [hu]

/-- A write extends the cursors of its user by the next block. -/
theorem range_append_writeBatch (h : writeBatch now device accepted lastSeq db = some db')
    (userId : Uuid) :
    List.range' 1 (db.currentCursor userId) ++ (if userId = device.userId then
        batchRows now device (db.currentCursor device.userId + 1) accepted else []).map
          OperationRow.serverCursor = List.range' 1 (db'.currentCursor userId) := by
  rw [currentCursor_writeBatch h]
  split
  · rename_i hu
    rw [map_serverCursor_batchRows, hu, Nat.add_comm _ 1, ← List.range'_append_1]
  · rw [List.map_nil, List.append_nil]

end Writes

/-! ### The handler -/

section Handler

variable {cfg : Config} {now : DateTime} {device : AuthenticatedDevice} {ops : List OperationIn}
  {db db' : Db} {out : BatchOutcome}

/-- The operations of a batch that a database accepts. -/
def Db.accepts (cfg : Config) (now : DateTime) (db : Db) (device : AuthenticatedDevice)
    (d : DeviceRow) (ops : List OperationIn) : List OperationIn :=
  HelixSync.accepts (batchContext cfg now db device d.lastDeviceSequence ops)
    ⟨d.lastDeviceSequence, ∅⟩ ops

/-- The sequence a batch leaves its device with. -/
def Db.lastSeqAfter (cfg : Config) (now : DateTime) (db : Db) (device : AuthenticatedDevice)
    (d : DeviceRow) (ops : List OperationIn) : ℤ :=
  (validateBatch cfg now db device d ops).2.lastSeq

/-- **A successful upload** changes nothing, or writes what it accepted. -/
theorem processBatch_ok (h : processBatch cfg now db device ops = .ok (out, db')) :
    (db' = db ∧ ∀ d, db.device? device.deviceId = some d → db.accepts cfg now device d ops = []) ∨
    ∃ d, db.device? device.deviceId = some d ∧ db.accepts cfg now device d ops ≠ [] ∧
      writeBatch now device (db.accepts cfg now device d ops)
        (db.lastSeqAfter cfg now device d ops) db = some db' := by
  unfold processBatch at h
  split at h
  · rename_i hempty
    obtain ⟨-, rfl⟩ := Prod.mk.inj (Except.ok.inj h)
    rw [List.isEmpty_iff.mp hempty]
    exact Or.inl ⟨rfl, fun _ _ => rfl⟩
  · split at h
    · exact absurd h (by simp)
    · rename_i d hd
      dsimp only at h
      split at h
      · rename_i hnone
        obtain ⟨-, rfl⟩ := Prod.mk.inj (Except.ok.inj h)
        refine Or.inl ⟨rfl, fun d' hd' => ?_⟩
        obtain rfl := Option.some.inj (hd.symm.trans hd')
        exact List.isEmpty_iff.mp hnone
      · rename_i hne
        split at h
        · exact absurd h (by simp)
        · rename_i db'' hwrite
          obtain ⟨-, rfl⟩ := Prod.mk.inj (Except.ok.inj h)
          exact Or.inr ⟨d, hd, fun hnil => hne (List.isEmpty_iff.mpr hnil), hwrite⟩

/-- The ledger only grows, and holds every history chunk that was accepted. -/
theorem ledger_processBatch {d : DeviceRow} (hd : db.device? device.deviceId = some d)
    (h : processBatch cfg now db device ops = .ok (out, db')) :
    db'.userSettings = db.userSettings ∧ db.syncObjects ⊆ db'.syncObjects ∧
      ∀ o ∈ db.accepts cfg now device d ops, o.isBulkHistoryImport = true →
        (device.userId, o.objectKey) ∈ db'.syncObjects := by
  rcases processBatch_ok h with ⟨rfl, hnone⟩ | ⟨d', hd', -, hwrite⟩
  · refine ⟨rfl, Finset.Subset.refl _, fun o ho => ?_⟩
    rw [hnone d hd] at ho
    exact absurd ho (by simp)
  · obtain rfl := Option.some.inj (hd.symm.trans hd')
    obtain ⟨table, -, rfl⟩ := (writeBatch_eq_some_iff.mp hwrite).2
    refine ⟨rfl, Finset.subset_union_left, fun o ho hb => ?_⟩
    refine Finset.mem_union_right _ (Finset.mem_image.mpr ⟨o.objectKey, ?_, rfl⟩)
    rw [Db.writesOf, mem_ledgerKeys]
    rw [← map_snd_numbered (db.currentCursor device.userId + 1) (db.accepts cfg now device d ops),
      List.mem_map] at ho
    obtain ⟨e, he, rfl⟩ := ho
    exact ⟨e, he, rfl, isOrigination_of_isBulk hb, Or.inr ⟨e, he, hb, rfl⟩⟩

/-- A history chunk is accepted only if the ledger does not hold it. -/
theorem not_mem_ledger_of_accepts {d : DeviceRow} {o : OperationIn}
    (ho : o ∈ db.accepts cfg now device d ops) (hb : o.isBulkHistoryImport = true) :
    (device.userId, o.objectKey) ∉ db.syncObjects := by
  intro hmem
  obtain ⟨st', hadm, -, -⟩ := admits_of_mem_accepts ho
  refine hadm.notKnownBulk ⟨hb, Or.inl ?_⟩
  change o.objectId ∈ db.knownBulk device.userId ops
  unfold Db.knownBulk
  rw [Finset.mem_filter, List.mem_toFinset, List.mem_map, ← objectKey_of_isBulk hb]
  have hfresh : db.operationOwner? o.operationId = none := hadm.fresh
  exact ⟨⟨o, List.mem_filter.mpr ⟨(accepts_sublist _).mem ho, by simp [hfresh, hb]⟩, rfl⟩, hmem⟩

theorem processBatch_outcome {d : DeviceRow} (hd : db.device? device.deviceId = some d)
    (h : processBatch cfg now db device ops = .ok (out, db')) :
    ∃ cursor, out = outcomeOf (validateBatch cfg now db device d ops).1 cursor := by
  unfold processBatch at h
  split at h
  · rename_i hempty
    obtain ⟨rfl, -⟩ := Prod.mk.inj (Except.ok.inj h)
    rw [List.isEmpty_iff.mp hempty]
    exact ⟨_, rfl⟩
  · rw [hd] at h
    dsimp only at h
    split at h
    · obtain ⟨rfl, -⟩ := Prod.mk.inj (Except.ok.inj h)
      exact ⟨_, rfl⟩
    · split at h
      · exact absurd h (by simp)
      · obtain ⟨rfl, -⟩ := Prod.mk.inj (Except.ok.inj h)
        exact ⟨_, rfl⟩

/-- The ids a response calls accepted are those of the accepted operations. -/
theorem accepted_outcomeOf (decisions : List (OperationIn × Decision)) (cursor : ℕ) :
    (outcomeOf decisions cursor).accepted = (acceptedOps decisions).map OperationIn.operationId := by
  induction decisions with
  | nil => rfl
  | cons d ds ih =>
    obtain ⟨o, dec⟩ := d
    simp only [outcomeOf, acceptedOps] at ih ⊢
    cases dec <;> simp [ih]

theorem mem_duplicate_outcomeOf {decisions : List (OperationIn × Decision)} {cursor : ℕ}
    {o : OperationIn} (h : (o, Decision.duplicate) ∈ decisions) :
    o.operationId ∈ (outcomeOf decisions cursor).duplicate :=
  List.mem_filterMap.mpr ⟨_, h, rfl⟩

theorem exists_of_mem_duplicate {decisions : List (OperationIn × Decision)} {cursor : ℕ}
    {id : Uuid} (h : id ∈ (outcomeOf decisions cursor).duplicate) :
    ∃ o, (o, Decision.duplicate) ∈ decisions ∧ o.operationId = id := by
  obtain ⟨⟨o, decision⟩, hmem, hsome⟩ := List.mem_filterMap.mp h
  cases decision with
  | duplicate => exact ⟨o, hmem, Option.some.inj hsome⟩
  | rejected reason => exact absurd hsome (by simp)
  | accept => exact absurd hsome (by simp)

theorem operationOwner?_eq_none_iff {id : Uuid} :
    db.operationOwner? id = none ↔ ∀ row ∈ db.syncOperations.rows, row.operationId ≠ id := by
  simp [Db.operationOwner?, List.find?_eq_none]

theorem exists_of_operationOwner? {id userId : Uuid} (h : db.operationOwner? id = some userId) :
    ∃ row ∈ db.syncOperations.rows, row.operationId = id ∧ row.userId = userId := by
  obtain ⟨row, hfind, rfl⟩ := Option.map_eq_some_iff.mp h
  exact ⟨row, List.mem_of_find?_eq_some hfind, by simpa using List.find?_some hfind, rfl⟩

/-- **A write does not fail** when what it accepts has distinct ids and can be stored and the log
agrees with the device's sequence and the allocator. -/
theorem exists_writeBatch_of_accepts {d : DeviceRow}
    (hids : ((db.accepts cfg now device d ops).map OperationIn.operationId).Nodup)
    (hstorable : ∀ op ∈ db.accepts cfg now device d ops, op.isStorable = true)
    (hseq : ∀ row ∈ db.syncOperations.rows, row.deviceId = device.deviceId →
      row.deviceSequence ≤ d.lastDeviceSequence)
    (hcursor : ∀ row ∈ db.syncOperations.rows, row.userId = device.userId →
      row.serverCursor ≤ db.currentCursor device.userId) (lastSeq : ℤ) :
    ∃ db', writeBatch now device (db.accepts cfg now device d ops) lastSeq db = some db' := by
  set accepted := db.accepts cfg now device d ops with haccepted
  set rows := batchRows now device (db.currentCursor device.userId + 1) accepted with hrows
  have hids' : accepted.Pairwise fun a b => a.operationId ≠ b.operationId :=
    List.pairwise_map.mp hids
  have hseqs : accepted.Pairwise fun a b => a.deviceSequence < b.deviceSequence :=
    accepts_pairwise _
  have hdistinct : (db.syncOperations.rows ++ rows).Pairwise OperationRow.Distinct := by
    rw [List.pairwise_append]
    refine ⟨db.syncOperations.unique, ?_, fun a ha b hb => ?_⟩
    · refine pairwise_batchRows (hids'.and hseqs) ?_
      rintro a b i j hij ⟨hid, hs⟩
      refine ⟨hid, fun h => ?_, fun h => ?_⟩
      · exact absurd (Prod.mk.inj h).2 (ne_of_lt hs)
      · exact absurd (Prod.mk.inj h).2 (ne_of_lt hij)
    · obtain ⟨op, hop, cursor, hlo, -, rfl⟩ := exists_of_mem_batchRows hb
      obtain ⟨st', hadm, -, -⟩ := admits_of_mem_accepts hop
      refine ⟨operationOwner?_eq_none_iff.mp hadm.fresh a ha, fun h => ?_, fun h => ?_⟩
      · obtain ⟨hdev, hs⟩ := Prod.mk.inj h
        have hlt : d.lastDeviceSequence < op.deviceSequence := lt_of_mem_accepts hop
        exact absurd (hseq a ha hdev) (not_le.mpr (hs ▸ hlt))
      · obtain ⟨hu, hc⟩ := Prod.mk.inj h
        have hle := hcursor a ha hu
        rw [hc] at hle
        exact absurd (le_trans hlo hle) (by omega)
  refine ⟨_, writeBatch_eq_some_iff.mpr ⟨hstorable, ⟨_, hdistinct⟩, rfl, rfl⟩⟩

theorem exists_writeBatch {d : DeviceRow} (hids : (ops.map OperationIn.operationId).Nodup)
    (hstorable : ∀ op ∈ db.accepts cfg now device d ops, op.isStorable = true)
    (hseq : ∀ row ∈ db.syncOperations.rows, row.deviceId = device.deviceId →
      row.deviceSequence ≤ d.lastDeviceSequence)
    (hcursor : ∀ row ∈ db.syncOperations.rows, row.userId = device.userId →
      row.serverCursor ≤ db.currentCursor device.userId) (lastSeq : ℤ) :
    ∃ db', writeBatch now device (db.accepts cfg now device d ops) lastSeq db = some db' :=
  exists_writeBatch_of_accepts (hids.sublist ((accepts_sublist _).map _)) hstorable hseq hcursor
    lastSeq

/-- A request from a known device succeeds, unless the write fails. -/
theorem exists_processBatch {d : DeviceRow} (hd : db.device? device.deviceId = some d)
    (hwrite : ∃ db', writeBatch now device (db.accepts cfg now device d ops)
      (db.lastSeqAfter cfg now device d ops) db = some db') :
    ∃ out db', processBatch cfg now db device ops = .ok (out, db') := by
  obtain ⟨db', hwrite⟩ := hwrite
  have hwrite' : writeBatch now device (acceptedOps (validateBatch cfg now db device d ops).1)
      (validateBatch cfg now db device d ops).2.lastSeq db = some db' := hwrite
  unfold processBatch
  split
  · exact ⟨_, _, rfl⟩
  · rw [hd]
    dsimp only
    split
    · exact ⟨_, _, rfl⟩
    · rw [hwrite']
      exact ⟨_, _, rfl⟩

end Handler

/-! ### Batches in sequence order -/

section Order

variable {cfg : Config} {now : DateTime} {db : Db} {device : AuthenticatedDevice} {d : DeviceRow}
  {ops : List OperationIn}

/-- An accepted operation is validated after the accepted operations that originate what the
batch originated by then. -/
theorem originated_of_mem_accepts (h : op ∈ accepts ctx st ops) :
    ∃ st', Admits ctx st' op ∧ st.lastSeq ≤ st'.lastSeq ∧ ∀ key ∈ st'.originatedInBatch,
      key ∈ st.originatedInBatch ∨ ∃ c ∈ accepts ctx st ops,
        c.isOrigination = true ∧ c.objectKey = key ∧ c.deviceSequence < op.deviceSequence := by
  induction ops generalizing st with
  | nil => exact absurd h List.not_mem_nil
  | cons o ops ih =>
    by_cases ho : Admits ctx st o
    · rw [accepts_cons_of_admits ho] at h ⊢
      rcases List.mem_cons.mp h with rfl | h
      · exact ⟨st, ho, le_refl _, fun key hkey => Or.inl hkey⟩
      · obtain ⟨st', hadm, hseq, horig⟩ := ih h
        refine ⟨st', hadm, le_trans (le_of_lt ho.lastSeq_lt) hseq, fun key hkey => ?_⟩
        rcases horig key hkey with hin | ⟨c, hc, hrest⟩
        · by_cases hor : o.isOrigination = true
          · simp only [ValidationState.accept, hor, if_true, Finset.mem_insert] at hin
            rcases hin with rfl | hin
            · exact Or.inr ⟨o, List.mem_cons_self, hor, rfl, lt_of_mem_accepts h⟩
            · exact Or.inl hin
          · simp only [ValidationState.accept, hor] at hin
            exact Or.inl hin
        · exact Or.inr ⟨c, List.mem_cons_of_mem _ hc, hrest⟩
    · rw [accepts_cons_of_not_admits ho] at h ⊢
      exact ih h

/-- The checks that concern one operation: its id is not stored, its shape is right, its
sequence is above the device's, it is no stored history chunk, and the account is below
its quota. -/
structure Db.Ready (cfg : Config) (now : DateTime) (db : Db) (device : AuthenticatedDevice)
    (d : DeviceRow) (op : OperationIn) : Prop where
  fresh : db.operationOwner? op.operationId = none
  notKnownBulk : op.isBulkHistoryImport = true → (device.userId, op.objectKey) ∉ db.syncObjects
  shape : ShapeOk now (cfg.requireEncryption
    || ((db.userSettings device.userId).map UserSettings.requireEncryption).getD false) op
  one_le : 1 ≤ op.deviceSequence
  lastSeq_lt : d.lastDeviceSequence < op.deviceSequence
  quota : db.storageQuotaExceeded cfg device.userId = false

/-- The check that concerns the batch: the operation introduces its object, or the account
has the object, or an earlier operation of the batch introduces it. -/
def Db.Acceptable (cfg : Config) (now : DateTime) (db : Db) (device : AuthenticatedDevice)
    (d : DeviceRow) (ops : List OperationIn) (op : OperationIn) : Prop :=
  db.Ready cfg now device d op ∧
    (op.isOrigination = true ∨ (device.userId, op.objectKey) ∈ db.syncObjects ∨
      ∃ c ∈ ops, c.deviceSequence < op.deviceSequence ∧ c.isOrigination = true ∧
        c.objectKey = op.objectKey ∧ db.Ready cfg now device d c)

theorem mem_knownBulk {id : Uuid} (h : id ∈ db.knownBulk device.userId ops) :
    (device.userId, (ObjectType.historyVisit, id)) ∈ db.syncObjects :=
  (Finset.mem_filter.mp h).2

theorem mem_ownedObjects {key : ObjectKey} (h : key ∈ db.ownedObjects device.userId ops) :
    (device.userId, key) ∈ db.syncObjects :=
  (Finset.mem_filter.mp h).2

theorem mem_ownedObjects_of_mem (hop : op ∈ ops) (hfresh : db.operationOwner? op.operationId = none)
    (horig : op.isOrigination = false) (h : (device.userId, op.objectKey) ∈ db.syncObjects) :
    op.objectKey ∈ db.ownedObjects device.userId ops := by
  refine Finset.mem_filter.mpr ⟨List.mem_toFinset.mpr (List.mem_map_of_mem ?_), h⟩
  exact List.mem_filter.mpr ⟨hop, by simp [hfresh, horig]⟩

/-- Every accepted operation passes the checks that concern it alone. -/
theorem ready_of_mem_accepts (h : op ∈ db.accepts cfg now device d ops) :
    db.Ready cfg now device d op := by
  obtain ⟨st', hadm, hle, -⟩ := admits_of_mem_accepts h
  exact ⟨hadm.fresh, not_mem_ledger_of_accepts h, hadm.shape, hadm.one_le,
    lt_of_le_of_lt hle hadm.lastSeq_lt, hadm.quota⟩

/-- **What is accepted is acceptable.** -/
theorem acceptable_of_mem_accepts (h : op ∈ db.accepts cfg now device d ops) :
    db.Acceptable cfg now device d ops op := by
  refine ⟨ready_of_mem_accepts h, ?_⟩
  obtain ⟨st', hadm, -, horig⟩ := originated_of_mem_accepts h
  rcases hadm.known with hk | hk | hk
  · exact Or.inl hk
  · exact Or.inr (Or.inl (mem_ownedObjects hk))
  · rcases horig _ hk with hin | ⟨c, hc, ho, hkey, hlt⟩
    · exact absurd hin (Finset.notMem_empty _)
    · exact Or.inr (Or.inr ⟨c, (accepts_sublist ops).mem hc, hlt, ho, hkey,
        ready_of_mem_accepts hc⟩)

/-- The induction behind `mem_accepts_of_acceptable`: `whole` is the batch, `ops` what is
left of it, and the state knows every origination that was ready before. -/
theorem mem_accepts_of_acceptable_aux {whole : List OperationIn}
    (hbulk : ∀ op ∈ whole, op.isBulkHistoryImport = false) :
    ∀ (ops : List OperationIn) (st : ValidationState), (∀ o ∈ ops, o ∈ whole) →
      ops.Pairwise (fun a b => a.deviceSequence < b.deviceSequence) →
      (st.lastSeq ≤ d.lastDeviceSequence ∨ ∀ o ∈ ops, st.lastSeq < o.deviceSequence) →
      (∀ c ∈ whole, c ∉ ops → c.isOrigination = true → db.Ready cfg now device d c →
        c.objectKey ∈ st.originatedInBatch) →
      ∀ op ∈ ops, db.Acceptable cfg now device d whole op →
        op ∈ HelixSync.accepts
          (batchContext cfg now db device d.lastDeviceSequence whole) st ops := by
  intro ops
  induction ops with
  | nil => exact fun _ _ _ _ _ op hop => absurd hop List.not_mem_nil
  | cons o ops ih =>
    intro st hwhole hsorted hlast horig op hop hacc
    obtain ⟨hhead, htail⟩ := List.pairwise_cons.mp hsorted
    have hnot : o ∉ ops := fun hmem => absurd (hhead o hmem) (lt_irrefl _)
    have hrest : ∀ o' ∈ ops, o' ∈ whole := fun o' h => hwhole o' (List.mem_cons_of_mem _ h)
    -- what is ready now is admitted, unless it waits for an object no one has introduced
    have hadmits : db.Ready cfg now device d o →
        (o.isOrigination = true ∨
          o.objectKey ∈ (batchContext cfg now db device d.lastDeviceSequence whole).owned ∨
          o.objectKey ∈ st.originatedInBatch) →
        Admits (batchContext cfg now db device d.lastDeviceSequence whole) st o := by
      intro hready hknown
      refine ⟨hready.fresh, fun h => ?_, hready.shape, hready.one_le, ?_, hknown, hready.quota⟩
      · rw [hbulk o (hwhole o List.mem_cons_self)] at h
        exact Bool.false_ne_true h.1
      · rcases hlast with hle | hlt
        · exact lt_of_le_of_lt hle hready.lastSeq_lt
        · exact hlt o List.mem_cons_self
    by_cases hadm : Admits (batchContext cfg now db device d.lastDeviceSequence whole) st o
    · rw [accepts_cons_of_admits hadm]
      rcases List.mem_cons.mp hop with rfl | hmem
      · exact List.mem_cons_self
      · refine List.mem_cons_of_mem _ (ih (st.accept o) hrest htail (Or.inr hhead) ?_ op hmem hacc)
        intro c hc hcnot hco hready
        by_cases hceq : c = o
        · subst hceq
          simp [ValidationState.accept, hco]
        · have hbefore := horig c hc (by simp [hceq, hcnot]) hco hready
          simp only [ValidationState.accept]
          split
          · exact Finset.mem_insert_of_mem hbefore
          · exact hbefore
    · rw [accepts_cons_of_not_admits hadm]
      have hnext : op ∈ ops → op ∈ HelixSync.accepts
          (batchContext cfg now db device d.lastDeviceSequence whole) st ops := by
        refine fun hmem => ih st hrest htail ?_ ?_ op hmem hacc
        · exact hlast.imp id fun h o' ho' => h o' (List.mem_cons_of_mem _ ho')
        · intro c hc hcnot hco hready
          by_cases hceq : c = o
          · subst hceq
            exact absurd (hadmits hready (Or.inl hco)) hadm
          · exact horig c hc (by simp [hceq, hcnot]) hco hready
      rcases List.mem_cons.mp hop with rfl | hmem
      · -- the operation at hand is acceptable, so it is admitted after all
        refine absurd (hadmits hacc.1 ?_) hadm
        rcases hacc.2 with ho | howned | ⟨c, hc, hlt, hco, hkey, hready⟩
        · exact Or.inl ho
        · by_cases ho : op.isOrigination = true
          · exact Or.inl ho
          · exact Or.inr (Or.inl (mem_ownedObjects_of_mem (hwhole op List.mem_cons_self)
              hacc.1.fresh (by simpa using ho) howned))
        · refine Or.inr (Or.inr (hkey ▸ horig c hc ?_ hco hready))
          rintro hmem
          rcases List.mem_cons.mp hmem with rfl | hmem
          · exact absurd hlt (lt_irrefl _)
          · exact absurd (hhead c hmem) (not_lt_of_gt hlt)
      · exact hnext hmem

/-- **What is acceptable is accepted**, in a batch in sequence order without history chunks. -/
theorem mem_accepts_of_acceptable (hbulk : ∀ op ∈ ops, op.isBulkHistoryImport = false)
    (hsorted : ops.Pairwise fun a b => a.deviceSequence < b.deviceSequence) (hop : op ∈ ops)
    (h : db.Acceptable cfg now device d ops op) : op ∈ db.accepts cfg now device d ops :=
  mem_accepts_of_acceptable_aux hbulk ops _ (fun _ h => h) hsorted (Or.inl (le_refl _))
    (fun _ hc hcnot => absurd hc hcnot) op hop h

end Order

end HelixSync
