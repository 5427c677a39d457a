import HelixSync.Server.Model

/-!
# The shape of an operation

`check_op_shape` (`server/src/sync/routes.rs`): the checks of one uploaded operation
that need neither the database nor the rest of its batch. The verdict depends on the
clock through one bound only, the hour a day from now past which no visit may lie;
so an operation that once had the right shape keeps it
(`HelixSync.checkOpShape_mono`), which is what a resend long after the fact relies
on.
-/

namespace HelixSync

/-- `MAX_PAYLOAD_BYTES`. -/
def maxPayloadBytes : ℕ := 256 * 1024

/-- `MAX_BULK_HISTORY_PAYLOAD_BYTES`. -/
def maxBulkHistoryPayloadBytes : ℕ := 96 * 1024 * 1024

/-- `MAX_VISIT_COUNT_PER_OP`. -/
def maxVisitCountPerOp : ℤ := 1000000

/-- `MAX_VISIT_HOURS_ENTRIES`. -/
def maxVisitHoursEntries : ℕ := 100000

/-- `DENSITY_CHECK_THRESHOLD_BYTES`. -/
def densityCheckThresholdBytes : ℕ := 64 * 1024

/-- `MIN_BYTES_PER_JSON_NODE`. -/
def minBytesPerJsonNode : ℕ := 8

/-- Why an operation was rejected. -/
inductive RejectReason where
  | operationIdConflict
  | unknownObjectType
  | unknownOperationType
  | invalidEncryptionVersion
  | encryptionRequired
  | payloadTooLarge
  | payloadTooDense
  | visitCountTooLarge
  | bulkImportMissingCount
  | unexpectedVisitCount
  | unexpectedVisitHours
  | missingVisitHours
  | invalidVisitHours
  | visitHoursMismatch
  | invalidDeviceSequence
  | sequenceOutOfOrder
  | objectNotFound
  | storageQuotaExceeded
  deriving DecidableEq, Repr

/-! ### Density -/

/-- The state of the density scan: the nodes counted, and whether the scan is inside
a string literal and just past a backslash. -/
structure DensityScan where
  nodes : ℕ
  inString : Bool
  escaped : Bool

/-- One byte of the density scan. -/
def DensityScan.step (s : DensityScan) (b : UInt8) : DensityScan :=
  if s.inString then
    if s.escaped then { s with escaped := false }
    else if b = '\\'.toUInt8 then { s with escaped := true }
    else if b = '"'.toUInt8 then { s with inString := false }
    else s
  else if b = '"'.toUInt8 then { s with inString := true }
  else if b = '['.toUInt8 ∨ b = '{'.toUInt8 ∨ b = ','.toUInt8 then { s with nodes := s.nodes + 1 }
  else s

/-- `json_node_density_too_high`. -/
def jsonNodeDensityTooHigh (raw : List UInt8) : Bool :=
  if raw.length ≤ densityCheckThresholdBytes then false
  else (raw.foldl DensityScan.step ⟨0, false, false⟩).nodes > raw.length / minBytesPerJsonNode

/-! ### Visit counts and visit hours -/

/-- The largest value of an `i64`. -/
def i64Max : ℤ := 2 ^ 63 - 1

/-- `checked_add` on `i64`, of which only the upper bound can be passed here: the
counts are checked to be positive before they are summed. -/
def checkedAdd (a b : ℤ) : Option ℤ := if a + b ≤ i64Max then some (a + b) else none

/-- One entry of `visitHours`: hour-aligned, not past the ceiling, counted at least
once. -/
def hourEntryValid (futureCeiling : DateTime) (entry : DateTime × ℤ) : Bool :=
  DateTime.minuteOf entry.1 == 0 && DateTime.secondOf entry.1 == 0
    && DateTime.nanosecondOf entry.1 == 0 && entry.1 ≤ futureCeiling && entry.2 ≥ 1

/-- The `visitCount` check. -/
def checkVisitCount (op : OperationIn) : Except RejectReason Unit :=
  if op.isBulkHistoryImport then
    match op.visitCount with
    | some n =>
      if 1 ≤ n ∧ n ≤ maxVisitCountPerOp then .ok ()
      else if n ≥ 1 then .error .visitCountTooLarge
      else .error .bulkImportMissingCount
    | none => .error .bulkImportMissingCount
  else if op.visitCount.isSome then .error .unexpectedVisitCount
  else .ok ()

/-- The `visitHours` check. -/
def checkVisitHours (now : DateTime) (op : OperationIn) : Except RejectReason Unit :=
  if op.objectType ≠ .historyVisit then
    if op.visitHours.isSome then .error .unexpectedVisitHours else .ok ()
  else
    match op.visitHours with
    | none => .error .missingVisitHours
    | some hours =>
      if hours.entries.length > maxVisitHoursEntries then .error .invalidVisitHours
      else if !hours.entries.all (hourEntryValid (now + DateTime.days 1)) then
        .error .invalidVisitHours
      else
        match (hours.entries.map Prod.snd).foldlM checkedAdd 0 with
        | none => .error .invalidVisitHours
        | some sum =>
          let mismatch := match op.operationType with
            | .bulkImport => some sum != op.visitCount
            | .visit => hours.entries.length != 1 || sum != 1
            | _ => false
          if mismatch then .error .visitHoursMismatch else .ok ()

/-- The payload cap of an operation. -/
def payloadCap (op : OperationIn) : ℕ :=
  if op.isBulkHistoryImport then maxBulkHistoryPayloadBytes else maxPayloadBytes

/-- `check_op_shape`. -/
def checkOpShape (now : DateTime) (requireEncryption : Bool) (op : OperationIn) :
    Except RejectReason Unit :=
  if !isKnownObjectType op.objectType then .error .unknownObjectType
  else if !(allowedOperationTypes op.objectType).contains op.operationType then
    .error .unknownOperationType
  else if op.encryptionVersion < 0 then .error .invalidEncryptionVersion
  else if op.encryptionVersion == 0 && requireEncryption then .error .encryptionRequired
  else if op.payload.text.length > payloadCap op then .error .payloadTooLarge
  else if jsonNodeDensityTooHigh op.payload.text then .error .payloadTooDense
  else do
    checkVisitCount op
    checkVisitHours now op

/-! ### What a good shape gives -/

/-- Whether an operation has the right shape. -/
def ShapeOk (now : DateTime) (requireEncryption : Bool) (op : OperationIn) : Prop :=
  checkOpShape now requireEncryption op = .ok ()

instance (now : DateTime) (requireEncryption : Bool) (op : OperationIn) :
    Decidable (ShapeOk now requireEncryption op) :=
  match h : checkOpShape now requireEncryption op with
  | .ok () => isTrue h
  | .error _ => isFalse fun hok => by rw [ShapeOk, h] at hok; exact nomatch hok

theorem hourEntryValid_mono {t t' : DateTime} (h : t ≤ t') {entry : DateTime × ℤ}
    (hv : hourEntryValid t entry = true) : hourEntryValid t' entry = true := by
  simp only [hourEntryValid, Bool.and_eq_true, decide_eq_true_eq] at hv ⊢
  exact ⟨⟨hv.1.1, le_trans hv.1.2 h⟩, hv.2⟩

theorem checkVisitHours_mono {now now' : DateTime} (h : now ≤ now') {op : OperationIn}
    (hok : checkVisitHours now op = .ok ()) : checkVisitHours now' op = .ok () := by
  unfold checkVisitHours at hok ⊢
  by_cases ht : op.objectType ≠ .historyVisit
  · rw [if_pos ht] at hok ⊢
    exact hok
  · rw [if_neg ht] at hok ⊢
    rcases hh : op.visitHours with _ | hours
    · rw [hh] at hok
      exact hok
    · rw [hh] at hok
      dsimp only at hok ⊢
      by_cases hlen : hours.entries.length > maxVisitHoursEntries
      · rw [if_pos hlen] at hok
        exact absurd hok (by simp)
      · rw [if_neg hlen] at hok ⊢
        -- the ceiling only moves up, so no entry becomes invalid
        by_cases hall : hours.entries.all (hourEntryValid (now + DateTime.days 1)) = true
        · have hall' : hours.entries.all (hourEntryValid (now' + DateTime.days 1)) = true := by
            rw [List.all_eq_true] at hall ⊢
            exact fun e he => hourEntryValid_mono (Int.add_le_add_right h _) (hall e he)
          rw [hall] at hok
          rw [hall']
          exact hok
        · rw [Bool.not_eq_true] at hall
          rw [hall] at hok
          exact absurd hok (by simp)

/-- **A good shape lasts**: time can only move the ceiling of `visitHours` up. -/
theorem checkOpShape_mono {now now' : DateTime} (h : now ≤ now') {require : Bool}
    {op : OperationIn} (hok : ShapeOk now require op) : ShapeOk now' require op := by
  unfold ShapeOk checkOpShape at hok ⊢
  split_ifs at hok ⊢
  obtain ⟨u, hcount⟩ | ⟨e, hcount⟩ : (∃ u, checkVisitCount op = .ok u) ∨
      ∃ e, checkVisitCount op = .error e := by
    cases checkVisitCount op with
    | ok u => exact Or.inl ⟨u, rfl⟩
    | error e => exact Or.inr ⟨e, rfl⟩
  · rw [hcount] at hok ⊢
    exact checkVisitHours_mono h hok
  · rw [hcount] at hok
    exact absurd hok (by simp [bind, Except.bind])

/-- The payload of an operation with a good shape is within the cap of a history chunk. -/
theorem ShapeOk.payload_le {now : DateTime} {require : Bool} {op : OperationIn}
    (hok : ShapeOk now require op) : op.payload.text.length ≤ maxBulkHistoryPayloadBytes := by
  unfold ShapeOk checkOpShape at hok
  split_ifs at hok with hknown hallowed hversion henc hlarge hdense
  refine le_trans (not_lt.mp hlarge) ?_
  unfold payloadCap
  split
  · exact le_refl _
  · decide

/-- The types of an operation with a good shape are in the vocabulary. -/
theorem ShapeOk.mem_allowed {now : DateTime} {require : Bool} {op : OperationIn}
    (hok : ShapeOk now require op) :
    op.operationType ∈ allowedOperationTypes op.objectType := by
  unfold ShapeOk checkOpShape at hok
  split_ifs at hok with hknown hallowed
  simpa using hallowed

end HelixSync
