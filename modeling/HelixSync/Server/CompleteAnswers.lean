import HelixSync.Server.Steps

/-!
# Complete answers

Every operation of an upload gets one verdict, and an operation that is not accepted changes
nothing (docs/protocol.md §10.2, "never all-or-nothing for the batch"). The validation pass of
`process_batch` (`server/src/sync/routes.rs`) looks the stored operation ids up before it starts
and keeps the sequences and the objects of the batch in memory, but not its operation ids: two
operations of one batch that carry the same id and both pass the checks are both inserted, and
the unique constraint fails the batch as a whole (`HelixSync.Server.not_answered`). Nor does it
look at what the database will not store: a payload that `::jsonb` refuses fails the batch too.
In every reachable state these are the only ways to fail (`HelixSync.Server.answered_iff`).

That the other operations change nothing is said by leaving them out: the batch of the accepted
operations alone leaves the same database, which rests on the fact that each of them is
accepted again there (`HelixSync.accepts_accepts`).
-/

namespace HelixSync

section Verdicts

variable {ctx ctx' : BatchContext} {st : ValidationState}

theorem map_fst_validateOps (ops : List OperationIn) :
    (validateOps ctx st ops).1.map Prod.fst = ops := by
  induction ops generalizing st with
  | nil => rfl
  | cons op ops ih => rw [validateOps_cons, List.map_cons, ih]

/-- The operations with the verdicts apart. -/
theorem zip_verdicts (ops : List OperationIn) :
    ops.zip ((validateOps ctx st ops).1.map Prod.snd) = (validateOps ctx st ops).1 := by
  induction ops generalizing st with
  | nil => rfl
  | cons op ops ih => rw [validateOps_cons, List.map_cons, List.zip_cons_cons, ih]

/-- What is accepted in one context is accepted in another that admits each of the operations
wherever the first does. -/
theorem accepts_accepts_of_admits {ops : List OperationIn}
    (h : ∀ op ∈ accepts ctx st ops, ∀ st', Admits ctx st' op → Admits ctx' st' op) :
    accepts ctx' st (accepts ctx st ops) = accepts ctx st ops := by
  induction ops generalizing st with
  | nil => rfl
  | cons op ops ih =>
    by_cases hadm : Admits ctx st op
    · rw [accepts_cons_of_admits hadm] at h ⊢
      rw [accepts_cons_of_admits (h op List.mem_cons_self st hadm)]
      rw [ih fun o ho => h o (List.mem_cons_of_mem _ ho)]
    · rw [accepts_cons_of_not_admits hadm] at h ⊢
      exact ih h

end Verdicts

section Batch

variable {cfg : Config} {now : DateTime} {db db' : Db} {device : AuthenticatedDevice}
  {d : DeviceRow} {ops : List OperationIn}

/-- **The accepted operations are accepted without the others.** -/
theorem accepts_accepts : db.accepts cfg now device d (db.accepts cfg now device d ops) =
    db.accepts cfg now device d ops := by
  refine accepts_accepts_of_admits fun op hop st' hadm => ?_
  have hfresh : db.operationOwner? op.operationId = none := hadm.fresh
  refine ⟨hadm.fresh, fun hbulk => hadm.notKnownBulk ⟨hbulk.1, hbulk.2.imp_left fun hknown => ?_⟩,
    hadm.shape, hadm.one_le, hadm.lastSeq_lt, ?_, hadm.quota⟩
  · -- the chunk is in the ledger, and it is one the whole batch carries
    refine Finset.mem_filter.mpr ⟨List.mem_toFinset.mpr (List.mem_map_of_mem ?_),
      mem_knownBulk hknown⟩
    exact List.mem_filter.mpr ⟨(accepts_sublist _).mem hop, by simp [hfresh, hbulk.1]⟩
  · by_cases horig : op.isOrigination = true
    · exact Or.inl horig
    · refine hadm.known.imp_right (Or.imp_left fun howned => ?_)
      exact mem_ownedObjects_of_mem hop hfresh (by simpa using horig) (mem_ownedObjects howned)

theorem lastSeqAfter_accepts : db.lastSeqAfter cfg now device d (db.accepts cfg now device d ops) =
    db.lastSeqAfter cfg now device d ops := by
  have hlast : ∀ ops, db.lastSeqAfter cfg now device d ops =
      ((db.accepts cfg now device d ops).getLast?.map OperationIn.deviceSequence).getD
        d.lastDeviceSequence := fun ops => validateOps_lastSeq ops
  rw [hlast, hlast, accepts_accepts]

/-- A batch that accepts nothing leaves the database; any other writes what it accepts. -/
theorem processBatch_eq (hd : db.device? device.deviceId = some d) :
    processBatch cfg now db device ops =
      if db.accepts cfg now device d ops = [] then
        .ok (outcomeOf (validateBatch cfg now db device d ops).1 (db.currentCursor device.userId), db)
      else match writeBatch now device (db.accepts cfg now device d ops)
          (db.lastSeqAfter cfg now device d ops) db with
        | none => .error .database
        | some db' => .ok (outcomeOf (validateBatch cfg now db device d ops).1
            (db'.currentCursor device.userId), db') := by
  unfold processBatch
  split
  · rename_i hempty
    obtain rfl := List.isEmpty_iff.mp hempty
    rfl
  · rw [hd]
    change (if (db.accepts cfg now device d ops).isEmpty then _ else _) = _
    by_cases hnil : db.accepts cfg now device d ops = []
    · rw [if_pos hnil, if_pos (List.isEmpty_iff.mpr hnil)]
    · rw [if_neg hnil, if_neg (by simpa using hnil)]
      rfl

/-- **A complete answer**: the batch is answered, each operation has one verdict, and the
accepted operations alone leave the same database. -/
def Answered (cfg : Config) (now : DateTime) (db : Db) (device : AuthenticatedDevice)
    (ops : List OperationIn) : Prop :=
  ∃ (out : BatchOutcome) (db' : Db) (verdicts : List Decision),
    processBatch cfg now db device ops = .ok (out, db') ∧ verdicts.length = ops.length ∧
      (∃ cursor, out = outcomeOf (ops.zip verdicts) cursor) ∧
      ∃ out', processBatch cfg now db device (acceptedOps (ops.zip verdicts)) = .ok (out', db')

/-- An answered batch is answered completely. -/
theorem answered_of_ok {out : BatchOutcome} (hd : db.device? device.deviceId = some d)
    (h : processBatch cfg now db device ops = .ok (out, db')) : Answered cfg now db device ops := by
  have hzip : ops.zip ((validateBatch cfg now db device d ops).1.map Prod.snd) =
      (validateBatch cfg now db device d ops).1 := zip_verdicts ops
  refine ⟨out, db', (validateBatch cfg now db device d ops).1.map Prod.snd, h, ?_, ?_, ?_⟩
  · rw [List.length_map, ← List.length_map Prod.fst]
    exact congrArg List.length (map_fst_validateOps ops)
  · obtain ⟨cursor, hout⟩ := processBatch_outcome hd h
    exact ⟨cursor, by rw [hzip, hout]⟩
  · rw [hzip]
    change ∃ out', processBatch cfg now db device (db.accepts cfg now device d ops) = .ok (out', db')
    rw [processBatch_eq hd] at h ⊢
    rw [accepts_accepts, lastSeqAfter_accepts]
    split at h
    · rename_i hnil
      rw [if_pos hnil]
      obtain ⟨-, rfl⟩ := Prod.mk.inj (Except.ok.inj h)
      exact ⟨_, rfl⟩
    · rename_i hne
      rw [if_neg hne]
      rcases hwrite : writeBatch now device (db.accepts cfg now device d ops)
          (db.lastSeqAfter cfg now device d ops) db with _ | db''
      · rw [hwrite] at h
        exact absurd h (by simp)
      · rw [hwrite] at h
        obtain ⟨-, rfl⟩ := Prod.mk.inj (Except.ok.inj h)
        exact ⟨_, rfl⟩

/-- A write that succeeds has rows with distinct ids, all of which can be stored. -/
theorem nodup_of_writeBatch {accepted : List OperationIn} {lastSeq : ℤ}
    (h : writeBatch now device accepted lastSeq db = some db') :
    (accepted.map OperationIn.operationId).Nodup ∧ ∀ op ∈ accepted, op.isStorable = true := by
  obtain ⟨hstorable, table, htable, -⟩ := writeBatch_eq_some_iff.mp h
  refine ⟨?_, hstorable⟩
  have hunique := table.unique
  rw [htable, List.pairwise_append] at hunique
  rw [← @map_operationId_batchRows now device (db.currentCursor device.userId + 1), List.Nodup,
    List.pairwise_map]
  exact hunique.2.1.imp fun hdistinct => hdistinct.1

end Batch

namespace Server

/-- **Every batch gets a complete answer**, in every reachable state, exactly if no two
operations that pass the checks carry one id and the database can store each of them. -/
theorem answered_iff (cfg : Config) (settings : Uuid → Option UserSettings) (now : DateTime)
    (events : List Event) (device : AuthenticatedDevice) (d : DeviceRow)
    (hd : (run cfg (start settings now) events).db.device? device.deviceId = some d)
    (ops : List OperationIn) :
    let s := run cfg (start settings now) events
    Answered cfg s.now s.db device ops ↔
      ((s.db.accepts cfg s.now device d ops).map OperationIn.operationId).Nodup ∧
        ∀ op ∈ s.db.accepts cfg s.now device d ops, op.isStorable = true := by
  intro s
  have hwf : WellFormed s := WellFormed.run settings now events
  constructor
  · rintro ⟨out, db', verdicts, hok, -⟩
    rcases processBatch_ok hok with ⟨-, hnone⟩ | ⟨d', hd', -, hwrite⟩
    · rw [hnone d hd]
      exact ⟨List.nodup_nil, fun op hop => absurd hop (by simp)⟩
    · obtain rfl := Option.some.inj (hd.symm.trans hd')
      exact nodup_of_writeBatch hwrite
  · rintro ⟨hids, hstorable⟩
    have hseq : ∀ row ∈ s.db.syncOperations.rows, row.deviceId = device.deviceId →
        row.deviceSequence ≤ d.lastDeviceSequence := by
      intro row hrow hdev
      obtain ⟨lastSeq, hstate, hle⟩ := hwf.devices row (hwf.log.mem hrow)
      rw [hdev, Db.deviceState?, hd, Option.map_some, Option.some.injEq, Prod.mk.injEq] at hstate
      exact hstate.2 ▸ hle
    have hcursor : ∀ row ∈ s.db.syncOperations.rows, row.userId = device.userId →
        row.serverCursor ≤ s.db.currentCursor device.userId := fun row hrow huser =>
      huser ▸ (hwf.cursor_mem (hwf.log.mem hrow)).2
    obtain ⟨out, db', hok⟩ :=
      exists_processBatch hd (exists_writeBatch_of_accepts hids hstorable hseq hcursor _)
    exact answered_of_ok hd hok

/-- The server when one device has registered. -/
def oneDevice : Server := run smallConfig smallStart [.register 1 9]

/-- An operation whose payload `::jsonb` refuses. -/
def refusedOp (operationId : Uuid) (deviceSequence : ℤ) (objectId : Uuid) : OperationIn :=
  { smallOp operationId deviceSequence 1 .bookmark objectId .create with
    payload := { smallPayload with isJsonb := false } }

/-- A batch that repeats an id, a sequence and an object, and has an operation out of shape. -/
def untidyBatch : List OperationIn :=
  [smallOp 11 2 1 .bookmark 50 .create, smallOp 11 2 1 .bookmark 50 .create,
    smallOp 12 1 2 .bookmark 50 .update, smallOp 13 3 3 .bookmark 50 .visit,
    smallOp 14 4 4 .bookmark 50 .create]

theorem answered_untidyBatch :
    Answered smallConfig oneDevice.now oneDevice.db ⟨9, 1⟩ untidyBatch :=
  (answered_iff smallConfig (fun _ => none) 0 [.register 1 9] ⟨9, 1⟩
    ((oneDevice.db.device? 1).get (by decide +kernel)) (Option.some_get _).symm untidyBatch).mpr
      (by decide +kernel)

/-- **A batch fails as a whole** when two creates carry one id. -/
theorem not_answered : ¬Answered smallConfig oneDevice.now oneDevice.db ⟨9, 1⟩
    [smallOp 11 1 1 .bookmark 50 .create, smallOp 11 2 2 .bookmark 51 .create] := by
  rintro ⟨out, db', verdicts, hok, -⟩
  have hfails : (processBatch smallConfig oneDevice.now oneDevice.db ⟨9, 1⟩
      [smallOp 11 1 1 .bookmark 50 .create, smallOp 11 2 2 .bookmark 51 .create]).isOk = false := by
    decide +kernel
  rw [hok] at hfails
  exact absurd hfails (by simp [Except.isOk, Except.toBool])

/-- So does one with a payload the database refuses, whatever else is in it. -/
example : (processBatch smallConfig oneDevice.now oneDevice.db ⟨9, 1⟩
    [smallOp 11 1 1 .bookmark 50 .create, refusedOp 12 2 51]).isOk = false := by decide +kernel

end Server

end HelixSync
