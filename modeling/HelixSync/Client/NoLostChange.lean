import HelixSync.Server.Steps
import HelixSync.Client.UploadLoop

/-!
# Whether a local change can be lost

`uploadPending` removes an operation from the queue when the server calls it accepted or
duplicate. The server calls an operation duplicate when its id is stored, and also when
its sequence is not above the last one accepted from the device. The second rule is sound
only if operations reach the server in the order of their sequences, and two things break
that order: a call that has reserved its sequences may enqueue after a later call's
operations were uploaded, and an operation rejected because its object was not found
goes back to the queue while the operations behind it are accepted. In both cases the
operation left behind is called a duplicate when it arrives, and is removed, although no
row was ever inserted for it (`HelixSync.Client.System.not_noneLost`).

`HelixSync.Client.System.InOrder` says of a batch that it leaves no such operation
behind. As long as every batch the server processes has this property, every operation
removed was inserted before (`HelixSync.Client.System.noneLost_of_inOrder`).
-/

namespace HelixSync

namespace Client

/-- The operations a `createLocalOperationsBatch` call has built. -/
def LocalCall.operations : LocalCall → List OperationIn
  | .reserved _ _ _ => []
  | .encrypted operations => operations

/-- The block of sequences a call has reserved and not used yet: the number before it, and
its length. -/
def LocalCall.block? : LocalCall → Option (ℤ × ℕ)
  | .reserved items startDeviceSequence _ => some (startDeviceSequence, items.length)
  | .encrypted _ => none

/-- The replacements an iteration is about to enqueue. -/
def UploadStage.replacements : UploadStage → List OperationIn
  | .reissuing _ replacements => replacements
  | _ => []

/-- The operations of an iteration. -/
def Upload.operations (u : Upload) : List OperationIn :=
  operationsOf u.records ++ u.stage.replacements

/-- An operation whose shape the server accepts at no time. -/
def Hopeless (op : OperationIn) : Prop := ∀ now requireEncryption, ¬ShapeOk now requireEncryption op

namespace System

/-- The operations that are in the queue, or may still get there or to the server. -/
def unsettled (s : System) : List OperationIn :=
  operationsOf s.pending ++ s.calls.flatMap LocalCall.operations ++
    s.uploads.flatMap Upload.operations ++ s.late.flatten

/-- The sequences reserved for operations not built yet. -/
def blocks (s : System) : List (ℤ × ℕ) := s.calls.filterMap LocalCall.block?

/-- The server inserted a row for the operation at some time. -/
def Inserted (setup : Setup) (s : System) (op : OperationIn) : Prop :=
  ∃ now userId cursor, operationRow now ⟨userId, setup.deviceId⟩ cursor op ∈ s.server.history

/-- Every operation removed as accepted or duplicate was inserted. -/
def NoneLost (setup : Setup) (s : System) : Prop := ∀ op ∈ s.removed, Inserted setup s op

/-- The batch the server processes at an event. -/
def request? (s : System) : ClientEvent → Option (List OperationIn)
  | .serve index => match s.uploads[index]? with
    | some ⟨records, .waiting⟩ => some (operationsOf records)
    | _ => none
  | .serveLate index => s.late[index]?
  | .serveChunk index => s.chunks[index]?.map fun op => [op]
  | _ => none

/-- Whether the server can accept an operation of a batch. -/
def Acceptable (setup : Setup) (s : System) (d : DeviceRow) (ops : List OperationIn)
    (op : OperationIn) : Prop :=
  s.server.db.Acceptable setup.cfg s.server.now ⟨d.userId, d.id⟩ d ops op

/-- A batch is in order if nothing it can insert is ahead of an operation that stays behind:
one that was not inserted, that the server may accept some day, and that is not in the batch
or not acceptable there; or one that is not built yet. -/
def InOrder (setup : Setup) (s : System) (ops : List OperationIn) : Prop :=
  ∀ d, s.server.db.device? setup.deviceId = some d → ∀ op ∈ ops, Acceptable setup s d ops op →
    (∀ u ∈ s.unsettled, ¬Inserted setup s u → ¬Hopeless u →
      (u ∉ ops ∨ ¬Acceptable setup s d ops u) → op.deviceSequence < u.deviceSequence) ∧
    ∀ block ∈ s.blocks, op.deviceSequence ≤ block.1

/-- The batch processed at an event, if any, is in order. -/
def ServesInOrder (setup : Setup) (s : System) (e : ClientEvent) : Prop :=
  ∀ ops, s.request? e = some ops → InOrder setup s ops

/-! ### The invariant -/

/-- The ids and the sequences of the operations built so far, and the blocks still
reserved. -/
structure Numbered (setup : Setup) (s : System) : Prop where
  counter : 0 ≤ s.deviceSequence
  ids : (s.created.map OperationIn.operationId).Nodup
  own : ∀ op ∈ s.created, setup.ownId op.operationId = true
  sequences : s.created.Pairwise fun a b => a.deviceSequence ≠ b.deviceSequence
  range : ∀ op ∈ s.created, 1 ≤ op.deviceSequence ∧ op.deviceSequence ≤ s.deviceSequence ∧
    op.isBulkHistoryImport = false
  blocks : ∀ b ∈ s.blocks, 0 ≤ b.1 ∧ b.1 + (b.2 : ℤ) ≤ s.deviceSequence ∧
    ∀ op ∈ s.created, op.deviceSequence ≤ b.1 ∨ b.1 + (b.2 : ℤ) < op.deviceSequence
  disjoint : s.blocks.Pairwise fun b b' => b.1 + (b.2 : ℤ) ≤ b'.1 ∨ b'.1 + (b'.2 : ℤ) ≤ b.1

/-- What the device holds was built by it, and its batches are in sequence order. -/
structure Queued (setup : Setup) (s : System) : Prop where
  built : ∀ op ∈ s.unsettled, op ∈ s.created
  pending : (s.pending.map PendingOperationRecord.id).Nodup
  uploads : ∀ u ∈ s.uploads, (operationsOf u.records).Pairwise fun a b =>
    a.deviceSequence < b.deviceSequence
  late : ∀ ops ∈ s.late, ops.Pairwise fun a b => a.deviceSequence < b.deviceSequence
  chunks : ∀ op ∈ s.chunks, setup.ownId op.operationId = false ∧
    op.deviceSequence ≤ s.deviceSequence

/-- What the server knows of the device's operations. -/
structure Served (setup : Setup) (s : System) : Prop where
  wf : Server.WellFormed s.server
  rows : ∀ row ∈ s.server.history, setup.ownId row.operationId = true → ∃ op ∈ s.created,
    ∃ now userId cursor, row = operationRow now ⟨userId, setup.deviceId⟩ cursor op
  above : ∀ d, s.server.db.device? setup.deviceId = some d → ∀ op ∈ s.unsettled,
    Inserted setup s op ∨ Hopeless op ∨ d.lastDeviceSequence < op.deviceSequence
  blocksAbove : ∀ d, s.server.db.device? setup.deviceId = some d → ∀ b ∈ s.blocks,
    d.lastDeviceSequence ≤ b.1
  counterAbove : ∀ d, s.server.db.device? setup.deviceId = some d →
    d.lastDeviceSequence ≤ s.deviceSequence
  answers : ∀ u ∈ s.uploads, ∀ out, u.stage = .answered out → ∀ id ∈ resolvedIds out,
    ∃ op ∈ operationsOf u.records, op.operationId = id ∧ Inserted setup s op
  removed : NoneLost setup s

/-- **The invariant.** -/
structure Sound (setup : Setup) (s : System) : Prop where
  numbered : Numbered setup s
  queued : Queued setup s
  served : Served setup s

variable {setup : Setup} {s s' : System}

theorem mem_unsettled {op : OperationIn} :
    op ∈ s.unsettled ↔ op ∈ operationsOf s.pending ∨
      (∃ call ∈ s.calls, op ∈ call.operations) ∨ (∃ u ∈ s.uploads, op ∈ u.operations) ∨
      ∃ ops ∈ s.late, op ∈ ops := by
  simp only [unsettled, List.mem_append, List.mem_flatMap, List.mem_flatten, or_assoc]

namespace Sound

theorem start (settings : Uuid → Option UserSettings) (now : DateTime) :
    Sound setup (System.start settings now) where
  numbered := ⟨le_refl _, List.nodup_nil, fun _ h => absurd h List.not_mem_nil, List.Pairwise.nil,
    fun _ h => absurd h List.not_mem_nil, fun _ h => absurd h List.not_mem_nil, List.Pairwise.nil⟩
  queued := ⟨fun _ h => absurd h List.not_mem_nil, List.nodup_nil,
    fun _ h => absurd h List.not_mem_nil, fun _ h => absurd h List.not_mem_nil,
    fun _ h => absurd h List.not_mem_nil⟩
  served := ⟨Server.WellFormed.start settings now, fun _ h => absurd h List.not_mem_nil,
    fun _ _ _ h => absurd h List.not_mem_nil, fun _ _ _ h => absurd h List.not_mem_nil,
    fun _ h => absurd h (by simp [System.start, Server.start, Db.device?, Db.empty]),
    fun _ h => absurd h List.not_mem_nil, fun _ h => absurd h List.not_mem_nil⟩

/-! ### Steps that only move operations around -/

/-- **A step on the device alone** that builds no operation. -/
theorem of_client (h : Sound setup s) (hserver : s'.server = s.server)
    (hcreated : s'.created = s.created) (hseq : s.deviceSequence ≤ s'.deviceSequence)
    (hblocks : s'.blocks.Sublist s.blocks) (hunsettled : ∀ op ∈ s'.unsettled, op ∈ s.unsettled)
    (hpending : (s'.pending.map PendingOperationRecord.id).Nodup)
    (huploads : ∀ u ∈ s'.uploads, ((operationsOf u.records).Pairwise fun a b =>
      a.deviceSequence < b.deviceSequence) ∧ ∀ out, u.stage = .answered out →
        ∀ id ∈ resolvedIds out, ∃ op ∈ operationsOf u.records, op.operationId = id ∧
          Inserted setup s op)
    (hlate : ∀ ops ∈ s'.late, ops.Pairwise fun a b => a.deviceSequence < b.deviceSequence)
    (hchunks : ∀ op ∈ s'.chunks, setup.ownId op.operationId = false ∧
      op.deviceSequence ≤ s'.deviceSequence)
    (hremoved : ∀ op ∈ s'.removed, Inserted setup s op) : Sound setup s' := by
  have hinserted : ∀ op, Inserted setup s' op ↔ Inserted setup s op := fun op => by
    rw [Inserted, Inserted, hserver]
  refine ⟨⟨?_, ?_, ?_, ?_, ?_, ?_, ?_⟩, ⟨?_, hpending, fun u hu => (huploads u hu).1, hlate, hchunks⟩,
    ⟨?_, ?_, ?_, ?_, ?_, ?_, ?_⟩⟩
  · exact le_trans h.numbered.counter hseq
  · rw [hcreated]
    exact h.numbered.ids
  · rw [hcreated]
    exact h.numbered.own
  · rw [hcreated]
    exact h.numbered.sequences
  · intro op hop
    rw [hcreated] at hop
    obtain ⟨hlo, hhi, hbulk⟩ := h.numbered.range op hop
    exact ⟨hlo, le_trans hhi hseq, hbulk⟩
  · intro b hb
    rw [hcreated]
    obtain ⟨hlo, hhi, hops⟩ := h.numbered.blocks b (hblocks.mem hb)
    exact ⟨hlo, le_trans hhi hseq, hops⟩
  · exact h.numbered.disjoint.sublist hblocks
  · intro op hop
    rw [hcreated]
    exact h.queued.built op (hunsettled op hop)
  · rw [hserver]
    exact h.served.wf
  · rw [hserver, hcreated]
    exact h.served.rows
  · intro d hd op hop
    rw [hserver] at hd
    rw [hinserted]
    exact h.served.above d hd op (hunsettled op hop)
  · intro d hd b hb
    rw [hserver] at hd
    exact h.served.blocksAbove d hd b (hblocks.mem hb)
  · intro d hd
    rw [hserver] at hd
    exact le_trans (h.served.counterAbove d hd) hseq
  · intro u hu out hout id hid
    obtain ⟨op, hop, heq, hins⟩ := (huploads u hu).2 out hout id hid
    exact ⟨op, hop, heq, (hinserted op).mpr hins⟩
  · intro op hop
    exact (hinserted op).mpr (hremoved op hop)

section Device

variable {index : ℕ} {records : List PendingOperationRecord} {stage : UploadStage}

/-- A change of the queue and of one iteration, which keeps its records or drops some of
them and does not end up with an answer. -/
theorem of_setUpload (h : Sound setup s) (hindex : s.uploads[index]? = some ⟨records, stage⟩)
    {pending : List PendingOperationRecord} {records' : List PendingOperationRecord}
    {stage' : UploadStage} {removed : List OperationIn}
    (hpending : (pending.map PendingOperationRecord.id).Nodup)
    (hops : ∀ op ∈ operationsOf pending, op ∈ s.unsettled) (hsub : records'.Sublist records)
    (hstage : stage'.replacements = []) (hanswer : ∀ out, stage' ≠ .answered out)
    (hremoved : ∀ op ∈ removed, Inserted setup s op) :
    Sound setup { s with
      pending := pending
      uploads := s.uploads.set index ⟨records', stage'⟩
      removed := removed } := by
  have hmem : (⟨records, stage⟩ : Upload) ∈ s.uploads := List.mem_of_getElem? hindex
  have hrecords : ∀ op ∈ operationsOf records', op ∈ operationsOf records := fun op hop =>
    (hsub.map _).mem hop
  refine h.of_client rfl rfl (le_refl _) (List.Sublist.refl _) ?_ hpending ?_ h.queued.late
    h.queued.chunks hremoved
  · intro op hop
    rcases mem_unsettled.mp hop with hp | hc | ⟨u, hu, hop⟩ | hl
    · exact hops op hp
    · exact mem_unsettled.mpr (Or.inr (Or.inl hc))
    · refine mem_unsettled.mpr (Or.inr (Or.inr (Or.inl ?_)))
      rcases List.mem_or_eq_of_mem_set hu with hu | rfl
      · exact ⟨u, hu, hop⟩
      · rw [Upload.operations, hstage, List.append_nil] at hop
        exact ⟨_, hmem, List.mem_append_left _ (hrecords op hop)⟩
    · exact mem_unsettled.mpr (Or.inr (Or.inr (Or.inr hl)))
  · intro u hu
    rcases List.mem_or_eq_of_mem_set hu with hu | rfl
    · exact ⟨h.queued.uploads u hu, h.served.answers u hu⟩
    · exact ⟨(h.queued.uploads _ hmem).sublist (hsub.map _), fun out hout => absurd hout (hanswer out)⟩

/-- The end of an iteration. -/
theorem of_eraseUpload (h : Sound setup s) {pending : List PendingOperationRecord}
    {late : List (List OperationIn)} (hpending : (pending.map PendingOperationRecord.id).Nodup)
    (hops : ∀ op ∈ operationsOf pending, op ∈ s.unsettled)
    (hlate : ∀ ops ∈ late, ops ∈ s.late ∨ ∃ u ∈ s.uploads, ops = operationsOf u.records) :
    Sound setup { s with
      pending := pending
      uploads := s.uploads.eraseIdx index
      late := late } := by
  refine h.of_client rfl rfl (le_refl _) (List.Sublist.refl _) ?_ hpending ?_ ?_
    h.queued.chunks h.served.removed
  · intro op hop
    rcases mem_unsettled.mp hop with hp | hc | ⟨u, hu, hop⟩ | ⟨ops, hmem, hop⟩
    · exact hops op hp
    · exact mem_unsettled.mpr (Or.inr (Or.inl hc))
    · exact mem_unsettled.mpr (Or.inr (Or.inr (Or.inl ⟨u, List.mem_of_mem_eraseIdx hu, hop⟩)))
    · rcases hlate ops hmem with hl | ⟨u, hu, rfl⟩
      · exact mem_unsettled.mpr (Or.inr (Or.inr (Or.inr ⟨ops, hl, hop⟩)))
      · exact mem_unsettled.mpr (Or.inr (Or.inr (Or.inl ⟨u, hu, List.mem_append_left _ hop⟩)))
  · intro u hu
    have hu' := List.mem_of_mem_eraseIdx hu
    exact ⟨h.queued.uploads u hu', h.served.answers u hu'⟩
  · intro ops hmem
    rcases hlate ops hmem with hl | ⟨u, hu, rfl⟩
    · exact h.queued.late ops hl
    · exact h.queued.uploads u hu

theorem mem_unsettled_of_removeFromQueue {ids : List Uuid} {op : OperationIn}
    (hop : op ∈ operationsOf (removeFromQueue s.pending ids)) : op ∈ s.unsettled :=
  mem_unsettled.mpr (Or.inl (((removeFromQueue_sublist ids).map _).mem hop))

theorem nodup_removeFromQueue (h : Sound setup s) (ids : List Uuid) :
    ((removeFromQueue s.pending ids).map PendingOperationRecord.id).Nodup :=
  h.queued.pending.sublist ((removeFromQueue_sublist ids).map _)

/-- Records put back to the queue, with another state or another count of attempts. -/
theorem mem_unsettled_of_putRecords {u : Upload} (hu : u ∈ s.uploads)
    {records : List PendingOperationRecord}
    (hrecords : ∀ r ∈ records, r.operation ∈ operationsOf u.records)
    {op : OperationIn} (hop : op ∈ operationsOf (putRecords s.pending records)) :
    op ∈ s.unsettled := by
  rcases mem_operationsOf_putRecords hop with hp | hr
  · exact mem_unsettled.mpr (Or.inl hp)
  · obtain ⟨r, hmem, rfl⟩ := List.mem_map.mp hr
    exact mem_unsettled.mpr (Or.inr (Or.inr (Or.inl
      ⟨u, hu, List.mem_append_left _ (hrecords r hmem)⟩)))

theorem enqueue (h : Sound setup s) : Sound setup (s.enqueue index) := by
  unfold System.enqueue
  split
  · rename_i operations hindex
    have hcall : LocalCall.encrypted operations ∈ s.calls := List.mem_of_getElem? hindex
    refine h.of_client rfl rfl (le_refl _) ((List.eraseIdx_sublist _ _).filterMap _) ?_
      (nodup_putRecords h.queued.pending) (fun u hu => ⟨h.queued.uploads u hu, h.served.answers u hu⟩)
      h.queued.late h.queued.chunks h.served.removed
    intro op hop
    rcases mem_unsettled.mp hop with hp | ⟨call, hc, hop⟩ | hu
    · rcases mem_operationsOf_putRecords hp with hp | hnew
      · exact mem_unsettled.mpr (Or.inl hp)
      · rw [operationsOf, List.map_map] at hnew
        obtain ⟨o, ho, rfl⟩ := List.mem_map.mp hnew
        exact mem_unsettled.mpr (Or.inr (Or.inl ⟨_, hcall, ho⟩))
    · exact mem_unsettled.mpr (Or.inr (Or.inl ⟨call, List.mem_of_mem_eraseIdx hc, hop⟩))
    · exact mem_unsettled.mpr (Or.inr (Or.inr hu))
  · exact h

/-- Operations of the queue with one sequence are one operation. -/
theorem eq_of_deviceSequence_eq (h : Sound setup s) {a b : OperationIn} (ha : a ∈ s.created)
    (hb : b ∈ s.created) (heq : a.deviceSequence = b.deviceSequence) : a = b := by
  have hnodup : (s.created.map OperationIn.deviceSequence).Nodup :=
    List.pairwise_map.mpr h.numbered.sequences
  exact List.inj_on_of_nodup_map hnodup ha hb heq

theorem read (h : Sound setup s) (excludeIds : List Uuid) :
    Sound setup (s.read excludeIds) := by
  have hpending : ∀ r ∈ s.pending, r.operation ∈ s.created := fun r hr =>
    h.queued.built _ (mem_unsettled.mpr (Or.inl (List.mem_map_of_mem hr)))
  have hread : ∀ r ∈ getPendingOperations s.pending maxUploadBatch excludeIds, r ∈ s.pending :=
    fun r hr => mem_of_mem_getPendingOperations hr
  refine h.of_client rfl rfl (le_refl _) (List.Sublist.refl _) ?_ h.queued.pending ?_
    h.queued.late h.queued.chunks h.served.removed
  · intro op hop
    rcases mem_unsettled.mp hop with hp | hc | ⟨u, hu, hop⟩ | hl
    · exact mem_unsettled.mpr (Or.inl hp)
    · exact mem_unsettled.mpr (Or.inr (Or.inl hc))
    · rcases List.mem_append.mp hu with hu | hu
      · exact mem_unsettled.mpr (Or.inr (Or.inr (Or.inl ⟨u, hu, hop⟩)))
      · rw [List.mem_singleton.mp hu, Upload.operations] at hop
        rcases List.mem_append.mp hop with hop | hop
        · obtain ⟨r, hr, rfl⟩ := List.mem_map.mp hop
          exact mem_unsettled.mpr (Or.inl (List.mem_map_of_mem (hread r hr)))
        · exact absurd hop List.not_mem_nil
    · exact mem_unsettled.mpr (Or.inr (Or.inr (Or.inr hl)))
  · intro u hu
    rcases List.mem_append.mp hu with hu | hu
    · exact ⟨h.queued.uploads u hu, h.served.answers u hu⟩
    · rw [List.mem_singleton.mp hu]
      refine ⟨List.pairwise_map.mpr ?_, fun out hout => absurd hout (by simp)⟩
      refine pairwise_getPendingOperations h.queued.pending fun a ha b hb heq => ?_
      rw [PendingOperationRecord.id, PendingOperationRecord.id,
        h.eq_of_deviceSequence_eq (hpending a ha) (hpending b hb) heq]

theorem dropStuck (h : Sound setup s) : Sound setup (s.dropStuck index) := by
  unfold System.dropStuck
  split
  · rename_i records hindex
    exact h.of_setUpload hindex (h.nodup_removeFromQueue _)
      (fun op => mem_unsettled_of_removeFromQueue) List.filter_sublist rfl (by simp)
      h.served.removed
  · exact h

theorem mark (h : Sound setup s) : Sound setup (s.mark index) := by
  unfold System.mark
  split
  · rename_i records hindex
    refine h.of_setUpload hindex (nodup_putRecords h.queued.pending)
      (fun op => mem_unsettled_of_putRecords (List.mem_of_getElem? hindex) ?_)
      (List.Sublist.refl _) rfl (by simp) h.served.removed
    intro r hr
    obtain ⟨r, hmem, rfl⟩ := List.mem_map.mp hr
    exact List.mem_map.mpr ⟨r, hmem, rfl⟩
  · exact h

theorem send (h : Sound setup s) : Sound setup (s.send index) := by
  unfold System.send
  split
  · rename_i records hindex
    exact h.of_setUpload hindex h.queued.pending (fun op hop => mem_unsettled.mpr (Or.inl hop))
      (List.Sublist.refl _) rfl (by simp) h.served.removed
  · exact h

/-- **An answer arrives**: what it resolves was inserted. -/
theorem receive (h : Sound setup s) : Sound setup (s.receive index) := by
  unfold System.receive
  split
  · rename_i records out hindex
    have hmem : (⟨records, .answered out⟩ : Upload) ∈ s.uploads := List.mem_of_getElem? hindex
    refine h.of_setUpload hindex (h.nodup_removeFromQueue _)
      (fun op => mem_unsettled_of_removeFromQueue) (List.Sublist.refl _) rfl (by simp) ?_
    intro op hop
    rcases List.mem_append.mp hop with hop | hop
    · exact h.served.removed op hop
    · obtain ⟨r, hr, rfl⟩ := List.mem_map.mp hop
      obtain ⟨hpending, hid⟩ := List.mem_filter.mp hr
      obtain ⟨op, hop, heq, hins⟩ := h.served.answers _ hmem out rfl r.id (by simpa using hid)
      have hcreated := h.queued.built r.operation
        (mem_unsettled.mpr (Or.inl (List.mem_map_of_mem hpending)))
      have hcreated' := h.queued.built op (mem_unsettled.mpr
        (Or.inr (Or.inr (Or.inl ⟨_, hmem, List.mem_append_left _ hop⟩))))
      rwa [← List.inj_on_of_nodup_map h.numbered.ids hcreated' hcreated heq]
  · exact h

theorem replace (h : Sound setup s) : Sound setup (s.replace index) := by
  unfold System.replace
  split
  · rename_i records out replacements hindex
    have hmem := List.mem_of_getElem? hindex
    refine h.of_setUpload hindex (nodup_putRecords (h.nodup_removeFromQueue _)) ?_
      (List.Sublist.refl _) rfl (by simp) h.served.removed
    intro op hop
    rcases mem_operationsOf_putRecords hop with hp | hnew
    · exact mem_unsettled_of_removeFromQueue hp
    · rw [operationsOf, List.map_map] at hnew
      obtain ⟨o, ho, rfl⟩ := List.mem_map.mp hnew
      exact mem_unsettled.mpr (Or.inr (Or.inr (Or.inl ⟨_, hmem, List.mem_append_right _ ho⟩)))
  · exact h

theorem requeue (h : Sound setup s) : Sound setup (s.requeue index) := by
  have hgoal : ∀ records stage out, s.uploads[index]? = some ⟨records, stage⟩ →
      Sound setup { s with
        pending := requeueInFlightRecords s.pending (waitingRecords records out) true
        uploads := s.uploads.set index ⟨records, .requeued out⟩ } := by
    intro records stage out hindex
    refine h.of_setUpload hindex (nodup_putRecords h.queued.pending)
      (fun op => mem_unsettled_of_putRecords (List.mem_of_getElem? hindex) ?_)
      (List.Sublist.refl _) rfl (by simp) h.served.removed
    intro r hr
    obtain ⟨r, hmem, rfl⟩ := List.mem_map.mp hr
    exact List.mem_map.mpr ⟨r, mem_of_mem_recordsWithIds hmem, rfl⟩
  unfold System.requeue
  dsimp only
  split
  · rename_i records out hindex
    split
    · exact hgoal _ _ _ hindex
    · exact h
  · rename_i records out hindex
    exact hgoal _ _ _ hindex
  · exact h

theorem remove (h : Sound setup s) : Sound setup (s.remove index) := by
  unfold System.remove
  split
  · exact h.of_eraseUpload (h.nodup_removeFromQueue _)
      (fun op => mem_unsettled_of_removeFromQueue) fun ops hops => Or.inl hops
  · exact h

theorem mem_onItsWay {u : Upload} {ops : List OperationIn} (h : ops ∈ Upload.onItsWay u) :
    ops = operationsOf u.records := by
  unfold Upload.onItsWay at h
  split at h
  · exact List.mem_singleton.mp h
  · exact absurd h List.not_mem_nil

theorem giveUp (h : Sound setup s) : Sound setup (s.giveUp index) := by
  unfold System.giveUp
  split
  · rename_i u hindex
    have hmem := List.mem_of_getElem? hindex
    split
    · refine h.of_eraseUpload (nodup_putRecords h.queued.pending)
        (fun op => mem_unsettled_of_putRecords hmem ?_) ?_
      · intro r hr
        obtain ⟨r, hrecord, rfl⟩ := List.mem_map.mp hr
        exact List.mem_map.mpr ⟨r, hrecord, rfl⟩
      · intro ops hops
        rcases List.mem_append.mp hops with hops | hops
        · exact Or.inl hops
        · exact Or.inr ⟨u, hmem, mem_onItsWay hops⟩
    · exact h
  · exact h

theorem restart (h : Sound setup s) : Sound setup s.restart := by
  have hpending : operationsOf s.restart.pending = operationsOf s.pending := by
    simp [System.restart, resetInFlightOperations, operationsOf]
  have hlate : ∀ ops ∈ s.restart.late, ops ∈ s.late ∨
      ∃ u ∈ s.uploads, ops = operationsOf u.records := by
    intro ops hops
    rcases List.mem_append.mp hops with hops | hops
    · exact Or.inl hops
    · obtain ⟨u, hu, hops⟩ := List.mem_flatMap.mp hops
      exact Or.inr ⟨u, hu, mem_onItsWay hops⟩
  refine h.of_client rfl rfl (le_refl _) (List.nil_sublist _) ?_ ?_
    (fun u hu => absurd hu List.not_mem_nil) ?_ h.queued.chunks h.served.removed
  · intro op hop
    rcases mem_unsettled.mp hop with hp | ⟨_, hc, _⟩ | ⟨_, hu, _⟩ | ⟨ops, hmem, hop⟩
    · rw [hpending] at hp
      exact mem_unsettled.mpr (Or.inl hp)
    · exact absurd hc List.not_mem_nil
    · exact absurd hu List.not_mem_nil
    · rcases hlate ops hmem with hl | ⟨u, hu, rfl⟩
      · exact mem_unsettled.mpr (Or.inr (Or.inr (Or.inr ⟨ops, hl, hop⟩)))
      · exact mem_unsettled.mpr (Or.inr (Or.inr (Or.inl ⟨u, hu, List.mem_append_left _ hop⟩)))
  · have hids : s.restart.pending.map PendingOperationRecord.id =
        s.pending.map PendingOperationRecord.id := by
      simp [System.restart, resetInFlightOperations, PendingOperationRecord.id]
    rw [hids]
    exact h.queued.pending
  · intro ops hmem
    rcases hlate ops hmem with hl | ⟨u, hu, rfl⟩
    · exact h.queued.late ops hl
    · exact h.queued.uploads u hu

theorem sendChunk (h : Sound setup s) (operationId objectId : Uuid) (payload : RawValue)
    (visitCount : ℤ) (visitHours : VisitHours) :
    Sound setup (s.sendChunk setup operationId objectId payload visitCount visitHours) := by
  unfold System.sendChunk
  split
  · exact h
  · rename_i hown
    refine h.of_client rfl rfl ?_ (List.Sublist.refl _) (fun op hop => hop) h.queued.pending
      (fun u hu => ⟨h.queued.uploads u hu, h.served.answers u hu⟩) h.queued.late ?_ h.served.removed
    · change s.deviceSequence ≤ s.deviceSequence + ((1 : ℕ) : ℤ)
      omega
    · intro op hop
      change _ ∧ op.deviceSequence ≤ s.deviceSequence + ((1 : ℕ) : ℤ)
      rcases List.mem_append.mp hop with hop | hop
      · obtain ⟨hid, hle⟩ := h.queued.chunks op hop
        exact ⟨hid, by omega⟩
      · rw [List.mem_singleton.mp hop]
        exact ⟨by simpa [chunkOperation] using hown, le_refl _⟩

end Device

/-! ### Steps that reserve sequences and build operations -/

theorem reserve (h : Sound setup s) (items : List PendingLocalOperation) :
    Sound setup (s.reserve items) := by
  unfold System.reserve
  split
  · exact h
  set s' : System := { s.reserveSequenceBatch items.length with
    calls := s.calls ++ [.reserved items s.deviceSequence s.lamportClock] } with hs'
  have hblocks : s'.blocks = s.blocks ++ [(s.deviceSequence, items.length)] := by
    simp [hs', System.blocks, LocalCall.block?]
  have hseq : s'.deviceSequence = s.deviceSequence + items.length := rfl
  have hunsettled : ∀ op ∈ s'.unsettled, op ∈ s.unsettled := by
    intro op hop
    rcases mem_unsettled.mp hop with hp | ⟨call, hc, hop⟩ | hu
    · exact mem_unsettled.mpr (Or.inl hp)
    · rcases List.mem_append.mp hc with hc | hc
      · exact mem_unsettled.mpr (Or.inr (Or.inl ⟨call, hc, hop⟩))
      · rw [List.mem_singleton.mp hc] at hop
        exact absurd hop List.not_mem_nil
    · exact mem_unsettled.mpr (Or.inr (Or.inr hu))
  refine ⟨⟨?_, h.numbered.ids, h.numbered.own, h.numbered.sequences, ?_, ?_, ?_⟩,
    ⟨fun op hop => h.queued.built op (hunsettled op hop), h.queued.pending, h.queued.uploads,
      h.queued.late, ?_⟩,
    ⟨h.served.wf, h.served.rows, fun d hd op hop => h.served.above d hd op (hunsettled op hop), ?_,
      ?_, h.served.answers, h.served.removed⟩⟩
  · have hcounter := h.numbered.counter
    omega
  · intro op hop
    obtain ⟨hlo, hhi, hbulk⟩ := h.numbered.range op hop
    exact ⟨hlo, by omega, hbulk⟩
  · intro b hb
    rw [hblocks] at hb
    rcases List.mem_append.mp hb with hb | hb
    · obtain ⟨hlo, hhi, hops⟩ := h.numbered.blocks b hb
      exact ⟨hlo, by omega, hops⟩
    · rw [List.mem_singleton.mp hb]
      exact ⟨h.numbered.counter, le_refl _, fun op hop => Or.inl (h.numbered.range op hop).2.1⟩
  · rw [hblocks, List.pairwise_append]
    refine ⟨h.numbered.disjoint, List.pairwise_singleton _ _, fun b hb b' hb' => ?_⟩
    rw [List.mem_singleton.mp hb']
    exact Or.inl (h.numbered.blocks b hb).2.1
  · intro op hop
    obtain ⟨hid, hle⟩ := h.queued.chunks op hop
    exact ⟨hid, by omega⟩
  · intro d hd b hb
    rw [hblocks] at hb
    rcases List.mem_append.mp hb with hb | hb
    · exact h.served.blocksAbove d hd b hb
    · rw [List.mem_singleton.mp hb]
      exact h.served.counterAbove d hd
  · intro d hd
    have hle := h.served.counterAbove d hd
    omega

/-- **A step that builds operations** with new ids, and with sequences `lo + 1` to `hi` that
nothing else has. -/
theorem of_build (h : Sound setup s) {ops : List OperationIn} (lo hi : ℤ)
    (hids : FreshIds setup s (ops.map OperationIn.operationId))
    (hsorted : ops.Pairwise fun a b => a.deviceSequence < b.deviceSequence)
    (hrange : ∀ op ∈ ops, lo < op.deviceSequence ∧ op.deviceSequence ≤ hi ∧
      op.isBulkHistoryImport = false)
    (hlo : 0 ≤ lo) (hfree : ∀ op ∈ s.created, op.deviceSequence ≤ lo ∨ hi < op.deviceSequence)
    (habove : ∀ d, s.server.db.device? setup.deviceId = some d → d.lastDeviceSequence ≤ lo)
    (hserver : s'.server = s.server) (hcreated : s'.created = s.created ++ ops)
    (hseq : s.deviceSequence ≤ s'.deviceSequence) (hhi : hi ≤ s'.deviceSequence)
    (hblocks : s'.blocks.Sublist s.blocks)
    (hdisjoint : ∀ b ∈ s'.blocks, b.1 + (b.2 : ℤ) ≤ lo ∨ hi ≤ b.1)
    (hunsettled : ∀ op ∈ s'.unsettled, op ∈ s.unsettled ∨ op ∈ ops)
    (hpending : s'.pending = s.pending)
    (huploads : ∀ u ∈ s'.uploads, ∃ u' ∈ s.uploads, u'.records = u.records ∧
      ∀ out, u.stage = .answered out → u' = u)
    (hlate : s'.late = s.late) (hchunks : s'.chunks = s.chunks)
    (hremoved : s'.removed = s.removed) : Sound setup s' := by
  have hinserted : ∀ op, Inserted setup s' op ↔ Inserted setup s op := fun op => by
    rw [Inserted, Inserted, hserver]
  refine ⟨⟨le_trans h.numbered.counter hseq, ?_, ?_, ?_, ?_, ?_, h.numbered.disjoint.sublist hblocks⟩,
    ⟨?_, ?_, ?_, ?_, ?_⟩, ⟨?_, ?_, ?_, ?_, ?_, ?_, ?_⟩⟩
  · rw [hcreated, List.map_append, List.nodup_append]
    exact ⟨h.numbered.ids, hids.1, fun a ha b hb hab => (hids.2 b hb).2 (hab ▸ ha)⟩
  · intro op hop
    rw [hcreated] at hop
    rcases List.mem_append.mp hop with hop | hop
    · exact h.numbered.own op hop
    · exact (hids.2 _ (List.mem_map_of_mem hop)).1
  · rw [hcreated, List.pairwise_append]
    refine ⟨h.numbered.sequences, hsorted.imp fun hlt => ne_of_lt hlt, fun a ha b hb hab => ?_⟩
    have hb' := hrange b hb
    have ha' := hfree a ha
    omega
  · intro op hop
    rw [hcreated] at hop
    rcases List.mem_append.mp hop with hop | hop
    · obtain ⟨hone, hle, hbulk⟩ := h.numbered.range op hop
      exact ⟨hone, le_trans hle hseq, hbulk⟩
    · obtain ⟨hgt, hle, hbulk⟩ := hrange op hop
      exact ⟨by omega, le_trans hle hhi, hbulk⟩
  · intro b hb
    obtain ⟨hnonneg, hle, hops⟩ := h.numbered.blocks b (hblocks.mem hb)
    refine ⟨hnonneg, le_trans hle hseq, fun op hop => ?_⟩
    rw [hcreated] at hop
    rcases List.mem_append.mp hop with hop | hop
    · exact hops op hop
    · have hr := hrange op hop
      have hd := hdisjoint b hb
      omega
  · intro op hop
    rw [hcreated]
    exact List.mem_append.mpr ((hunsettled op hop).imp (h.queued.built op) id)
  · rw [hpending]
    exact h.queued.pending
  · intro u hu
    obtain ⟨u', hu', hrec, -⟩ := huploads u hu
    rw [← hrec]
    exact h.queued.uploads u' hu'
  · rw [hlate]
    exact h.queued.late
  · intro op hop
    rw [hchunks] at hop
    obtain ⟨hid, hle⟩ := h.queued.chunks op hop
    exact ⟨hid, le_trans hle hseq⟩
  · rw [hserver]
    exact h.served.wf
  · intro row hrow hown
    rw [hserver] at hrow
    obtain ⟨op, hop, hrest⟩ := h.served.rows row hrow hown
    rw [hcreated]
    exact ⟨op, List.mem_append_left _ hop, hrest⟩
  · intro d hd op hop
    rw [hserver] at hd
    rw [hinserted]
    rcases hunsettled op hop with hop | hop
    · exact h.served.above d hd op hop
    · exact Or.inr (Or.inr (lt_of_le_of_lt (habove d hd) (hrange op hop).1))
  · intro d hd b hb
    rw [hserver] at hd
    exact h.served.blocksAbove d hd b (hblocks.mem hb)
  · intro d hd
    rw [hserver] at hd
    exact le_trans (h.served.counterAbove d hd) hseq
  · intro u hu out hout id hid
    obtain ⟨u', hu', hrec, hsame⟩ := huploads u hu
    obtain ⟨op, hop, heq, hins⟩ := h.served.answers u' hu' out (hsame out hout ▸ hout) id hid
    exact ⟨op, hrec ▸ hop, heq, (hinserted op).mpr hins⟩
  · intro op hop
    rw [hremoved] at hop
    exact (hinserted op).mpr (h.served.removed op hop)

theorem encrypt (h : Sound setup s) (index : ℕ) (sealed : List Sealed) :
    Sound setup (s.encrypt setup index sealed) := by
  unfold System.encrypt
  split
  · rename_i items start lamport hindex
    split
    · rename_i hguard
      obtain ⟨hlen, hfresh⟩ := hguard
      obtain ⟨hlt, hget⟩ := List.getElem?_eq_some_iff.mp hindex
      obtain ⟨before, after, hcalls, -, hset⟩ := @List.exists_of_set _ index
        (LocalCall.encrypted (buildOperations (items.zip sealed) start lamport)) s.calls hlt
      rw [hget] at hcalls
      have hblocks : s.blocks = before.filterMap LocalCall.block? ++
          (start, items.length) :: after.filterMap LocalCall.block? := by
        rw [System.blocks, hcalls, List.filterMap_append, List.filterMap_cons]
        rfl
      have hzip : (items.zip sealed).length = items.length := by
        rw [List.length_zip, hlen, min_self]
      have hids : (buildOperations (items.zip sealed) start lamport).map OperationIn.operationId =
          sealed.map Sealed.operationId := by
        rw [map_operationId_buildOperations]
        change (items.zip sealed).map (Sealed.operationId ∘ Prod.snd) = _
        rw [← List.map_map, List.map_snd_zip (by omega)]
      obtain ⟨hnonneg, hle, hfree⟩ := h.numbered.blocks (start, items.length) (by simp [hblocks])
      have hdisjoint := h.numbered.disjoint
      rw [hblocks, List.pairwise_append, List.pairwise_cons] at hdisjoint
      obtain ⟨-, ⟨hafter, -⟩, hbefore⟩ := hdisjoint
      refine h.of_build start (start + items.length) (hids ▸ hfresh)
        pairwise_buildOperations ?_ hnonneg hfree
        (fun d hd => h.served.blocksAbove d hd (start, items.length) (by simp [hblocks]))
        rfl rfl (le_refl _) hle ?_ ?_ ?_ rfl
        (fun u hu => ⟨u, hu, rfl, fun _ _ => rfl⟩) rfl rfl rfl
      · intro op hop
        rw [← hzip]
        exact seq_of_mem_buildOperations hop
      · change List.Sublist ((s.calls.set index _).filterMap LocalCall.block?) s.blocks
        rw [hset, hblocks, List.filterMap_append, List.filterMap_cons]
        exact (List.Sublist.refl _).append (List.sublist_cons_self _ _)
      · intro b hb
        change b ∈ (s.calls.set index _).filterMap LocalCall.block? at hb
        rw [hset, List.filterMap_append, List.filterMap_cons] at hb
        rcases List.mem_append.mp hb with hb | hb
        · exact hbefore b hb (start, items.length) List.mem_cons_self
        · exact (hafter b hb).symm
      · intro op hop
        rcases mem_unsettled.mp hop with hp | ⟨call, hc, hop⟩ | hu
        · exact Or.inl (mem_unsettled.mpr (Or.inl hp))
        · rcases List.mem_or_eq_of_mem_set hc with hc | rfl
          · exact Or.inl (mem_unsettled.mpr (Or.inr (Or.inl ⟨call, hc, hop⟩)))
          · exact Or.inr hop
        · exact Or.inl (mem_unsettled.mpr (Or.inr (Or.inr hu)))
    · exact h
  · exact h

theorem reissue (h : Sound setup s) (index : ℕ) (sealed : List (Option Sealed)) :
    Sound setup (s.reissue setup index sealed) := by
  unfold System.reissue
  split
  · rename_i records out hindex
    dsimp only
    split
    · rename_i hguard
      have hmem := List.mem_of_getElem? hindex
      set decoded := ((unknownRestores records out).zip sealed).filterMap fun e =>
        e.2.map fun sealed => (reissueItem e.1.operation, sealed) with hdecoded
      refine h.of_build s.deviceSequence (s.deviceSequence + decoded.length) ?_
        pairwise_buildOperations (fun op hop => seq_of_mem_buildOperations hop) h.numbered.counter
        (fun op hop => Or.inl (h.numbered.range op hop).2.1)
        (fun d hd => h.served.counterAbove d hd) rfl rfl ?_ (le_refl _) (List.Sublist.refl _)
        (fun b hb => Or.inl (h.numbered.blocks b hb).2.1) ?_ rfl ?_ rfl rfl rfl
      · rw [map_operationId_buildOperations]
        exact hguard.2.2
      · change s.deviceSequence ≤ s.deviceSequence + (decoded.length : ℤ)
        omega
      · intro op hop
        rcases mem_unsettled.mp hop with hp | hc | ⟨u, hu, hop⟩ | hl
        · exact Or.inl (mem_unsettled.mpr (Or.inl hp))
        · exact Or.inl (mem_unsettled.mpr (Or.inr (Or.inl hc)))
        · rcases List.mem_or_eq_of_mem_set hu with hu | rfl
          · exact Or.inl (mem_unsettled.mpr (Or.inr (Or.inr (Or.inl ⟨u, hu, hop⟩))))
          · rcases List.mem_append.mp hop with hop | hop
            · exact Or.inl (mem_unsettled.mpr (Or.inr (Or.inr (Or.inl
                ⟨_, hmem, List.mem_append_left _ hop⟩))))
            · exact Or.inr hop
        · exact Or.inl (mem_unsettled.mpr (Or.inr (Or.inr (Or.inr hl))))
      · intro u hu
        rcases List.mem_or_eq_of_mem_set hu with hu | rfl
        · exact ⟨u, hu, rfl, fun _ _ => rfl⟩
        · exact ⟨_, hmem, rfl, fun out hout => absurd hout (by simp)⟩
    · exact h
  · exact h

/-! ### Steps of the server -/

theorem Inserted.mono {op : OperationIn} (hsub : s.server.history ⊆ s'.server.history)
    (h : Inserted setup s op) : Inserted setup s' op := by
  obtain ⟨now, userId, cursor, hrow⟩ := h
  exact ⟨now, userId, cursor, hsub hrow⟩

/-- An operation of the queue whose id the history has was inserted. -/
theorem inserted_of_operationId (h : Sound setup s) {op : OperationIn} (hop : op ∈ s.created)
    {row : OperationRow} (hrow : row ∈ s.server.history)
    (hid : row.operationId = op.operationId) : Inserted setup s op := by
  obtain ⟨op', hop', now, userId, cursor, rfl⟩ :=
    h.served.rows row hrow (hid ▸ h.numbered.own op hop)
  obtain rfl : op' = op := List.inj_on_of_nodup_map h.numbered.ids hop' hop hid
  exact ⟨now, userId, cursor, hrow⟩

/-- **A step of the server** that leaves the device's sequence below what stays behind. -/
theorem of_server (h : Sound setup s) {server : Server}
    (hwf : Server.WellFormed server) (hsub : s.server.history ⊆ server.history)
    (hrows : ∀ row ∈ server.history, row ∈ s.server.history ∨
      setup.ownId row.operationId = false ∨ ∃ op ∈ s.created, ∃ now userId cursor,
        row = operationRow now ⟨userId, setup.deviceId⟩ cursor op)
    (habove : ∀ d, server.db.device? setup.deviceId = some d → ∀ op ∈ s.unsettled,
      Inserted setup { s with server := server } op ∨ Hopeless op ∨
        d.lastDeviceSequence < op.deviceSequence)
    (hblocks : ∀ d, server.db.device? setup.deviceId = some d → ∀ b ∈ s.blocks,
      d.lastDeviceSequence ≤ b.1)
    (hcounter : ∀ d, server.db.device? setup.deviceId = some d →
      d.lastDeviceSequence ≤ s.deviceSequence) : Sound setup { s with server := server } := by
  have hmono : ∀ op, Inserted setup s op → Inserted setup { s with server := server } op :=
    fun op => Inserted.mono hsub
  refine ⟨⟨h.numbered.counter, h.numbered.ids, h.numbered.own, h.numbered.sequences,
      h.numbered.range, h.numbered.blocks, h.numbered.disjoint⟩,
    ⟨h.queued.built, h.queued.pending, h.queued.uploads, h.queued.late, h.queued.chunks⟩,
    ⟨hwf, ?_, habove, hblocks, hcounter, ?_, ?_⟩⟩
  · intro row hrow hown
    rcases hrows row hrow with hold | hother | hnew
    · exact h.served.rows row hold hown
    · rw [hother] at hown
      exact absurd hown (by simp)
    · exact hnew
  · intro u hu out hout id hid
    obtain ⟨op, hop, heq, hins⟩ := h.served.answers u hu out hout id hid
    exact ⟨op, hop, heq, hmono op hins⟩
  · exact fun op hop => hmono op (h.served.removed op hop)

/-- An event at the server that is not an upload of the device. -/
theorem server (h : Sound setup s) {e : Event} (he : Elsewhere setup e) :
    Sound setup { s with server := s.server.step setup.cfg e } := by
  have hstep : Server.Step setup.cfg s.server e (s.server.step setup.cfg e) := Server.step_spec e
  have hne : ∀ ops, e ≠ .upload setup.deviceId ops := by
    rintro ops rfl
    exact he.1 rfl
  have hsub := Server.history_subset_step hstep
  -- the device is as it was, or it was registered just now
  have hdevice : ∀ d', (s.server.step setup.cfg e).db.device? setup.deviceId = some d' →
      (∃ d, s.server.db.device? setup.deviceId = some d ∧
        d.lastDeviceSequence = d'.lastDeviceSequence) ∨ d'.lastDeviceSequence = 0 := by
    intro d' hd'
    have hstate : (s.server.step setup.cfg e).db.deviceState? setup.deviceId =
        some (d'.userId, d'.lastDeviceSequence) := by
      rw [Db.deviceState?, hd']
      rfl
    rcases Server.deviceState?_of_ne_upload hstep hne with hsame | ⟨-, userId, hzero⟩
    · rw [hsame] at hstate
      obtain ⟨d, hd, heq⟩ := Option.map_eq_some_iff.mp hstate
      exact Or.inl ⟨d, hd, (Prod.mk.inj heq).2⟩
    · rw [hzero] at hstate
      exact Or.inr (Prod.mk.inj (Option.some.inj hstate)).2.symm
  refine h.of_server (h.served.wf.step hstep) hsub ?_ ?_ ?_ ?_
  · intro row hrow
    rcases Server.exists_of_mem_history_step hstep hrow with hold | ⟨deviceId, ops, rfl, op, hop,
      userId, cursor, rfl⟩
    · exact Or.inl hold
    · exact Or.inr (Or.inl (he.2 op hop))
  · intro d' hd' op hop
    rcases hdevice d' hd' with ⟨d, hd, heq⟩ | hzero
    · rw [← heq]
      exact (h.served.above d hd op hop).imp_left (Inserted.mono hsub)
    · have hone := (h.numbered.range op (h.queued.built op hop)).1
      exact Or.inr (Or.inr (by omega))
  · intro d' hd' b hb
    rcases hdevice d' hd' with ⟨d, hd, heq⟩ | hzero
    · rw [← heq]
      exact h.served.blocksAbove d hd b hb
    · rw [hzero]
      exact (h.numbered.blocks b hb).1
  · intro d' hd'
    rcases hdevice d' hd' with ⟨d, hd, heq⟩ | hzero
    · rw [← heq]
      exact h.served.counterAbove d hd
    · rw [hzero]
      exact h.numbered.counter

/-! ### A batch of the device -/

section Batch

variable {ops : List OperationIn} {d : DeviceRow}

/-- What a batch may be: queued operations in sequence order, or one history chunk. -/
def IsBatch (s : System) (ops : List OperationIn) : Prop :=
  ((ops.Pairwise fun a b => a.deviceSequence < b.deviceSequence) ∧ ∀ op ∈ ops, op ∈ s.created) ∨
    ∃ chunk ∈ s.chunks, ops = [chunk]

/-- The operations the server accepts of a batch. -/
def acceptedOf (setup : Setup) (s : System) (d : DeviceRow) (ops : List OperationIn) :
    List OperationIn :=
  s.server.db.accepts setup.cfg s.server.now ⟨d.userId, d.id⟩ d ops

/-- **What an upload of the device does**: it fails and nothing changes, or the accepted
operations are inserted, and the device's sequence becomes that of one of them. -/
theorem upload_spec (hd : s.server.db.device? setup.deviceId = some d) (ops : List OperationIn) :
    (s.server.answer setup.cfg setup.deviceId ops = none ∧
      s.server.step setup.cfg (.upload setup.deviceId ops) = s.server) ∨
    ∃ out cursor start, s.server.answer setup.cfg setup.deviceId ops = some out ∧
      out = outcomeOf (validateBatch setup.cfg s.server.now s.server.db ⟨d.userId, d.id⟩ d ops).1
        cursor ∧
      (s.server.step setup.cfg (.upload setup.deviceId ops)).history = s.server.history ++
        batchRows s.server.now ⟨d.userId, d.id⟩ start (acceptedOf setup s d ops) ∧
      ∀ d', (s.server.step setup.cfg (.upload setup.deviceId ops)).db.device? setup.deviceId =
          some d' → d'.lastDeviceSequence = d.lastDeviceSequence ∨
            ∃ op ∈ acceptedOf setup s d ops, d'.lastDeviceSequence = op.deviceSequence := by
  have hid : d.id = setup.deviceId := Db.device?_id hd
  have hauth : s.server.authenticate setup.deviceId = some ⟨d.userId, d.id⟩ := by
    rw [Server.authenticate, hd]
    rfl
  have hd' : s.server.db.device? (⟨d.userId, d.id⟩ : AuthenticatedDevice).deviceId = some d := by
    rw [← hd, hid]
  have hstep : s.server.step setup.cfg (.upload setup.deviceId ops) =
      s.server.upload setup.cfg ⟨d.userId, d.id⟩ ops := by
    simp only [Server.step, hauth]
  rcases hproc : processBatch setup.cfg s.server.now s.server.db ⟨d.userId, d.id⟩ ops with
    err | ⟨out, db'⟩
  · refine Or.inl ⟨by simp only [Server.answer, hauth, hproc], ?_⟩
    rw [hstep, Server.upload, hproc]
  · obtain ⟨cursor, hout⟩ := processBatch_outcome hd' hproc
    refine Or.inr ⟨out, cursor, s.server.db.currentCursor d.userId + 1,
      by simp only [Server.answer, hauth, hproc], hout, ?_, ?_⟩
    · rw [hstep, Server.upload_eq hd' hproc, Server.history, List.flatten_append,
        List.flatten_singleton]
      rfl
    · intro d'' hd''
      rw [hstep, Server.upload_eq hd' hproc] at hd''
      change db'.device? setup.deviceId = some d'' at hd''
      rcases processBatch_ok hproc with ⟨rfl, -⟩ | ⟨d₁, hd₁, hne, hwrite⟩
      · rw [hd] at hd''
        exact Or.inl (congrArg _ (Option.some.inj hd'').symm)
      · obtain rfl := Option.some.inj (hd'.symm.trans hd₁)
        have hstate := Server.deviceState?_writeBatch hwrite hd' setup.deviceId
        rw [if_pos hid.symm, Db.deviceState?, hd'', Option.map_some, Option.some.injEq,
          Prod.mk.injEq] at hstate
        obtain ⟨last, hlast⟩ := List.getLast?_isSome.mpr hne |> Option.isSome_iff_exists.mp
        refine Or.inr ⟨last, List.mem_of_getLast? hlast, ?_⟩
        have hseq := @validateOps_lastSeq
          (batchContext setup.cfg s.server.now s.server.db ⟨d.userId, d.id⟩
            d.lastDeviceSequence ops) ⟨d.lastDeviceSequence, ∅⟩ ops
        rw [hstate.2]
        refine hseq.trans ?_
        change (((s.server.db.accepts _ _ _ _ _).getLast?).map _).getD _ = _
        rw [hlast]
        rfl

/-- A device the server does not know has no effect on it. -/
theorem upload_of_none (hd : s.server.db.device? setup.deviceId = none) (ops : List OperationIn) :
    s.server.answer setup.cfg setup.deviceId ops = none ∧
      s.server.step setup.cfg (.upload setup.deviceId ops) = s.server := by
  have hauth : s.server.authenticate setup.deviceId = none := by
    rw [Server.authenticate, hd]
    rfl
  exact ⟨by simp only [Server.answer, hauth], by simp only [Server.step, hauth]⟩

/-- What is accepted and what is acceptable, for a batch of the queue. -/
theorem mem_acceptedOf (h : Sound setup s) (hbatch : IsBatch s ops) {op : OperationIn}
    (hop : op ∈ s.unsettled) (hmem : op ∈ ops) (hacc : Acceptable setup s d ops op) :
    op ∈ acceptedOf setup s d ops := by
  have hcreated := h.queued.built op hop
  rcases hbatch with ⟨hsorted, hops⟩ | ⟨chunk, hchunk, rfl⟩
  · exact mem_accepts_of_acceptable (fun o ho => (h.numbered.range o (hops o ho)).2.2) hsorted
      hmem hacc
  · -- a chunk has an id of another kind
    have hown := h.numbered.own op hcreated
    rw [List.mem_singleton.mp hmem, (h.queued.chunks chunk hchunk).1] at hown
    exact absurd hown (by simp)

theorem deviceSequence_le_of_isBatch (h : Sound setup s) (hbatch : IsBatch s ops) {op : OperationIn}
    (hmem : op ∈ ops) : op.deviceSequence ≤ s.deviceSequence := by
  rcases hbatch with ⟨-, hops⟩ | ⟨chunk, hchunk, rfl⟩
  · exact (h.numbered.range op (hops op hmem)).2.1
  · rw [List.mem_singleton.mp hmem]
    exact (h.queued.chunks chunk hchunk).2

/-- **A batch in order** keeps the invariant. -/
theorem serveBatch (h : Sound setup s) (hbatch : IsBatch s ops) (hord : InOrder setup s ops) :
    Sound setup (s.serveBatch setup ops) := by
  have hstep : Server.Step setup.cfg s.server (.upload setup.deviceId ops)
    (s.server.step setup.cfg (.upload setup.deviceId ops)) := Server.step_spec _
  rcases hd : s.server.db.device? setup.deviceId with _ | d
  · rw [System.serveBatch, (upload_of_none hd ops).2]
    exact h
  rcases upload_spec hd ops with ⟨-, hsame⟩ | ⟨out, cursor, start, -, -, hhist, hdevice⟩
  · rw [System.serveBatch, hsame]
    exact h
  have hid : d.id = setup.deviceId := Db.device?_id hd
  have hsub := Server.history_subset_step hstep
  have hinserted : ∀ op ∈ acceptedOf setup s d ops,
      Inserted setup (s.serveBatch setup ops) op := by
    intro op hop
    obtain ⟨c, hrow⟩ := @exists_of_mem_accepted s.server.now ⟨d.userId, d.id⟩ start _ op hop
    refine ⟨s.server.now, d.userId, c, ?_⟩
    change _ ∈ (s.server.step setup.cfg (.upload setup.deviceId ops)).history
    rw [hhist, ← hid]
    exact List.mem_append_right _ hrow
  have hops : ∀ op ∈ acceptedOf setup s d ops, op ∈ ops ∧ Acceptable setup s d ops op :=
    fun op hop => ⟨(accepts_sublist _).mem hop, acceptable_of_mem_accepts hop⟩
  refine h.of_server (h.served.wf.step hstep) hsub ?_ ?_ ?_ ?_
  · intro row hrow
    rw [hhist] at hrow
    rcases List.mem_append.mp hrow with hold | hnew
    · exact Or.inl hold
    · obtain ⟨op, hop, c, -, -, rfl⟩ := exists_of_mem_batchRows hnew
      rcases hbatch with ⟨-, hcreated⟩ | ⟨chunk, hchunk, rfl⟩
      · exact Or.inr (Or.inr ⟨op, hcreated op (hops op hop).1, s.server.now, d.userId, c, by rw [hid]⟩)
      · refine Or.inr (Or.inl ?_)
        have hrow := (h.queued.chunks chunk hchunk).1
        rw [← List.mem_singleton.mp (hops op hop).1] at hrow
        exact hrow
  · intro d' hd' op hop
    by_cases hacc : op ∈ acceptedOf setup s d ops
    · exact Or.inl (hinserted op hacc)
    rcases h.served.above d hd op hop with hins | hhopeless | hlt
    · exact Or.inl (Inserted.mono hsub hins)
    · exact Or.inr (Or.inl hhopeless)
    rcases hdevice d' hd' with hlast | ⟨last, hlast, heq⟩
    · exact Or.inr (Or.inr (hlast ▸ hlt))
    · by_cases hins : Inserted setup s op
      · exact Or.inl (Inserted.mono hsub hins)
      by_cases hhopeless : Hopeless op
      · exact Or.inr (Or.inl hhopeless)
      -- the operation stays behind, so what was accepted is not ahead of it
      have hbehind : op ∉ ops ∨ ¬Acceptable setup s d ops op := by
        by_contra hcon
        push Not at hcon
        exact hacc (h.mem_acceptedOf hbatch hop hcon.1 hcon.2)
      rw [heq]
      exact Or.inr (Or.inr ((hord d hd last (hops last hlast).1 (hops last hlast).2).1 op hop hins
        hhopeless hbehind))
  · intro d' hd' b hb
    rcases hdevice d' hd' with hlast | ⟨last, hlast, heq⟩
    · rw [hlast]
      exact h.served.blocksAbove d hd b hb
    · rw [heq]
      exact (hord d hd last (hops last hlast).1 (hops last hlast).2).2 b hb
  · intro d' hd'
    rcases hdevice d' hd' with hlast | ⟨last, hlast, heq⟩
    · rw [hlast]
      exact h.served.counterAbove d hd
    · rw [heq]
      exact h.deviceSequence_le_of_isBatch hbatch (hops last hlast).1

/-- **What an answer resolves was inserted**, now or before. -/
theorem inserted_of_answer (h : Sound setup s)
    (hops : ∀ op ∈ ops, op ∈ s.unsettled) {out : BatchOutcome}
    (hanswer : s.server.answer setup.cfg setup.deviceId ops = some out) {id : Uuid}
    (hid : id ∈ resolvedIds out) :
    ∃ op ∈ ops, op.operationId = id ∧ Inserted setup (s.serveBatch setup ops) op := by
  have hstep : Server.Step setup.cfg s.server (.upload setup.deviceId ops)
    (s.server.step setup.cfg (.upload setup.deviceId ops)) := Server.step_spec _
  have hsub := Server.history_subset_step hstep
  rcases hd : s.server.db.device? setup.deviceId with _ | d
  · rw [(upload_of_none hd ops).1] at hanswer
    exact absurd hanswer (by simp)
  rcases upload_spec hd ops with ⟨hnone, -⟩ | ⟨out', cursor, start, hsome, hout, hhist, -⟩
  · rw [hnone] at hanswer
    exact absurd hanswer (by simp)
  obtain rfl := Option.some.inj (hsome.symm.trans hanswer)
  rw [hout] at hid
  rcases List.mem_append.mp hid with hacc | hdup
  · rw [accepted_outcomeOf] at hacc
    obtain ⟨op, hop, rfl⟩ := List.mem_map.mp hacc
    refine ⟨op, (accepts_sublist _).mem hop, rfl, ?_⟩
    obtain ⟨c, hrow⟩ := @exists_of_mem_accepted s.server.now ⟨d.userId, d.id⟩ start _ op hop
    refine ⟨s.server.now, d.userId, c, ?_⟩
    change _ ∈ (s.server.step setup.cfg (.upload setup.deviceId ops)).history
    rw [hhist, ← Db.device?_id hd]
    exact List.mem_append_right _ hrow
  · obtain ⟨op, hdec, rfl⟩ := exists_of_mem_duplicate hdup
    obtain ⟨hop, st', hdecision⟩ := exists_of_mem_validateOps hdec
    have hunsettled := hops op hop
    have hcreated := h.queued.built op hunsettled
    refine ⟨op, hop, rfl, Inserted.mono hsub ?_⟩
    rcases validateOp_duplicate_cases hdecision with hex | hbulk | ⟨hshape, hseq⟩
    · obtain ⟨row, hrow, hrowId, -⟩ := exists_of_operationOwner? hex
      exact h.inserted_of_operationId hcreated (h.served.wf.log.mem hrow) hrowId
    · rw [(h.numbered.range op hcreated).2.2] at hbulk
      exact absurd hbulk (by simp)
    · rcases h.served.above d hd op hunsettled with hins | hhopeless | hlt
      · exact hins
      · exact absurd hshape (hhopeless _ _)
      · exact absurd hlt (not_lt.mpr hseq)

end Batch

theorem serve (h : Sound setup s) {index : ℕ} (hord : ServesInOrder setup s (.serve index)) :
    Sound setup (s.serve setup index) := by
  unfold System.serve
  split
  · rename_i records hindex
    have hmem := List.mem_of_getElem? hindex
    have hunsettled : ∀ op ∈ operationsOf records, op ∈ s.unsettled := fun op hop =>
      mem_unsettled.mpr (Or.inr (Or.inr (Or.inl ⟨_, hmem, List.mem_append_left _ hop⟩)))
    have hbatch : IsBatch s (operationsOf records) :=
      Or.inl ⟨h.queued.uploads _ hmem, fun op hop => h.queued.built op (hunsettled op hop)⟩
    have hserved := h.serveBatch hbatch (hord _ (by simp only [request?, hindex]))
    have hnone : ∀ answer, (answerStage answer).replacements = [] := by
      intro answer
      cases answer <;> rfl
    refine hserved.of_client rfl rfl (le_refl _) (List.Sublist.refl _) ?_ hserved.queued.pending ?_
      hserved.queued.late hserved.queued.chunks hserved.served.removed
    · intro op hop
      rcases mem_unsettled.mp hop with hp | hc | ⟨u, hu, hop⟩ | hl
      · exact mem_unsettled.mpr (Or.inl hp)
      · exact mem_unsettled.mpr (Or.inr (Or.inl hc))
      · refine mem_unsettled.mpr (Or.inr (Or.inr (Or.inl ?_)))
        rcases List.mem_or_eq_of_mem_set hu with hu | rfl
        · exact ⟨u, hu, hop⟩
        · rw [Upload.operations, hnone, List.append_nil] at hop
          exact ⟨⟨records, .waiting⟩, hmem, List.mem_append_left _ hop⟩
      · exact mem_unsettled.mpr (Or.inr (Or.inr (Or.inr hl)))
    · intro u hu
      rcases List.mem_or_eq_of_mem_set hu with hu | rfl
      · exact ⟨hserved.queued.uploads u hu, hserved.served.answers u hu⟩
      · refine ⟨h.queued.uploads ⟨records, .waiting⟩ hmem, fun out hout id hid => ?_⟩
        refine h.inserted_of_answer hunsettled ?_ hid
        dsimp only at hout
        rcases hanswer : s.server.answer setup.cfg setup.deviceId (operationsOf records) with _ | out'
        · rw [hanswer] at hout
          exact absurd hout (by simp [answerStage])
        · rw [hanswer] at hout
          rw [UploadStage.answered.inj hout]
  · exact h

theorem serveLate (h : Sound setup s) {index : ℕ} (hord : ServesInOrder setup s (.serveLate index)) :
    Sound setup (s.serveLate setup index) := by
  unfold System.serveLate
  split
  · rename_i ops hindex
    have hmem := List.mem_of_getElem? hindex
    have hbatch : IsBatch s ops := Or.inl ⟨h.queued.late ops hmem, fun op hop =>
      h.queued.built op (mem_unsettled.mpr (Or.inr (Or.inr (Or.inr ⟨ops, hmem, hop⟩))))⟩
    have hserved := h.serveBatch hbatch (hord ops hindex)
    refine hserved.of_client rfl rfl (le_refl _) (List.Sublist.refl _) ?_ hserved.queued.pending
      (fun u hu => ⟨hserved.queued.uploads u hu, hserved.served.answers u hu⟩)
      (fun ops hops => hserved.queued.late ops (List.mem_of_mem_eraseIdx hops))
      hserved.queued.chunks hserved.served.removed
    intro op hop
    rcases mem_unsettled.mp hop with hp | hc | hu | ⟨ops', hops', hop⟩
    · exact mem_unsettled.mpr (Or.inl hp)
    · exact mem_unsettled.mpr (Or.inr (Or.inl hc))
    · exact mem_unsettled.mpr (Or.inr (Or.inr (Or.inl hu)))
    · exact mem_unsettled.mpr (Or.inr (Or.inr (Or.inr
        ⟨ops', List.mem_of_mem_eraseIdx hops', hop⟩)))
  · exact h

theorem serveChunk (h : Sound setup s) {index : ℕ}
    (hord : ServesInOrder setup s (.serveChunk index)) : Sound setup (s.serveChunk setup index) := by
  unfold System.serveChunk
  split
  · rename_i op hindex
    have hmem := List.mem_of_getElem? hindex
    have hbatch : IsBatch s [op] := Or.inr ⟨op, hmem, rfl⟩
    have hserved := h.serveBatch hbatch (hord [op] (by simp [request?, hindex]))
    exact hserved.of_client rfl rfl (le_refl _) (List.Sublist.refl _) (fun op hop => hop)
      hserved.queued.pending (fun u hu => ⟨hserved.queued.uploads u hu, hserved.served.answers u hu⟩)
      hserved.queued.late
      (fun op hop => hserved.queued.chunks op (List.mem_of_mem_eraseIdx hop))
      hserved.served.removed
  · exact h

/-- **One event** keeps the invariant, if the batch processed at it is in order. -/
theorem step (h : Sound setup s) {e : ClientEvent} (hord : ServesInOrder setup s e) :
    Sound setup (s.step setup e) := by
  cases e with
  | reserve items => exact h.reserve items
  | encrypt index sealed => exact h.encrypt index sealed
  | enqueue index => exact h.enqueue
  | read excludeIds => exact h.read excludeIds
  | dropStuck index => exact h.dropStuck
  | mark index => exact h.mark
  | send index => exact h.send
  | serve index => exact h.serve hord
  | receive index => exact h.receive
  | reissue index sealed => exact h.reissue index sealed
  | replace index => exact h.replace
  | requeue index => exact h.requeue
  | remove index => exact h.remove
  | giveUp index => exact h.giveUp
  | serveLate index => exact h.serveLate hord
  | sendChunk operationId objectId payload visitCount visitHours =>
    exact h.sendChunk operationId objectId payload visitCount visitHours
  | serveChunk index => exact h.serveChunk hord
  | restart => exact h.restart
  | server e =>
    unfold System.step
    dsimp only
    split
    · rename_i he
      exact h.server he
    · exact h

end Sound

/-- **No local change is lost** in a run whose batches are all in order. -/
theorem noneLost_of_inOrder (setup : Setup) (settings : Uuid → Option UserSettings) (now : DateTime)
    (events : List ClientEvent)
    (h : Runs.Meets (step setup) (ServesInOrder setup) (start settings now) events) :
    NoneLost setup (run setup (start settings now) events) :=
  (Runs.invariant_of_meets (I := Sound setup) (fun _ _ hs hord => hs.step hord)
    (Sound.start settings now) h).served.removed

/-! ### Two concrete runs -/

/-- Device 1, whose ids are those below 100. -/
def smallSetup : Setup := ⟨Server.smallConfig, 1, fun id => id < 100⟩

/-- The creation of a bookmark. -/
def smallItem (objectId : Uuid) : PendingLocalOperation :=
  ⟨.bookmark, objectId, .create, none, create_ne_bulkImport⟩

/-- The smallest payload, under an id. -/
def smallSeal (operationId : Uuid) : Sealed := ⟨operationId, Server.smallPayload⟩

/-- The events of an iteration of `uploadPending`, all of whose operations are resolved. -/
def uploadPass : List ClientEvent :=
  [.read [], .dropStuck 0, .mark 0, .send 0, .serve 0, .receive 0, .requeue 0, .remove 0]

/-- The events of a `createLocalOperationsBatch` call that nothing interrupts. -/
def createCall (objectId operationId : Uuid) : List ClientEvent :=
  [.reserve [smallItem objectId], .encrypt 0 [smallSeal operationId], .enqueue 0]

/-- The same two operations, created and uploaded one after the other. -/
def orderlyRun : List ClientEvent :=
  [.server (.register 1 9)] ++ createCall 21 11 ++ uploadPass ++ createCall 22 12 ++ uploadPass

theorem noneLost_orderlyRun :
    Runs.Meets (step smallSetup) (ServesInOrder smallSetup) (start (fun _ => none) 0) orderlyRun ∧
      (run smallSetup (start (fun _ => none) 0) orderlyRun).removed.map OperationIn.operationId =
        [11, 12] ∧
      NoneLost smallSetup (run smallSetup (start (fun _ => none) 0) orderlyRun) := by
  have hidle : ∀ s e, request? s e = none → ServesInOrder smallSetup s e := by
    intro s e hnone ops hops
    rw [hnone] at hops
    exact absurd hops (by simp)
  -- a batch of the only operation the device holds leaves nothing behind
  have hserve : ∀ (s : System) op, s.request? (.serve 0) = some [op] → s.unsettled = [op, op] →
      s.blocks = [] → ServesInOrder smallSetup s (.serve 0) := by
    intro s op hrequest hunsettled hblocks ops hops d hd o ho hacc
    obtain rfl := Option.some.inj (hrequest.symm.trans hops)
    obtain rfl := List.mem_singleton.mp ho
    refine ⟨fun u hu _ _ hbehind => ?_, fun b hb => absurd hb (by simp [hblocks])⟩
    obtain rfl : u = o := by simpa [hunsettled] using hu
    rcases hbehind with hnot | hnot
    · exact absurd ho hnot
    · exact absurd hacc hnot
  have hmeets : Runs.Meets (step smallSetup) (ServesInOrder smallSetup)
      (start (fun _ => none) 0) orderlyRun :=
    ⟨hidle _ _ rfl, hidle _ _ rfl, hidle _ _ rfl, hidle _ _ rfl, hidle _ _ rfl, hidle _ _ rfl,
      hidle _ _ rfl, hidle _ _ rfl,
      hserve _ (buildOperation (smallItem 21) (smallSeal 11) 1 1) rfl rfl rfl, hidle _ _ rfl,
      hidle _ _ rfl, hidle _ _ rfl, hidle _ _ rfl, hidle _ _ rfl, hidle _ _ rfl, hidle _ _ rfl,
      hidle _ _ rfl, hidle _ _ rfl, hidle _ _ rfl,
      hserve _ (buildOperation (smallItem 22) (smallSeal 12) 2 2) rfl rfl rfl, hidle _ _ rfl,
      hidle _ _ rfl, hidle _ _ rfl, trivial⟩
  exact ⟨hmeets, by decide +kernel,
    noneLost_of_inOrder smallSetup (fun _ => none) 0 orderlyRun hmeets⟩

/-- Two calls reserve their sequences one after the other, and enqueue in the other order,
with an upload in between. -/
def overtakenRun : List ClientEvent :=
  [.server (.register 1 9), .reserve [smallItem 21], .reserve [smallItem 22],
    .encrypt 1 [smallSeal 12], .enqueue 1] ++ uploadPass ++
  [.encrypt 0 [smallSeal 11], .enqueue 0] ++ uploadPass

/-- **A change is lost**: the operation of the first call is removed from the queue, and the
server never inserted it. -/
theorem not_noneLost :
    ¬NoneLost smallSetup (run smallSetup (start (fun _ => none) 0) overtakenRun) := by
  have hremoved : (run smallSetup (start (fun _ => none) 0) overtakenRun).removed.map
      OperationIn.operationId = [12, 11] := by decide +kernel
  have hhistory : (run smallSetup (start (fun _ => none) 0) overtakenRun).server.history.map
      OperationRow.operationId = [12] := by decide +kernel
  intro h
  have hmem : (11 : Uuid) ∈ (run smallSetup (start (fun _ => none) 0) overtakenRun).removed.map
      OperationIn.operationId := by
    rw [hremoved]
    simp
  obtain ⟨op, hop, hid⟩ := List.mem_map.mp hmem
  obtain ⟨now, userId, cursor, hrow⟩ := h op hop
  have hrowId := List.mem_map_of_mem (f := OperationRow.operationId) hrow
  rw [hhistory] at hrowId
  change op.operationId ∈ [12] at hrowId
  rw [hid] at hrowId
  exact absurd hrowId (by decide)

end System

end Client

end HelixSync
