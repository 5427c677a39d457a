import HelixSync.Server.Contents
import HelixSync.Server.OneByOne

/-!
# Uploading one history chunk

A history chunk is recognized in two ways: by its operation id while its row is in the log, and
by its object in the ledger, where it stays when the log is pruned. The ledger holds the history
chunks of the history and no other (`HelixSync.Server.ChunkLedger`), so a chunk is answered
`duplicate` exactly if it was accepted before, as long as its sequence is above those its device
has used (`HelixSync.Server.accepted_of_answer`).
-/

namespace HelixSync

section Duplicates

variable {ctx : BatchContext} {st : ValidationState} {op : OperationIn}

/-- A chunk is called duplicate if the account has its id, if it is known by its object, or if
its device has passed its sequence. -/
theorem validateOp_duplicate_known (h : (validateOp ctx st op).1 = .duplicate) :
    ctx.existing op.operationId = some ctx.userId ∨
      op.objectId ∈ ctx.knownBulk ∨ op.objectKey ∈ st.originatedInBatch ∨
        op.deviceSequence ≤ ctx.persistedLastSeq := by
  rw [validateOp] at h
  split at h
  · rename_i ownerId hex
    split at h
    · rename_i howner
      rw [hex, howner]
      exact Or.inl rfl
    · exact absurd h (by simp)
  · split at h
    · rename_i hbulk
      exact Or.inr (hbulk.2.imp_right Or.inl)
    · split at h
      · exact absurd h (by simp)
      · split_ifs at h with hone hlast hpers
        exact Or.inr (Or.inr (Or.inr hpers))

end Duplicates

namespace Server

variable {cfg : Config} {s s' : Server} {e : Event}

/-- **The history grows by the operations of uploads**, at the end. -/
theorem history_step (hstep : Step cfg s e s') : ∃ new, s'.history = s.history ++ new ∧
    ∀ row ∈ new, ∃ deviceId ops, e = .upload deviceId ops ∧ ∃ op ∈ ops,
      ∃ userId cursor, row = operationRow s.now ⟨userId, deviceId⟩ cursor op := by
  cases hstep with
  | quiet hq => exact ⟨[], by rw [history, hq.batches, history, List.append_nil], by simp⟩
  | idle => exact ⟨[], by simp [history], by simp⟩
  | @wrote device d ops db' hauth hd hne hwrite =>
    refine ⟨_, by rw [history, List.flatten_append, List.flatten_singleton]; rfl, fun row hrow => ?_⟩
    obtain ⟨op, hop, cursor, -, -, rfl⟩ := exists_of_mem_batchRows hrow
    exact ⟨_, ops, rfl, op, (accepts_sublist _).mem hop, device.userId, cursor, rfl⟩
  | committed _ _ => exact ⟨[], by simp [history], by simp⟩
  | pruned _ => exact ⟨[], by simp [history], by simp⟩

/-- The ledger only grows. -/
theorem syncObjects_subset_step (hstep : Step cfg s e s') : s.db.syncObjects ⊆ s'.db.syncObjects := by
  by_cases hupload : ∃ deviceId ops, e = .upload deviceId ops
  · obtain ⟨deviceId, ops, rfl⟩ := hupload
    cases hstep with
    | quiet hq => rw [hq.data.syncObjects]
    | idle => exact Finset.Subset.refl _
    | wrote _ _ _ hwrite => exact fun entry hentry => (mem_ledger_writeBatch hwrite).mpr (Or.inl hentry)
  · exact (frame_of_ne_upload hstep fun deviceId ops he => hupload ⟨deviceId, ops, he⟩).2.2.2

/-- The last sequence of a device is bounded by what it had and what it uploads. -/
theorem lastSequence_step (hstep : Step cfg s e s') {id : Uuid} {bound : ℤ} (hbound : 0 ≤ bound)
    (h : ∀ u last, s.db.deviceState? id = some (u, last) → last ≤ bound)
    (hops : ∀ ops, e = .upload id ops → ∀ op ∈ ops, op.deviceSequence ≤ bound) :
    ∀ u last, s'.db.deviceState? id = some (u, last) → last ≤ bound := by
  intro u last hlast
  cases hstep with
  | quiet hq =>
    rcases hq.devices id with hsame | ⟨-, userId, hnew⟩
    · exact h u last (hsame ▸ hlast)
    · obtain ⟨-, rfl⟩ := Prod.mk.inj (Option.some.inj (hnew.symm.trans hlast))
      exact hbound
  | idle => exact h u last hlast
  | @wrote device d ops db' _ hd hne hwrite =>
    rw [deviceState?_writeBatch hwrite hd] at hlast
    split at hlast
    · rename_i hid
      obtain ⟨-, rfl⟩ := Prod.mk.inj (Option.some.inj hlast)
      rw [Db.lastSeqAfter, validateBatch, validateOps_lastSeq]
      obtain ⟨op, hop⟩ := List.getLast?_isSome.mpr hne |> Option.isSome_iff_exists.mp
      have hmem := (accepts_sublist ops).mem (List.mem_of_getLast? hop)
      rw [Db.accepts] at hop
      rw [hop]
      exact hops ops (hid ▸ rfl) op hmem
    · exact h u last hlast
  | committed _ hcommit =>
    rw [Db.deviceState?, Db.device?, (commitSnapshot_frame hcommit).2.2.1] at hlast
    exact h u last hlast
  | pruned _ => exact h u last hlast

/-- The ledger holds the history chunks of the history, and no others. -/
structure ChunkLedger (s : Server) : Prop where
  mem : ∀ row ∈ s.history, row.isBulkHistoryImport = true →
    (row.userId, row.objectKey) ∈ s.db.syncObjects
  exists_row : ∀ userId id, (userId, (ObjectType.historyVisit, id)) ∈ s.db.syncObjects →
    ∃ row ∈ s.userHistory userId, row.objectKey = (.historyVisit, id)

namespace ChunkLedger

theorem start (settings : Uuid → Option UserSettings) (now : DateTime) :
    ChunkLedger (Server.start settings now) where
  mem := fun row hrow => absurd hrow (by simp [Server.start, Server.history])
  exists_row := fun userId id h => absurd h (by simp [Server.start, Db.empty])

theorem step (h : ChunkLedger s) (hwf : WellFormed s) (hstocked : Stocked s)
    (hstep : Step cfg s e s') : ChunkLedger s' := by
  have hsub : ∀ row ∈ s.history, row ∈ s'.history := fun _ hrow => history_subset_step hstep hrow
  have hold : ∀ userId id, (userId, (ObjectType.historyVisit, id)) ∈ s.db.syncObjects →
      ∃ row ∈ s'.userHistory userId, row.objectKey = (.historyVisit, id) := by
    intro userId id hmem
    obtain ⟨row, hrow, hkey⟩ := h.exists_row userId id hmem
    exact ⟨row, mem_userHistory_of_subset hsub hrow, hkey⟩
  cases hstep with
  | quiet hq =>
    constructor
    · intro row hrow hb
      rw [history, hq.batches] at hrow
      rw [hq.data.syncObjects]
      exact h.mem row hrow hb
    · rw [hq.data.syncObjects]
      exact hold
  | idle => exact ⟨fun row hrow => h.mem row (by simpa [history] using hrow), hold⟩
  | @wrote device d ops db' hauth hd hne hwrite =>
    constructor
    · intro row hrow hb
      rw [mem_ledger_writeBatch hwrite]
      rw [history, List.flatten_append, List.flatten_singleton] at hrow
      rcases List.mem_append.mp hrow with hrow | hrow
      · exact Or.inl (h.mem row hrow hb)
      · obtain ⟨op, hop, cursor, -, -, rfl⟩ := exists_of_mem_batchRows hrow
        have hbulk : op.isBulkHistoryImport = true := hb
        exact Or.inr ⟨rfl, op, hop,
          by simp [OperationIn.leavesRow, isOrigination_of_isBulk hbulk, hbulk], rfl⟩
    · intro userId id hmem
      rw [mem_ledger_writeBatch hwrite] at hmem
      rcases hmem with hmem | ⟨rfl, op, hop, -, hkey⟩
      · exact hold userId id hmem
      · obtain ⟨cursor, hrow⟩ : ∃ cursor, operationRow s.now device cursor op ∈ batchRows s.now
            device (s.db.currentCursor device.userId + 1) (s.db.accepts cfg s.now device d ops) :=
          exists_of_mem_accepted hop
        refine ⟨operationRow s.now device cursor op, mem_userHistory.mpr ⟨?_, rfl⟩, hkey⟩
        rw [history, List.flatten_append, List.flatten_singleton]
        exact List.mem_append_right _ hrow
  | @committed index userId boundary db' hindex hcommit =>
    rcases commitSnapshot_eq_some hcommit with ⟨rfl, -⟩ | ⟨rfl, -⟩
    · exact ⟨h.mem, hold⟩
    · constructor
      · exact fun row hrow hb => Finset.mem_union_left _ (h.mem row hrow hb)
      · intro u id hmem
        rcases Finset.mem_union.mp hmem with hmem | hmem
        · exact hold u id hmem
        · obtain ⟨key, hkey, heq⟩ := Finset.mem_image.mp hmem
          obtain ⟨rfl, rfl⟩ := Prod.mk.inj heq
          obtain ⟨obj, hobj⟩ := FinMap.mem_keys_iff_exists.mp (Finset.mem_filter.mp hkey).1
          exact (fromRows_of_snapshotObjects hstocked hwf hobj).touched
  | pruned _ => exact ⟨h.mem, hold⟩

end ChunkLedger

/-- What every state the server reaches satisfies, as far as history chunks are concerned. -/
structure Chunked (s : Server) : Prop where
  wf : WellFormed s
  stocked : Stocked s
  ledger : ChunkLedger s

theorem Chunked.start (settings : Uuid → Option UserSettings) (now : DateTime) :
    Chunked (Server.start settings now) :=
  ⟨WellFormed.start settings now, Stocked.start settings now, ChunkLedger.start settings now⟩

theorem Chunked.step (h : Chunked s) (e : Event) : Chunked (step cfg s e) :=
  ⟨h.wf.step (step_spec e), h.stocked.step h.wf (step_spec e),
    h.ledger.step h.wf h.stocked (step_spec e)⟩

section Single

variable {deviceId userId : Uuid} {op : OperationIn}

/-- **An upload of one chunk** changes nothing, or adds its row; and then the account had neither
its id nor its object. -/
theorem history_upload_singleton (hb : op.isBulkHistoryImport = true) :
    (step cfg s (.upload deviceId [op])).db = s.db ∧
        (step cfg s (.upload deviceId [op])).history = s.history ∨
      ∃ d cursor, s.db.device? deviceId = some d ∧
        (step cfg s (.upload deviceId [op])).history =
          s.history ++ [operationRow s.now ⟨d.userId, deviceId⟩ cursor op] ∧
        (d.userId, op.objectKey) ∉ s.db.syncObjects := by
  rcases hauth : s.authenticate deviceId with _ | device
  · have hserver : step cfg s (.upload deviceId [op]) = s := by simp only [step, hauth]
    exact Or.inl ⟨by rw [hserver], by rw [hserver]⟩
  obtain rfl := authenticate_deviceId hauth
  obtain ⟨d, hd, hdevice⟩ := Option.map_eq_some_iff.mp hauth
  have hu : d.userId = device.userId := congrArg AuthenticatedDevice.userId hdevice
  have hserver : step cfg s (.upload device.deviceId [op]) = s.upload cfg device [op] := by
    simp only [step, hauth]
  rw [hserver]
  rcases hproc : processBatch cfg s.now s.db device [op] with failure | ⟨out, db'⟩
  · have hsame : s.upload cfg device [op] = s := by rw [upload, hproc]
    exact Or.inl ⟨by rw [hsame], by rw [hsame]⟩
  rw [upload_eq hd hproc]
  have hsublist : (s.db.accepts cfg s.now device d [op]).Sublist [op] := accepts_sublist [op]
  rcases List.sublist_singleton.mp hsublist with hnone | hall
  · rw [hnone]
    refine Or.inl ⟨?_, by simp [history, batchRows, numbered]⟩
    rcases processBatch_ok hproc with ⟨rfl, -⟩ | ⟨d', hd', hne, -⟩
    · rfl
    · obtain rfl := Option.some.inj (hd.symm.trans hd')
      exact absurd hnone hne
  · refine Or.inr ⟨d, s.db.currentCursor device.userId + 1, hd, ?_, ?_⟩
    · rw [history, List.flatten_append, List.flatten_singleton, hall, hu]
      rfl
    · rw [hu]
      exact not_mem_ledger_of_accepts (hall ▸ List.mem_singleton_self op) hb

/-- **A positive answer means the chunk is there**: called accepted or duplicate, with a sequence
above those of its device, a chunk has a row in the history, by its id or by its object. -/
theorem accepted_of_answer (h : Chunked s) (hb : op.isBulkHistoryImport = true) {out : BatchOutcome}
    (hout : s.answer cfg deviceId [op] = some out)
    (hid : op.operationId ∈ out.accepted ∨ op.operationId ∈ out.duplicate) :
    ∃ u lastSeq, s.db.deviceState? deviceId = some (u, lastSeq) ∧
      (op.deviceSequence ≤ lastSeq ∨
        ∃ row ∈ (step cfg s (.upload deviceId [op])).userHistory u,
          row.operationId = op.operationId ∨ row.objectKey = op.objectKey) := by
  rw [answer] at hout
  split at hout
  · exact absurd hout (by simp)
  rename_i device hauth
  obtain rfl := authenticate_deviceId hauth
  obtain ⟨d, hd, hdevice⟩ := Option.map_eq_some_iff.mp hauth
  have hu : d.userId = device.userId := congrArg AuthenticatedDevice.userId hdevice
  refine ⟨device.userId, d.lastDeviceSequence, by rw [Db.deviceState?, hd, Option.map_some, hu], ?_⟩
  have hold : ∀ row ∈ s.userHistory device.userId,
      row ∈ (step cfg s (.upload device.deviceId [op])).userHistory device.userId := fun row hrow =>
    mem_userHistory_of_subset (fun _ hrow => history_subset_step (step_spec _) hrow) hrow
  split at hout
  · rename_i result db' hproc
    obtain rfl := Option.some.inj hout
    obtain ⟨cursor, rfl⟩ := processBatch_outcome hd hproc
    rcases hid with hid | hid
    · -- accepted: its row is the new one
      rw [accepted_outcomeOf] at hid
      obtain ⟨o, ho, -⟩ := List.mem_map.mp hid
      have hall : s.db.accepts cfg s.now device d [op] = [op] := by
        rcases List.sublist_singleton.mp (accepts_sublist [op]) with hnil | hone
        · have ho' : o ∈ s.db.accepts cfg s.now device d [op] := ho
          rw [Db.accepts, hnil] at ho'
          exact absurd ho' List.not_mem_nil
        · exact hone
      have hserver : step cfg s (.upload device.deviceId [op]) = s.upload cfg device [op] := by
        simp only [step, hauth]
      refine Or.inr ⟨operationRow s.now device (s.db.currentCursor device.userId + 1) op, ?_,
        Or.inl rfl⟩
      rw [mem_userHistory, hserver, upload_eq hd hproc, history, List.flatten_append,
        List.flatten_singleton, hall]
      exact ⟨List.mem_append_right _ (List.mem_singleton_self _), rfl⟩
    · -- duplicate: known by its id, by its object, or by its sequence
      obtain ⟨o, ho, -⟩ := exists_of_mem_duplicate hid
      have hdecision : (validateOp (batchContext cfg s.now s.db device d.lastDeviceSequence [op])
          ⟨d.lastDeviceSequence, ∅⟩ op).1 = .duplicate := by
        have hmem : (o, Decision.duplicate) ∈ [(op,
            (validateOp (batchContext cfg s.now s.db device d.lastDeviceSequence [op])
              ⟨d.lastDeviceSequence, ∅⟩ op).1)] := ho
        exact (Prod.mk.inj (List.mem_singleton.mp hmem)).2.symm
      rcases validateOp_duplicate_known hdecision with hex | hknown | horiginated | hseq
      · obtain ⟨row, hrow, hrowId, hrowUser⟩ := exists_of_operationOwner? hex
        exact Or.inr ⟨row, hold row (mem_userHistory.mpr ⟨h.wf.log.mem hrow, hrowUser⟩),
          Or.inl hrowId⟩
      · obtain ⟨row, hrow, hkey⟩ := h.ledger.exists_row _ _ (mem_knownBulk hknown)
        exact Or.inr ⟨row, hold row hrow, Or.inr (hkey.trans (objectKey_of_isBulk hb).symm)⟩
      · exact absurd horiginated (Finset.notMem_empty _)
      · exact Or.inl hseq
  · exact absurd hout (by simp)

end Single

end Server

end HelixSync
