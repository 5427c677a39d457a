import HelixSync.Server.Steps

/-!
# Retries

A device that gets no answer to an upload sends it again. Three mechanisms keep the
server from accepting an operation twice: the ids of the operations in the log, the
device's last accepted sequence, and the ledger of history chunks. Compaction deletes
what the first one reads, so the second has to cover for it: the sequence of every row
ever accepted is at most the one its device has reached
(`HelixSync.Server.WellFormed.devices`), and that number never decreases.

`HelixSync.Session` is the server together with the list of upload requests made to it
and their answers. Along every run in which an operation id is used for one operation
only, by one device (`HelixSync.Session.Disciplined`; the order in which a device first
sends its operations does not matter), the ids that the answers call accepted are the
ids of the rows of the history, without repetition, and a resend of one of them is
answered `duplicate` (`HelixSync.Session.exactly_once`). A request fails as a whole only if
the database refuses one of its operations, and then changes nothing.
-/

namespace HelixSync

/-- An upload request, with its answer if it had one. -/
structure UploadCall where
  deviceId : Uuid
  ops : List OperationIn
  answer : Option BatchOutcome

/-- The server, and the upload requests made to it so far. -/
structure Session where
  server : Server
  calls : List UploadCall

namespace Session

/-- One event. -/
def step (cfg : Config) (s : Session) (e : Event) : Session where
  server := s.server.step cfg e
  calls := match e with
    | .upload deviceId ops => s.calls ++ [⟨deviceId, ops, s.server.answer cfg deviceId ops⟩]
    | _ => s.calls

/-- A server with no data, and no request made. -/
def start (settings : Uuid → Option UserSettings) (now : DateTime) : Session where
  server := Server.start settings now
  calls := []

/-- The state after a list of events. -/
abbrev run (cfg : Config) (s : Session) (events : List Event) : Session :=
  Runs.run (step cfg) s events

/-- Every operation of a request is a verbatim resend by the same device, or has an id
that was never sent. -/
def Disciplined (s : Session) : Event → Prop
  | .upload deviceId ops => (ops.map OperationIn.operationId).Nodup ∧ ∀ op ∈ ops,
      (∃ call ∈ s.calls, call.deviceId = deviceId ∧ op ∈ call.ops) ∨
      (∀ call ∈ s.calls, ∀ o ∈ call.ops, o.operationId ≠ op.operationId)
  | _ => True

/-- Every operation id the server ever answered `accepted` to, in order. -/
def acceptedIds (s : Session) : List Uuid :=
  (s.calls.filterMap UploadCall.answer).flatMap BatchOutcome.accepted

/-! ### The invariant -/

variable {cfg : Config} {s : Session}

/-- The encryption requirement of a user. -/
def requireEncryption (cfg : Config) (db : Db) (userId : Uuid) : Bool :=
  cfg.requireEncryption || ((db.userSettings userId).map UserSettings.requireEncryption).getD false

/-- The three mechanisms agree: every row of the history is an operation its device sent,
of the right shape, under an id of its own; every history chunk of it is in the
ledger. -/
structure Agrees (cfg : Config) (s : Session) : Prop where
  wf : Server.WellFormed s.server
  sent : ∀ row ∈ s.server.history, ∃ call ∈ s.calls, call.deviceId = row.deviceId ∧
    ∃ op ∈ call.ops, op.operationId = row.operationId ∧ op.deviceSequence = row.deviceSequence ∧
      1 ≤ op.deviceSequence ∧
      ShapeOk s.server.now (requireEncryption cfg s.server.db row.userId) op
  functional : ∀ call ∈ s.calls, ∀ op ∈ call.ops, ∀ call' ∈ s.calls, ∀ op' ∈ call'.ops,
    op.operationId = op'.operationId → call.deviceId = call'.deviceId ∧ op = op'
  ids : (s.server.history.map OperationRow.operationId).Nodup
  ledger : ∀ row ∈ s.server.history, row.isBulkHistoryImport = true →
    (row.userId, row.objectKey) ∈ s.server.db.syncObjects
  bulkOnce : s.server.history.Pairwise fun a b => a.isBulkHistoryImport = true →
    b.isBulkHistoryImport = true → a.userId = b.userId → a.objectId ≠ b.objectId
  accepted : s.acceptedIds = s.server.history.map OperationRow.operationId
  duplicates : s.calls.Pairwise fun earlier later => ∀ out ∈ earlier.answer,
    ∀ op ∈ later.ops, op.operationId ∈ out.accepted →
      (∀ out' ∈ later.answer, op.operationId ∈ out'.duplicate) ∧
      (later.answer = none → ∃ o ∈ later.ops, o.isStorable = false)

namespace Agrees

theorem start (settings : Uuid → Option UserSettings) (now : DateTime) :
    Agrees cfg (Session.start settings now) where
  wf := Server.WellFormed.start settings now
  sent := fun _ h => absurd h (by simp [Session.start, Server.history, Server.start])
  functional := fun _ h => absurd h (by simp [Session.start])
  ids := by simp [Session.start, Server.history, Server.start]
  ledger := fun _ h => absurd h (by simp [Session.start, Server.history, Server.start])
  bulkOnce := by simp [Session.start, Server.history, Server.start]
  accepted := rfl
  duplicates := List.Pairwise.nil

/-- Every event but an upload. -/
theorem of_ne_upload (h : Agrees cfg s) {e : Event}
    (hne : ∀ deviceId ops, e ≠ .upload deviceId ops) : Agrees cfg (s.step cfg e) := by
  have hstep : Server.Step cfg s.server e (s.server.step cfg e) := Server.step_spec e
  obtain ⟨hbatches, hnow, hsettings, hledger⟩ := Server.frame_of_ne_upload hstep hne
  have hhist : (s.server.step cfg e).history = s.server.history := by
    rw [Server.history, hbatches, Server.history]
  have hcalls : (s.step cfg e).calls = s.calls := by
    unfold Session.step
    dsimp only
    split
    · exact absurd rfl (hne _ _)
    · rfl
  have hserver : (s.step cfg e).server = s.server.step cfg e := rfl
  refine ⟨h.wf.step hstep, ?_, ?_, ?_, ?_, ?_, ?_, ?_⟩
  · rw [hserver, hhist, hcalls]
    intro row hrow
    obtain ⟨call, hcall, hdev, op, hop, hid, hseq, hone, hshape⟩ := h.sent row hrow
    refine ⟨call, hcall, hdev, op, hop, hid, hseq, hone, ?_⟩
    rw [requireEncryption, hsettings]
    exact checkOpShape_mono hnow hshape
  · rw [hcalls]
    exact h.functional
  · rw [hserver, hhist]
    exact h.ids
  · rw [hserver, hhist]
    exact fun row hrow hb => hledger (h.ledger row hrow hb)
  · rw [hserver, hhist]
    exact h.bulkOnce
  · rw [hserver, hhist, acceptedIds, hcalls]
    exact h.accepted
  · rw [hcalls]
    exact h.duplicates

section Upload

variable {deviceId : Uuid} {ops : List OperationIn}

theorem functional_append (h : Agrees cfg s) (hdisc : s.Disciplined (.upload deviceId ops))
    (ans : Option BatchOutcome) :
    ∀ call ∈ s.calls ++ [⟨deviceId, ops, ans⟩], ∀ op ∈ call.ops,
      ∀ call' ∈ s.calls ++ [⟨deviceId, ops, ans⟩], ∀ op' ∈ call'.ops,
        op.operationId = op'.operationId → call.deviceId = call'.deviceId ∧ op = op' := by
  -- an operation of the new request that shares its id with an old one is a resend of it
  have hnew : ∀ call ∈ s.calls, ∀ op ∈ call.ops, ∀ op' ∈ ops,
      op.operationId = op'.operationId → call.deviceId = deviceId ∧ op = op' := by
    intro call hcall op hop op' hop' hid
    rcases hdisc.2 op' hop' with ⟨call', hcall', hdev, hmem⟩ | hfresh
    · rw [← hdev]
      exact h.functional call hcall op hop call' hcall' op' hmem hid
    · exact absurd hid (hfresh call hcall op hop)
  intro call hcall op hop call' hcall' op' hop' hid
  rcases List.mem_append.mp hcall with hcall | hcall
  · rcases List.mem_append.mp hcall' with hcall' | hcall'
    · exact h.functional call hcall op hop call' hcall' op' hop' hid
    · rw [List.mem_singleton.mp hcall'] at hop' ⊢
      exact hnew call hcall op hop op' hop' hid
  · rw [List.mem_singleton.mp hcall] at hop ⊢
    rcases List.mem_append.mp hcall' with hcall' | hcall'
    · obtain ⟨hdev, heq⟩ := hnew call' hcall' op' hop' op hop hid.symm
      exact ⟨hdev.symm, heq.symm⟩
    · rw [List.mem_singleton.mp hcall'] at hop' ⊢
      exact ⟨rfl, List.inj_on_of_nodup_map hdisc.1 hop hop' hid⟩

/-- A row of the history under the id of an operation now sent is that operation. -/
theorem row_of_resend (h : Agrees cfg s) (hdisc : s.Disciplined (.upload deviceId ops))
    {op : OperationIn} (hop : op ∈ ops) {row : OperationRow} (hrow : row ∈ s.server.history)
    (hid : row.operationId = op.operationId) :
    row.deviceId = deviceId ∧ row.deviceSequence = op.deviceSequence ∧ 1 ≤ op.deviceSequence ∧
      ShapeOk s.server.now (requireEncryption cfg s.server.db row.userId) op := by
  obtain ⟨call, hcall, hdev, o, ho, hoid, hseq, hone, hshape⟩ := h.sent row hrow
  obtain ⟨hdev', rfl⟩ := h.functional_append hdisc none call (by simp [hcall]) o ho
    ⟨deviceId, ops, none⟩ (by simp) op hop (hoid.trans hid)
  exact ⟨hdev ▸ hdev', hseq.symm, hone, hshape⟩

variable {device : AuthenticatedDevice} {d : DeviceRow} {out : BatchOutcome} {db' : Db}

theorem eq_of_authenticate (hauth : s.server.authenticate deviceId = some device) :
    ∃ d, s.server.db.device? deviceId = some d ∧ device = ⟨d.userId, deviceId⟩ := by
  unfold Server.authenticate at hauth
  obtain ⟨d, hd, rfl⟩ := Option.map_eq_some_iff.mp hauth
  exact ⟨d, hd, by rw [Db.device?_id hd]⟩

/-- What a device sent before is below its sequence. -/
theorem le_lastDeviceSequence (h : Agrees cfg s) (hd : s.server.db.device? deviceId = some d)
    {row : OperationRow} (hrow : row ∈ s.server.history) (hdev : row.deviceId = deviceId) :
    row.userId = d.userId ∧ row.deviceSequence ≤ d.lastDeviceSequence := by
  obtain ⟨lastSeq, hstate, hle⟩ := h.wf.devices row hrow
  rw [hdev, Db.deviceState?, hd, Option.map_some, Option.some.injEq, Prod.mk.injEq] at hstate
  exact ⟨hstate.1.symm, hstate.2 ▸ hle⟩

/-- **Requests that can be stored do not fail**: neither on a missing device nor on a unique
violation. -/
theorem exists_answer (h : Agrees cfg s) (hdisc : s.Disciplined (.upload deviceId ops))
    (hd : s.server.db.device? deviceId = some d) (hstorable : ∀ op ∈ ops, op.isStorable = true) :
    ∃ out db', processBatch cfg s.server.now s.server.db ⟨d.userId, deviceId⟩ ops =
      .ok (out, db') := by
  refine exists_processBatch hd (exists_writeBatch hdisc.1
    (fun op hop => hstorable op ((accepts_sublist _).mem hop)) (fun row hrow hdev => ?_)
    (fun row hrow hu => ?_) _)
  · exact (h.le_lastDeviceSequence hd (h.wf.log.mem hrow) hdev).2
  · exact hu ▸ (h.wf.cursor_mem (h.wf.log.mem hrow)).2

/-- **A resend of an accepted operation** is answered `duplicate`. -/
theorem mem_duplicate_of_resend (h : Agrees cfg s) (hdisc : s.Disciplined (.upload deviceId ops))
    (hd : s.server.db.device? deviceId = some d)
    (hproc : processBatch cfg s.server.now s.server.db ⟨d.userId, deviceId⟩ ops = .ok (out, db'))
    {op : OperationIn} (hop : op ∈ ops) {row : OperationRow} (hrow : row ∈ s.server.history)
    (hid : row.operationId = op.operationId) : op.operationId ∈ out.duplicate := by
  obtain ⟨hdev, hseq, hone, hshape⟩ := h.row_of_resend hdisc hop hrow hid
  obtain ⟨huser, hle⟩ := h.le_lastDeviceSequence hd hrow hdev
  obtain ⟨cursor, rfl⟩ := processBatch_outcome hd hproc
  obtain ⟨st', hmem, hlast⟩ := @exists_mem_validateOps
    (batchContext cfg s.server.now s.server.db ⟨d.userId, deviceId⟩ d.lastDeviceSequence ops)
    ⟨d.lastDeviceSequence, ∅⟩ op ops hop
  refine mem_duplicate_outcomeOf ?_
  rw [validateOp_eq_duplicate ?_ ?_ hone (hseq ▸ hle) hlast] at hmem
  · exact hmem
  · -- the only row under this id is the one accepted before, so its owner is this user
    intro userId howner
    obtain ⟨row', hrow', hid', rfl⟩ := exists_of_operationOwner? howner
    have heq : row' = row :=
      List.inj_on_of_nodup_map h.ids (h.wf.log.mem hrow') hrow (hid'.trans hid.symm)
    rw [heq, huser]
    rfl
  · rw [huser] at hshape
    exact hshape

/-- A request without an answer changes nothing. It can only be one that resends nothing
accepted, or that has an operation which cannot be stored. -/
theorem step_unanswered (h : Agrees cfg s) (hdisc : s.Disciplined (.upload deviceId ops))
    (hserver : s.server.step cfg (.upload deviceId ops) = s.server)
    (hanswer : s.server.answer cfg deviceId ops = none)
    (hwhy : ∀ row ∈ s.server.history, row.deviceId = deviceId → ∃ o ∈ ops, o.isStorable = false) :
    Agrees cfg (s.step cfg (.upload deviceId ops)) := by
  have heq : s.step cfg (.upload deviceId ops) =
      ⟨s.server, s.calls ++ [⟨deviceId, ops, none⟩]⟩ := by
    simp only [Session.step, hserver, hanswer]
  rw [heq]
  refine ⟨h.wf, fun row hrow => ?_, h.functional_append hdisc none, h.ids, h.ledger, h.bulkOnce,
    ?_, ?_⟩
  · obtain ⟨call, hcall, hrest⟩ := h.sent row hrow
    exact ⟨call, List.mem_append_left _ hcall, hrest⟩
  · rw [← h.accepted]
    simp [acceptedIds]
  · rw [List.pairwise_append]
    refine ⟨h.duplicates, List.pairwise_singleton _ _, fun call hcall later hlater => ?_⟩
    rw [List.mem_singleton.mp hlater]
    intro out hout op hop hmem
    refine ⟨fun out' hout' => absurd hout' (by simp), fun _ => ?_⟩
    have hid : op.operationId ∈ s.acceptedIds :=
      List.mem_flatMap.mpr ⟨out, List.mem_filterMap.mpr ⟨call, hcall, hout⟩, hmem⟩
    rw [h.accepted] at hid
    obtain ⟨row, hrow, hrid⟩ := List.mem_map.mp hid
    exact hwhy row hrow (h.row_of_resend hdisc hop hrow hrid).1

theorem step_upload_of_none (h : Agrees cfg s) (hdisc : s.Disciplined (.upload deviceId ops))
    (hauth : s.server.authenticate deviceId = none) :
    Agrees cfg (s.step cfg (.upload deviceId ops)) := by
  refine h.step_unanswered hdisc (by simp only [Server.step, hauth])
    (by simp only [Server.answer, hauth]) fun row hrow hdev => ?_
  -- a row of this device would mean the device is registered
  obtain ⟨lastSeq, hstate, -⟩ := h.wf.devices row hrow
  unfold Server.authenticate at hauth
  rw [Option.map_eq_none_iff] at hauth
  rw [hdev, Db.deviceState?, hauth] at hstate
  exact absurd hstate (by simp)

theorem step_upload_of_error (h : Agrees cfg s) (hdisc : s.Disciplined (.upload deviceId ops))
    (hauth : s.server.authenticate deviceId = some device) {e : AppError}
    (hproc : processBatch cfg s.server.now s.server.db device ops = .error e) :
    Agrees cfg (s.step cfg (.upload deviceId ops)) := by
  obtain ⟨d, hd, rfl⟩ := eq_of_authenticate hauth
  refine h.step_unanswered hdisc (by simp only [Server.step, hauth, Server.upload, hproc])
    (by simp only [Server.answer, hauth, hproc]) fun row hrow hdev => ?_
  by_contra hstorable
  push Not at hstorable
  obtain ⟨out, db', hok⟩ := h.exists_answer hdisc hd fun op hop => by
    simpa using hstorable op hop
  rw [hproc] at hok
  exact absurd hok (by simp)

/-- The rows a request adds. -/
abbrev newRows (cfg : Config) (s : Session) (deviceId : Uuid) (d : DeviceRow)
    (ops : List OperationIn) : List OperationRow :=
  batchRows s.server.now ⟨d.userId, deviceId⟩ (s.server.db.currentCursor d.userId + 1)
    (s.server.db.accepts cfg s.server.now ⟨d.userId, deviceId⟩ d ops)

/-- The ids of the new rows are new: an id of the history is a resend, whose sequence the
device has passed. -/
theorem nodup_append_newRows (h : Agrees cfg s) (hdisc : s.Disciplined (.upload deviceId ops))
    (hd : s.server.db.device? deviceId = some d) :
    ((s.server.history ++ newRows cfg s deviceId d ops).map OperationRow.operationId).Nodup := by
  rw [List.map_append, List.nodup_append]
  refine ⟨h.ids, ?_, ?_⟩
  · rw [map_operationId_batchRows]
    exact hdisc.1.sublist ((accepts_sublist _).map _)
  · intro id hold id' hnew heq
    subst heq
    obtain ⟨row, hmem, rfl⟩ := List.mem_map.mp hold
    obtain ⟨row', hmem', hid⟩ := List.mem_map.mp hnew
    obtain ⟨op, hop, cursor, -, -, rfl⟩ := exists_of_mem_batchRows hmem'
    obtain ⟨hdev, hseq, -⟩ := h.row_of_resend hdisc ((accepts_sublist _).mem hop) hmem hid.symm
    have hlt : d.lastDeviceSequence < op.deviceSequence := lt_of_mem_accepts hop
    exact absurd (h.le_lastDeviceSequence hd hmem hdev).2 (not_le.mpr (hseq ▸ hlt))

/-- The chunks of the new rows are new: the ledger holds those of the history. -/
theorem bulkOnce_append_newRows (h : Agrees cfg s) :
    (s.server.history ++ newRows cfg s deviceId d ops).Pairwise fun a b =>
      a.isBulkHistoryImport = true → b.isBulkHistoryImport = true → a.userId = b.userId →
        a.objectId ≠ b.objectId := by
  rw [List.pairwise_append]
  refine ⟨h.bulkOnce, ?_, fun a ha b hb hba hbb huser heq => ?_⟩
  · exact pairwise_batchRows (accepts_pairwise_bulk _) fun a b i j _ hne ha hb _ => hne ha hb
  · obtain ⟨op, hop, cursor, -, -, rfl⟩ := exists_of_mem_batchRows hb
    refine not_mem_ledger_of_accepts hop hbb ?_
    have hkey : a.objectKey = op.objectKey := by
      simp only [OperationRow.isBulkHistoryImport, Bool.and_eq_true, beq_iff_eq] at hba
      rw [objectKey_of_isBulk hbb, OperationRow.objectKey, hba.1]
      exact congrArg (Prod.mk ObjectType.historyVisit) heq
    have hmem := h.ledger a ha hba
    rw [hkey, huser] at hmem
    exact hmem

theorem step_upload_of_ok (h : Agrees cfg s) (hdisc : s.Disciplined (.upload deviceId ops))
    (hauth : s.server.authenticate deviceId = some device)
    (hproc : processBatch cfg s.server.now s.server.db device ops = .ok (out, db')) :
    Agrees cfg (s.step cfg (.upload deviceId ops)) := by
  obtain ⟨d, hd, rfl⟩ := eq_of_authenticate hauth
  obtain ⟨hsettings, hledger, hbulk⟩ := ledger_processBatch hd hproc
  have hwf : Server.WellFormed (s.server.step cfg (.upload deviceId ops)) :=
    h.wf.step (Server.step_spec _)
  have hserver : s.server.step cfg (.upload deviceId ops) = { s.server with
      db := db', batches := s.server.batches ++ [newRows cfg s deviceId d ops] } := by
    simp only [Server.step, hauth]
    exact Server.upload_eq hd hproc
  have heq : s.step cfg (.upload deviceId ops) =
      ⟨s.server.step cfg (.upload deviceId ops), s.calls ++ [⟨deviceId, ops, some out⟩]⟩ := by
    simp only [Session.step, Server.answer, hauth, hproc]
  rw [heq]
  rw [hserver] at hwf ⊢
  have hhist : Server.history { s.server with
      db := db', batches := s.server.batches ++ [newRows cfg s deviceId d ops] } =
        s.server.history ++ newRows cfg s deviceId d ops := by
    simp [Server.history]
  have hout : out.accepted = (newRows cfg s deviceId d ops).map OperationRow.operationId := by
    obtain ⟨cursor, rfl⟩ := processBatch_outcome hd hproc
    rw [accepted_outcomeOf, map_operationId_batchRows]
    rfl
  refine ⟨hwf, ?_, h.functional_append hdisc (some out), ?_, ?_, ?_, ?_, ?_⟩
  · rw [hhist]
    intro row hmem
    rw [requireEncryption, hsettings]
    rcases List.mem_append.mp hmem with hmem | hmem
    · obtain ⟨call, hcall, hrest⟩ := h.sent row hmem
      exact ⟨call, List.mem_append_left _ hcall, hrest⟩
    · obtain ⟨op, hop, cursor, -, -, rfl⟩ := exists_of_mem_batchRows hmem
      obtain ⟨st', hadm, -, -⟩ := admits_of_mem_accepts hop
      exact ⟨⟨deviceId, ops, some out⟩, by simp, rfl, op, (accepts_sublist _).mem hop, rfl, rfl,
        hadm.one_le, hadm.shape⟩
  · rw [hhist]
    exact h.nodup_append_newRows hdisc hd
  · rw [hhist]
    intro row hmem hb
    rcases List.mem_append.mp hmem with hmem | hmem
    · exact hledger (h.ledger row hmem hb)
    · obtain ⟨op, hop, cursor, -, -, rfl⟩ := exists_of_mem_batchRows hmem
      exact hbulk op hop hb
  · rw [hhist]
    exact h.bulkOnce_append_newRows
  · rw [hhist, List.map_append, ← h.accepted, ← hout]
    simp [acceptedIds]
  · rw [List.pairwise_append]
    refine ⟨h.duplicates, List.pairwise_singleton _ _, fun call hcall later hlater => ?_⟩
    rw [List.mem_singleton.mp hlater]
    intro out' hout' op hop hmem
    have hid : op.operationId ∈ s.acceptedIds :=
      List.mem_flatMap.mpr ⟨out', List.mem_filterMap.mpr ⟨call, hcall, hout'⟩, hmem⟩
    rw [h.accepted] at hid
    obtain ⟨row, hmem, hrid⟩ := List.mem_map.mp hid
    refine ⟨fun out'' hout'' => ?_, fun hnone => absurd hnone (by simp)⟩
    obtain rfl := Option.some.inj hout''
    exact h.mem_duplicate_of_resend hdisc hd hproc hop hmem hrid

end Upload

theorem step (h : Agrees cfg s) (e : Event) (hdisc : s.Disciplined e) :
    Agrees cfg (s.step cfg e) := by
  by_cases hup : ∃ deviceId ops, e = .upload deviceId ops
  · obtain ⟨deviceId, ops, rfl⟩ := hup
    rcases hauth : s.server.authenticate deviceId with _ | device
    · exact h.step_upload_of_none hdisc hauth
    · rcases hproc : processBatch cfg s.server.now s.server.db device ops with e | ⟨out, db'⟩
      · exact h.step_upload_of_error hdisc hauth hproc
      · exact h.step_upload_of_ok hdisc hauth hproc
  · push Not at hup
    exact h.of_ne_upload hup

end Agrees

end Session

end HelixSync
