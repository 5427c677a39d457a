import HelixSync.Server.System
import HelixSync.Server.UploadSpec

/-!
# What one event does

Inversion of `HelixSync.Server.step`: every event is one of five things
(`HelixSync.Server.Step`, `HelixSync.Server.step_spec`). Most leave the synchronized
data alone (`HelixSync.Server.Quiet`); the others are an upload that accepted nothing, an
upload that wrote, the commit of a snapshot, and a prune chunk. Every invariant of the
server is proved by going through these five cases.

The first such invariant is `HelixSync.Server.WellFormed`, which ties the database to
the history of accepted rows: the log is part of the history, the cursors of a user
are exactly `1, …, n`, and a device's sequences increase.
-/

namespace HelixSync

/-- What an upload reads of a device: its user and its last accepted sequence. -/
def Db.deviceState? (db : Db) (id : Uuid) : Option (Uuid × ℤ) :=
  (db.device? id).map fun d => (d.userId, d.lastDeviceSequence)

namespace Server

/-! ### The five kinds of events -/

/-- Two databases that differ at most in the devices and their cursors. -/
structure SameData (db db' : Db) : Prop where
  syncOperations : db'.syncOperations = db.syncOperations
  cursorAllocator : db'.cursorAllocator = db.cursorAllocator
  syncObjects : db'.syncObjects = db.syncObjects
  tombstones : db'.tombstones = db.tombstones
  syncStats : db'.syncStats = db.syncStats
  historyVisitHours : db'.historyVisitHours = db.historyVisitHours
  syncSnapshots : db'.syncSnapshots = db.syncSnapshots
  userSettings : db'.userSettings = db.userSettings

theorem SameData.refl (db : Db) : SameData db db := ⟨rfl, rfl, rfl, rfl, rfl, rfl, rfl, rfl⟩

/-- An event that leaves the synchronized data alone. It may register a device, decide
on a snapshot or start a prune pass up to the latest one. -/
structure Quiet (cfg : Config) (s s' : Server) : Prop where
  data : SameData s.db s'.db
  devices : ∀ id, s'.db.deviceState? id = s.db.deviceState? id ∨
    s.db.deviceState? id = none ∧ ∃ userId, s'.db.deviceState? id = some (userId, 0)
  batches : s'.batches = s.batches
  now_le : s.now ≤ s'.now
  prunes : ∀ pass ∈ s'.prunes, pass ∈ s.prunes ∨
    ∃ userId, pass = startPrune cfg s.now s.db userId (s.db.maxSnapshotCursor userId)
  rebuilds : ∀ r ∈ s'.rebuilds, r ∈ s.rebuilds ∨ r.2 = ackBoundary cfg s.now s.db r.1

/-- One event, by what it does to the synchronized data. -/
inductive Step (cfg : Config) (s : Server) : Event → Server → Prop
  | quiet {e : Event} {s' : Server} (h : Quiet cfg s s') : Step cfg s e s'
  | idle {deviceId : Uuid} {ops : List OperationIn} :
      Step cfg s (.upload deviceId ops) { s with batches := s.batches ++ [[]] }
  | wrote {device : AuthenticatedDevice} {d : DeviceRow} {ops : List OperationIn} {db' : Db}
      (hauth : s.authenticate device.deviceId = some device)
      (hd : s.db.device? device.deviceId = some d)
      (hne : s.db.accepts cfg s.now device d ops ≠ [])
      (hwrite : writeBatch s.now device (s.db.accepts cfg s.now device d ops)
        (s.db.lastSeqAfter cfg s.now device d ops) s.db = some db') :
      Step cfg s (.upload device.deviceId ops) { s with
        db := db'
        batches := s.batches ++ [batchRows s.now device (s.db.currentCursor device.userId + 1)
          (s.db.accepts cfg s.now device d ops)] }
  | committed {index : ℕ} {userId : Uuid} {boundary : ℕ} {db' : Db}
      (hindex : s.rebuilds[index]? = some (userId, boundary))
      (hcommit : HelixSync.commitSnapshot cfg s.now s.db userId boundary = some db') :
      Step cfg s (.commitSnapshot index) { s with
        db := db'
        rebuilds := s.rebuilds.eraseIdx index
        prunes := s.prunes ++ [startPrune cfg s.now db' userId boundary] }
  | pruned {index : ℕ} {pass : PrunePass} (hindex : s.prunes[index]? = some pass) :
      Step cfg s (.pruneChunk index) { s with
        db := HelixSync.pruneChunk pass s.db
        prunes := s.prunes.eraseIdx index ++ (pass.next? s.db).toList }

variable {cfg : Config} {s : Server}

theorem Quiet.refl : Quiet cfg s s where
  data := SameData.refl _
  devices := fun _ => Or.inl rfl
  batches := rfl
  now_le := le_refl _
  prunes := fun _ h => Or.inl h
  rebuilds := fun _ h => Or.inl h

/-- An event that changes only the requests under way, dropping or replacing them. -/
theorem Quiet.of_requests (rebuilds : List (Uuid × ℕ)) (prunes : List PrunePass)
    (downloads : List DownloadCall) (answered : List AnsweredDownload)
    (hr : ∀ r ∈ rebuilds, r ∈ s.rebuilds) (hp : ∀ p ∈ prunes, p ∈ s.prunes) :
    Quiet cfg s { s with
      rebuilds := rebuilds, prunes := prunes, downloads := downloads, answered := answered } where
  data := SameData.refl _
  devices := fun _ => Or.inl rfl
  batches := rfl
  now_le := le_refl _
  prunes := fun p h => Or.inl (hp p h)
  rebuilds := fun r h => Or.inl (hr r h)

/-- An update of a device that keeps its user and its sequence is quiet. -/
theorem Quiet.of_updateDevice (id : Uuid) {f : DeviceRow → DeviceRow}
    (hf : ∀ d, (f d).id = d.id ∧ (f d).userId = d.userId ∧
      (f d).lastDeviceSequence = d.lastDeviceSequence) :
    Quiet cfg s { s with db := s.db.updateDevice id f } where
  data := ⟨rfl, rfl, rfl, rfl, rfl, rfl, rfl, rfl⟩
  devices := by
    intro j
    left
    unfold Db.deviceState?
    rw [Db.device?_updateDevice _ (fun d => (hf d).1)]
    split
    · cases s.db.device? j with
      | none => rfl
      | some d => simp [hf d]
    · rfl
  batches := rfl
  now_le := le_refl _
  prunes := fun _ h => Or.inl h
  rebuilds := fun _ h => Or.inl h

theorem quiet_register (deviceId userId : Uuid) : Quiet cfg s (s.register deviceId userId) := by
  unfold register
  split
  · exact Quiet.refl
  · rename_i hnew
    have hnone : s.db.device? deviceId = none := by simpa using hnew
    refine ⟨⟨rfl, rfl, rfl, rfl, rfl, rfl, rfl, rfl⟩, fun id => ?_, rfl, le_refl _,
      fun _ h => Or.inl h, fun _ h => Or.inl h⟩
    by_cases hid : id = deviceId
    · refine Or.inr ⟨by rw [hid, Db.deviceState?, hnone]; rfl, userId, ?_⟩
      simp only [Db.device?, List.find?_eq_none, decide_eq_true_eq] at hnone
      have hfind : s.db.devices.find? (fun d => decide (d.id = deviceId)) = none := by
        simpa using hnone
      simp [Db.deviceState?, Db.device?, List.find?_append, hid, hfind]
    · left
      simp [Db.deviceState?, Db.device?, List.find?_append, Ne.symm hid]

theorem quiet_recordCursor (device : AuthenticatedDevice) (cursor : ℕ)
    (downloads : List DownloadCall) :
    Quiet cfg s { s with db := recordCursor s.db device cursor, downloads := downloads } where
  data := ⟨rfl, rfl, rfl, rfl, rfl, rfl, rfl, rfl⟩
  devices := fun _ => Or.inl rfl
  batches := rfl
  now_le := le_refl _
  prunes := fun _ h => Or.inl h
  rebuilds := fun _ h => Or.inl h

theorem quiet_compact (userId : Uuid) : Quiet cfg s (s.compact cfg userId) := by
  unfold compact planCompaction
  dsimp only
  split
  · exact Quiet.refl
  · rename_i boundary hplan
    have hboundary : boundary = s.db.maxSnapshotCursor userId := by
      split_ifs at hplan
      exact (CompactionPlan.prune.inj hplan).symm
    refine ⟨SameData.refl _, fun _ => Or.inl rfl, rfl, le_refl _, fun pass hpass => ?_,
      fun _ h => Or.inl h⟩
    rcases List.mem_append.mp hpass with hpass | hpass
    · exact Or.inl hpass
    · exact Or.inr ⟨userId, by rw [List.mem_singleton.mp hpass, hboundary]⟩
  · rename_i boundary hplan
    have hboundary : boundary = ackBoundary cfg s.now s.db userId := by
      split_ifs at hplan
      exact (CompactionPlan.rebuild.inj hplan).symm
    refine ⟨SameData.refl _, fun _ => Or.inl rfl, rfl, le_refl _, fun _ h => Or.inl h,
      fun r hr => ?_⟩
    rcases List.mem_append.mp hr with hr | hr
    · exact Or.inl hr
    · rw [List.mem_singleton.mp hr]
      exact Or.inr hboundary

theorem insertedRows_self (db : Db) : insertedRows db db = [] := by
  simp [insertedRows]

theorem insertedRows_writeBatch {now : DateTime} {device : AuthenticatedDevice}
    {accepted : List OperationIn} {lastSeq : ℤ} {db db' : Db}
    (h : writeBatch now device accepted lastSeq db = some db') :
    insertedRows db db' = batchRows now device (db.currentCursor device.userId + 1) accepted := by
  obtain ⟨table, hrows, rfl⟩ := (writeBatch_eq_some_iff.mp h).2
  simp [insertedRows, hrows]

/-- An upload that is answered: the rows it accepted are the next batch. -/
theorem upload_eq {device : AuthenticatedDevice} {d : DeviceRow} {ops : List OperationIn}
    {out : BatchOutcome} {db' : Db} (hd : s.db.device? device.deviceId = some d)
    (hproc : processBatch cfg s.now s.db device ops = .ok (out, db')) :
    s.upload cfg device ops = { s with
      db := db'
      batches := s.batches ++ [batchRows s.now device (s.db.currentCursor device.userId + 1)
        (s.db.accepts cfg s.now device d ops)] } := by
  have hrows : insertedRows s.db db' = batchRows s.now device
      (s.db.currentCursor device.userId + 1) (s.db.accepts cfg s.now device d ops) := by
    rcases processBatch_ok hproc with ⟨rfl, hnone⟩ | ⟨d', hd', -, hwrite⟩
    · rw [insertedRows_self, hnone d hd]
      rfl
    · obtain rfl := Option.some.inj (hd.symm.trans hd')
      exact insertedRows_writeBatch hwrite
  unfold upload
  rw [hproc]
  dsimp only
  rw [hrows]

theorem step_upload {device : AuthenticatedDevice}
    (hauth : s.authenticate device.deviceId = some device) (ops : List OperationIn) :
    Step cfg s (.upload device.deviceId ops) (s.upload cfg device ops) := by
  unfold upload
  split
  · exact Step.quiet Quiet.refl
  · rename_i out db' hproc
    rcases processBatch_ok hproc with ⟨rfl, -⟩ | ⟨d, hd, hne, hwrite⟩
    · rw [insertedRows_self]
      exact Step.idle
    · rw [insertedRows_writeBatch hwrite]
      exact Step.wrote hauth hd hne hwrite

theorem authenticate_deviceId {deviceId : Uuid} {device : AuthenticatedDevice}
    (h : s.authenticate deviceId = some device) : device.deviceId = deviceId := by
  unfold authenticate at h
  obtain ⟨d, hd, rfl⟩ := Option.map_eq_some_iff.mp h
  exact Db.device?_id hd

/-- **Inversion of an event.** -/
theorem step_spec (e : Event) : Step cfg s e (step cfg s e) := by
  cases e with
  | tick time =>
    exact Step.quiet ⟨SameData.refl _, fun _ => Or.inl rfl, rfl, le_max_left _ _,
      fun _ h => Or.inl h, fun _ h => Or.inl h⟩
  | register deviceId userId => exact Step.quiet (quiet_register deviceId userId)
  | touch deviceId =>
    refine Step.quiet (Quiet.of_updateDevice deviceId fun d => ?_)
    split
    · exact ⟨rfl, rfl, rfl⟩
    · split <;> exact ⟨rfl, rfl, rfl⟩
  | revoke deviceId =>
    refine Step.quiet (Quiet.of_updateDevice deviceId fun d => ?_)
    split <;> exact ⟨rfl, rfl, rfl⟩
  | upload deviceId ops =>
    rcases hauth : s.authenticate deviceId with _ | device
    · have heq : step cfg s (.upload deviceId ops) = s := by simp only [step, hauth]
      rw [heq]
      exact Step.quiet Quiet.refl
    · have heq : step cfg s (.upload deviceId ops) = s.upload cfg device ops := by
        simp only [step, hauth]
      rw [heq]
      obtain rfl := authenticate_deviceId hauth
      exact step_upload hauth ops
  | compact userId => exact Step.quiet (quiet_compact userId)
  | commitSnapshot index =>
    change Step cfg s (.commitSnapshot index) (s.commitSnapshot cfg index)
    unfold commitSnapshot
    split
    · exact Step.quiet Quiet.refl
    · rename_i userId boundary hindex
      split
      · exact Step.quiet (Quiet.of_requests _ _ _ _ (fun _ => List.mem_of_mem_eraseIdx) fun _ h => h)
      · rename_i db' hcommit
        exact Step.committed hindex hcommit
  | pruneChunk index =>
    change Step cfg s (.pruneChunk index) (s.pruneChunk index)
    unfold pruneChunk
    split
    · exact Step.quiet Quiet.refl
    · rename_i pass hindex
      exact Step.pruned hindex
  | dropRebuild index =>
    exact Step.quiet (Quiet.of_requests _ _ _ _ (fun _ => List.mem_of_mem_eraseIdx) fun _ h => h)
  | dropPrune index =>
    exact Step.quiet (Quiet.of_requests _ _ _ _ (fun _ h => h) fun _ => List.mem_of_mem_eraseIdx)
  | downloadBounds deviceId query =>
    rcases hauth : s.authenticate deviceId with _ | device
    · have heq : step cfg s (.downloadBounds deviceId query) = s := by simp only [step, hauth]
      rw [heq]
      exact Step.quiet Quiet.refl
    · have heq : step cfg s (.downloadBounds deviceId query) = s.downloadBounds device query := by
        simp only [step, hauth]
      rw [heq]
      unfold downloadBounds readBounds
      split
      · rename_i h
        obtain ⟨-, rfl⟩ := Prod.mk.inj h
        exact Step.quiet (quiet_recordCursor _ _ _)
      · rename_i h
        obtain ⟨-, rfl⟩ := Prod.mk.inj h
        exact Step.quiet (quiet_recordCursor _ _ _)
  | downloadPage index =>
    change Step cfg s (.downloadPage index) (s.downloadPage index)
    unfold downloadPage
    refine Step.quiet ?_
    split
    · exact Quiet.refl
    · split
      · exact Quiet.of_requests _ _ _ _ (fun _ h => h) fun _ h => h
      · exact Quiet.of_requests _ _ _ _ (fun _ h => h) fun _ h => h
      · exact Quiet.refl
  | downloadRows index =>
    change Step cfg s (.downloadRows index) (s.downloadRows index)
    unfold downloadRows
    refine Step.quiet ?_
    split
    · exact Quiet.refl
    · split
      · exact Quiet.refl
      · exact Quiet.of_requests _ _ _ _ (fun _ h => h) fun _ h => h
  | dropDownload index =>
    exact Step.quiet (Quiet.of_requests _ _ _ _ (fun _ h => h) fun _ h => h)

/-- What no event but an upload changes, or only extends. -/
theorem frame_of_ne_upload {e : Event} {s' : Server} (hstep : Step cfg s e s')
    (hne : ∀ deviceId ops, e ≠ .upload deviceId ops) :
    s'.batches = s.batches ∧ s.now ≤ s'.now ∧ s'.db.userSettings = s.db.userSettings ∧
      s.db.syncObjects ⊆ s'.db.syncObjects := by
  cases hstep with
  | quiet hq =>
    exact ⟨hq.batches, hq.now_le, hq.data.userSettings, by rw [hq.data.syncObjects]⟩
  | idle => exact absurd rfl (hne _ _)
  | wrote _ _ _ _ => exact absurd rfl (hne _ _)
  | committed _ hcommit =>
    refine ⟨rfl, le_refl _, (commitSnapshot_frame hcommit).2.2.2.2.2.2, ?_⟩
    rcases commitSnapshot_eq_some hcommit with ⟨rfl, -⟩ | ⟨rfl, -⟩
    · exact Finset.Subset.refl _
    · exact Finset.subset_union_left
  | pruned _ => exact ⟨rfl, le_refl _, rfl, Finset.Subset.refl _⟩

section Writes

variable {now : DateTime} {device : AuthenticatedDevice} {accepted : List OperationIn}
  {lastSeq : ℤ} {db db' : Db}

theorem deviceState?_writeBatch (h : writeBatch now device accepted lastSeq db = some db')
    {d : DeviceRow} (hd : db.device? device.deviceId = some d) (id : Uuid) :
    db'.deviceState? id =
      if id = device.deviceId then some (d.userId, lastSeq) else db.deviceState? id := by
  obtain ⟨table, -, rfl⟩ := (writeBatch_eq_some_iff.mp h).2
  have hdev := db.device?_updateDevice
    (f := fun d => { d with lastDeviceSequence := lastSeq }) (fun _ => rfl) device.deviceId id
  unfold Db.deviceState?
  rw [Db.device?] at hdev ⊢
  rw [hdev]
  by_cases hid : id = device.deviceId
  · rw [if_pos hid, if_pos hid, hid, hd]
    rfl
  · rw [if_neg hid, if_neg hid]

end Writes

/-- The history grows at its end, -/
theorem history_prefix_step {e : Event} {s' : Server} (hstep : Step cfg s e s') :
    s.history <+: s'.history := by
  cases hstep with
  | quiet hq =>
    rw [history, history, hq.batches]
  | idle => simp [history]
  | wrote _ _ _ _ =>
    rw [history, history, List.flatten_append]
    exact List.prefix_append _ _
  | committed _ _ => exact List.prefix_rfl
  | pruned _ => exact List.prefix_rfl

/-- its rows stay, -/
theorem history_subset_step {e : Event} {s' : Server} (hstep : Step cfg s e s') :
    s.history ⊆ s'.history :=
  (history_prefix_step hstep).subset

/-- and every new one is an operation of an upload. -/
theorem exists_of_mem_history_step {e : Event} {s' : Server} (hstep : Step cfg s e s')
    {row : OperationRow} (hrow : row ∈ s'.history) :
    row ∈ s.history ∨ ∃ deviceId ops, e = .upload deviceId ops ∧ ∃ op ∈ ops,
      ∃ userId cursor, row = operationRow s.now ⟨userId, deviceId⟩ cursor op := by
  cases hstep with
  | quiet hq =>
    rw [history, hq.batches] at hrow
    exact Or.inl hrow
  | idle => exact Or.inl (by simpa [history] using hrow)
  | @wrote device d ops db' hauth hd hne hwrite =>
    rw [history, List.flatten_append, List.mem_append] at hrow
    rcases hrow with hrow | hrow
    · exact Or.inl hrow
    · rw [List.flatten_singleton] at hrow
      obtain ⟨op, hop, cursor, -, -, rfl⟩ := exists_of_mem_batchRows hrow
      exact Or.inr ⟨_, ops, rfl, op, (accepts_sublist _).mem hop, device.userId, cursor, rfl⟩
  | committed _ _ => exact Or.inl hrow
  | pruned _ => exact Or.inl hrow

/-- **Only its own uploads move a device**, apart from its registration. -/
theorem deviceState?_of_ne_upload {e : Event} {s' : Server} (hstep : Step cfg s e s') {id : Uuid}
    (hne : ∀ ops, e ≠ .upload id ops) :
    s'.db.deviceState? id = s.db.deviceState? id ∨
      s.db.deviceState? id = none ∧ ∃ userId, s'.db.deviceState? id = some (userId, 0) := by
  cases hstep with
  | quiet hq => exact hq.devices id
  | idle => exact Or.inl rfl
  | @wrote device d ops db' hauth hd _ hwrite =>
    refine Or.inl ?_
    rw [deviceState?_writeBatch hwrite hd, if_neg]
    rintro rfl
    exact hne ops rfl
  | committed _ hcommit =>
    refine Or.inl ?_
    rw [Db.deviceState?, Db.deviceState?, Db.device?, Db.device?,
      (commitSnapshot_frame hcommit).2.2.1]
  | pruned _ => exact Or.inl rfl

/-- **A device keeps its user, and its sequence never decreases.** -/
theorem deviceState?_step {e : Event} {s' : Server} (hstep : Step cfg s e s') {id userId : Uuid}
    {lastSeq : ℤ} (h : s.db.deviceState? id = some (userId, lastSeq)) :
    ∃ lastSeq', lastSeq ≤ lastSeq' ∧ s'.db.deviceState? id = some (userId, lastSeq') := by
  cases hstep with
  | quiet hq =>
    rcases hq.devices id with hsame | ⟨hnone, -⟩
    · exact ⟨lastSeq, le_refl _, hsame.trans h⟩
    · rw [hnone] at h
      exact absurd h (by simp)
  | idle => exact ⟨lastSeq, le_refl _, h⟩
  | wrote _ hd _ hwrite =>
    rw [deviceState?_writeBatch hwrite hd]
    split
    · rename_i hid
      rw [hid, Db.deviceState?, hd, Option.map_some, Option.some.injEq, Prod.mk.injEq] at h
      obtain ⟨rfl, rfl⟩ := h
      exact ⟨_, le_validateOps_lastSeq _, rfl⟩
    · exact ⟨lastSeq, le_refl _, h⟩
  | committed _ hcommit =>
    refine ⟨lastSeq, le_refl _, ?_⟩
    rw [← h, Db.deviceState?, Db.device?, (commitSnapshot_frame hcommit).2.2.1]
    rfl
  | pruned _ => exact ⟨lastSeq, le_refl _, h⟩

/-! ### The database and the history -/

/-- The database agrees with the history of accepted rows. -/
structure WellFormed (s : Server) : Prop where
  log : s.db.syncOperations.rows.Sublist s.history
  cursors : ∀ userId, (s.userHistory userId).map OperationRow.serverCursor =
    List.range' 1 (s.db.currentCursor userId)
  sequences : s.history.Pairwise fun a b =>
    a.deviceId = b.deviceId → a.deviceSequence < b.deviceSequence
  devices : ∀ row ∈ s.history, ∃ lastSeq,
    s.db.deviceState? row.deviceId = some (row.userId, lastSeq) ∧ row.deviceSequence ≤ lastSeq
  snapshots : ∀ snap ∈ s.db.syncSnapshots, snap.snapshotCursor ≤ s.db.currentCursor snap.userId
  rebuilds : ∀ r ∈ s.rebuilds, r.2 ≤ s.db.currentCursor r.1

theorem mem_userHistory {userId : Uuid} {row : OperationRow} :
    row ∈ s.userHistory userId ↔ row ∈ s.history ∧ row.userId = userId := by
  simp [userHistory]

namespace WellFormed

/-- The cursors of the history are between one and the allocator. -/
theorem cursor_mem (h : WellFormed s) {row : OperationRow} (hrow : row ∈ s.history) :
    1 ≤ row.serverCursor ∧ row.serverCursor ≤ s.db.currentCursor row.userId := by
  have hmem : row.serverCursor ∈ List.range' 1 (s.db.currentCursor row.userId) := by
    rw [← h.cursors]
    exact List.mem_map_of_mem (mem_userHistory.mpr ⟨hrow, rfl⟩)
  rw [List.mem_range'_1] at hmem
  omega

/-- A user's history is in cursor order. -/
theorem userHistory_pairwise (h : WellFormed s) (userId : Uuid) :
    (s.userHistory userId).Pairwise fun a b => a.serverCursor < b.serverCursor := by
  have hrange := List.pairwise_lt_range' (s := 1) (n := s.db.currentCursor userId)
  rw [← h.cursors, List.pairwise_map] at hrange
  exact hrange

theorem maxOpCursor_le (h : WellFormed s) (userId : Uuid) (ceiling : Option ℕ) :
    s.db.maxOpCursor userId ceiling ≤ s.db.currentCursor userId := by
  unfold Db.maxOpCursor
  cases hmax : (((s.db.userRows userId).filter fun row =>
      belowCeiling ceiling row.serverCursor).map OperationRow.serverCursor).max? with
  | none => exact Nat.zero_le _
  | some m =>
    obtain ⟨hmem, -⟩ := List.max?_eq_some_iff.mp hmax
    simp only [List.mem_map, List.mem_filter, Db.userRows, decide_eq_true_eq] at hmem
    obtain ⟨row, ⟨⟨hrow, rfl⟩, -⟩, rfl⟩ := hmem
    exact (h.cursor_mem (h.log.mem hrow)).2

theorem ackBoundary_le (h : WellFormed s) (userId : Uuid) :
    ackBoundary cfg s.now s.db userId ≤ s.db.currentCursor userId :=
  le_trans (min_le_right _ _) (h.maxOpCursor_le userId none)

theorem maxSnapshotCursor_le (h : WellFormed s) (userId : Uuid) :
    s.db.maxSnapshotCursor userId ≤ s.db.currentCursor userId :=
  maxSnapshotCursor_le_iff.mpr fun snap hsnap hu => hu ▸ h.snapshots snap hsnap

theorem start (settings : Uuid → Option UserSettings) (now : DateTime) :
    WellFormed (Server.start settings now) where
  log := List.Sublist.refl _
  cursors := fun _ => rfl
  sequences := List.Pairwise.nil
  devices := fun _ h => absurd h (by simp [history, Server.start])
  snapshots := fun _ h => absurd h (by simp [Server.start, Db.empty])
  rebuilds := fun _ h => absurd h (by simp [Server.start])

theorem quiet {s' : Server} (h : WellFormed s) (hq : Quiet cfg s s') : WellFormed s' := by
  have hhist : s'.history = s.history := by rw [history, hq.batches, history]
  have hcur : ∀ userId, s'.db.currentCursor userId = s.db.currentCursor userId := by
    intro userId
    rw [Db.currentCursor, hq.data.cursorAllocator, Db.currentCursor]
  refine ⟨?_, fun userId => ?_, ?_, ?_, ?_, ?_⟩
  · rw [hhist, hq.data.syncOperations]
    exact h.log
  · rw [userHistory, hhist, hcur]
    exact h.cursors userId
  · rw [hhist]
    exact h.sequences
  · rw [hhist]
    intro row hrow
    obtain ⟨lastSeq, hstate, hle⟩ := h.devices row hrow
    rcases hq.devices row.deviceId with hsame | ⟨hnone, -⟩
    · exact ⟨lastSeq, by rw [hsame, hstate], hle⟩
    · rw [hnone] at hstate
      exact absurd hstate (by simp)
  · rw [hq.data.syncSnapshots]
    intro snap hsnap
    rw [hcur]
    exact h.snapshots snap hsnap
  · intro r hr
    rw [hcur]
    rcases hq.rebuilds r hr with hr | hr
    · exact h.rebuilds r hr
    · rw [hr]
      exact h.ackBoundary_le r.1

theorem idle (h : WellFormed s) : WellFormed { s with batches := s.batches ++ [[]] } := by
  have hhist : history { s with batches := s.batches ++ [[]] } = s.history := by simp [history]
  refine ⟨?_, fun userId => ?_, ?_, ?_, h.snapshots, h.rebuilds⟩
  · rw [hhist]
    exact h.log
  · rw [userHistory, hhist]
    exact h.cursors userId
  · rw [hhist]
    exact h.sequences
  · rw [hhist]
    exact h.devices

section Wrote

variable {device : AuthenticatedDevice} {d : DeviceRow} {ops : List OperationIn} {db' : Db}

theorem wrote (h : WellFormed s) (hauth : s.authenticate device.deviceId = some device)
    (hd : s.db.device? device.deviceId = some d)
    (hwrite : writeBatch s.now device (s.db.accepts cfg s.now device d ops)
      (s.db.lastSeqAfter cfg s.now device d ops) s.db = some db') :
    WellFormed { s with
      db := db'
      batches := s.batches ++ [batchRows s.now device (s.db.currentCursor device.userId + 1)
        (s.db.accepts cfg s.now device d ops)] } := by
  set accepted := s.db.accepts cfg s.now device d ops with haccepted
  set rows := batchRows s.now device (s.db.currentCursor device.userId + 1) accepted with hrowsdef
  obtain ⟨table, htable, hdb'⟩ := (writeBatch_eq_some_iff.mp hwrite).2
  have hcur := currentCursor_writeBatch hwrite
  have hstate := deviceState?_writeBatch hwrite hd
  have huser : d.userId = device.userId := by
    unfold authenticate at hauth
    rw [hd] at hauth
    exact congrArg AuthenticatedDevice.userId (Option.some.inj hauth)
  have hhist : history { s with db := db', batches := s.batches ++ [rows] } = s.history ++ rows := by
    simp [history]
  -- a row of the batch: its device and its sequence
  have hrow : ∀ row ∈ rows, row.deviceId = device.deviceId ∧
      d.lastDeviceSequence < row.deviceSequence ∧
      row.deviceSequence ≤ s.db.lastSeqAfter cfg s.now device d ops := by
    intro row hmem
    obtain ⟨op, hop, cursor, -, -, rfl⟩ := exists_of_mem_batchRows hmem
    exact ⟨rfl, lt_of_mem_accepts hop, le_lastSeq_of_mem_accepts hop⟩
  refine ⟨?_, fun userId => ?_, ?_, ?_, ?_, ?_⟩
  · rw [hhist, hdb', htable]
    exact h.log.append (List.Sublist.refl _)
  · rw [userHistory, hhist, List.filter_append, List.map_append]
    change (s.userHistory userId).map _ ++ _ = List.range' 1 (db'.currentCursor userId)
    rw [h.cursors, ← range_append_writeBatch hwrite, hrowsdef, filter_userId_batchRows]
  · rw [hhist, List.pairwise_append]
    refine ⟨h.sequences, ?_, fun a ha b hb hab => ?_⟩
    · exact pairwise_batchRows (accepts_pairwise _) fun a b i j _ hlt _ => hlt
    · obtain ⟨lastSeq, hlast, hle⟩ := h.devices a ha
      rw [hab, (hrow b hb).1, Db.deviceState?, hd, Option.map_some, Option.some.injEq,
        Prod.mk.injEq] at hlast
      exact lt_of_le_of_lt (hlast.2 ▸ hle) (hrow b hb).2.1
  · rw [hhist]
    intro row hmem
    rcases List.mem_append.mp hmem with hmem | hmem
    · obtain ⟨lastSeq, hlast, hle⟩ := h.devices row hmem
      by_cases hid : row.deviceId = device.deviceId
      · rw [hid, Db.deviceState?, hd, Option.map_some, Option.some.injEq, Prod.mk.injEq] at hlast
        refine ⟨_, by rw [hstate, if_pos hid, hlast.1], ?_⟩
        exact le_trans (hlast.2 ▸ hle) (le_validateOps_lastSeq _)
      · exact ⟨lastSeq, by rw [hstate, if_neg hid, hlast], hle⟩
    · refine ⟨_, by rw [hstate, if_pos (hrow row hmem).1, huser, userId_of_mem_batchRows hmem], ?_⟩
      exact (hrow row hmem).2.2
  · intro snap hsnap
    refine le_trans (h.snapshots snap (by rw [hdb'] at hsnap; exact hsnap)) ?_
    rw [hcur]
    split
    · exact Nat.le_add_right _ _
    · exact le_refl _
  · intro r hr
    refine le_trans (h.rebuilds r hr) ?_
    change _ ≤ db'.currentCursor r.1
    rw [hcur]
    split
    · exact Nat.le_add_right _ _
    · exact le_refl _

end Wrote

theorem committed {index : ℕ} {userId : Uuid} {boundary : ℕ} {db' : Db} (h : WellFormed s)
    (hindex : s.rebuilds[index]? = some (userId, boundary))
    (hcommit : HelixSync.commitSnapshot cfg s.now s.db userId boundary = some db')
    (prunes : List PrunePass) :
    WellFormed { s with
      db := db', rebuilds := s.rebuilds.eraseIdx index, prunes := prunes } := by
  obtain ⟨hops, halloc, hdev, -⟩ := commitSnapshot_frame hcommit
  have hcur : ∀ u, db'.currentCursor u = s.db.currentCursor u := by
    intro u
    rw [Db.currentCursor, halloc, Db.currentCursor]
  refine ⟨?_, fun u => ?_, h.sequences, fun row hrow => ?_, fun snap hsnap => ?_, fun r hr => ?_⟩
  · rw [hops]
    exact h.log
  · rw [hcur]
    exact h.cursors u
  · obtain ⟨lastSeq, hstate, hle⟩ := h.devices row hrow
    exact ⟨lastSeq, by rw [← hstate, Db.deviceState?, Db.device?, hdev]; rfl, hle⟩
  · rw [hcur]
    rcases mem_syncSnapshots_commitSnapshot hcommit hsnap with hsnap | rfl
    · exact h.snapshots snap hsnap
    · exact h.rebuilds (userId, boundary) (List.mem_of_getElem? hindex)
  · rw [hcur]
    exact h.rebuilds r (List.mem_of_mem_eraseIdx hr)

theorem pruned (h : WellFormed s) (pass : PrunePass) (prunes : List PrunePass) :
    WellFormed { s with db := HelixSync.pruneChunk pass s.db, prunes := prunes } where
  log := List.filter_sublist.trans h.log
  cursors := h.cursors
  sequences := h.sequences
  devices := h.devices
  snapshots := h.snapshots
  rebuilds := h.rebuilds

theorem step {e : Event} {s' : Server} (h : WellFormed s) (hstep : Step cfg s e s') :
    WellFormed s' := by
  cases hstep with
  | quiet hq => exact h.quiet hq
  | idle => exact h.idle
  | wrote hauth hd _ hwrite => exact h.wrote hauth hd hwrite
  | committed hindex hcommit => exact h.committed hindex hcommit _
  | pruned _ => exact h.pruned _ _

/-- **The database agrees with the history** in every reachable state. -/
theorem run (settings : Uuid → Option UserSettings) (now : DateTime) (events : List Event) :
    WellFormed (Server.run cfg (Server.start settings now) events) :=
  Runs.invariant (fun _ e h => h.step (step_spec e)) (WellFormed.start settings now) events

end WellFormed

end Server

end HelixSync
