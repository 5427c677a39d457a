import HelixSync.Client.BulkPlan
import HelixSync.Server.BulkChunks

/-!
# A history import that is interrupted

A pass of `collectHistoryBulk` makes one chunk after the other, reserves a sequence for each,
uploads it, and writes a checkpoint with the number of chunks and of visits that are uploaded;
at the end it clears the checkpoint (`extension/src/history/bulk.ts`). The worker may be stopped
between any two of these, and the next pass starts from the checkpoint. A request may also reach
the server late, again, or without its answer reaching the device, and all the while other
devices upload and the server compacts.

The server adds a chunk only if it has neither its id nor its object. So if it has the first
chunks of the plan, each once (`HelixSync.Client.BulkImport.Imported`), a request for one of them
changes nothing and a request for the next one adds it
(`HelixSync.Client.BulkImport.Imported.step_upload`).
-/

namespace HelixSync

namespace Client

/-- An import: its scope, the server and the account it goes to, and the visits in the window in
the order they are enumerated. -/
structure BulkImport where
  scope : BulkScope
  cfg : Config
  userId : Uuid
  stream : List CollectedGroup

/-- Where a pass stands with the next of its chunks. -/
inductive BulkStage where
  | collecting
  /-- It has a sequence, and its operation is being uploaded. -/
  | reserved (op : OperationIn)
  /-- The server has answered, and the checkpoint is to be written. -/
  | uploaded

/-- A pass of `collectHistoryBulk`: the chunks it is still to make, whether it gets to the end of
the stream then, and its variables. -/
structure BulkPass where
  chunks : List BulkChunk
  ends : Bool
  uploadedChunks : ℕ
  uploadedVisits : ℕ
  stage : BulkStage

/-- The server, the counters and the checkpoint of the device, and the pass under way. -/
structure BulkImporter where
  server : Server
  deviceSequence : ℕ
  lamportClock : ℕ
  uploadedChunks : Option ℕ
  uploadedVisits : Option ℕ
  pass : Option BulkPass
  /-- The operations that may have been sent. -/
  sent : List OperationIn
  /-- Whether some pass has come to its end and cleared the checkpoint, -/
  completed : Bool
  /-- and how many have ended with an error. -/
  failures : ℕ

/-- What may happen next. -/
inductive BulkEvent (Nonce : Type) where
  /-- Anything on the server that is not of this import. -/
  | elsewhere (e : Event)
  /-- `reserveSequenceBatch`, for other operations. -/
  | reserveElsewhere (count : ℕ)
  | tickLamportClock (observed : ℕ)
  /-- A pass begins, which will draw these nonces. -/
  | start (nonces : ℕ → Nonce)
  /-- `flushChunk` reserves a sequence for the next chunk, -/
  | reserve
  /-- `uploadHistoryBulk` sends it and hears the answer, -/
  | upload
  /-- and the checkpoint is written. -/
  | checkpoint
  /-- The end of the pass. -/
  | finish
  /-- The worker is stopped, or the pass given up, anywhere. -/
  | interrupt
  /-- A request that was sent before reaches the server, and nobody hears the answer. -/
  | late (index : ℕ)

namespace BulkImporter

/-- Whether a sequence is reserved for a chunk that is not known to be uploaded. -/
def reserved (s : BulkImporter) : Prop := ∃ pass op, s.pass = some pass ∧ pass.stage = .reserved op

/-- Before anything has happened. -/
def start (settings : Uuid → Option UserSettings) (now : DateTime) : BulkImporter where
  server := Server.start settings now
  deviceSequence := 0
  lamportClock := 0
  uploadedChunks := none
  uploadedVisits := none
  pass := none
  sent := []
  completed := false
  failures := 0

end BulkImporter

namespace BulkImport

variable (i : BulkImport)

/-- The chunks of the import: the segments of each. -/
def plan : List Segments := (i.scope.bulkPlan 0 i.stream).1

/-- The objects of the chunks. -/
def chunkKeys : List ObjectKey :=
  (List.range i.plan.length).map fun k => (.historyVisit, i.scope.objectId k)

/-- An upload of one operation, with the answer `uploadHistoryBulk` accepts. -/
def answeredWell (s : Server) (op : OperationIn) : Bool :=
  match s.answer i.cfg i.scope.deviceId [op] with
  | none => false
  | some out => op.operationId ∈ out.accepted || op.operationId ∈ out.duplicate

/-- The pass that starts from a checkpoint. -/
def startPass (nonces : ℕ → i.scope.cipher.Nonce) (uploadedChunks uploadedVisits : ℕ) : BulkPass where
  chunks := (i.scope.collectHistoryBulk nonces uploadedChunks uploadedVisits i.stream).1
  ends := (i.scope.collectHistoryBulk nonces uploadedChunks uploadedVisits i.stream).2
  uploadedChunks := uploadedChunks
  uploadedVisits := uploadedVisits
  stage := .collecting

/-- One event. One that is not next does nothing. -/
def step (s : BulkImporter) : BulkEvent i.scope.cipher.Nonce → BulkImporter
  | .elsewhere e => { s with server := s.server.step i.cfg e }
  | .reserveElsewhere count => { s with
      deviceSequence := s.deviceSequence + count, lamportClock := s.lamportClock + count }
  | .tickLamportClock observed => { s with lamportClock := max s.lamportClock observed + 1 }
  | .start nonces => match s.pass with
    | some _ => s
    | none => { s with
        pass := some (i.startPass nonces (s.uploadedChunks.getD 0) (s.uploadedVisits.getD 0)) }
  | .reserve => match s.pass with
    | some ⟨chunk :: chunks, ends, uploadedChunks, uploadedVisits, .collecting⟩ =>
      let op := i.scope.operation chunk (s.deviceSequence + 1) (s.lamportClock + 1)
      { s with
        deviceSequence := s.deviceSequence + 1
        lamportClock := s.lamportClock + 1
        sent := s.sent ++ [op]
        pass := some ⟨chunk :: chunks, ends, uploadedChunks, uploadedVisits, .reserved op⟩ }
    | _ => s
  | .upload => match s.pass with
    | some ⟨chunks, ends, uploadedChunks, uploadedVisits, .reserved op⟩ =>
      let server := s.server.step i.cfg (.upload i.scope.deviceId [op])
      if i.answeredWell s.server op then { s with
        server := server
        pass := some ⟨chunks, ends, uploadedChunks, uploadedVisits, .uploaded⟩ }
      else { s with server := server, pass := none, failures := s.failures + 1 }
    | _ => s
  | .checkpoint => match s.pass with
    | some ⟨chunk :: chunks, ends, uploadedChunks, uploadedVisits, .uploaded⟩ => { s with
        uploadedChunks := some (uploadedChunks + 1)
        uploadedVisits := some (uploadedVisits + chunk.container.visitCount)
        pass := some ⟨chunks, ends, uploadedChunks + 1,
          uploadedVisits + chunk.container.visitCount, .collecting⟩ }
    | _ => s
  | .finish => match s.pass with
    | some ⟨[], ends, _, _, .collecting⟩ =>
      if ends then { s with
        uploadedChunks := none, uploadedVisits := none, pass := none, completed := true }
      else { s with pass := none, failures := s.failures + 1 }
    | _ => s
  | .interrupt => { s with pass := none }
  | .late index => match s.sent[index]? with
    | some op => { s with server := s.server.step i.cfg (.upload i.scope.deviceId [op]) }
    | none => s

/-- The state after a list of events. -/
abbrev run (s : BulkImporter) (events : List (BulkEvent i.scope.cipher.Nonce)) : BulkImporter :=
  Runs.run i.step s events

/-- The ids of the chunks are different, as those of different SHA-256 inputs are. -/
structure DistinctIds : Prop where
  operationId : ∀ j k, j < i.plan.length → k < i.plan.length →
    i.scope.operationId j = i.scope.operationId k → j = k
  objectId : ∀ j k, j < i.plan.length → k < i.plan.length →
    i.scope.objectId j = i.scope.objectId k → j = k

/-- An operation with neither the id nor the object of a chunk. -/
def Apart (op : OperationIn) : Prop :=
  ∀ k < i.plan.length, op.operationId ≠ i.scope.operationId k ∧
    op.objectKey ≠ (.historyVisit, i.scope.objectId k)

/-- What happens elsewhere: the device stays that of its user, nobody else uploads a chunk of the
import, and the device uploads nothing between the reservation for a chunk and its upload, and
nothing with a sequence it has not reserved. -/
def Undisturbed (s : BulkImporter) : BulkEvent i.scope.cipher.Nonce → Prop
  | .elsewhere e =>
    (∀ d, (s.server.step i.cfg e).db.device? i.scope.deviceId = some d → d.userId = i.userId) ∧
      ∀ deviceId ops, e = .upload deviceId ops → (∀ op ∈ ops, i.Apart op) ∧
        (deviceId = i.scope.deviceId →
          ¬s.reserved ∧ ∀ op ∈ ops, op.deviceSequence ≤ s.deviceSequence)
  | _ => True

/-- The rows of the chunks the server accepted, in the order of acceptance. -/
def chunkRows (s : Server) : List OperationRow :=
  (s.userHistory i.userId).filter fun row => row.objectKey ∈ i.chunkKeys

/-- What another device gets out of a row with `forEachBulkVisit`. -/
def decode (row : OperationRow) : List DecryptedEntry :=
  forEachBulkVisit i.scope.cipher row.payload row.objectId

/-- The operation of a chunk, with some sequence. -/
def IsChunk (k : ℕ) (op : OperationIn) : Prop :=
  ∃ chunk deviceSequence lamportTimestamp, ∃ h : k < i.plan.length,
    op = i.scope.operation chunk deviceSequence lamportTimestamp ∧
      i.scope.Carries k chunk i.plan[k]

/-- **The server has the first `m` chunks**, each once: their rows are decoded into their visits,
and nothing else has the id or the object of a chunk. -/
structure Imported (s : Server) (m : ℕ) : Prop where
  le : m ≤ i.plan.length
  decoded : (i.chunkRows s).map i.decode = (i.plan.take m).map chunkVisits
  ids : ∀ row ∈ s.history, ∀ k < i.plan.length, row.operationId = i.scope.operationId k →
    row.userId = i.userId ∧ k < m
  keys : ∀ row ∈ s.userHistory i.userId, ∀ k < i.plan.length,
    row.objectKey = (.historyVisit, i.scope.objectId k) → k < m
  stored : ∀ k < m, (i.userId, (ObjectType.historyVisit, i.scope.objectId k)) ∈ s.db.syncObjects

variable {i}

/-! ### A chunk that is uploaded -/

section Chunks

variable {k m : ℕ} {op : OperationIn} {s : Server}

theorem IsChunk.lt (h : i.IsChunk k op) : k < i.plan.length := h.choose_spec.choose_spec.choose_spec.choose

theorem IsChunk.isBulkHistoryImport (h : i.IsChunk k op) : op.isBulkHistoryImport = true := by
  obtain ⟨chunk, deviceSequence, lamportTimestamp, -, rfl, -⟩ := h
  rfl

theorem IsChunk.operationId (h : i.IsChunk k op) : op.operationId = i.scope.operationId k := by
  obtain ⟨chunk, deviceSequence, lamportTimestamp, _, rfl, hcarries⟩ := h
  exact hcarries.operationId

theorem IsChunk.objectKey (h : i.IsChunk k op) :
    op.objectKey = (.historyVisit, i.scope.objectId k) := by
  obtain ⟨chunk, deviceSequence, lamportTimestamp, _, rfl, hcarries⟩ := h
  exact congrArg (Prod.mk ObjectType.historyVisit) hcarries.objectId

theorem mem_chunkKeys {key : ObjectKey} :
    key ∈ i.chunkKeys ↔ ∃ k < i.plan.length, key = (.historyVisit, i.scope.objectId k) := by
  rw [chunkKeys, List.mem_map]
  constructor
  · rintro ⟨k, hk, rfl⟩
    exact ⟨k, List.mem_range.mp hk, rfl⟩
  · rintro ⟨k, hk, rfl⟩
    exact ⟨k, List.mem_range.mpr hk, rfl⟩

theorem Imported.start (settings : Uuid → Option UserSettings) (now : DateTime) :
    i.Imported (Server.start settings now) 0 where
  le := Nat.zero_le _
  decoded := by simp [chunkRows, Server.userHistory, Server.history, Server.start]
  ids := fun row hrow => absurd hrow (by simp [Server.history, Server.start])
  keys := fun row hrow => absurd hrow (by simp [Server.userHistory, Server.history, Server.start])
  stored := fun k hk => absurd hk (Nat.not_lt_zero k)

/-- **What is not of the import leaves it alone.** -/
theorem Imported.step_elsewhere (h : i.Imported s m) (e : Event)
    (hapart : ∀ deviceId ops, e = .upload deviceId ops → ∀ op ∈ ops, i.Apart op) :
    i.Imported (s.step i.cfg e) m := by
  have hstep : Server.Step i.cfg s e (s.step i.cfg e) := Server.step_spec e
  obtain ⟨new, hhistory, hnew⟩ := Server.history_step hstep
  have hnewApart : ∀ row ∈ new, ∀ k < i.plan.length, row.operationId ≠ i.scope.operationId k ∧
      row.objectKey ≠ (.historyVisit, i.scope.objectId k) := by
    intro row hrow
    obtain ⟨deviceId, ops, he, op, hop, userId, cursor, rfl⟩ := hnew row hrow
    exact hapart deviceId ops he op hop
  refine ⟨h.le, ?_, ?_, ?_, ?_⟩
  · have hrows : i.chunkRows (s.step i.cfg e) = i.chunkRows s := by
      have hnone : (new.filter fun row => row.userId = i.userId).filter
          (fun row => row.objectKey ∈ i.chunkKeys) = [] := by
        refine List.filter_eq_nil_iff.mpr fun row hrow hkey => ?_
        obtain ⟨k, hk, hkey⟩ := mem_chunkKeys.mp (of_decide_eq_true hkey)
        exact (hnewApart row (List.mem_filter.mp hrow).1 k hk).2 hkey
      rw [chunkRows, Server.userHistory, hhistory, List.filter_append, List.filter_append, hnone,
        List.append_nil, chunkRows, Server.userHistory]
    rw [hrows]
    exact h.decoded
  · intro row hrow k hk hid
    rw [hhistory] at hrow
    rcases List.mem_append.mp hrow with hrow | hrow
    · exact h.ids row hrow k hk hid
    · exact absurd hid (hnewApart row hrow k hk).1
  · intro row hrow k hk hkey
    obtain ⟨hrow, hu⟩ := Server.mem_userHistory.mp hrow
    rw [hhistory] at hrow
    rcases List.mem_append.mp hrow with hrow | hrow
    · exact h.keys row (Server.mem_userHistory.mpr ⟨hrow, hu⟩) k hk hkey
    · exact absurd hkey (hnewApart row hrow k hk).2
  · exact fun k hk => Server.syncObjects_subset_step hstep (h.stored k hk)

/-- An upload that changes neither the database nor the history. -/
theorem Imported.of_same {s' : Server} (h : i.Imported s m) (hdb : s'.db = s.db)
    (hhistory : s'.history = s.history) : i.Imported s' m := by
  have hrows : ∀ u, s'.userHistory u = s.userHistory u := fun u => by
    rw [Server.userHistory, hhistory, Server.userHistory]
  refine ⟨h.le, ?_, ?_, ?_, ?_⟩
  · rw [chunkRows, hrows]
    exact h.decoded
  · rw [hhistory]
    exact h.ids
  · rw [hrows]
    exact h.keys
  · rw [hdb]
    exact h.stored

/-- **A chunk that is next is added, or nothing is.** One that is there already is not. -/
theorem Imported.step_upload (hids : i.DistinctIds) (hchunked : Server.Chunked s)
    (h : i.Imported s m) (hop : i.IsChunk k op) (hk : k ≤ m)
    (howner : ∀ d, s.db.device? i.scope.deviceId = some d → d.userId = i.userId) :
    (s.step i.cfg (.upload i.scope.deviceId [op])).db = s.db ∧
        i.Imported (s.step i.cfg (.upload i.scope.deviceId [op])) m ∨
      k = m ∧ (s.db.device? i.scope.deviceId).isSome = true ∧
        i.Imported (s.step i.cfg (.upload i.scope.deviceId [op])) (m + 1) := by
  have hbulk := hop.isBulkHistoryImport
  have hstep : Server.Step i.cfg s (.upload i.scope.deviceId [op])
      (s.step i.cfg (.upload i.scope.deviceId [op])) := Server.step_spec _
  have hnext : Server.Chunked (s.step i.cfg (.upload i.scope.deviceId [op])) := hchunked.step _
  have hadded : (s.step i.cfg (.upload i.scope.deviceId [op])).db = s.db ∧
      (s.step i.cfg (.upload i.scope.deviceId [op])).history = s.history ∨ _ :=
    Server.history_upload_singleton hbulk
  generalize s.step i.cfg (.upload i.scope.deviceId [op]) = s' at hstep hnext hadded
  rcases hadded with ⟨hdb, hhistory⟩ | ⟨d, cursor, hd, hhistory, hnew⟩
  · exact Or.inl ⟨hdb, h.of_same hdb hhistory⟩
  rw [howner d hd] at hhistory hnew
  have heq : k = m := by
    refine le_antisymm hk (not_lt.mp fun hlt => hnew ?_)
    rw [hop.objectKey]
    exact h.stored k hlt
  subst heq
  have hlt := hop.lt
  obtain ⟨chunk, deviceSequence, lamportTimestamp, _, hchunk, hcarries⟩ := id hop
  set row := operationRow s.now ⟨i.userId, i.scope.deviceId⟩ cursor op with hrow
  have hrowKey : row.objectKey = (.historyVisit, i.scope.objectId k) := hop.objectKey
  have hrowId : row.operationId = i.scope.operationId k := hop.operationId
  refine Or.inr ⟨rfl, by rw [hd]; rfl, hlt, ?_, ?_, ?_, ?_⟩
  · have hrows : i.chunkRows s' = i.chunkRows s ++ [row] := by
      have hmem : row.objectKey ∈ i.chunkKeys := mem_chunkKeys.mpr ⟨k, hlt, hrowKey⟩
      have hu : row.userId = i.userId := rfl
      rw [chunkRows, Server.userHistory, hhistory, List.filter_append, List.filter_append,
        chunkRows, Server.userHistory]
      simp [hu, hmem]
    have hdecode : i.decode row = chunkVisits i.plan[k] := by
      rw [← hcarries.decoded, decode, hrow, hchunk]
      rfl
    rw [hrows, List.map_append, h.decoded, List.map_singleton, hdecode,
      List.take_succ_eq_append_getElem hlt, List.map_append, List.map_singleton]
  · intro row' hmem j hj hid
    rw [hhistory] at hmem
    rcases List.mem_append.mp hmem with hmem | hmem
    · obtain ⟨hu, hlt'⟩ := h.ids row' hmem j hj hid
      exact ⟨hu, by omega⟩
    · rw [List.mem_singleton.mp hmem] at hid ⊢
      have := hids.operationId k j hlt hj (hrowId.symm.trans hid)
      exact ⟨rfl, by omega⟩
  · intro row' hmem j hj hkey
    obtain ⟨hmem, hu⟩ := Server.mem_userHistory.mp hmem
    rw [hhistory] at hmem
    rcases List.mem_append.mp hmem with hmem | hmem
    · have := h.keys row' (Server.mem_userHistory.mpr ⟨hmem, hu⟩) j hj hkey
      omega
    · rw [List.mem_singleton.mp hmem] at hkey
      have := hids.objectId k j hlt hj (Prod.mk.inj (hrowKey.symm.trans hkey)).2
      omega
  · intro j hj
    rcases Nat.lt_succ_iff_lt_or_eq.mp hj with hj | rfl
    · exact Server.syncObjects_subset_step hstep (h.stored j hj)
    · rw [← hrowKey]
      refine hnext.ledger.mem row ?_ hbulk
      rw [hhistory]
      exact List.mem_append_right _ (List.mem_singleton_self _)

/-- **A good answer means the chunk is there**, if its sequence is above those of the device. -/
theorem Imported.lt_of_answer (hchunked : Server.Chunked s)
    (h : i.Imported (s.step i.cfg (.upload i.scope.deviceId [op])) m) (hop : i.IsChunk k op)
    (howner : ∀ u last, s.db.deviceState? i.scope.deviceId = some (u, last) →
      u = i.userId ∧ last < op.deviceSequence)
    (hanswer : i.answeredWell s op = true) : k < m := by
  rw [answeredWell] at hanswer
  split at hanswer
  · exact absurd hanswer Bool.false_ne_true
  rename_i out hout
  rw [Bool.or_eq_true, decide_eq_true_iff, decide_eq_true_iff] at hanswer
  obtain ⟨u, last, hstate, hcases⟩ :=
    Server.accepted_of_answer hchunked hop.isBulkHistoryImport hout hanswer
  obtain ⟨rfl, hlast⟩ := howner u last hstate
  rcases hcases with hseq | ⟨row, hrow, hid | hkey⟩
  · exact absurd hseq (not_le.mpr hlast)
  · exact (h.ids row (Server.mem_userHistory.mp hrow).1 k hop.lt (hid.trans hop.operationId)).2
  · exact h.keys row hrow k hop.lt (hkey.trans hop.objectKey)

end Chunks

end BulkImport

end Client

end HelixSync
