import HelixSync.Lib.Runs
import HelixSync.Server.Paging
import HelixSync.Server.UploadSpec

/-!
# Cursor allocation under concurrency

Uploads of different devices run at the same time. Each is a transaction: it validates
its batch, reserves a block of cursors by updating the user's allocator row, writes its
rows and commits, or is rolled back at any point. Nothing it wrote is seen by anyone
before it commits.

The one thing that orders the transactions of a user is the lock of the allocator row,
held from the reservation to the end of the transaction: a second reservation waits, so
it is computed from what the first one committed (`HelixSync.Uploads.Allocated`). The log
of a user is therefore what the committed transactions accepted, in the order they
committed, at the cursors `1, …, n`, with `n` the allocator
(`HelixSync.Uploads.cursors_and_paging`), and a rolled-back block is handed out again.
-/

namespace HelixSync

/-- An upload transaction under way: what it accepted, and the end of its block once it
holds the allocator row. -/
structure UploadTx where
  now : DateTime
  device : AuthenticatedDevice
  accepted : List OperationIn
  lastSeq : ℤ
  block : Option ℕ

/-- Whether a transaction holds the allocator row of a user. -/
def UploadTx.holds (tx : UploadTx) (userId : Uuid) : Bool :=
  tx.block.isSome && tx.device.userId == userId

/-- The committed database, which is what every reader sees, the transactions under way,
and those that have committed, in that order. -/
structure Uploads where
  db : Db
  txs : List UploadTx
  committed : List UploadTx

/-- The steps of the transactions. An index selects one under way. -/
inductive UploadStep where
  /-- A transaction validates its batch. -/
  | validate (now : DateTime) (deviceId : Uuid) (ops : List OperationIn)
  /-- It reserves its block, or goes on waiting for the allocator row. -/
  | reserve (index : ℕ)
  /-- It writes its rows and commits. -/
  | commit (index : ℕ)
  | rollback (index : ℕ)

namespace Uploads

/-- No data: devices and settings. -/
def start (devices : List DeviceRow) (settings : Uuid → Option UserSettings) : Uploads where
  db := { Db.empty with devices := devices, userSettings := settings }
  txs := []
  committed := []

/-- The start of a transaction. A batch of which nothing is accepted ends here. -/
def validate (cfg : Config) (s : Uploads) (now : DateTime) (deviceId : Uuid)
    (ops : List OperationIn) : Uploads :=
  match s.db.device? deviceId with
  | none => s
  | some d =>
    let device : AuthenticatedDevice := ⟨d.userId, deviceId⟩
    let validated := validateBatch cfg now s.db device d ops
    if (acceptedOps validated.1).isEmpty then s
    else { s with
      txs := s.txs ++ [⟨now, device, acceptedOps validated.1, validated.2.lastSeq, none⟩] }

/-- The reservation. -/
def reserve (s : Uploads) (index : ℕ) : Uploads :=
  match s.txs[index]? with
  | none => s
  | some tx =>
    if tx.block.isSome || s.txs.any fun other => other.holds tx.device.userId then s
    else { s with
      txs := s.txs.eraseIdx index ++
        [{ tx with block := some (reserveBlock s.db tx.device.userId tx.accepted.length) }] }

/-- The commit. A unique violation, or an operation that cannot be stored, rolls the transaction
back. -/
def commit (s : Uploads) (index : ℕ) : Uploads :=
  match s.txs[index]? with
  | none => s
  | some tx =>
    match tx.block with
    | none => s
    | some endCursor =>
      match writeBlock tx.now tx.device tx.accepted tx.lastSeq endCursor s.db with
      | none => { s with txs := s.txs.eraseIdx index }
      | some db =>
        { db := db, txs := s.txs.eraseIdx index, committed := s.committed ++ [tx] }

/-- One step. -/
def step (cfg : Config) (s : Uploads) : UploadStep → Uploads
  | .validate now deviceId ops => s.validate cfg now deviceId ops
  | .reserve index => s.reserve index
  | .commit index => s.commit index
  | .rollback index => { s with txs := s.txs.eraseIdx index }

/-- The state after a list of steps. -/
abbrev run (cfg : Config) (s : Uploads) (steps : List UploadStep) : Uploads :=
  Runs.run (step cfg) s steps

/-! ### The rows of the committed uploads -/

/-- The committed transactions of a user. -/
def committedOf (s : Uploads) (userId : Uuid) : List UploadTx :=
  s.committed.filter fun tx => tx.device.userId = userId

/-- The rows of transactions that follow each other, with consecutive cursors. -/
def txRows : ℕ → List UploadTx → List OperationRow
  | _, [] => []
  | cursor, tx :: txs =>
    batchRows tx.now tx.device cursor tx.accepted ++ txRows (cursor + tx.accepted.length) txs

theorem txRows_append (cursor : ℕ) (txs : List UploadTx) (tx : UploadTx) :
    txRows cursor (txs ++ [tx]) = txRows cursor txs ++
      batchRows tx.now tx.device (cursor + (txRows cursor txs).length) tx.accepted := by
  induction txs generalizing cursor with
  | nil => simp [txRows]
  | cons first txs ih =>
    rw [List.cons_append, txRows, ih, txRows, List.append_assoc, List.length_append,
      length_batchRows, ← Nat.add_assoc]

/-! ### The invariant -/

/-- The log of every user is what its committed transactions accepted, at the cursors handed
out; the payloads are within their caps; a block is the one after the committed cursors, and
a user's allocator row is held by one transaction at most. -/
structure Allocated (s : Uploads) : Prop where
  unpruned : ∀ userId, Unpruned s.db userId
  rows : ∀ userId, s.db.userRows userId = txRows 1 (s.committedOf userId)
  sizes : ∀ tx ∈ s.txs, ∀ op ∈ tx.accepted, op.payload.text.length ≤ maxBulkHistoryPayloadBytes
  blocks : ∀ tx ∈ s.txs, ∀ endCursor ∈ tx.block,
    endCursor = s.db.currentCursor tx.device.userId + tx.accepted.length
  locked : s.txs.Pairwise fun a b => a.block.isSome = true → b.block.isSome = true →
    a.device.userId ≠ b.device.userId

variable {cfg : Config} {s : Uploads}

namespace Allocated

theorem start (devices : List DeviceRow) (settings : Uuid → Option UserSettings) :
    Allocated (Uploads.start devices settings) where
  unpruned := fun _ => ⟨rfl, fun _ h => absurd h (by simp [Uploads.start, Db.empty, Db.userRows]),
    fun _ h => absurd h (by simp [Uploads.start, Db.empty])⟩
  rows := fun _ => rfl
  sizes := fun _ h => absurd h (by simp [Uploads.start])
  blocks := fun _ h => absurd h (by simp [Uploads.start])
  locked := List.Pairwise.nil

theorem rollback (h : Allocated s) (index : ℕ) :
    Allocated { s with txs := s.txs.eraseIdx index } where
  unpruned := h.unpruned
  rows := h.rows
  sizes := fun tx htx => h.sizes tx ((List.eraseIdx_sublist _ _).mem htx)
  blocks := fun tx htx => h.blocks tx ((List.eraseIdx_sublist _ _).mem htx)
  locked := h.locked.sublist (List.eraseIdx_sublist _ _)

theorem validate (h : Allocated s) (now : DateTime) (deviceId : Uuid) (ops : List OperationIn) :
    Allocated (s.validate cfg now deviceId ops) := by
  unfold Uploads.validate
  split
  · exact h
  · rename_i d hd
    dsimp only
    split
    · exact h
    · refine ⟨h.unpruned, h.rows, fun tx htx => ?_, fun tx htx => ?_, ?_⟩
      · rcases List.mem_append.mp htx with htx | htx
        · exact h.sizes tx htx
        · rw [List.mem_singleton.mp htx]
          intro op hop
          obtain ⟨st', hadm, -, -⟩ := admits_of_mem_accepts hop
          exact hadm.shape.payload_le
      · rcases List.mem_append.mp htx with htx | htx
        · exact h.blocks tx htx
        · rw [List.mem_singleton.mp htx]
          simp
      · rw [List.pairwise_append]
        refine ⟨h.locked, List.pairwise_singleton _ _, fun a _ b hb _ hblock => ?_⟩
        rw [List.mem_singleton.mp hb] at hblock
        exact absurd hblock (by simp)

theorem reserve (h : Allocated s) (index : ℕ) : Allocated (s.reserve index) := by
  unfold Uploads.reserve
  split
  · exact h
  · rename_i tx hindex
    split
    · exact h
    · rename_i hfree
      simp only [Bool.or_eq_true, List.any_eq_true, not_or, not_exists, not_and] at hfree
      have hrest := h.rollback index
      refine ⟨h.unpruned, h.rows, fun t ht => ?_, fun t ht => ?_, ?_⟩
      · rcases List.mem_append.mp ht with ht | ht
        · exact hrest.sizes t ht
        · rw [List.mem_singleton.mp ht]
          exact h.sizes tx (List.mem_of_getElem? hindex)
      · rcases List.mem_append.mp ht with ht | ht
        · exact hrest.blocks t ht
        · rw [List.mem_singleton.mp ht]
          intro endCursor hend
          exact (Option.some.inj hend).symm
      · rw [List.pairwise_append]
        refine ⟨hrest.locked, List.pairwise_singleton _ _, fun a ha b hb hablock _ hu => ?_⟩
        -- no one holds the row, so no earlier block is of this user
        rw [List.mem_singleton.mp hb] at hu
        refine hfree.2 a ((List.eraseIdx_sublist _ _).mem ha) ?_
        simp only [UploadTx.holds, Bool.and_eq_true, beq_iff_eq]
        exact ⟨hablock, hu⟩

/-- The writes of a block that is the next one. -/
theorem unpruned_writeBatch {now : DateTime} {device : AuthenticatedDevice}
    {accepted : List OperationIn} {lastSeq : ℤ} {db db' : Db}
    (h : ∀ userId, Unpruned db userId)
    (hsizes : ∀ op ∈ accepted, op.payload.text.length ≤ maxBulkHistoryPayloadBytes)
    (hwrite : writeBatch now device accepted lastSeq db = some db') (userId : Uuid) :
    Unpruned db' userId := by
  have hsnap : db'.syncSnapshots = db.syncSnapshots := by
    obtain ⟨table, -, rfl⟩ := (writeBatch_eq_some_iff.mp hwrite).2
    rfl
  refine ⟨?_, fun row hrow => ?_, by rw [hsnap]; exact (h userId).snapshots⟩
  · rw [userRows_writeBatch hwrite, List.map_append, (h userId).cursors]
    exact range_append_writeBatch hwrite userId
  · rw [userRows_writeBatch hwrite] at hrow
    rcases List.mem_append.mp hrow with hrow | hrow
    · exact (h userId).sizes row hrow
    · split at hrow
      · obtain ⟨op, hop, cursor, -, -, rfl⟩ := exists_of_mem_batchRows hrow
        exact hsizes op hop
      · exact absurd hrow (by simp)

/-- The rows of a transaction that commits follow those of its user. -/
theorem rows_writeBatch (h : Allocated s) {tx : UploadTx} {db' : Db}
    (hwrite : writeBatch tx.now tx.device tx.accepted tx.lastSeq s.db = some db') (userId : Uuid) :
    db'.userRows userId =
      txRows 1 ((s.committed ++ [tx]).filter fun tx => tx.device.userId = userId) := by
  rw [userRows_writeBatch hwrite, List.filter_append, h.rows]
  by_cases hu : tx.device.userId = userId
  · have hlength : (txRows 1 (s.committedOf userId)).length = s.db.currentCursor userId := by
      rw [← h.rows, ← @List.length_map _ _ _ OperationRow.serverCursor, (h.unpruned userId).cursors,
        List.length_range']
    rw [if_pos hu.symm, List.filter_cons_of_pos (by simpa using hu), List.filter_nil, txRows_append, hu,
      ← committedOf, hlength, Nat.add_comm]
  · rw [if_neg (Ne.symm hu), List.filter_cons_of_neg (by simpa using hu), List.filter_nil,
      List.append_nil, List.append_nil, committedOf]

theorem commit (h : Allocated s) (index : ℕ) : Allocated (s.commit index) := by
  unfold Uploads.commit
  split
  · exact h
  · rename_i tx hindex
    have htx : tx ∈ s.txs := List.mem_of_getElem? hindex
    split
    · exact h
    · rename_i endCursor hblock
      split
      · exact h.rollback index
      · rename_i db' hwrite
        have hend := h.blocks tx htx endCursor hblock
        rw [hend] at hwrite
        change writeBatch tx.now tx.device tx.accepted tx.lastSeq s.db = some db' at hwrite
        have hrest := h.rollback index
        refine ⟨unpruned_writeBatch h.unpruned (h.sizes tx htx) hwrite, h.rows_writeBatch hwrite,
          hrest.sizes, fun t ht e he => ?_, hrest.locked⟩
        -- the other blocks are of other users, whose allocators did not move
        have hperm : s.txs.Perm (tx :: s.txs.eraseIdx index) := by
          obtain ⟨hlt, hget⟩ := List.getElem?_eq_some_iff.mp hindex
          rw [← hget]
          exact (List.getElem_cons_eraseIdx_perm hlt).symm
        have hpair := (hperm.pairwise_iff fun hab hb ha hu => hab ha hb hu.symm).mp h.locked
        have hne : tx.device.userId ≠ t.device.userId :=
          (List.pairwise_cons.mp hpair).1 t ht (by rw [hblock]; rfl)
            (Option.isSome_iff_exists.mpr ⟨e, he⟩)
        rw [hrest.blocks t ht e he, currentCursor_writeBatch hwrite, if_neg hne.symm]

theorem step (h : Allocated s) (e : UploadStep) : Allocated (s.step cfg e) := by
  cases e with
  | validate now deviceId ops => exact h.validate now deviceId ops
  | reserve index => exact h.reserve index
  | commit index => exact h.commit index
  | rollback index => exact h.rollback index

theorem run (devices : List DeviceRow) (settings : Uuid → Option UserSettings)
    (steps : List UploadStep) : Allocated (Uploads.run cfg (Uploads.start devices settings) steps) :=
  Runs.invariant (fun _ e h => h.step e) (Allocated.start devices settings) steps

end Allocated

end Uploads

end HelixSync
