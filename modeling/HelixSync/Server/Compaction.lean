import HelixSync.Server.Snapshot
import HelixSync.Server.Upload

/-!
# Compaction of the operation log

`server/src/sync/compaction.rs`. A pass over one user has three parts that commit
separately:

* it reads the boundary every active device has acknowledged and decides what to do
  (`HelixSync.planCompaction`): nothing, prune up to the latest snapshot, or build a
  new snapshot;
* it builds the snapshot, recounts the live objects and drops the older snapshots, in
  one transaction (`HelixSync.commitSnapshot`);
* it deletes the rows the snapshot covers, in chunks of their own transactions
  (`HelixSync.pruneChunk`), sparing the recent deletions (`HelixSync.PrunePass`).

Anything may happen between two parts, and a pass may stop after any of them.
-/

namespace HelixSync

/-! ### The boundary -/

/-- Whether a device holds compaction back: not revoked, seen within the grace
period, and past its own grace period only if it ever acknowledged a cursor. -/
def holdsBackCompaction (cfg : Config) (now : DateTime) (db : Db) (userId : Uuid)
    (d : DeviceRow) : Bool :=
  d.userId == userId && d.revokedAt.isNone
    && decide (now - DateTime.seconds cfg.inactiveDeviceCompactionGracePeriodSecs
        < d.lastSeenAt.getD d.createdAt)
    && ((db.deviceCursors d.userId d.id).isSome
      || decide (now - DateTime.seconds cfg.neverSyncedDeviceCompactionGracePeriodSecs
          < d.createdAt))

/-- The lowest cursor acknowledged by the active devices, if there is one. -/
def acknowledged? (cfg : Config) (now : DateTime) (db : Db) (userId : Uuid) : Option ℕ :=
  ((db.devices.filter (holdsBackCompaction cfg now db userId)).map
    fun d => (db.deviceCursors d.userId d.id).getD 0).min?

/-- `ack_boundary`: everything if no device is active, and never above the highest
stored cursor. -/
def ackBoundary (cfg : Config) (now : DateTime) (db : Db) (userId : Uuid) : ℕ :=
  min ((acknowledged? cfg now db userId).getD (db.maxOpCursor userId none))
    (db.maxOpCursor userId none)

/-- `MIN_NEW_OPERATIONS_TO_COMPACT`. -/
def minNewOperationsToCompact : ℕ := 200

/-- What a pass decides to do. -/
inductive CompactionPlan where
  | nothing
  | prune (boundary : ℕ)
  | rebuild (boundary : ℕ)
  deriving DecidableEq

/-- The reads of `compact_user`, up to its decision. -/
def planCompaction (cfg : Config) (now : DateTime) (db : Db) (userId : Uuid) : CompactionPlan :=
  let boundary := ackBoundary cfg now db userId
  let latest := db.maxSnapshotCursor userId
  if boundary = 0 then .nothing
  else if 0 < latest ∧ boundary < latest + minNewOperationsToCompact then .prune latest
  else .rebuild boundary

/-! ### The snapshot transaction -/

/-- `MAX_DECOMPRESSED_SNAPSHOT_BYTES`. -/
def maxDecompressedSnapshotBytes : ℕ := 256 * 1024 * 1024

/-- The history chunks of a set of objects, which get a ledger row. -/
def bulkKeys (objects : ObjectMap) : Finset ObjectKey :=
  objects.keys.filter fun key => key.1 = .historyVisit ∧
    (objects.get key).map SnapshotObject.operationType = some .bulkImport

/-- The number of live objects of some types. -/
def countTypes (objects : ObjectMap) (types : List ObjectType) : ℕ :=
  (objects.keys.filter fun key => key.1 ∈ types).card

/-- The live objects of an account at this moment. -/
def liveObjects (db : Db) (userId : Uuid) (cutoff : Option DateTime) : ObjectMap :=
  filterTombstoned (computeObjects db userId none cutoff).2 (loadActiveTombstones db userId)

/-- The recount of `sync_stats`. -/
def recount (db : Db) (userId : Uuid) (cutoff : Option DateTime) : StatsRow where
  bookmarkCount := countTypes (liveObjects db userId cutoff) bookmarkTypes
  tabCount := countTypes (liveObjects db userId cutoff) tabTypes
  storageBytes := ((db.syncStats userId).map StatsRow.storageBytes).getD 0

/-- The objects a snapshot at a boundary stores. -/
def snapshotObjects (now : DateTime) (db : Db) (userId : Uuid) (boundary : ℕ) : ObjectMap :=
  filterTombstoned
    (computeObjects db userId (some boundary) (historyRetentionCutoff now db userId)).2
    (loadActiveTombstones db userId)

/-- The database with a new snapshot, the ledger rows of its history chunks, and the
counts recounted. -/
def insertSnapshot (now : DateTime) (db : Db) (userId : Uuid) (boundary : ℕ) : Db :=
  let objects := snapshotObjects now db userId boundary
  let stored : Db := { db with
    syncObjects := db.syncObjects ∪ (bulkKeys objects).image fun key => (userId, key)
    syncSnapshots := db.syncSnapshots ++ [⟨userId, boundary, objects⟩] }
  { stored with
    syncStats := Function.update stored.syncStats userId
      (some (recount stored userId (historyRetentionCutoff now db userId))) }

/-- `DELETE FROM sync_snapshots WHERE user_id = … AND snapshot_cursor < …`. -/
def dropOlderSnapshots (db : Db) (userId : Uuid) (boundary : ℕ) : Db :=
  { db with
    syncSnapshots := db.syncSnapshots.filter fun s =>
      ¬(s.userId = userId ∧ s.snapshotCursor < boundary) }

/-- The transaction of `compact_user` that stores a snapshot at a boundary. Nothing
if the objects are too large to be stored, in which case the transaction is rolled
back. -/
def commitSnapshot (cfg : Config) (now : DateTime) (db : Db) (userId : Uuid) (boundary : ℕ) :
    Option Db :=
  if db.syncSnapshots.any fun s => s.userId = userId ∧ s.snapshotCursor = boundary then
    some (dropOlderSnapshots db userId boundary)
  else if maxDecompressedSnapshotBytes
      < cfg.snapshotJsonLen (snapshotObjects now db userId boundary) then none
  else some (dropOlderSnapshots (insertSnapshot now db userId boundary) userId boundary)

/-! ### Pruning -/

/-- `DELETE_CHUNK_SIZE`. -/
def deleteChunkSize : ℕ := 5000

/-- `MAX_PRUNED_PER_PASS`. -/
def maxPrunedPerPass : ℕ := 50000

/-- A prune pass under way: its boundary, the rows it spares and how many it has
deleted. -/
structure PrunePass where
  userId : Uuid
  boundary : ℕ
  survivorIds : List Uuid
  totalPruned : ℕ

/-- The start of `prune_compacted_operations`: the terminal operations still inside
their retention window survive. -/
def startPrune (cfg : Config) (now : DateTime) (db : Db) (userId : Uuid) (boundary : ℕ) :
    PrunePass where
  userId := userId
  boundary := boundary
  survivorIds := ((db.userRows userId).filter fun row =>
    row.serverCursor ≤ boundary ∧ (row.operationType = .delete ∨ row.operationType = .close) ∧
      row.isTerminal = true ∧
      now - DateTime.seconds cfg.tombstoneRetentionSecs < row.createdAt).map
        OperationRow.operationId
  totalPruned := 0

/-- The rows one chunk deletes: the first of those covered, in cursor order. -/
def PrunePass.victims (pass : PrunePass) (db : Db) : List OperationRow :=
  (((db.userRows pass.userId).filter fun row =>
    row.serverCursor ≤ pass.boundary ∧ row.operationId ∉ pass.survivorIds).insertionSort
      fun a b => a.serverCursor ≤ b.serverCursor).take deleteChunkSize

/-- The credit of freed bytes to `sync_stats`. -/
def creditStorage (freed : ℕ) (old : Option StatsRow) : Option StatsRow :=
  if 0 < freed then old.map fun row => { row with storageBytes := row.storageBytes - freed }
  else old

/-- The transaction of one chunk. -/
def pruneChunk (pass : PrunePass) (db : Db) : Db :=
  let victims := pass.victims db
  { db with
    syncOperations := db.syncOperations.retain fun row =>
      decide (row.operationId ∉ victims.map OperationRow.operationId)
    syncStats := Function.update db.syncStats pass.userId
      (creditStorage (victims.map OperationRow.payloadBytes).sum (db.syncStats pass.userId)) }

/-- The pass after a chunk, unless it is over: a short chunk, or the limit of a
pass. -/
def PrunePass.next? (pass : PrunePass) (db : Db) : Option PrunePass :=
  let pruned := pass.totalPruned + (pass.victims db).length
  if (pass.victims db).length < deleteChunkSize then none
  else if maxPrunedPerPass ≤ pruned then none
  else some { pass with totalPruned := pruned }

/-! ### What the transactions do -/

section Spec

variable {cfg : Config} {now : DateTime} {db db' : Db} {userId : Uuid} {boundary : ℕ}

/-- **The snapshot transaction** keeps a snapshot that is already there or inserts one,
and drops the older ones. -/
theorem commitSnapshot_eq_some (h : commitSnapshot cfg now db userId boundary = some db') :
    (db' = dropOlderSnapshots db userId boundary ∧
      ∃ snap ∈ db.syncSnapshots, snap.userId = userId ∧ snap.snapshotCursor = boundary) ∨
    (db' = dropOlderSnapshots (insertSnapshot now db userId boundary) userId boundary ∧
      ∀ snap ∈ db.syncSnapshots, snap.userId = userId → snap.snapshotCursor ≠ boundary) := by
  unfold commitSnapshot at h
  split at h
  · rename_i hany
    obtain rfl := Option.some.inj h
    left
    simpa using hany
  · rename_i hany
    split at h
    · exact absurd h (by simp)
    · obtain rfl := Option.some.inj h
      right
      simpa using hany

/-- The snapshots of a user, as their cursors. -/
theorem maxSnapshotCursor_le_iff {n : ℕ} :
    db.maxSnapshotCursor userId ≤ n ↔
      ∀ snap ∈ db.syncSnapshots, snap.userId = userId → snap.snapshotCursor ≤ n := by
  unfold Db.maxSnapshotCursor
  rcases hmax : ((db.syncSnapshots.filter fun s => s.userId = userId).map
      SnapshotRow.snapshotCursor).max? with _ | m
  · rw [hmax]
    rw [List.max?_eq_none_iff, List.map_eq_nil_iff, List.filter_eq_nil_iff] at hmax
    simp only [Option.getD_none, Nat.zero_le, true_iff]
    intro snap hsnap hu
    exact absurd hu (by simpa using hmax snap hsnap)
  · rw [hmax]
    obtain ⟨hmem, hle⟩ := List.max?_eq_some_iff.mp hmax
    simp only [List.mem_map, List.mem_filter, decide_eq_true_eq] at hmem
    obtain ⟨top, ⟨htop, hu⟩, rfl⟩ := hmem
    rw [Option.getD_some]
    constructor
    · intro hn snap hsnap hsu
      refine le_trans (hle _ (List.mem_map_of_mem (List.mem_filter.mpr ⟨hsnap, ?_⟩))) hn
      simpa using hsu
    · intro hall
      exact hall top htop hu

theorem le_maxSnapshotCursor {snap : SnapshotRow} (h : snap ∈ db.syncSnapshots)
    (hu : snap.userId = userId) : snap.snapshotCursor ≤ db.maxSnapshotCursor userId :=
  maxSnapshotCursor_le_iff.mp (le_refl _) snap h hu

/-- A positive maximum is attained. -/
theorem exists_snapshot_of_pos (h : 0 < db.maxSnapshotCursor userId) :
    ∃ snap ∈ db.syncSnapshots, snap.userId = userId ∧
      snap.snapshotCursor = db.maxSnapshotCursor userId := by
  by_contra hnone
  push Not at hnone
  have hle : db.maxSnapshotCursor userId ≤ db.maxSnapshotCursor userId - 1 :=
    maxSnapshotCursor_le_iff.mpr fun snap hsnap hu => Nat.le_sub_one_of_lt
      (lt_of_le_of_ne (le_maxSnapshotCursor hsnap hu) (hnone snap hsnap hu))
  omega

theorem mem_dropOlderSnapshots {snap : SnapshotRow} :
    snap ∈ (dropOlderSnapshots db userId boundary).syncSnapshots ↔
      snap ∈ db.syncSnapshots ∧ (snap.userId = userId → boundary ≤ snap.snapshotCursor) := by
  simp [dropOlderSnapshots, imp_iff_not_or]

/-- Dropping the snapshots below one that is there does not change the maximum. -/
theorem maxSnapshotCursor_dropOlderSnapshots {snap : SnapshotRow} (h : snap ∈ db.syncSnapshots)
    (hu : snap.userId = userId) (hcursor : snap.snapshotCursor = boundary) (userId' : Uuid) :
    (dropOlderSnapshots db userId boundary).maxSnapshotCursor userId' =
      db.maxSnapshotCursor userId' := by
  refine le_antisymm (maxSnapshotCursor_le_iff.mpr fun s hs hsu =>
    le_maxSnapshotCursor (mem_dropOlderSnapshots.mp hs).1 hsu)
    (maxSnapshotCursor_le_iff.mpr fun s hs hsu => ?_)
  by_cases hkept : s.userId = userId → boundary ≤ s.snapshotCursor
  · exact le_maxSnapshotCursor (mem_dropOlderSnapshots.mpr ⟨hs, hkept⟩) hsu
  · -- a dropped snapshot lies below the one at the boundary
    push Not at hkept
    have hmem : snap ∈ (dropOlderSnapshots db userId boundary).syncSnapshots :=
      mem_dropOlderSnapshots.mpr ⟨h, fun _ => ge_of_eq hcursor⟩
    calc s.snapshotCursor ≤ boundary := le_of_lt hkept.2
      _ = snap.snapshotCursor := hcursor.symm
      _ ≤ _ := le_maxSnapshotCursor hmem (by rw [hu, ← hkept.1, hsu])

theorem maxSnapshotCursor_insertSnapshot (userId' : Uuid) :
    (insertSnapshot now db userId boundary).maxSnapshotCursor userId' =
      if userId' = userId then max (db.maxSnapshotCursor userId') boundary
      else db.maxSnapshotCursor userId' := by
  have hmem : ∀ snap : SnapshotRow,
      snap ∈ (insertSnapshot now db userId boundary).syncSnapshots ↔
        snap ∈ db.syncSnapshots ∨ snap = ⟨userId, boundary, snapshotObjects now db userId boundary⟩ := by
    intro snap
    simp [insertSnapshot]
  have hold : db.maxSnapshotCursor userId' ≤
      (insertSnapshot now db userId boundary).maxSnapshotCursor userId' :=
    maxSnapshotCursor_le_iff.mpr fun snap hsnap hu =>
      le_maxSnapshotCursor ((hmem snap).mpr (Or.inl hsnap)) hu
  split
  · rename_i hu
    refine le_antisymm (maxSnapshotCursor_le_iff.mpr fun snap hsnap hsu => ?_) (max_le hold ?_)
    · rcases (hmem snap).mp hsnap with hsnap | rfl
      · exact le_trans (le_maxSnapshotCursor hsnap hsu) (le_max_left _ _)
      · exact le_max_right _ _
    · exact le_maxSnapshotCursor ((hmem _).mpr (Or.inr rfl)) hu.symm
  · rename_i hu
    refine le_antisymm (maxSnapshotCursor_le_iff.mpr fun snap hsnap hsu => ?_) hold
    rcases (hmem snap).mp hsnap with hsnap | rfl
    · exact le_maxSnapshotCursor hsnap hsu
    · exact absurd hsu.symm hu

/-- **The latest snapshot** after the transaction: the boundary, unless a later one was
there. -/
theorem maxSnapshotCursor_commitSnapshot
    (h : commitSnapshot cfg now db userId boundary = some db') (userId' : Uuid) :
    db'.maxSnapshotCursor userId' =
      if userId' = userId then max (db.maxSnapshotCursor userId') boundary
      else db.maxSnapshotCursor userId' := by
  rcases commitSnapshot_eq_some h with ⟨rfl, snap, hsnap, hu, hcursor⟩ | ⟨rfl, -⟩
  · rw [maxSnapshotCursor_dropOlderSnapshots hsnap hu hcursor]
    split
    · rename_i hu'
      have hle : boundary ≤ db.maxSnapshotCursor userId' := by
        rw [← hcursor]
        exact le_maxSnapshotCursor hsnap (hu.trans hu'.symm)
      rw [max_eq_left hle]
    · rfl
  · have hmem : (⟨userId, boundary, snapshotObjects now db userId boundary⟩ : SnapshotRow) ∈
        (insertSnapshot now db userId boundary).syncSnapshots := by
      simp [insertSnapshot]
    rw [maxSnapshotCursor_dropOlderSnapshots hmem rfl rfl, maxSnapshotCursor_insertSnapshot]

/-- What the snapshot transaction does not write. -/
theorem commitSnapshot_frame (h : commitSnapshot cfg now db userId boundary = some db') :
    db'.syncOperations = db.syncOperations ∧ db'.cursorAllocator = db.cursorAllocator ∧
      db'.devices = db.devices ∧ db'.deviceCursors = db.deviceCursors ∧
      db'.tombstones = db.tombstones ∧ db'.historyVisitHours = db.historyVisitHours ∧
      db'.userSettings = db.userSettings := by
  rcases commitSnapshot_eq_some h with ⟨rfl, -⟩ | ⟨rfl, -⟩ <;> exact ⟨rfl, rfl, rfl, rfl, rfl, rfl, rfl⟩

/-- A stored snapshot after the transaction was there before or is the new one. -/
theorem mem_syncSnapshots_commitSnapshot
    (h : commitSnapshot cfg now db userId boundary = some db') {snap : SnapshotRow}
    (hsnap : snap ∈ db'.syncSnapshots) :
    snap ∈ db.syncSnapshots ∨ snap = ⟨userId, boundary, snapshotObjects now db userId boundary⟩ := by
  rcases commitSnapshot_eq_some h with ⟨rfl, -⟩ | ⟨rfl, -⟩
  · exact Or.inl (mem_dropOlderSnapshots.mp hsnap).1
  · have hmem := (mem_dropOlderSnapshots.mp hsnap).1
    simpa [insertSnapshot] using hmem

theorem PrunePass.next?_eq_some {pass pass' : PrunePass} (h : pass.next? db = some pass') :
    pass'.userId = pass.userId ∧ pass'.boundary = pass.boundary ∧
      pass'.survivorIds = pass.survivorIds := by
  unfold PrunePass.next? at h
  dsimp only at h
  split_ifs at h
  obtain rfl := Option.some.inj h
  exact ⟨rfl, rfl, rfl⟩

/-- What a prune chunk selects. -/
theorem PrunePass.mem_victims {pass : PrunePass} {row : OperationRow} (h : row ∈ pass.victims db) :
    row ∈ db.syncOperations.rows ∧ row.userId = pass.userId ∧
      row.serverCursor ≤ pass.boundary := by
  have hmem := List.mem_of_mem_take h
  rw [(List.perm_insertionSort _ _).mem_iff, List.mem_filter] at hmem
  obtain ⟨huser, hsel⟩ := hmem
  simp only [Db.userRows, List.mem_filter, decide_eq_true_eq] at huser hsel
  exact ⟨huser.1, huser.2, hsel.1⟩

/-- The rows a prune chunk leaves: operation ids are unique in the log, so it deletes
the rows it selected and no others. -/
theorem mem_pruneChunk_of_not_mem_victims {pass : PrunePass} {row : OperationRow}
    (h : row ∈ db.syncOperations.rows) (hkeep : row ∉ pass.victims db) :
    row ∈ (pruneChunk pass db).syncOperations.rows := by
  simp only [pruneChunk, OperationTable.retain_rows, List.mem_filter, decide_eq_true_eq]
  refine ⟨h, fun hid => ?_⟩
  obtain ⟨victim, hvictim, hid⟩ := List.mem_map.mp hid
  have hne : victim ≠ row := by
    rintro rfl
    exact hkeep hvictim
  have hsymm : Std.Symm OperationRow.Distinct :=
    ⟨fun _ _ hd => ⟨hd.1.symm, hd.2.1.symm, hd.2.2.symm⟩⟩
  exact (db.syncOperations.unique.forall (PrunePass.mem_victims hvictim).1 h hne).1 hid

theorem mem_pruneChunk {pass : PrunePass} {row : OperationRow}
    (h : row ∈ db.syncOperations.rows)
    (hkeep : row.userId = pass.userId → pass.boundary < row.serverCursor) :
    row ∈ (pruneChunk pass db).syncOperations.rows := by
  refine mem_pruneChunk_of_not_mem_victims h fun hvictim => ?_
  obtain ⟨-, hu, hle⟩ := PrunePass.mem_victims hvictim
  exact absurd hle (not_le.mpr (hkeep hu))

end Spec

end HelixSync
