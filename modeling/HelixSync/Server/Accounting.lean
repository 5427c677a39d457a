import HelixSync.Server.OneByOne
import HelixSync.Server.Steps

/-!
# Stored bytes

`sync_stats.storage_bytes` is charged with the size of every payload an upload writes, and
credited with the sizes of the rows a prune chunk deletes, each in the transaction that does it.
So it is always the sum of the sizes of the rows that are there
(`HelixSync.Server.storage_exact`): the clamp at zero never cuts anything off, and the quota is
checked against what is really stored.
-/

namespace HelixSync

/-- The bytes of the rows of a user. -/
def Db.rowBytes (db : Db) (userId : Uuid) : ℕ :=
  ((db.userRows userId).map OperationRow.payloadBytes).sum

theorem storageBytes_creditStorage (freed : ℕ) (old : Option StatsRow) :
    ((creditStorage freed old).map StatsRow.storageBytes).getD 0 =
      (old.map StatsRow.storageBytes).getD 0 - freed := by
  unfold creditStorage
  split
  · rcases old with _ | row <;> simp
  · rename_i hzero
    rw [show freed = 0 by omega, Nat.sub_zero]

/-! ### What one transaction does -/

section Transactions

variable {now : DateTime} {db db' : Db}

/-- An upload charges what it writes. -/
theorem storageBytes_writeBatch {device : AuthenticatedDevice} {accepted : List OperationIn}
    {lastSeq : ℤ} (h : writeBatch now device accepted lastSeq db = some db') (userId : Uuid) :
    db'.storageBytes userId + db.rowBytes userId = db.storageBytes userId + db'.rowBytes userId := by
  rw [Db.rowBytes, Db.rowBytes, userRows_writeBatch h, Db.storageBytes, Db.storageBytes]
  by_cases hu : userId = device.userId
  · subst hu
    rw [if_pos rfl, syncStats_writeBatch h, storageBytes_addStats, List.map_append, List.sum_append,
      map_payloadBytes_batchRows]
    omega
  · rw [if_neg hu, (tombstones_writeBatch_of_ne h hu).2.1, List.append_nil]

/-- A snapshot moves no bytes. -/
theorem storageBytes_commitSnapshot {cfg : Config} {userId' : Uuid} {boundary : ℕ}
    (h : commitSnapshot cfg now db userId' boundary = some db') (userId : Uuid) :
    db'.storageBytes userId = db.storageBytes userId ∧ db'.rowBytes userId = db.rowBytes userId := by
  have hrows : db'.rowBytes userId = db.rowBytes userId := by
    rw [Db.rowBytes, Db.rowBytes, Db.userRows, Db.userRows, (commitSnapshot_frame h).1]
  refine ⟨?_, hrows⟩
  rcases commitSnapshot_eq_some h with ⟨rfl, -⟩ | ⟨rfl, -⟩
  · rfl
  · rw [Db.storageBytes, Db.storageBytes, dropOlderSnapshots, insertSnapshot]
    dsimp only
    by_cases hu : userId = userId'
    · subst hu
      rw [Function.update_self, Option.map_some, Option.getD_some]
      rfl
    · rw [Function.update_of_ne hu]

/-- The rows a chunk deletes and those it leaves are the rows there were. -/
theorem victims_append_userRows_perm (pass : PrunePass) :
    (pass.victims db ++ (pruneChunk pass db).userRows pass.userId).Perm (db.userRows pass.userId) := by
  have hnodupRows : (db.userRows pass.userId).Nodup :=
    (db.syncOperations.unique.imp fun hd heq => hd.1 (by rw [heq])).filter _
  have hnodup : (pass.victims db).Nodup := by
    refine List.Nodup.sublist (List.take_sublist _ _) ?_
    exact (List.perm_insertionSort _ _).nodup_iff.mpr (hnodupRows.filter _)
  have hleft : (pruneChunk pass db).userRows pass.userId =
      (db.userRows pass.userId).filter fun row =>
        !decide (row.operationId ∈ (pass.victims db).map OperationRow.operationId) := by
    rw [Db.userRows, Db.userRows, pruneChunk]
    dsimp only
    rw [OperationTable.retain_rows, List.filter_filter, List.filter_filter]
    refine List.filter_congr fun row _ => ?_
    rw [Bool.and_comm, decide_not]
  have hdeleted : ((db.userRows pass.userId).filter fun row =>
      decide (row.operationId ∈ (pass.victims db).map OperationRow.operationId)).Perm
        (pass.victims db) := by
    rw [List.perm_ext_iff_of_nodup (hnodupRows.filter _) hnodup]
    intro row
    rw [List.mem_filter, decide_eq_true_eq]
    constructor
    · rintro ⟨hrow, hid⟩
      -- operation ids are unique, so it is the row that was selected
      by_contra hnot
      have hkept := mem_pruneChunk_of_not_mem_victims (List.mem_filter.mp hrow).1 hnot
      simp only [pruneChunk, OperationTable.retain_rows, List.mem_filter, decide_eq_true_eq] at hkept
      exact hkept.2 hid
    · intro hrow
      obtain ⟨hmem, hu, -⟩ := PrunePass.mem_victims hrow
      exact ⟨List.mem_filter.mpr ⟨hmem, by simpa using hu⟩, List.mem_map_of_mem hrow⟩
  rw [hleft]
  exact (hdeleted.symm.append_right _).trans (List.filter_append_perm _ _)

/-- A prune chunk frees what it deletes, -/
theorem rowBytes_pruneChunk (pass : PrunePass) :
    ((pass.victims db).map OperationRow.payloadBytes).sum +
      (pruneChunk pass db).rowBytes pass.userId = db.rowBytes pass.userId := by
  rw [Db.rowBytes, Db.rowBytes, ← List.sum_append, ← List.map_append]
  exact ((victims_append_userRows_perm pass).map _).sum_eq

/-- and no bytes of another user. -/
theorem rowBytes_pruneChunk_of_ne (pass : PrunePass) {userId : Uuid} (hu : userId ≠ pass.userId) :
    (pruneChunk pass db).rowBytes userId = db.rowBytes userId := by
  have hrows : (pruneChunk pass db).userRows userId = db.userRows userId := by
    rw [Db.userRows, Db.userRows, pruneChunk]
    dsimp only
    rw [OperationTable.retain_rows, List.filter_filter]
    refine List.filter_congr fun row hrow => ?_
    by_cases hrowu : row.userId = userId
    · have hnot : row ∉ pass.victims db := fun hv =>
        hu (hrowu.symm.trans (PrunePass.mem_victims hv).2.1)
      have hkept := mem_pruneChunk_of_not_mem_victims hrow hnot
      simp only [pruneChunk, OperationTable.retain_rows, List.mem_filter] at hkept
      simpa [hrowu] using hkept.2
    · simp [hrowu]
  rw [Db.rowBytes, Db.rowBytes, hrows]

theorem storageBytes_pruneChunk (pass : PrunePass) (userId : Uuid) :
    (pruneChunk pass db).storageBytes userId = if userId = pass.userId then
      db.storageBytes userId - ((pass.victims db).map OperationRow.payloadBytes).sum
    else db.storageBytes userId := by
  rw [Db.storageBytes, Db.storageBytes, pruneChunk]
  dsimp only
  split
  · rename_i hu
    rw [hu, Function.update_self, storageBytes_creditStorage]
  · rename_i hu
    rw [Function.update_of_ne hu]

end Transactions

/-! ### Every run -/

namespace Server

variable {cfg : Config} {s : Server}

/-- **Every event keeps the account.** -/
theorem storageBytes_step {e : Event} {s' : Server} (hstep : Step cfg s e s')
    (h : ∀ userId, s.db.storageBytes userId = s.db.rowBytes userId) (userId : Uuid) :
    s'.db.storageBytes userId = s'.db.rowBytes userId := by
  cases hstep with
  | quiet hq =>
    have hsame := h userId
    rwa [Db.storageBytes, Db.rowBytes, Db.userRows, ← hq.data.syncStats,
      ← hq.data.syncOperations] at hsame
  | idle => exact h userId
  | wrote _ _ _ hwrite =>
    have hcharge := storageBytes_writeBatch hwrite userId
    rw [h userId] at hcharge
    dsimp only
    omega
  | committed _ hcommit =>
    obtain ⟨hstorage, hrows⟩ := storageBytes_commitSnapshot hcommit userId
    dsimp only
    rw [hstorage, hrows, h userId]
  | @pruned _ pass _ =>
    dsimp only
    rw [storageBytes_pruneChunk]
    split
    · rename_i hu
      subst hu
      have hfreed := @rowBytes_pruneChunk s.db pass
      rw [h pass.userId]
      omega
    · rename_i hu
      rw [rowBytes_pruneChunk_of_ne pass hu, h userId]

/-- **Stored bytes are exact.** In every state the server reaches, the stored bytes of a user are
the bytes of the user's rows; the credit of a prune chunk of any pass is covered by them, so it is
not clamped; and the quota is checked against them. -/
theorem storage_exact (cfg : Config) (settings : Uuid → Option UserSettings) (now : DateTime)
    (events : List Event) (userId : Uuid) :
    ((start settings now).run cfg events).db.storageBytes userId =
        ((start settings now).run cfg events).db.rowBytes userId ∧
      (∀ pass : PrunePass,
        ((pass.victims ((start settings now).run cfg events).db).map
            OperationRow.payloadBytes).sum ≤
          ((start settings now).run cfg events).db.storageBytes pass.userId) ∧
      (((start settings now).run cfg events).db.storageQuotaExceeded cfg userId = true ↔
        cfg.maxAccountStorageBytes ≤
          (((start settings now).run cfg events).db.rowBytes userId : ℤ)) := by
  have hexact : ∀ userId, ((start settings now).run cfg events).db.storageBytes userId =
      ((start settings now).run cfg events).db.rowBytes userId :=
    Runs.invariant (I := fun s : Server => ∀ userId, s.db.storageBytes userId = s.db.rowBytes userId)
      (fun _ e h => storageBytes_step (step_spec e) h) (fun _ => rfl) events
  refine ⟨hexact userId, fun pass => ?_, ?_⟩
  · rw [hexact, ← rowBytes_pruneChunk pass]
    exact Nat.le_add_right _ _
  · rw [Db.storageQuotaExceeded, decide_eq_true_eq, hexact]

end Server

end HelixSync
