import HelixSync.Server.Steps

/-!
# What the log retains

The boundary of compaction is a minimum over a changing set of devices, so it moves
down as well as up; the snapshot, its predecessors and the rows it covers are written
and deleted by transactions that may stop anywhere. What ties them together is one
number, the cursor of the user's latest snapshot: it never goes down, and no row above
it is ever deleted (`HelixSync.Server.Retained`).

A prune pass is therefore harmless whenever it runs: the boundary it was started with
was at or below the latest snapshot then, and the latest snapshot has only moved up.
A download whose cursor passes the floor check misses nothing for the same reason, the
floor being at least the latest snapshot.
-/

namespace HelixSync

namespace Server

variable {cfg : Config} {s s' : Server} {e : Event}

/-- The rows above the latest snapshot are in the log, and no prune pass under way
reaches above it. -/
structure Retained (s : Server) : Prop where
  kept : ∀ row ∈ s.history, s.db.maxSnapshotCursor row.userId < row.serverCursor →
    row ∈ s.db.syncOperations.rows
  passes : ∀ pass ∈ s.prunes, pass.boundary ≤ s.db.maxSnapshotCursor pass.userId

theorem maxSnapshotCursor_congr {db db' : Db} (h : db'.syncSnapshots = db.syncSnapshots)
    (userId : Uuid) : db'.maxSnapshotCursor userId = db.maxSnapshotCursor userId := by
  rw [Db.maxSnapshotCursor, h, Db.maxSnapshotCursor]

/-- **No event moves the latest snapshot down.** -/
theorem maxSnapshotCursor_le_step (hstep : Step cfg s e s') (userId : Uuid) :
    s.db.maxSnapshotCursor userId ≤ s'.db.maxSnapshotCursor userId := by
  cases hstep with
  | quiet hq => exact le_of_eq (maxSnapshotCursor_congr hq.data.syncSnapshots userId).symm
  | idle => exact le_refl _
  | wrote _ _ _ hwrite =>
    obtain ⟨table, -, rfl⟩ := (writeBatch_eq_some_iff.mp hwrite).2
    exact le_refl _
  | committed _ hcommit =>
    rw [maxSnapshotCursor_commitSnapshot hcommit]
    split
    · exact le_max_left _ _
    · exact le_refl _
  | pruned _ => exact le_refl _

/-- A row that an event deletes lies at or below the latest snapshot before it. -/
theorem le_maxSnapshotCursor_of_deleted (h : Retained s) (hstep : Step cfg s e s')
    {row : OperationRow} (hrow : row ∈ s.db.syncOperations.rows)
    (hgone : row ∉ s'.db.syncOperations.rows) :
    row.serverCursor ≤ s.db.maxSnapshotCursor row.userId := by
  by_contra hlt
  push Not at hlt
  apply hgone
  cases hstep with
  | quiet hq =>
    rw [hq.data.syncOperations]
    exact hrow
  | idle => exact hrow
  | wrote _ _ _ hwrite =>
    obtain ⟨table, htable, rfl⟩ := (writeBatch_eq_some_iff.mp hwrite).2
    rw [htable]
    exact List.mem_append_left _ hrow
  | committed _ hcommit =>
    rw [(commitSnapshot_frame hcommit).1]
    exact hrow
  | pruned hindex =>
    refine mem_pruneChunk hrow fun hu => lt_of_le_of_lt ?_ hlt
    rw [hu]
    exact h.passes _ (List.mem_of_getElem? hindex)

namespace Retained

theorem start (settings : Uuid → Option UserSettings) (now : DateTime) :
    Retained (Server.start settings now) where
  kept := fun _ h => absurd h (by simp [history, Server.start])
  passes := fun _ h => absurd h (by simp [Server.start])

/-- The history grows by the rows an event adds to the log. -/
theorem mem_history_step (hstep : Step cfg s e s') {row : OperationRow} (hrow : row ∈ s'.history) :
    row ∈ s.history ∨ row ∈ s'.db.syncOperations.rows := by
  cases hstep with
  | quiet hq =>
    rw [history, hq.batches] at hrow
    exact Or.inl hrow
  | idle => exact Or.inl (by simpa [history] using hrow)
  | wrote _ _ _ hwrite =>
    obtain ⟨table, htable, rfl⟩ := (writeBatch_eq_some_iff.mp hwrite).2
    simp only [history, List.flatten_append, List.flatten_singleton, List.mem_append] at hrow
    rcases hrow with hrow | hrow
    · exact Or.inl hrow
    · rw [htable]
      exact Or.inr (List.mem_append_right _ hrow)
  | committed _ _ => exact Or.inl hrow
  | pruned _ => exact Or.inl hrow

/-- A prune pass after an event was there before, or is one chunk further, or starts at
or below the latest snapshot. -/
theorem boundary_le_of_mem_prunes (h : Retained s) (hstep : Step cfg s e s') {pass : PrunePass}
    (hpass : pass ∈ s'.prunes) : pass.boundary ≤ s'.db.maxSnapshotCursor pass.userId := by
  have hmono := maxSnapshotCursor_le_step hstep
  cases hstep with
  | quiet hq =>
    rcases hq.prunes pass hpass with hpass | ⟨userId, rfl⟩
    · exact le_trans (h.passes pass hpass) (hmono _)
    · exact hmono userId
  | idle => exact h.passes pass hpass
  | wrote _ _ _ _ => exact le_trans (h.passes pass hpass) (hmono _)
  | committed _ hcommit =>
    rcases List.mem_append.mp hpass with hpass | hpass
    · exact le_trans (h.passes pass hpass) (hmono _)
    · rw [List.mem_singleton.mp hpass, maxSnapshotCursor_commitSnapshot hcommit]
      simp only [startPrune, if_pos]
      exact le_max_right _ _
  | pruned hindex =>
    rcases List.mem_append.mp hpass with hpass | hpass
    · exact h.passes pass (List.mem_of_mem_eraseIdx hpass)
    · obtain ⟨hu, hb, -⟩ := PrunePass.next?_eq_some (Option.mem_toList.mp hpass)
      rw [hu, hb]
      exact h.passes _ (List.mem_of_getElem? hindex)

theorem step (h : Retained s) (hstep : Step cfg s e s') : Retained s' where
  kept := by
    intro row hrow habove
    rcases mem_history_step hstep hrow with hrow | hrow
    · have hold : s.db.maxSnapshotCursor row.userId < row.serverCursor :=
        lt_of_le_of_lt (maxSnapshotCursor_le_step hstep _) habove
      by_contra hgone
      exact absurd (le_maxSnapshotCursor_of_deleted h hstep (h.kept row hrow hold) hgone)
        (not_le.mpr hold)
    · exact hrow
  passes := fun _ hpass => boundary_le_of_mem_prunes h hstep hpass

theorem run (settings : Uuid → Option UserSettings) (now : DateTime) (events : List Event) :
    Retained (Server.run cfg (Server.start settings now) events) :=
  Runs.invariant (fun _ e h => h.step (step_spec e)) (Retained.start settings now) events

/-- **What passes the floor check misses nothing.** -/
theorem mem_of_floorCursor_le (h : Retained s) {userId : Uuid} {cursor : ℕ}
    (hfloor : s.db.floorCursor userId ≤ cursor) {row : OperationRow}
    (hrow : row ∈ s.userHistory userId) (hcursor : cursor < row.serverCursor) :
    row ∈ s.db.syncOperations.rows := by
  obtain ⟨hmem, rfl⟩ := mem_userHistory.mp hrow
  refine h.kept row hmem (lt_of_le_of_lt ?_ hcursor)
  exact le_trans (le_max_right _ _) hfloor

end Retained

theorem floorCursor_le_of_boundsAnswer {db : Db} {userId : Uuid} {cursor : ℕ}
    (h : boundsAnswer db userId cursor ≠ .cursorTooOld) : db.floorCursor userId ≤ cursor := by
  by_contra hlt
  exact h (by rw [boundsAnswer, if_pos (not_le.mp hlt)])

/-- A snapshot at or above the cursor of a row that is at most the latest one. -/
theorem exists_snapshot_above (h : WellFormed s) {row : OperationRow} (hrow : row ∈ s.history)
    (hle : row.serverCursor ≤ s.db.maxSnapshotCursor row.userId) :
    ∃ snap ∈ s.db.syncSnapshots, snap.userId = row.userId ∧
      row.serverCursor ≤ snap.snapshotCursor := by
  have hpos : 0 < s.db.maxSnapshotCursor row.userId :=
    lt_of_lt_of_le (h.cursor_mem hrow).1 hle
  obtain ⟨snap, hsnap, hu, hcursor⟩ := exists_snapshot_of_pos hpos
  exact ⟨snap, hsnap, hu, hcursor ▸ hle⟩

/-- **Retention of the log**, in every reachable state: the rows above a user's latest
snapshot are in the log; no event moves the latest snapshot down; a row that is gone, or
that the next event deletes, lies at or below a snapshot that is there; and a cursor
that passes the floor check has every row above it in the log. -/
theorem log_retention (cfg : Config) (settings : Uuid → Option UserSettings) (now : DateTime)
    (events : List Event) :
    let s := run cfg (start settings now) events
    (∀ row ∈ s.history, s.db.maxSnapshotCursor row.userId < row.serverCursor →
      row ∈ s.db.syncOperations.rows) ∧
    (∀ e userId, s.db.maxSnapshotCursor userId ≤ (step cfg s e).db.maxSnapshotCursor userId) ∧
    (∀ row ∈ s.history, row ∉ s.db.syncOperations.rows →
      ∃ snap ∈ s.db.syncSnapshots, snap.userId = row.userId ∧
        row.serverCursor ≤ snap.snapshotCursor) ∧
    (∀ e, ∀ row ∈ s.db.syncOperations.rows, row ∉ (step cfg s e).db.syncOperations.rows →
      ∃ snap ∈ s.db.syncSnapshots, snap.userId = row.userId ∧
        row.serverCursor ≤ snap.snapshotCursor) ∧
    (∀ userId cursor, boundsAnswer s.db userId cursor ≠ .cursorTooOld →
      ∀ row ∈ s.userHistory userId, cursor < row.serverCursor →
        row ∈ s.db.syncOperations.rows) := by
  intro s
  have hwf : WellFormed s := WellFormed.run settings now events
  have hret : Retained s := Retained.run settings now events
  refine ⟨hret.kept, fun e userId => maxSnapshotCursor_le_step (step_spec e) userId,
    fun row hrow hgone => ?_, fun e row hrow hgone => ?_, fun userId cursor hpass row hrow hlt => ?_⟩
  · refine exists_snapshot_above hwf hrow ?_
    by_contra hlt
    exact hgone (hret.kept row hrow (not_le.mp hlt))
  · exact exists_snapshot_above hwf (hwf.log.mem hrow)
      (le_maxSnapshotCursor_of_deleted hret (step_spec e) hrow hgone)
  · exact hret.mem_of_floorCursor_le (floorCursor_le_of_boundsAnswer hpass) hrow hlt

end Server

end HelixSync
