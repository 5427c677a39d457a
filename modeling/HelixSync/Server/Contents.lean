import HelixSync.Server.Paging
import HelixSync.Server.FullHistory

/-!
# What a reader is given

Three things a reader of a compacted log relies on. Every row is within the size cap of a history
chunk, so no page overflows its byte total. Every object of a snapshot is one that some device
uploaded: it is the state an operation of the history left, or a plaintext merge
(`HelixSync.Server.FromRows`). And every active tombstone is that of a terminal operation of the
history.

With the first, a page of a pruned log is as good as one of a full log
(`HelixSync.Server.Stocked.download_spec`): the floor check guarantees that nothing between the
requested cursor and the head has been pruned.
-/

namespace HelixSync

namespace Server

variable {cfg : Config} {s s' : Server} {e : Event}

/-- An object of a snapshot of a user: it stands under its own key, some operation is on it, and
if it is encrypted it is the state one operation left. -/
structure FromRows (s : Server) (userId : Uuid) (key : ObjectKey) (obj : SnapshotObject) : Prop where
  objectKey : obj.objectKey = key
  touched : ∃ row ∈ s.userHistory userId, row.objectKey = key
  encrypted : 1 ≤ obj.encryptionVersion →
    ∃ row ∈ s.userHistory userId, row.objectKey = key ∧ obj = snapshotOf row

/-- A terminal operation of the history with the key of a tombstone. -/
def TombstoneFrom (s : Server) (userId : Uuid) (key : ObjectKey) (tombstone : OrderingKey) : Prop :=
  ∃ row ∈ s.userHistory userId, row.objectKey = key ∧ row.isTerminal = true ∧
    row.orderingKey = tombstone

/-- The rows are within the size cap and the vocabulary; stored objects and active tombstones
come from rows. -/
structure Stocked (s : Server) : Prop where
  sizes : ∀ row ∈ s.history, row.payloadBytes ≤ maxBulkHistoryPayloadBytes
  vocabulary : ∀ row ∈ s.history, row.operationType ∈ allowedOperationTypes row.objectType
  objects : ∀ snap ∈ s.db.syncSnapshots, ∀ key obj, snap.data.get key = some obj →
    FromRows s snap.userId key obj
  tombstones : ∀ userId key tombstone, loadActiveTombstones s.db userId key = some tombstone →
    TombstoneFrom s userId key tombstone

/-! ### Objects come from rows -/

theorem mem_userHistory_of_subset (hsub : ∀ row ∈ s.history, row ∈ s'.history) {userId : Uuid}
    {row : OperationRow} (hrow : row ∈ s.userHistory userId) : row ∈ s'.userHistory userId := by
  obtain ⟨hmem, hu⟩ := mem_userHistory.mp hrow
  exact mem_userHistory.mpr ⟨hsub row hmem, hu⟩

theorem FromRows.mono {userId : Uuid} {key : ObjectKey} {obj : SnapshotObject}
    (h : FromRows s userId key obj) (hsub : ∀ row ∈ s.history, row ∈ s'.history) :
    FromRows s' userId key obj := by
  have hrows : ∀ row ∈ s.userHistory userId, row ∈ s'.userHistory userId :=
    fun _ hrow => mem_userHistory_of_subset hsub hrow
  refine ⟨h.objectKey, ?_, fun henc => ?_⟩
  · obtain ⟨row, hrow, hkey⟩ := h.touched
    exact ⟨row, hrows row hrow, hkey⟩
  · obtain ⟨row, hrow, hkey⟩ := h.encrypted henc
    exact ⟨row, hrows row hrow, hkey⟩

/-- **What is computed comes from rows** of the log and of the base snapshot. -/
theorem fromRows_of_computeObjects (h : Stocked s) (hwf : WellFormed s) {userId : Uuid}
    {ceiling : Option ℕ} {cutoff : Option DateTime} {key : ObjectKey} {obj : SnapshotObject}
    (hobj : (computeObjects s.db userId ceiling cutoff).2.get key = some obj) :
    FromRows s userId key obj := by
  rw [get_computeObjects, Option.filter_eq_some_iff] at hobj
  have hcombined := hobj.1
  set rows := sortByKey ((s.db.newRows userId ceiling cutoff).filter fun row => row.objectKey = key)
    with hrows
  have hfrom : ∀ row ∈ rows, row ∈ s.userHistory userId ∧ row.objectKey = key := by
    intro row hrow
    rw [hrows, mem_sortByKey, List.mem_filter, Db.newRows, List.mem_filter] at hrow
    simp only [decide_eq_true_eq] at hrow
    exact ⟨mem_userHistory.mpr ⟨hwf.log.mem hrow.1.1, hrow.1.2.1⟩, hrow.2⟩
  rcases hlast : rows.getLast? with _ | newest
  · -- nothing new: the object of the base snapshot
    have hnil : rows = [] := List.getLast?_eq_none_iff.mp hlast
    rw [hnil, combineObject_nil] at hcombined
    unfold Db.baseObjects at hcombined
    split at hcombined
    · exact absurd hcombined (by simp)
    · rename_i snap hbase
      obtain ⟨hget, -⟩ := (FinMap.get_retain_eq_some_iff _ _).mp hcombined
      have hmem := List.argmax_mem (Option.mem_def.mpr hbase)
      simp only [List.mem_filter, decide_eq_true_eq] at hmem
      exact hmem.2.1 ▸ h.objects snap hmem.1 key obj hget
  · obtain ⟨hmem, hkey⟩ := hfrom newest (List.mem_of_getLast? hlast)
    rcases combineObject_cases hlast with hwhole | ⟨-, merged, hmerged⟩
    · rw [hwhole] at hcombined
      obtain rfl := Option.some.inj hcombined
      exact ⟨hkey, ⟨newest, hmem, hkey⟩, fun _ => ⟨newest, hmem, hkey, rfl⟩⟩
    · rw [hmerged] at hcombined
      obtain rfl := Option.some.inj hcombined
      exact ⟨rfl, ⟨newest, hmem, hkey⟩, fun henc => absurd henc (by simp [mergedObject])⟩

/-- Retention concerns history visits only: an account that has none loses nothing to it. -/
theorem Stocked.sparedByRetention (h : Stocked s) (hwf : WellFormed s) {userId : Uuid}
    (hvisits : ∀ row ∈ s.userHistory userId, row.objectType ≠ .historyVisit) :
    SparedByRetention s.db userId := by
  have hinside : ∀ {objectType : ObjectType}, objectType ≠ .historyVisit → ∀ cutoff createdAt,
      insideRetention cutoff objectType createdAt = true := by
    intro objectType hne cutoff createdAt
    cases cutoff <;> simp [insideRetention, hne]
  intro time ceiling
  set cutoff := historyRetentionCutoff time s.db userId
  have hrows : s.db.newRows userId ceiling cutoff = s.db.newRows userId ceiling none := by
    refine List.filter_congr fun row hrow => ?_
    by_cases hu : row.userId = userId
    · have hne := hvisits row (mem_userHistory.mpr ⟨hwf.log.mem hrow, hu⟩)
      simp [hinside hne]
    · simp [hu]
  have hbase : s.db.baseObjects userId ceiling cutoff = s.db.baseObjects userId ceiling none := by
    unfold Db.baseObjects
    rcases hsnap : s.db.baseSnapshot? userId ceiling with _ | snap
    · rfl
    · refine FinMap.ext_get fun key => ?_
      dsimp only
      rw [FinMap.get_retain, FinMap.get_retain]
      rcases hget : snap.data.get key with _ | obj
      · rfl
      · have hmem := List.argmax_mem (Option.mem_def.mpr hsnap)
        simp only [List.mem_filter, decide_eq_true_eq] at hmem
        have hfrom := h.objects snap hmem.1 key obj hget
        obtain ⟨row, hrow, hkey⟩ := hfrom.touched
        have hne : obj.objectType ≠ .historyVisit := by
          rw [show obj.objectType = row.objectType from
            congrArg Prod.fst (hfrom.objectKey.trans hkey.symm)]
          exact hvisits row (hmem.2.1 ▸ hrow)
        rw [Option.filter_some, Option.filter_some, hinside hne, hinside hne]
  refine FinMap.ext_get fun key => ?_
  rcases hnone : (computeObjects s.db userId ceiling none).2.get key with _ | obj
  · rw [get_computeObjects, Option.filter_eq_none_iff] at hnone
    rw [get_computeObjects, hrows, hbase, Option.filter_eq_none_iff]
    exact fun obj hobj => absurd rfl (hnone obj hobj)
  · have hfrom := fromRows_of_computeObjects h hwf hnone
    obtain ⟨row, hrow, hkey⟩ := hfrom.touched
    have hne : obj.objectType ≠ .historyVisit := by
      rw [show obj.objectType = row.objectType from congrArg Prod.fst (hfrom.objectKey.trans hkey.symm)]
      exact hvisits row hrow
    rw [get_computeObjects, Option.filter_eq_some_iff] at hnone
    rw [get_computeObjects, hrows, hbase, hnone.1, Option.filter_some, if_pos (hinside hne _ _)]

theorem fromRows_of_snapshotObjects (h : Stocked s) (hwf : WellFormed s) {now : DateTime}
    {userId : Uuid} {boundary : ℕ} {key : ObjectKey} {obj : SnapshotObject}
    (hobj : (snapshotObjects now s.db userId boundary).get key = some obj) :
    FromRows s userId key obj := by
  obtain ⟨hget, -⟩ := (FinMap.get_retain_eq_some_iff _ _).mp hobj
  exact fromRows_of_computeObjects h hwf hget

/-- The objects of a `/snapshot` response. -/
theorem fromRows_of_snapshot (h : Stocked s) (hwf : WellFormed s) {userId : Uuid} {key : ObjectKey}
    {obj : SnapshotObject} (hobj : (snapshot s.now s.db userId).objects.get key = some obj) :
    FromRows s userId key obj := by
  obtain ⟨hget, -⟩ := (FinMap.get_retain_eq_some_iff _ _).mp hobj
  exact fromRows_of_computeObjects h hwf hget

/-- A batch leaves a tombstone that was there, or that of one of its rows. -/
theorem tombstoneAfter_eq_some {key : ObjectKey} {old : Option OrderingKey} {rows : List OperationRow}
    {tombstone : OrderingKey} (h : tombstoneAfter key old rows = some tombstone) :
    old = some tombstone ∨
      ∃ row ∈ rows, row.objectKey = key ∧ row.isTerminal = true ∧ row.orderingKey = tombstone := by
  unfold tombstoneAfter at h
  split at h
  · exact absurd h (by simp)
  · split at h
    · rename_i row hlast
      have hmem := List.mem_filter.mp (List.mem_of_getLast? hlast)
      simp only [Bool.and_eq_true, beq_iff_eq] at hmem
      exact Or.inr ⟨row, hmem.1, hmem.2.2, hmem.2.1, Option.some.inj h⟩
    · exact Or.inl h

namespace Stocked

theorem start (settings : Uuid → Option UserSettings) (now : DateTime) :
    Stocked (Server.start settings now) where
  sizes := fun row hrow => absurd hrow (by simp [Server.start, Server.history])
  vocabulary := fun row hrow => absurd hrow (by simp [Server.start, Server.history])
  objects := fun snap hsnap => absurd hsnap (by simp [Server.start, Db.empty])
  tombstones := fun userId key tombstone h =>
    absurd h (by simp [Server.start, Db.empty, loadActiveTombstones])

theorem step (h : Stocked s) (hwf : WellFormed s) (hstep : Step cfg s e s') : Stocked s' := by
  have hsub : ∀ row ∈ s.history, row ∈ s'.history := fun _ hrow => history_subset_step hstep hrow
  have hkept : s'.db.tombstones = s.db.tombstones → ∀ userId key tombstone,
      loadActiveTombstones s'.db userId key = some tombstone →
        TombstoneFrom s' userId key tombstone := by
    intro heq userId key tombstone ht
    rw [loadActiveTombstones, heq] at ht
    obtain ⟨row, hrow, hspec⟩ := h.tombstones userId key tombstone ht
    exact ⟨row, mem_userHistory_of_subset hsub hrow, hspec⟩
  have hold : ∀ {key obj} {snap : SnapshotRow}, snap ∈ s.db.syncSnapshots →
      snap.data.get key = some obj → FromRows s' snap.userId key obj :=
    fun hsnap hget => (h.objects _ hsnap _ _ hget).mono hsub
  cases hstep with
  | quiet hq =>
    refine ⟨fun row hrow => h.sizes row ?_, fun row hrow => h.vocabulary row ?_,
      fun snap hsnap key obj hget => hold ?_ hget, hkept hq.data.tombstones⟩
    · rwa [history, hq.batches] at hrow
    · rwa [history, hq.batches] at hrow
    · rwa [hq.data.syncSnapshots] at hsnap
  | idle =>
    have hsame : ∀ row ∈ Server.history { s with batches := s.batches ++ [[]] }, row ∈ s.history :=
      fun row hrow => by simpa [history] using hrow
    exact ⟨fun row hrow => h.sizes row (hsame row hrow), fun row hrow => h.vocabulary row (hsame row hrow),
      fun snap hsnap key obj hget => hold hsnap hget, hkept rfl⟩
  | wrote hauth hd hne hwrite =>
    refine ⟨fun row hrow => ?_, fun row hrow => ?_, fun snap hsnap key obj hget => hold ?_ hget,
      fun userId key tombstone ht => ?_⟩
    · simp only [history, List.flatten_append, List.flatten_singleton, List.mem_append] at hrow
      rcases hrow with hrow | hrow
      · exact h.sizes row hrow
      · obtain ⟨op, hop, cursor, -, -, rfl⟩ := exists_of_mem_batchRows hrow
        obtain ⟨st, hadm, -, -⟩ := admits_of_mem_accepts hop
        exact hadm.shape.payload_le
    · simp only [history, List.flatten_append, List.flatten_singleton, List.mem_append] at hrow
      rcases hrow with hrow | hrow
      · exact h.vocabulary row hrow
      · obtain ⟨op, hop, cursor, -, -, rfl⟩ := exists_of_mem_batchRows hrow
        obtain ⟨st, hadm, -, -⟩ := admits_of_mem_accepts hop
        exact hadm.shape.mem_allowed
    · obtain ⟨table, -, rfl⟩ := (writeBatch_eq_some_iff.mp hwrite).2
      exact hsnap
    · have hold : loadActiveTombstones s.db userId key = some tombstone →
          TombstoneFrom _ userId key tombstone := fun ht => by
        obtain ⟨row, hrow, hspec⟩ := h.tombstones userId key tombstone ht
        exact ⟨row, mem_userHistory_of_subset hsub hrow, hspec⟩
      change loadActiveTombstones _ userId key = some tombstone at ht
      rw [loadActiveTombstones_writeBatch hwrite] at ht
      split at ht
      · rename_i hu
        rw [← tombstoneAfter_batchRows s.now _ (s.db.currentCursor userId + 1)] at ht
        rcases tombstoneAfter_eq_some ht with ht | ⟨row, hrow, hspec⟩
        · exact hold ht
        · refine ⟨row, mem_userHistory.mpr ⟨?_, ?_⟩, hspec⟩
          · rw [hu] at hrow
            simp only [history, List.flatten_append, List.flatten_singleton, List.mem_append]
            exact Or.inr hrow
          · rw [hu]
            exact userId_of_mem_batchRows hrow
      · exact hold ht
  | committed hindex hcommit =>
    refine ⟨h.sizes, h.vocabulary, fun snap hsnap key obj hget => ?_,
      hkept (commitSnapshot_frame hcommit).2.2.2.2.1⟩
    rcases mem_syncSnapshots_commitSnapshot hcommit hsnap with hsnap | rfl
    · exact hold hsnap hget
    · exact (fromRows_of_snapshotObjects h hwf hget).mono fun _ hrow => hrow
  | pruned hindex => exact ⟨h.sizes, h.vocabulary, fun snap hsnap key obj hget => hold hsnap hget, hkept rfl⟩

theorem run (settings : Uuid → Option UserSettings) (now : DateTime) (events : List Event) :
    Stocked (Server.run cfg (Server.start settings now) events) :=
  (Runs.invariant (I := fun s => WellFormed s ∧ Stocked s)
    (fun _ e h => ⟨h.1.step (step_spec e), h.2.step h.1 (step_spec e)⟩)
    ⟨WellFormed.start settings now, Stocked.start settings now⟩ events).2

theorem inOrder (h : Stocked s) (hwf : WellFormed s) (userId : Uuid) : InOrder s.db userId where
  pairwise := (hwf.userHistory_pairwise userId).sublist (hwf.log.filter _)
  cursor_le := fun row hrow => by
    obtain ⟨hmem, hu⟩ := List.mem_filter.mp hrow
    rw [decide_eq_true_eq] at hu
    exact hu ▸ (hwf.cursor_mem (hwf.log.mem hmem)).2
  sizes := fun row hrow => h.sizes row (hwf.log.mem (List.mem_filter.mp hrow).1)

/-- **A page of a pruned log**: a cursor within the bounds gets a page with all rows of the
history up to its end, which lies above the cursor unless that is the head already; it is the
last one exactly if it ends at the head. -/
theorem download_spec (h : Stocked s) (hwf : WellFormed s) (hret : Retained s) {userId : Uuid}
    {cursor : ℕ} (hfloor : s.db.floorCursor userId ≤ cursor)
    (hcursor : cursor ≤ s.db.currentCursor userId) (limit : Option ℤ) :
    ∃ response, download s.db userId ⟨some cursor, limit⟩ = .page response ∧
      cursor ≤ response.nextCursor ∧ response.nextCursor ≤ s.db.currentCursor userId ∧
      (cursor < s.db.currentCursor userId → cursor < response.nextCursor) ∧
      (response.hasMore = false ↔ response.nextCursor = s.db.currentCursor userId) := by
  obtain ⟨response, hanswer, hge, hle, hsplit, hempty, hmore⟩ :=
    (h.inOrder hwf userId).download_eq hfloor hcursor limit
  -- nothing above a cursor is left exactly at the head
  have hhead : ∀ c, cursor ≤ c → c ≤ s.db.currentCursor userId →
      (s.db.rowsAbove userId c = [] ↔ c = s.db.currentCursor userId) := by
    intro c hc hcurrent
    constructor
    · intro hnil
      by_contra hne
      have hmem : s.db.currentCursor userId ∈ (s.userHistory userId).map OperationRow.serverCursor := by
        rw [hwf.cursors, List.mem_range'_1]
        omega
      obtain ⟨row, hrow, hlast⟩ := List.mem_map.mp hmem
      have hlog := hret.mem_of_floorCursor_le (le_trans hfloor hc) hrow (by omega)
      have habove : row ∈ s.db.rowsAbove userId c :=
        mem_rowsAbove.mpr ⟨hlog, (mem_userHistory.mp hrow).2, by omega⟩
      rw [hnil] at habove
      exact absurd habove List.not_mem_nil
    · intro heq
      refine List.eq_nil_iff_forall_not_mem.mpr fun row hrow => ?_
      obtain ⟨hlog, hu, hlt⟩ := mem_rowsAbove.mp hrow
      have hbound := (hwf.cursor_mem (hwf.log.mem hlog)).2
      rw [hu] at hbound
      omega
  refine ⟨response, hanswer, hge, hle, fun hlt => ?_, ?_⟩
  · by_contra hnot
    have heq : response.nextCursor = cursor := le_antisymm (not_lt.mp hnot) hge
    have hnone : response.operations = [] := by
      rw [heq] at hsplit
      exact List.append_left_eq_self.mp hsplit
    exact absurd ((hhead cursor (le_refl _) hcursor).mp (hempty.mp hnone)) (by omega)
  · rw [← hhead _ hge hle, ← not_iff_not, ← ne_eq, ← ne_eq, ← hmore]
    simp

end Stocked

end Server

end HelixSync
