import HelixSync.Client.RemoteTabs
import HelixSync.Client.UploadCall
import HelixSync.Lib.CursorWalk

/-!
# Walking an index in chunks

`getMappedChromiumIdsByType` and `forEachLiveRemoteTab` (`extension/src/storage/db.ts`) read the rows
of an index with a cursor, and let go of it after each chunk of rows, because a transaction does not
outlive a pause. The next chunk opens a new cursor and moves it behind the row visited last, which
by then may be gone, as may the rows in front of it.

A walk is followed from one transaction to the next. Each of them sees a state of the store of its
own, whatever was inserted and deleted in between. Wherever the row visited last was, the cursor
comes to the first row behind it (`HelixSync.Client.resume_eq`), so a walk is the walk of the store
in key order (`HelixSync.Client.walkAfter_eq`) and misses no row that stays
(`HelixSync.Client.MissesNothing`).
-/

namespace HelixSync

namespace Client

/-! ### The stores -/

/-- A store whose rows hold their own key. -/
structure InlineStore (κ υ : Type) [LinearOrder κ] (keyPath : υ → κ) extends
    OrderedStore κ υ where
  keyPath_eq : ∀ row ∈ entries, keyPath row.2 = row.1

/-- `ObjectMappingRecord`. The key is the text of `mappingKey`. -/
structure ObjectMappingRecord (κ : Type) where
  key : κ
  objectType : ObjectType
  chromiumLocalId : String
  objectId : Uuid

/-- The `object_mappings` store, with its keys in the order of the database. -/
abbrev ObjectMappings (κ : Type) [LinearOrder κ] :=
  InlineStore κ (ObjectMappingRecord κ) ObjectMappingRecord.key

/-- The `remote_objects` store. -/
abbrev RemoteObjects := InlineStore Uuid RemoteObjectRecord RemoteObjectRecord.objectId

section Walk

variable {κ υ : Type} [LinearOrder κ]

/-- The rows of an index under one of its keys, which are in the order of the primary keys. -/
def InlineStore.index {keyPath : υ → κ} (store : InlineStore κ υ keyPath) (p : υ → Bool) :
    InlineStore κ υ keyPath where
  toOrderedStore := store.retain fun _ row => p row
  keyPath_eq := fun row hrow => store.keyPath_eq row (List.mem_of_mem_filter hrow)

/-! ### A chunk -/

/-- The first cursor of a chunk, moved to the row visited last or to the first row behind it. -/
def moveTo (last : κ) (cursor : Cursor κ υ) : Except Cursor.DataError (Option (Cursor κ υ)) :=
  if cursor.primaryKey < last then cursor.continuePrimaryKey last else pure (some cursor)

/-- The row visited last is passed if it is still there. -/
def stepPast (last : κ) (cursor : Option (Cursor κ υ)) : Option (Cursor κ υ) :=
  cursor.bind fun cursor => if cursor.primaryKey = last then cursor.advance else some cursor

/-- The cursor that a chunk reads from. -/
def resume (index : OrderedStore κ υ) (last : Option κ) :
    Except Cursor.DataError (Option (Cursor κ υ)) :=
  match index.openCursor, last with
  | some cursor, some last => stepPast last <$> moveTo last cursor
  | cursor, _ => pure cursor

/-- The rows a chunk visits. -/
def visitRows : ℕ → Option (Cursor κ υ) → List (κ × υ)
  | 0, _ => []
  | _ + 1, none => []
  | left + 1, some cursor => cursor.row :: visitRows left cursor.advance

/-- One transaction of a walk. `resumeKey` is the key the walk keeps of a row. -/
def walkChunk (resumeKey : κ × υ → κ) (w : ScanWalk κ υ) (index : OrderedStore κ υ) :
    Except Cursor.DataError (ScanWalk κ υ) :=
  if w.exhausted then pure w
  else do
    let cursor ← resume index w.last
    let rows := visitRows idbBatchChunk cursor
    pure ⟨w.visited ++ rows, (rows.getLast?.map resumeKey).or w.last,
      decide (rows.length < idbBatchChunk)⟩

/-- A walk after `n` transactions. -/
def walkAfter (resumeKey : κ × υ → κ) (index : ℕ → OrderedStore κ υ) :
    ℕ → Except Cursor.DataError (ScanWalk κ υ)
  | 0 => pure ScanWalk.start
  | n + 1 => do walkChunk resumeKey (← walkAfter resumeKey index n) (index n)

end Walk

/-! ### The two walks -/

/-- The index `by-type` of the mappings. -/
def mappingsByType {κ : Type} [LinearOrder κ] (store : ObjectMappings κ) (objectType : ObjectType) :
    ObjectMappings κ :=
  store.index fun row => row.objectType = objectType

/-- The walk of `getMappedChromiumIdsByType`. -/
def mappingsWalk {κ : Type} [LinearOrder κ] (stores : ℕ → ObjectMappings κ)
    (objectType : ObjectType) : ℕ → Except Cursor.DataError (ScanWalk κ (ObjectMappingRecord κ)) :=
  walkAfter Prod.fst fun n => (mappingsByType (stores n) objectType).toOrderedStore

/-- `getMappedChromiumIdsByType`: the ids, if the walk is at its end after `n` transactions. -/
def getMappedChromiumIdsByType {κ : Type} [LinearOrder κ] (stores : ℕ → ObjectMappings κ)
    (objectType : ObjectType) (n : ℕ) : Except Cursor.DataError (Option (Finset String)) := do
  let w ← mappingsWalk stores objectType n
  pure (if w.exhausted then some (w.visited.map fun row => row.2.chromiumLocalId).toFinset else none)

/-- The rows of live tabs in the index `by-type-deleted`. -/
def liveTabs (store : RemoteObjects) : RemoteObjects :=
  store.index fun row => row.objectType = .tab ∧ row.deleted = false

/-- `forEachLiveRemoteTab` after `n` transactions: the rows it has called `visit` with. -/
def forEachLiveRemoteTab (stores : ℕ → RemoteObjects) :
    ℕ → Except Cursor.DataError (ScanWalk Uuid RemoteObjectRecord) :=
  walkAfter (fun row => row.2.objectId) fun n => (liveTabs (stores n)).toOrderedStore

/-! ### Where a chunk resumes -/

section Resume

variable {κ υ : Type} [LinearOrder κ] {entries : List (κ × υ)}

/-- The cursor is sent to a key only from in front of it, and comes to the first row that is not. -/
theorem moveTo_eq (first : κ × υ) (rest : List (κ × υ)) (k : κ) :
    moveTo k ⟨first, rest⟩ =
      .ok (Cursor.on ((first :: rest).dropWhile fun row => decide (row.1 < k))) := by
  rw [moveTo, Cursor.continuePrimaryKey]
  change (if first.1 < k then if k ≤ first.1 then _ else _ else _) = _
  by_cases hlt : first.1 < k
  · rw [if_pos hlt, if_neg (not_le.mpr hlt), List.dropWhile_cons_of_pos (by simpa using hlt)]
  · rw [if_neg hlt, List.dropWhile_cons_of_neg (by simpa using hlt)]
    rfl

/-- From there the row visited last is one step, if it is there at all. -/
theorem stepPast_on (hsorted : entries.Pairwise fun a b => a.1 < b.1) (k : κ) :
    stepPast k (Cursor.on (entries.dropWhile fun row => decide (row.1 < k))) =
      Cursor.on (entries.filter fun row => decide (k < row.1)) := by
  induction entries with
  | nil => rfl
  | cons first rest ih =>
    obtain ⟨hfirst, hrest⟩ := List.pairwise_cons.mp hsorted
    have hkeep (h : k ≤ first.1) : rest.filter (fun row => decide (k < row.1)) = rest :=
      List.filter_eq_self.mpr fun row hrow => decide_eq_true (lt_of_le_of_lt h (hfirst row hrow))
    rcases lt_trichotomy first.1 k with hlt | heq | hgt
    · rw [List.dropWhile_cons_of_pos (by simpa using hlt),
        List.filter_cons_of_neg (by simpa using hlt.le), ih hrest]
    · rw [List.dropWhile_cons_of_neg (by simpa using heq.ge),
        List.filter_cons_of_neg (by simpa using heq.le), hkeep heq.ge]
      exact if_pos heq
    · rw [List.dropWhile_cons_of_neg (by simpa using hgt.le),
        List.filter_cons_of_pos (by simpa using hgt), hkeep hgt.le]
      exact if_neg (ne_of_gt hgt)

/-- **A chunk resumes at the first row behind the last one**, and never sends a cursor back. -/
theorem resume_eq (index : OrderedStore κ υ) (last : Option κ) :
    resume index last =
      .ok (Cursor.on (index.entries.filter fun row => last.all fun k => decide (k < row.1))) := by
  obtain ⟨entries, hsorted⟩ := index
  cases entries with
  | nil => cases last <;> rfl
  | cons first rest =>
    cases last with
    | none =>
      rw [List.filter_eq_self.mpr (by simp)]
      rfl
    | some k =>
      change stepPast k <$> moveTo k ⟨first, rest⟩ = _
      rw [moveTo_eq]
      exact congrArg Except.ok (stepPast_on hsorted k)

omit [LinearOrder κ] in
theorem visitRows_on (left : ℕ) (rows : List (κ × υ)) :
    visitRows left (Cursor.on rows) = rows.take left := by
  induction left generalizing rows with
  | zero => rfl
  | succ left ih =>
    cases rows with
    | nil => rfl
    | cons row rows => exact congrArg (row :: ·) (ih rows)

/-- A chunk reads the next rows in key order. -/
theorem walkChunk_eq {resumeKey : κ × υ → κ} {index : OrderedStore κ υ}
    (hkey : ∀ row ∈ index.entries, resumeKey row = row.1) (w : ScanWalk κ υ) :
    walkChunk resumeKey w index = .ok (w.next idbBatchChunk index) := by
  rw [walkChunk, ScanWalk.next]
  split_ifs
  · rfl
  · have hrows : visitRows idbBatchChunk (Cursor.on (index.entries.filter fun row =>
        w.last.all fun k => decide (k < row.1))) = index.scan idbBatchChunk w.last :=
      visitRows_on _ _
    have hlast : ((index.scan idbBatchChunk w.last).getLast?.map resumeKey).or w.last =
        ScanWalk.lastOf w.last (index.scan idbBatchChunk w.last) := by
      rw [ScanWalk.lastOf]
      refine congrArg (Option.or · w.last) (Option.map_congr fun row hrow => ?_)
      exact hkey row (List.mem_of_mem_filter
        (List.mem_of_mem_take (List.mem_of_getLast? hrow)))
    rw [resume_eq]
    change Except.ok (ScanWalk.mk (w.visited ++ visitRows idbBatchChunk (Cursor.on _))
      (((visitRows idbBatchChunk (Cursor.on _)).getLast?.map resumeKey).or w.last)
      (decide ((visitRows idbBatchChunk (Cursor.on _)).length < idbBatchChunk))) = _
    rw [hrows, hlast]

/-- **A walk is the walk of its index in key order.** -/
theorem walkAfter_eq {resumeKey : κ × υ → κ} {index : ℕ → OrderedStore κ υ}
    (hkey : ∀ i, ∀ row ∈ (index i).entries, resumeKey row = row.1) (n : ℕ) :
    walkAfter resumeKey index n = .ok (ScanWalk.after idbBatchChunk index n) := by
  induction n with
  | zero => rfl
  | succ n ih =>
    rw [walkAfter, ih]
    exact walkChunk_eq (hkey n) _

end Resume

/-! ### What a walk visits -/

/-- A walk over an index that changes between its transactions is complete. -/
structure MissesNothing {κ υ : Type} [LinearOrder κ] (index : ℕ → OrderedStore κ υ)
    (walk : ℕ → Except Cursor.DataError (ScanWalk κ υ)) : Prop where
  /-- No cursor is sent to a row that it has passed. -/
  no_error : ∀ n, ∃ w, walk n = .ok w
  /-- The walk ends once the index does not change any more. -/
  ends : ∀ start, (∀ n ≥ start, index n = index start) →
    ∃ n w, walk n = .ok w ∧ w.exhausted = true
  /-- A row that is there in every transaction of the walk is visited exactly once. -/
  visited_once : ∀ n w, walk n = .ok w → w.exhausted = true →
    ∀ k, (∀ i < n, ∃ v, (index i).get k = some v) → (w.visited.map Prod.fst).count k = 1
  /-- No row is visited twice, whatever becomes of it. -/
  nodup : ∀ n w, walk n = .ok w → (w.visited.map Prod.fst).Nodup
  /-- Only rows of the index are visited. -/
  mem_index : ∀ n w, walk n = .ok w → ∀ row ∈ w.visited, ∃ i < n, (index i).get row.1 = some row.2

theorem missesNothing {κ υ : Type} [LinearOrder κ] {resumeKey : κ × υ → κ}
    {index : ℕ → OrderedStore κ υ} (hkey : ∀ i, ∀ row ∈ (index i).entries, resumeKey row = row.1) :
    MissesNothing index (walkAfter resumeKey index) := by
  have hafter {n : ℕ} {w : ScanWalk κ υ} (h : walkAfter resumeKey index n = .ok w) :
      w = ScanWalk.after idbBatchChunk index n :=
    Except.ok.inj (h.symm.trans (walkAfter_eq hkey n))
  have hnodup (n : ℕ) :
      ((ScanWalk.after idbBatchChunk index n).visited.map Prod.fst).Nodup :=
    List.pairwise_map.mpr ((ScanWalk.after_ascending idbBatchChunk index n).sorted.imp ne_of_lt)
  constructor
  · exact fun n => ⟨_, walkAfter_eq hkey n⟩
  · intro start hsettled
    obtain ⟨n, hexhausted⟩ :=
      ScanWalk.exists_exhausted (show 0 < idbBatchChunk by decide) hsettled
    exact ⟨n, _, walkAfter_eq hkey n, hexhausted⟩
  · intro n w hwalk hexhausted k hstays
    obtain rfl := hafter hwalk
    exact List.count_eq_one_of_mem (hnodup n) (ScanWalk.mem_visited_after hexhausted hstays)
  · intro n w hwalk
    obtain rfl := hafter hwalk
    exact hnodup n
  · intro n w hwalk row hrow
    obtain rfl := hafter hwalk
    exact ScanWalk.get_of_mem_visited hrow

/-- **Chunked walks miss nothing.** The stores are what the transactions of a walk see, one after the
other. The ids of mappings that stay are all returned. -/
theorem indexWalks_missNothing {κ : Type} [LinearOrder κ] :
    (∀ (stores : ℕ → ObjectMappings κ) (objectType : ObjectType),
      MissesNothing (fun n => (mappingsByType (stores n) objectType).toOrderedStore)
          (mappingsWalk stores objectType) ∧
        ∀ n ids, getMappedChromiumIdsByType stores objectType n = .ok (some ids) →
          ∀ k id, (∀ i < n, ∃ row, (mappingsByType (stores i) objectType).get k = some row ∧
            row.chromiumLocalId = id) → id ∈ ids) ∧
    ∀ stores : ℕ → RemoteObjects,
      MissesNothing (fun n => (liveTabs (stores n)).toOrderedStore)
        (forEachLiveRemoteTab stores) := by
  constructor
  · intro stores objectType
    have hwalk : MissesNothing (fun n => (mappingsByType (stores n) objectType).toOrderedStore)
        (mappingsWalk stores objectType) := missesNothing fun _ _ _ => rfl
    refine ⟨hwalk, fun n ids hids k id hstays => ?_⟩
    obtain ⟨w, hw⟩ := hwalk.no_error n
    rw [getMappedChromiumIdsByType, hw] at hids
    replace hids := Except.ok.inj hids
    split_ifs at hids with hexhausted
    · obtain rfl := Option.some.inj hids
      -- the row was visited with the id that it had at every time
      have hcount := hwalk.visited_once n w hw hexhausted k fun i hi =>
        (hstays i hi).imp fun _ hrow => hrow.1
      obtain ⟨row, hrow, rfl⟩ := List.mem_map.mp (List.count_pos_iff.mp (hcount ▸ Nat.one_pos))
      obtain ⟨i, hi, hget⟩ := hwalk.mem_index n w hw row hrow
      obtain ⟨row', hget', rfl⟩ := hstays i hi
      obtain rfl : row' = row.2 := Option.some.inj (hget'.symm.trans hget)
      exact List.mem_toFinset.mpr (List.mem_map_of_mem hrow)
  · exact fun stores => missesNothing fun i row hrow => (liveTabs (stores i)).keyPath_eq row hrow

/-- The mappings of 201 bookmarks. After the first transaction, which visits 200, the last of these is
deleted. -/
def shrinkingMappings (n : ℕ) : ObjectMappings ℕ where
  entries := ((List.range 201).filter fun k => n = 0 ∨ k ≠ 199).map fun k => (k, ⟨k, .bookmark, toString k, 1⟩)
  sorted := List.pairwise_map.mpr (List.pairwise_lt_range.filter _)
  keyPath_eq row hrow := by
    obtain ⟨k, -, rfl⟩ := List.mem_map.mp hrow
    rfl

/-- The row a cursor resumes from is gone, and the one behind it is visited. -/
theorem indexWalks_missNothing_shrinking :
    ∃ ids, getMappedChromiumIdsByType shrinkingMappings .bookmark 2 = .ok (some ids) ∧ "200" ∈ ids := by
  have hexhausted : (ScanWalk.after idbBatchChunk
      (fun n => (mappingsByType (shrinkingMappings n) .bookmark).toOrderedStore) 2).exhausted = true := by
    decide +kernel
  obtain ⟨ids, hids⟩ : ∃ ids, getMappedChromiumIdsByType shrinkingMappings .bookmark 2 = .ok (some ids) := by
    rw [getMappedChromiumIdsByType, mappingsWalk, walkAfter_eq fun _ _ _ => rfl]
    exact ⟨_, congrArg Except.ok (if_pos hexhausted)⟩
  refine ⟨ids, hids, (indexWalks_missNothing.1 shrinkingMappings .bookmark).2 2 ids hids 200 "200" fun i hi => ?_⟩
  refine Option.map_eq_some_iff.mp ?_
  match i, hi with
  | 0, _ | 1, _ => decide +kernel

end Client

end HelixSync
