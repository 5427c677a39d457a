import HelixSync.Server.Upload
import HelixSync.Server.Snapshot

/-!
# Downloading changes

`download` (`server/src/sync/routes.rs`). The handler makes three statements, each of
which sees the database as it is at that moment:

* `HelixSync.readBounds` reads the bounds, records the acknowledged cursor, and refuses
  a cursor below the floor or above the allocator;
* `HelixSync.decidePage` reads the sizes of the next rows and fixes the page;
* `HelixSync.pageRows` reads the rows of the page in full.

The byte total of a page is kept in an `i32`; an addition that leaves its range is a
failure of the model (`HelixSync.i32Add?`).
-/

namespace HelixSync

/-- `DEFAULT_DOWNLOAD_LIMIT`. -/
def defaultDownloadLimit : ℤ := 500

/-- `MAX_DOWNLOAD_LIMIT`. -/
def maxDownloadLimit : ℤ := 1000

/-- `MAX_DOWNLOAD_PAYLOAD_BYTES`. -/
def maxDownloadPayloadBytes : ℕ := 16 * 1024 * 1024

/-- `DownloadQuery`. -/
structure DownloadQuery where
  cursor : Option ℤ
  limit : Option ℤ

/-- The requested cursor: zero by default, never negative. -/
def DownloadQuery.cursorValue (q : DownloadQuery) : ℕ := (q.cursor.getD 0).toNat

/-- The requested limit: `unwrap_or(DEFAULT).clamp(1, MAX)`. -/
def DownloadQuery.limitValue (q : DownloadQuery) : ℕ :=
  (min (max (q.limit.getD defaultDownloadLimit) 1) maxDownloadLimit).toNat

/-! ### The bounds -/

/-- What the first statement answers. -/
inductive BoundsAnswer where
  | cursorTooOld
  | cursorInvalid
  | pass
  deriving DecidableEq

/-- The floor below which a cursor must resync from a snapshot. -/
def Db.floorCursor (db : Db) (userId : Uuid) : ℕ :=
  max ((((db.userRows userId).map OperationRow.serverCursor).min?.map fun m => m - 1).getD 0)
    (db.maxSnapshotCursor userId)

/-- The cursor upsert: the device's acknowledged cursor, capped at the allocator,
written only when it moves forward. -/
def recordCursor (db : Db) (device : AuthenticatedDevice) (cursor : ℕ) : Db :=
  let value := min cursor (db.currentCursor device.userId)
  let stored := db.deviceCursors device.userId device.deviceId
  let next := match stored with
    | none => some value
    | some old => if old < value then some value else some old
  { db with
    deviceCursors := Function.update db.deviceCursors device.userId
      (Function.update (db.deviceCursors device.userId) device.deviceId next) }

/-- The floor check and the allocator check. -/
def boundsAnswer (db : Db) (userId : Uuid) (cursor : ℕ) : BoundsAnswer :=
  if cursor < db.floorCursor userId then .cursorTooOld
  else if db.currentCursor userId < cursor then .cursorInvalid
  else .pass

/-- The first statement. -/
def readBounds (db : Db) (device : AuthenticatedDevice) (cursor : ℕ) : BoundsAnswer × Db :=
  (boundsAnswer db device.userId cursor, recordCursor db device cursor)

/-! ### The page -/

/-- The largest value of an `i32`. -/
def i32Max : ℕ := 2 ^ 31 - 1

/-- An `i32` addition of non-negative values: nothing on overflow. -/
def i32Add? (a b : ℕ) : Option ℕ := if a + b ≤ i32Max then some (a + b) else none

/-- The rows of a page the byte cap keeps, with the bytes accumulated so far. The
first row is always kept. Nothing if an addition overflows. -/
def capBytes? : (first : Bool) → (accumulated : ℕ) → List OperationRow → Option (List OperationRow)
  | _, _, [] => some []
  | first, accumulated, row :: rows => do
    let total ← i32Add? accumulated row.payloadBytes
    if first = false ∧ maxDownloadPayloadBytes < total then some []
    else return row :: (← capBytes? false total rows)

/-- The rows of a user above a cursor, in cursor order. -/
def Db.rowsAbove (db : Db) (userId : Uuid) (cursor : ℕ) : List OperationRow :=
  ((db.userRows userId).filter fun row => cursor < row.serverCursor).insertionSort
    fun a b => a.serverCursor ≤ b.serverCursor

/-- A page: where it ends and whether more follows. -/
structure Page where
  nextCursor : ℕ
  hasMore : Bool
  deriving DecidableEq

/-- The second statement and the decisions made from it. -/
def decidePage (db : Db) (userId : Uuid) (cursor limit : ℕ) : Option Page := do
  let sizedRows := (db.rowsAbove userId cursor).take (limit + 1)
  let hasMoreByCount := limit < sizedRows.length
  let page := if hasMoreByCount then sizedRows.take limit else sizedRows
  let kept ← capBytes? true 0 page
  let hasMoreByBytes := kept.length < page.length
  return ⟨(kept.getLast?.map OperationRow.serverCursor).getD cursor,
    hasMoreByCount || hasMoreByBytes⟩

/-- The third statement. -/
def pageRows (db : Db) (userId : Uuid) (cursor nextCursor : ℕ) : List OperationRow :=
  (db.rowsAbove userId cursor).filter fun row => row.serverCursor ≤ nextCursor

/-- The answer to a download. -/
structure DownloadResponse where
  operations : List OperationRow
  nextCursor : ℕ
  hasMore : Bool

/-- The answers of the handler. The last is a failure of its byte accumulator. -/
inductive DownloadAnswer where
  | cursorTooOld
  | cursorInvalid
  | page (response : DownloadResponse)
  | overflow

/-- `download`, when nothing else writes to the database between its statements. -/
def download (db : Db) (userId : Uuid) (query : DownloadQuery) : DownloadAnswer :=
  match boundsAnswer db userId query.cursorValue with
  | .cursorTooOld => .cursorTooOld
  | .cursorInvalid => .cursorInvalid
  | .pass =>
    match decidePage db userId query.cursorValue query.limitValue with
    | none => .overflow
    | some page => .page ⟨pageRows db userId query.cursorValue page.nextCursor, page.nextCursor,
        page.hasMore⟩

/-! ### The rows of a page -/

/-- A log in cursor order is not changed by sorting it. -/
theorem rowsAbove_eq {db : Db} {userId : Uuid}
    (h : (db.userRows userId).Pairwise fun a b => a.serverCursor < b.serverCursor) (cursor : ℕ) :
    db.rowsAbove userId cursor =
      (db.userRows userId).filter fun row => cursor < row.serverCursor := by
  refine List.Pairwise.insertionSort_eq ((h.filter _).imp ?_)
  intro a b hlt
  exact le_of_lt hlt

theorem mem_rowsAbove {db : Db} {userId : Uuid} {cursor : ℕ} {row : OperationRow} :
    row ∈ db.rowsAbove userId cursor ↔
      row ∈ db.syncOperations.rows ∧ row.userId = userId ∧ cursor < row.serverCursor := by
  unfold Db.rowsAbove Db.userRows
  rw [(List.perm_insertionSort _ _).mem_iff]
  simp [and_comm]

theorem isPrefix_of_capBytes? : ∀ {rows kept : List OperationRow} {first : Bool} {acc : ℕ},
    capBytes? first acc rows = some kept → kept <+: rows := by
  intro rows
  induction rows with
  | nil =>
    intro kept first acc h
    rw [capBytes?] at h
    exact Option.some.inj h ▸ List.nil_prefix
  | cons row rows ih =>
    intro kept first acc h
    simp only [capBytes?, Option.bind_eq_bind, Option.bind_eq_some_iff] at h
    obtain ⟨total, -, h⟩ := h
    split at h
    · exact Option.some.inj h ▸ List.nil_prefix
    · obtain ⟨rest, hrest, hkept⟩ := Option.bind_eq_some_iff.mp h
      obtain rfl := Option.some.inj hkept
      exact List.prefix_cons_inj row |>.mpr (ih hrest)

/-- A page ends at the requested cursor or at a row of the log. -/
theorem nextCursor_of_decidePage {db : Db} {userId : Uuid} {cursor limit : ℕ} {page : Page}
    (h : decidePage db userId cursor limit = some page) :
    page.nextCursor = cursor ∨
      ∃ row ∈ db.rowsAbove userId cursor, page.nextCursor = row.serverCursor := by
  simp only [decidePage, Option.bind_eq_bind, Option.bind_eq_some_iff] at h
  obtain ⟨kept, hkept, hpage⟩ := h
  obtain rfl := Option.some.inj hpage
  rcases hlast : kept.getLast? with _ | row
  · exact Or.inl (by simp)
  · refine Or.inr ⟨row, ?_, by simp⟩
    have hmem := (isPrefix_of_capBytes? hkept).subset (List.mem_of_getLast? hlast)
    split at hmem
    · exact List.mem_of_mem_take (List.mem_of_mem_take hmem)
    · exact List.mem_of_mem_take hmem

end HelixSync
