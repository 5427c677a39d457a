import Mathlib.Algebra.Order.BigOperators.Group.List
import Mathlib.Algebra.Order.Ring.Nat
import HelixSync.Server.RestorePoints

/-!
# What the handlers of restore points know

An upload adds one combined change for what it inserts and evicts, and a prune takes back what it
deletes; neither waits for the other as a whole. Two locks make this sound. A row that a transaction
deletes is locked until it commits, so no two transactions give back the bytes of one row. And
between the statement that changes a byte count and the commit the row of `sync_stats` is locked, so
the count that is written is the one the commit makes true
(`HelixSync.PointServer.CallOk`). Since a count is never below the bytes that are given back, the
`GREATEST` in these statements never acts.

The caps hold because uploads and pin changes of a user exclude each other, and what runs beside
them deletes points only (`HelixSync.PointServer.Rely`). What a transaction commits is right, given
what its handler knows (`HelixSync.PointServer.committable_upload` and its siblings).
-/

namespace HelixSync

/-! ### Points without some of them -/

section Without

variable {points deleted : List RestorePointRow} {userId : Uuid}

theorem pointsOf_append (points points' : List RestorePointRow) (userId : Uuid) :
    pointsOf (points ++ points') userId = pointsOf points userId ++ pointsOf points' userId :=
  List.filter_append _ _

theorem pointsOf_eq_nil (h : ∀ row ∈ points, row.userId ≠ userId) : pointsOf points userId = [] :=
  List.filter_eq_nil_iff.mpr fun row hrow => by simpa using h row hrow

theorem pointsOf_eq_self (h : ∀ row ∈ points, row.userId = userId) :
    pointsOf points userId = points :=
  List.filter_eq_self.mpr fun row hrow => by simpa using h row hrow

theorem sumBytes_append (points points' : List RestorePointRow) :
    sumBytes (points ++ points') = sumBytes points + sumBytes points' := by
  simp [sumBytes]

theorem sumBytes_perm {points' : List RestorePointRow} (h : points.Perm points') :
    sumBytes points = sumBytes points' :=
  (h.map _).sum_eq

theorem sumBytes_sublist {points' : List RestorePointRow} (h : points.Sublist points') :
    sumBytes points ≤ sumBytes points' :=
  (h.map RestorePointRow.sizeBytes).sum_le_sum fun _ _ => Nat.zero_le _

theorem without_sublist (points deleted : List RestorePointRow) :
    (without points deleted).Sublist points :=
  List.filter_sublist

/-- Rows of a table are told apart by their keys. -/
theorem eq_of_key_eq (hkeys : (points.map RestorePointRow.key).Nodup) {a b : RestorePointRow}
    (ha : a ∈ points) (hb : b ∈ points) (hkey : a.key = b.key) : a = b :=
  List.inj_on_of_nodup_map hkeys ha hb hkey

/-- **What is left and what was deleted** are the table. -/
theorem without_append_perm (hkeys : (points.map RestorePointRow.key).Nodup)
    (hdeleted : deleted.Nodup) (hmem : ∀ row ∈ deleted, row ∈ points) :
    (without points deleted ++ deleted).Perm points := by
  have hpicked : (points.filter fun row => !decide (row.key ∉ deleted.map RestorePointRow.key)).Perm
      deleted := by
    refine (List.perm_ext_iff_of_nodup (hkeys.of_map.filter _) hdeleted).mpr fun row => ?_
    simp only [List.mem_filter, decide_not, Bool.not_not, decide_eq_true_eq, List.mem_map]
    constructor
    · rintro ⟨hrow, other, hother, hkey⟩
      rwa [← eq_of_key_eq hkeys (hmem other hother) hrow hkey]
    · exact fun hrow => ⟨hmem row hrow, row, hrow, rfl⟩
  exact (hpicked.symm.append_left _).trans (List.filter_append_perm _ points)

theorem pointsOf_without_perm (hkeys : (points.map RestorePointRow.key).Nodup)
    (hdeleted : deleted.Nodup) (hmem : ∀ row ∈ deleted, row ∈ points) (userId : Uuid) :
    (pointsOf (without points deleted) userId ++ pointsOf deleted userId).Perm
      (pointsOf points userId) := by
  rw [← pointsOf_append]
  exact (without_append_perm hkeys hdeleted hmem).filter _

/-- The bytes of what is left and of what was deleted. -/
theorem sumBytes_without (hkeys : (points.map RestorePointRow.key).Nodup) (hdeleted : deleted.Nodup)
    (hmem : ∀ row ∈ deleted, row ∈ points) (userId : Uuid) :
    sumBytes (pointsOf (without points deleted) userId) + sumBytes (pointsOf deleted userId) =
      sumBytes (pointsOf points userId) := by
  rw [← sumBytes_append]
  exact sumBytes_perm (pointsOf_without_perm hkeys hdeleted hmem userId)

end Without

/-! ### Points with another pin -/

section Repinned

variable {points : List RestorePointRow} {key : PointKey} {pinned : Bool}

/-- A change of a pin changes no other column. -/
theorem map_repinned {β : Type} {f : RestorePointRow → β}
    (hf : ∀ (row : RestorePointRow) (pinned : Bool), f { row with pinned := pinned } = f row) :
    (repinned points key pinned).map f = points.map f := by
  rw [repinned, List.map_map]
  refine List.map_congr_left fun row _ => ?_
  show f (if row.key = key then { row with pinned := pinned } else row) = f row
  split
  · exact hf row pinned
  · rfl

theorem sumBytes_repinned : sumBytes (repinned points key pinned) = sumBytes points :=
  congrArg List.sum (map_repinned fun _ _ => rfl)

theorem pointsOf_repinned (userId : Uuid) :
    pointsOf (repinned points key pinned) userId = repinned (pointsOf points userId) key pinned := by
  rw [repinned, repinned, pointsOf, List.filter_map]
  refine congrArg _ (List.filter_congr fun row _ => ?_)
  show decide ((if row.key = key then { row with pinned := pinned } else row).userId = userId) = _
  split <;> rfl

theorem mem_repinned {row : RestorePointRow} (hrow : row ∈ points) (hkey : row.key ≠ key) :
    row ∈ repinned points key pinned :=
  List.mem_map.mpr ⟨row, hrow, if_neg hkey⟩

theorem repinned_eq_self (h : key ∉ points.map RestorePointRow.key) :
    repinned points key pinned = points := by
  refine (List.map_congr_left fun row hrow => if_neg ?_).trans (List.map_id _)
  exact fun hkey => h (List.mem_map.mpr ⟨row, hrow, hkey⟩)

/-- One point more at most is pinned, and none if it is unpinned. -/
theorem pinnedCount_repinned (hkeys : (points.map RestorePointRow.key).Nodup) :
    pinnedCount (repinned points key pinned) ≤ pinnedCount points + pinned.toNat := by
  induction points with
  | nil => exact Nat.zero_le _
  | cons row points ih =>
    obtain ⟨hfresh, hkeys⟩ := List.nodup_cons.mp hkeys
    by_cases hkey : row.key = key
    · have hrest : repinned points key pinned = points := repinned_eq_self (hkey ▸ hfresh)
      have hhead : repinned (row :: points) key pinned = { row with pinned := pinned } :: points := by
        rw [repinned, List.map_cons, if_pos hkey]
        exact congrArg _ hrest
      rw [hhead, pinnedCount, pinnedCount, List.countP_cons, List.countP_cons]
      cases pinned <;> simp
    · have hhead : repinned (row :: points) key pinned = row :: repinned points key pinned := by
        rw [repinned, List.map_cons, if_neg hkey]
        rfl
      have := ih hkeys
      rw [hhead, pinnedCount, pinnedCount, List.countP_cons, List.countP_cons]
      rw [pinnedCount, pinnedCount] at this
      omega

end Repinned

namespace PointServer

variable {limits : RestorePointLimits} {requireEncryption : Bool} {s s' : PointServer} {slot : ℕ}

/-! ### The invariant -/

/-- **What every reader sees**: the counts are right and the caps hold. -/
structure Accounted (limits : RestorePointLimits) (s : PointServer) : Prop where
  keys : (s.points.map RestorePointRow.key).Nodup
  bytes : ∀ userId, (s.restorePointBytes userId).getD 0 = sumBytes (pointsOf s.points userId)
  rows : ∀ row ∈ s.points, (s.restorePointBytes row.userId).isSome = true
  fits : ∀ userId, Fits limits (pointsOf s.points userId)
  pinned : ∀ userId, (pinnedCount (pointsOf s.points userId) : ℤ) ≤ limits.maxPinned

/-- Rows a slot has deleted: they are still in the table, and locked. -/
structure Deleting (s : PointServer) (slot : ℕ) (deleted : List RestorePointRow) : Prop where
  nodup : deleted.Nodup
  mem : ∀ row ∈ deleted, row ∈ s.points
  locked : ∀ row ∈ deleted, s.rowLocks row.key = some slot

/-- An upload that has inserted its row. -/
structure Uploading (s : PointServer) (slot : ℕ) (pending : PendingUpload) : Prop where
  lock : s.userLocks pending.row.userId = some slot
  fresh : pending.row.key ∉ s.points.map RestorePointRow.key
  unpinned : pending.row.pinned = false
  evicted : s.Deleting slot pending.evicted
  owner : ∀ row ∈ pending.evicted, row.userId = pending.row.userId
  delta : pending.delta = pending.row.sizeBytes - sumBytes pending.evicted

/-- What a handler under way knows. -/
def CallOk (limits : RestorePointLimits) (s : PointServer) (slot : ℕ) : PointCall → Prop
  | .uploadLock _ _ _ | .pinLock _ _ _ | .deleteLock _ _ | .pruneRows _ => True
  | .uploadLookup userId _ _ | .uploadSettings userId _ _ | .uploadRecent userId _ _
  | .uploadInsert userId _ _ | .pinLookup userId _ _ | .pinCount userId _ | .deleteRow userId _ =>
      s.userLocks userId = some slot
  | .uploadUsage pending | .uploadEvict pending => s.Uploading slot pending
  | .uploadAdjust pending => s.Uploading slot pending ∧ Fits limits (s.uploadView pending)
  | .uploadCommit pending bytes =>
      (s.Uploading slot pending ∧ Fits limits (s.uploadView pending)) ∧
        s.statsLocks pending.row.userId = some slot ∧
          bytes = sumBytes (pointsOf s.points pending.row.userId) + pending.delta
  | .pinUpdate userId _ pinned => s.userLocks userId = some slot ∧
      (pinned = true → (pinnedCount (pointsOf s.points userId) : ℤ) < limits.maxPinned)
  | .pinCommit row pinned => s.userLocks row.userId = some slot ∧ s.rowLocks row.key = some slot ∧
      (pinned = true → (pinnedCount (pointsOf s.points row.userId) : ℤ) < limits.maxPinned)
  | .deleteAdjust row => s.Deleting slot [row]
  | .deleteCommit row bytes => s.Deleting slot [row] ∧ s.statsLocks row.userId = some slot ∧
      bytes = sumBytes (pointsOf s.points row.userId) - row.sizeBytes
  | .pruneAdjust deleted => s.Deleting slot deleted ∧ ∀ row ∈ deleted, row.pinned = false
  | .pruneCommit deleted bytes => (s.Deleting slot deleted ∧ ∀ row ∈ deleted, row.pinned = false) ∧
      (∀ userId ∈ usersOf deleted, s.statsLocks userId = some slot ∧
        bytes.lookup userId = some ((sumBytes (pointsOf s.points userId) : ℤ) -
          sumBytes (pointsOf deleted userId))) ∧
      ∀ userId ∉ usersOf deleted, bytes.lookup userId = none

/-- What the handler of a slot knows. -/
def Own (limits : RestorePointLimits) (slot : ℕ) (s : PointServer) : Prop :=
  ∀ call, s.calls slot = some call → CallOk limits s slot call

/-! ### What a handler relies on -/

/-- What keeps all that the handler of a slot knows: its locks stay, and so do the rows it has
locked; of a user it has locked points only vanish; and the bytes of a user whose count it has
locked stay. -/
structure Keeps (slot : ℕ) (s s' : PointServer) : Prop where
  userLocks : ∀ userId, s.userLocks userId = some slot → s'.userLocks userId = some slot
  rowLocks : ∀ key, s.rowLocks key = some slot → s'.rowLocks key = some slot
  statsLocks : ∀ userId, s.statsLocks userId = some slot → s'.statsLocks userId = some slot
  rows : ∀ row ∈ s.points, s.rowLocks row.key = some slot → row ∈ s'.points
  points : ∀ userId, s.userLocks userId = some slot →
    (pointsOf s'.points userId).Sublist (pointsOf s.points userId)
  bytes : ∀ userId, s.statsLocks userId = some slot →
    sumBytes (pointsOf s'.points userId) = sumBytes (pointsOf s.points userId)

/-- **What the handler of a slot relies on** while others run. -/
structure Rely (slot : ℕ) (s s' : PointServer) : Prop extends Keeps slot s s' where
  calls : s'.calls slot = s.calls slot

theorem Fits.sublist {view view' : List RestorePointRow} (h : Fits limits view)
    (hsub : view'.Sublist view) : Fits limits view' := by
  have hlength := hsub.length_le
  have hbytes := sumBytes_sublist hsub
  exact ⟨by have := h.1; omega, by have := h.2; omega⟩

theorem pinnedCount_sublist {points points' : List RestorePointRow} (h : points'.Sublist points) :
    pinnedCount points' ≤ pinnedCount points :=
  h.countP_le

section Stable

variable (hkeeps : Keeps slot s s')

include hkeeps

theorem Deleting.keeps {deleted : List RestorePointRow} (h : s.Deleting slot deleted) :
    s'.Deleting slot deleted where
  nodup := h.nodup
  mem row hrow := hkeeps.rows row (h.mem row hrow) (h.locked row hrow)
  locked row hrow := hkeeps.rowLocks _ (h.locked row hrow)

/-- The view of an upload loses points only. -/
theorem Keeps.uploadView {pending : PendingUpload}
    (hlock : s.userLocks pending.row.userId = some slot) :
    (s'.uploadView pending).Sublist (s.uploadView pending) := by
  have hswap : ∀ points : List RestorePointRow,
      pointsOf (without points pending.evicted) pending.row.userId =
        without (pointsOf points pending.row.userId) pending.evicted :=
    fun points => List.filter_comm _ _ _
  rw [PointServer.uploadView, PointServer.uploadView, hswap, hswap]
  exact ((hkeeps.points _ hlock).filter _).append_right _

theorem Uploading.keeps {pending : PendingUpload} (h : s.Uploading slot pending) :
    s'.Uploading slot pending where
  lock := hkeeps.userLocks _ h.lock
  fresh := by
    intro hmem
    obtain ⟨row, hrow, hkey⟩ := List.mem_map.mp hmem
    refine h.fresh (List.mem_map.mpr ⟨row, ?_, hkey⟩)
    have huser : row.userId = pending.row.userId := congrArg Prod.fst hkey
    have hmem' : row ∈ pointsOf s'.points pending.row.userId :=
      List.mem_filter.mpr ⟨hrow, decide_eq_true huser⟩
    exact (List.mem_filter.mp ((hkeeps.points _ h.lock).subset hmem')).1
  unpinned := h.unpinned
  evicted := h.evicted.keeps hkeeps
  owner := h.owner
  delta := h.delta

/-- **What a handler knows survives** what it relies on. -/
theorem CallOk.keeps {call : PointCall} (h : CallOk limits s slot call) : CallOk limits s' slot call := by
  have hpins : ∀ {userId}, s.userLocks userId = some slot →
      (pinnedCount (pointsOf s.points userId) : ℤ) < limits.maxPinned →
        (pinnedCount (pointsOf s'.points userId) : ℤ) < limits.maxPinned := by
    intro userId hlock hlt
    have := pinnedCount_sublist (hkeeps.points userId hlock)
    omega
  cases call with
  | uploadLock | pinLock | deleteLock | pruneRows => trivial
  | uploadLookup | uploadSettings | uploadRecent | uploadInsert | pinLookup | pinCount | deleteRow =>
    exact hkeeps.userLocks _ h
  | uploadUsage | uploadEvict => exact Uploading.keeps hkeeps h
  | uploadAdjust pending =>
    exact ⟨h.1.keeps hkeeps, h.2.sublist (hkeeps.uploadView h.1.lock)⟩
  | uploadCommit pending bytes =>
    obtain ⟨⟨hup, hfits⟩, hstats, hbytes⟩ := h
    refine ⟨⟨hup.keeps hkeeps, hfits.sublist (hkeeps.uploadView hup.lock)⟩,
      hkeeps.statsLocks _ hstats, ?_⟩
    rw [hkeeps.bytes _ hstats]
    exact hbytes
  | pinUpdate userId id pinned =>
    exact ⟨hkeeps.userLocks _ h.1, fun hpinned => hpins h.1 (h.2 hpinned)⟩
  | pinCommit row pinned =>
    exact ⟨hkeeps.userLocks _ h.1, hkeeps.rowLocks _ h.2.1, fun hpinned => hpins h.1 (h.2.2 hpinned)⟩
  | deleteAdjust row => exact Deleting.keeps hkeeps h
  | deleteCommit row bytes =>
    refine ⟨h.1.keeps hkeeps, hkeeps.statsLocks _ h.2.1, ?_⟩
    rw [hkeeps.bytes _ h.2.1]
    exact h.2.2
  | pruneAdjust deleted => exact ⟨h.1.keeps hkeeps, h.2⟩
  | pruneCommit deleted bytes =>
    refine ⟨⟨h.1.1.keeps hkeeps, h.1.2⟩, fun userId hmem => ?_, h.2.2⟩
    obtain ⟨hstats, hlookup⟩ := h.2.1 userId hmem
    rw [hkeeps.bytes _ hstats]
    exact ⟨hkeeps.statsLocks _ hstats, hlookup⟩

end Stable

theorem Own.rely (h : Own limits slot s) (hrely : Rely slot s s') : Own limits slot s' := by
  intro call hcall
  rw [hrely.calls] at hcall
  exact (h call hcall).keeps hrely.toKeeps

/-! ### Statements that change no row -/

/-- A step of a slot that commits nothing. -/
structure Quiet (slot : ℕ) (s s' : PointServer) : Prop where
  points : s'.points = s.points
  bytes : s'.restorePointBytes = s.restorePointBytes
  calls : ∀ other, other ≠ slot → s'.calls other = s.calls other
  userLocks : ∀ other, other ≠ slot → ∀ userId, s.userLocks userId = some other →
    s'.userLocks userId = some other
  rowLocks : ∀ other, other ≠ slot → ∀ key, s.rowLocks key = some other →
    s'.rowLocks key = some other
  statsLocks : ∀ other, other ≠ slot → ∀ userId, s.statsLocks userId = some other →
    s'.statsLocks userId = some other

theorem Quiet.accounted (hquiet : Quiet slot s s') (h : Accounted limits s) : Accounted limits s' := by
  obtain ⟨hpoints, hbytes, -⟩ := hquiet
  constructor
  · rw [hpoints]
    exact h.keys
  · rw [hpoints, hbytes]
    exact h.bytes
  · rw [hpoints, hbytes]
    exact h.rows
  · rw [hpoints]
    exact h.fits
  · rw [hpoints]
    exact h.pinned

theorem Quiet.rely (hquiet : Quiet slot s s') {other : ℕ} (hne : other ≠ slot) : Rely other s s' where
  calls := hquiet.calls other hne
  userLocks := hquiet.userLocks other hne
  rowLocks := hquiet.rowLocks other hne
  statsLocks := hquiet.statsLocks other hne
  rows row hrow _ := by rwa [hquiet.points]
  points userId _ := by rw [hquiet.points]
  bytes userId _ := by rw [hquiet.points]

theorem quiet_refl : Quiet slot s s :=
  ⟨rfl, rfl, fun _ _ => rfl, fun _ _ _ h => h, fun _ _ _ h => h, fun _ _ _ h => h⟩

theorem quiet_goto (call : PointCall) : Quiet slot s (s.goto slot call) :=
  ⟨rfl, rfl, fun _ hne => Function.update_of_ne hne _ _, fun _ _ _ h => h, fun _ _ _ h => h,
    fun _ _ _ h => h⟩

theorem quiet_release : Quiet slot s (s.release slot) :=
  ⟨rfl, rfl, fun _ hne => Function.update_of_ne hne _ _,
    fun _ hne _ h => (Locks.release_eq_some_of_ne hne).mpr h,
    fun _ hne _ h => (Locks.release_eq_some_of_ne hne).mpr h,
    fun _ hne _ h => (Locks.release_eq_some_of_ne hne).mpr h⟩

theorem quiet_finish (answer : Except PointError Unit) : Quiet slot s (s.finish slot answer) := by
  obtain ⟨h₁, h₂, h₃, h₄, h₅, h₆⟩ := @quiet_release s slot
  exact ⟨h₁, h₂, h₃, h₄, h₅, h₆⟩

/-- A row lock is taken. -/
theorem quiet_lockRows {keys : List PointKey} (hfree : ∀ key ∈ keys, s.rowLocks.free slot key = true)
    (call : PointCall) :
    Quiet slot s (goto { s with rowLocks := s.rowLocks.acquireAll slot keys } slot call) :=
  ⟨rfl, rfl, fun _ hne => Function.update_of_ne hne _ _, fun _ _ _ h => h,
    fun _ hne _ h => (Locks.acquireAll_eq_some_of_ne hne hfree).mpr h, fun _ _ _ h => h⟩

theorem quiet_lockStats {users : List Uuid} (hfree : ∀ userId ∈ users, s.statsLocks.free slot userId = true)
    (call : PointCall) :
    Quiet slot s (goto { s with statsLocks := s.statsLocks.acquireAll slot users } slot call) :=
  ⟨rfl, rfl, fun _ hne => Function.update_of_ne hne _ _, fun _ _ _ h => h, fun _ _ _ h => h,
    fun _ hne _ h => (Locks.acquireAll_eq_some_of_ne hne hfree).mpr h⟩

theorem quiet_lockUser {userId : Uuid} (hfree : s.userLocks.free slot userId = true)
    (call : PointCall) :
    Quiet slot s (goto { s with userLocks := s.userLocks.acquire slot userId } slot call) :=
  ⟨rfl, rfl, fun _ hne => Function.update_of_ne hne _ _,
    fun _ hne _ h => (Locks.acquire_eq_some_of_ne hne hfree).mpr h, fun _ _ _ h => h,
    fun _ _ _ h => h⟩

/-! ### A slot that takes locks -/

theorem keeps_goto (call : PointCall) : Keeps slot s (s.goto slot call) :=
  ⟨fun _ h => h, fun _ h => h, fun _ h => h, fun _ h _ => h, fun _ _ => List.Sublist.refl _,
    fun _ _ => rfl⟩

theorem keeps_lockRows (keys : List PointKey) (call : PointCall) :
    Keeps slot s (goto { s with rowLocks := s.rowLocks.acquireAll slot keys } slot call) :=
  ⟨fun _ h => h, fun _ h => Locks.acquireAll_of_held h, fun _ h => h, fun _ h _ => h,
    fun _ _ => List.Sublist.refl _, fun _ _ => rfl⟩

theorem keeps_lockStats (users : List Uuid) (call : PointCall) :
    Keeps slot s (goto { s with statsLocks := s.statsLocks.acquireAll slot users } slot call) :=
  ⟨fun _ h => h, fun _ h => h, fun _ h => Locks.acquireAll_of_held h, fun _ h _ => h,
    fun _ _ => List.Sublist.refl _, fun _ _ => rfl⟩

theorem own_goto {call : PointCall} (hok : CallOk limits (s.goto slot call) slot call) :
    Own limits slot (s.goto slot call) := by
  intro other hother
  obtain rfl : call = other := by simpa [goto] using hother
  exact hok

theorem own_finish (answer : Except PointError Unit) : Own limits slot (s.finish slot answer) := by
  intro call hcall
  simp [finish, release] at hcall

/-! ### Commits -/

/-- What a slot may commit: counts that are right, within the caps; rows that it has not locked
stay; of users that it has not locked points only vanish; and the bytes stay of users whose count it
has not locked. -/
structure Committable (limits : RestorePointLimits) (s : PointServer) (slot : ℕ)
    (points : List RestorePointRow) (bytes : Uuid → Option ℤ) : Prop where
  accounted : Accounted limits { s with points := points, restorePointBytes := bytes }
  keeps : ∀ row ∈ s.points, s.rowLocks row.key ≠ some slot → row ∈ points
  loses : ∀ userId, s.userLocks userId ≠ some slot →
    (pointsOf points userId).Sublist (pointsOf s.points userId)
  sums : ∀ userId, s.statsLocks userId ≠ some slot →
    sumBytes (pointsOf points userId) = sumBytes (pointsOf s.points userId)

section Commit

variable {points : List RestorePointRow} {bytes : Uuid → Option ℤ}

theorem Committable.finish (h : Committable limits s slot points bytes) :
    Accounted limits ((({ s with points := points, restorePointBytes := bytes } : PointServer)).finish
      slot (.ok ())) :=
  (quiet_finish _).accounted h.accounted

theorem Committable.rely (h : Committable limits s slot points bytes) {other : ℕ}
    (hne : other ≠ slot) : Rely other s ((({ s with points := points, restorePointBytes := bytes } :
      PointServer)).finish slot (.ok ())) where
  calls := Function.update_of_ne hne _ _
  userLocks _ hlock := (Locks.release_eq_some_of_ne hne).mpr hlock
  rowLocks _ hlock := (Locks.release_eq_some_of_ne hne).mpr hlock
  statsLocks _ hlock := (Locks.release_eq_some_of_ne hne).mpr hlock
  rows row hrow hlock := h.keeps row hrow (by rw [hlock]; simpa using hne)
  points userId hlock := h.loses userId (by rw [hlock]; simpa using hne)
  bytes userId hlock := h.sums userId (by rw [hlock]; simpa using hne)

/-- A row that is not locked is not deleted. -/
theorem Deleting.mem_without {deleted : List RestorePointRow} (hdeleting : s.Deleting slot deleted)
    {row : RestorePointRow} (hrow : row ∈ s.points) (hunlocked : s.rowLocks row.key ≠ some slot) :
    row ∈ without s.points deleted := by
  refine List.mem_filter.mpr ⟨hrow, decide_eq_true fun hmem => ?_⟩
  obtain ⟨other, hother, hkey⟩ := List.mem_map.mp hmem
  exact hunlocked (hkey ▸ hdeleting.locked other hother)

/-- Rows are deleted, and their bytes given back. -/
theorem Deleting.committable {deleted : List RestorePointRow} (h : Accounted limits s)
    (hdeleting : s.Deleting slot deleted)
    (hlocked : ∀ row ∈ deleted, s.statsLocks row.userId = some slot)
    (hbytes : ∀ userId, (bytes userId).getD 0 =
      ((sumBytes (pointsOf (without s.points deleted) userId) : ℕ) : ℤ))
    (hrows : ∀ userId, (s.restorePointBytes userId).isSome = true → (bytes userId).isSome = true) :
    Committable limits s slot (without s.points deleted) bytes := by
  have hsub := without_sublist s.points deleted
  refine ⟨⟨(hsub.map _).nodup h.keys, hbytes, ?_, ?_, ?_⟩, ?_, ?_, ?_⟩
  · exact fun row hrow => hrows _ (h.rows row (hsub.subset hrow))
  · exact fun userId => (h.fits userId).sublist (hsub.filter _)
  · intro userId
    have hpinned := h.pinned userId
    have hle := pinnedCount_sublist (hsub.filter fun row => decide (row.userId = userId))
    show (pinnedCount (pointsOf (without s.points deleted) userId) : ℤ) ≤ limits.maxPinned
    have : pinnedCount (pointsOf (without s.points deleted) userId) ≤
        pinnedCount (pointsOf s.points userId) := hle
    omega
  · exact fun row hrow hunlocked => hdeleting.mem_without hrow hunlocked
  · exact fun userId _ => hsub.filter _
  · rintro userId hunlocked
    have hnone : pointsOf deleted userId = [] :=
      pointsOf_eq_nil fun row hrow huser => hunlocked (huser ▸ hlocked row hrow)
    have := sumBytes_without h.keys hdeleting.nodup hdeleting.mem userId
    rw [hnone] at this
    exact this

/-- The bytes of deleted rows are a part of the count. -/
theorem Deleting.sumBytes_le {deleted : List RestorePointRow} (h : Accounted limits s)
    (hdeleting : s.Deleting slot deleted) (userId : Uuid) :
    sumBytes (pointsOf deleted userId) ≤ sumBytes (pointsOf s.points userId) := by
  have := sumBytes_without h.keys hdeleting.nodup hdeleting.mem userId
  omega

theorem committable_delete {row : RestorePointRow} {count : ℤ} (h : Accounted limits s)
    (hok : CallOk limits s slot (.deleteCommit row count)) :
    Committable limits s slot (without s.points [row])
      (Function.update s.restorePointBytes row.userId (some count)) := by
  obtain ⟨hdeleting, hstats, hcount⟩ := hok
  refine hdeleting.committable h (List.forall_mem_singleton.mpr hstats) (fun userId => ?_)
    fun userId hsome => ?_
  · have hsum := sumBytes_without h.keys hdeleting.nodup hdeleting.mem userId
    by_cases huser : userId = row.userId
    · subst huser
      have hself : pointsOf [row] row.userId = [row] := pointsOf_eq_self (by simp)
      rw [hself] at hsum
      simp only [Function.update_self, Option.getD_some, hcount, sumBytes, List.map_cons,
        List.map_nil, List.sum_cons, List.sum_nil] at hsum ⊢
      omega
    · have hnone : pointsOf [row] userId = [] := pointsOf_eq_nil (by simpa using Ne.symm huser)
      rw [hnone] at hsum
      rw [Function.update_of_ne huser, h.bytes, ← hsum]
      rfl
  · by_cases huser : userId = row.userId
    · subst huser
      simp
    · rwa [Function.update_of_ne huser]

theorem committable_prune {deleted : List RestorePointRow} {counts : List (Uuid × ℤ)}
    (h : Accounted limits s) (hok : CallOk limits s slot (.pruneCommit deleted counts)) :
    Committable limits s slot (without s.points deleted) (fun userId =>
      (counts.lookup userId).orElse fun _ => s.restorePointBytes userId) := by
  obtain ⟨⟨hdeleting, -⟩, hcounts, hothers⟩ := hok
  have husers : ∀ row ∈ deleted, row.userId ∈ usersOf deleted :=
    fun row hrow => List.mem_dedup.mpr (List.mem_map_of_mem hrow)
  refine hdeleting.committable h (fun row hrow => (hcounts _ (husers row hrow)).1)
    (fun userId => ?_) fun userId hsome => ?_
  · have hsum := sumBytes_without h.keys hdeleting.nodup hdeleting.mem userId
    by_cases hmem : userId ∈ usersOf deleted
    · rw [(hcounts userId hmem).2]
      simp only [Option.orElse_some, Option.getD_some]
      omega
    · have hnone : pointsOf deleted userId = [] :=
        pointsOf_eq_nil fun row hrow huser => hmem (huser ▸ husers row hrow)
      rw [hnone] at hsum
      rw [hothers userId hmem, Option.orElse_none, h.bytes, ← hsum]
      rfl
  · by_cases hmem : userId ∈ usersOf deleted
    · rw [(hcounts userId hmem).2]
      rfl
    · rwa [hothers userId hmem, Option.orElse_none]

theorem pointsOf_commit (pending : PendingUpload) (userId : Uuid) :
    pointsOf (without s.points pending.evicted ++ [pending.row]) userId =
      if userId = pending.row.userId then s.uploadView pending
      else pointsOf (without s.points pending.evicted) userId := by
  rw [pointsOf_append]
  split
  · rename_i huser
    subst huser
    rw [PointServer.uploadView]
    exact congrArg _ (pointsOf_eq_self (by simp))
  · rename_i huser
    have hnone : pointsOf [pending.row] userId = [] :=
      pointsOf_eq_nil (by simpa using Ne.symm huser)
    rw [hnone, List.append_nil]

theorem committable_upload {pending : PendingUpload} {count : ℤ} (h : Accounted limits s)
    (hok : CallOk limits s slot (.uploadCommit pending count)) :
    Committable limits s slot (without s.points pending.evicted ++ [pending.row])
      (Function.update s.restorePointBytes pending.row.userId (some count)) := by
  obtain ⟨⟨hup, hfits⟩, hstats, hcount⟩ := hok
  have hsub := without_sublist s.points pending.evicted
  have hsums := sumBytes_without h.keys hup.evicted.nodup hup.evicted.mem
  -- The evicted rows are the user's own.
  have hothers : ∀ userId, userId ≠ pending.row.userId →
      pointsOf pending.evicted userId = [] :=
    fun userId hne => pointsOf_eq_nil fun row hrow huser => hne (huser ▸ hup.owner row hrow)
  have hpinned : ∀ userId, pinnedCount (pointsOf (without s.points pending.evicted) userId) ≤
      pinnedCount (pointsOf s.points userId) :=
    fun userId => pinnedCount_sublist (hsub.filter _)
  refine ⟨⟨?_, fun userId => ?_, ?_, fun userId => ?_, fun userId => ?_⟩, ?_, ?_, ?_⟩
  · show ((without s.points pending.evicted ++ [pending.row]).map RestorePointRow.key).Nodup
    rw [List.map_append, List.nodup_append]
    refine ⟨(hsub.map _).nodup h.keys, List.nodup_singleton _, ?_⟩
    rintro key hkey other hother rfl
    rw [List.map_singleton, List.mem_singleton] at hother
    exact hup.fresh (hother ▸ (hsub.map _).subset hkey)
  · show (Function.update s.restorePointBytes pending.row.userId (some count) userId).getD 0 = _
    rw [pointsOf_commit]
    split
    · rename_i huser
      subst huser
      have hsum := hsums pending.row.userId
      rw [pointsOf_eq_self hup.owner] at hsum
      rw [Function.update_self, Option.getD_some, hcount, hup.delta, PointServer.uploadView,
        sumBytes_append]
      simp only [sumBytes, List.map_cons, List.map_nil, List.sum_cons, List.sum_nil] at hsum ⊢
      omega
    · rename_i huser
      have hsum := hsums userId
      rw [hothers userId huser] at hsum
      rw [Function.update_of_ne huser, h.bytes, ← hsum]
      rfl
  · rintro row hrow
    show (Function.update s.restorePointBytes pending.row.userId (some count) row.userId).isSome = true
    by_cases huser : row.userId = pending.row.userId
    · rw [huser, Function.update_self]
      rfl
    · rw [Function.update_of_ne huser]
      rcases List.mem_append.mp hrow with hrow | hrow
      · exact h.rows row (hsub.subset hrow)
      · exact absurd (congrArg _ (List.mem_singleton.mp hrow)) huser
  · show Fits limits (pointsOf _ userId)
    rw [pointsOf_commit]
    split
    · exact hfits
    · exact (h.fits userId).sublist (hsub.filter _)
  · show (pinnedCount (pointsOf _ userId) : ℤ) ≤ limits.maxPinned
    rw [pointsOf_commit]
    have hle := hpinned userId
    have hcap := h.pinned userId
    split
    · rename_i huser
      subst huser
      have hview : pinnedCount (s.uploadView pending) =
          pinnedCount (pointsOf (without s.points pending.evicted) pending.row.userId) := by
        simp [pinnedCount, PointServer.uploadView, hup.unpinned]
      omega
    · omega
  · exact fun row hrow hunlocked =>
      List.mem_append_left _ (hup.evicted.mem_without hrow hunlocked)
  · rintro userId hunlocked
    have hne : userId ≠ pending.row.userId := fun huser => hunlocked (huser ▸ hup.lock)
    rw [pointsOf_commit, if_neg hne]
    exact hsub.filter _
  · rintro userId hunlocked
    have hne : userId ≠ pending.row.userId := fun huser => hunlocked (huser ▸ hstats)
    have hsum := hsums userId
    rw [hothers userId hne] at hsum
    rw [pointsOf_commit, if_neg hne]
    exact hsum

theorem committable_pin {row : RestorePointRow} {pinned : Bool} (h : Accounted limits s)
    (hok : CallOk limits s slot (.pinCommit row pinned)) :
    Committable limits s slot (repinned s.points row.key pinned) s.restorePointBytes := by
  obtain ⟨hlock, hrow, hcap⟩ := hok
  have hothers : ∀ userId, userId ≠ row.userId →
      pointsOf (repinned s.points row.key pinned) userId = pointsOf s.points userId := by
    rintro userId hne
    rw [pointsOf_repinned]
    refine repinned_eq_self fun hmem => ?_
    obtain ⟨other, hother, hkey⟩ := List.mem_map.mp hmem
    have huser : other.userId = userId := of_decide_eq_true (List.mem_filter.mp hother).2
    exact hne (huser ▸ congrArg Prod.fst hkey)
  have hsums : ∀ userId, sumBytes (pointsOf (repinned s.points row.key pinned) userId) =
      sumBytes (pointsOf s.points userId) :=
    fun userId => by rw [pointsOf_repinned, sumBytes_repinned]
  refine ⟨⟨?_, fun userId => ?_, ?_, fun userId => ⟨?_, ?_⟩, fun userId => ?_⟩, ?_, ?_, ?_⟩
  · show ((repinned s.points row.key pinned).map RestorePointRow.key).Nodup
    rw [map_repinned fun _ _ => rfl]
    exact h.keys
  · show (s.restorePointBytes userId).getD 0 = _
    rw [hsums, h.bytes]
  · rintro other hother
    obtain ⟨old, hold, rfl⟩ := List.mem_map.mp hother
    have := h.rows old hold
    split <;> exact this
  · show ((pointsOf (repinned s.points row.key pinned) userId).length : ℤ) ≤ limits.maxPerAccount
    rw [pointsOf_repinned, repinned, List.length_map]
    exact (h.fits userId).1
  · show (sumBytes (pointsOf (repinned s.points row.key pinned) userId) : ℤ) ≤ _
    rw [hsums]
    exact (h.fits userId).2
  · show (pinnedCount (pointsOf (repinned s.points row.key pinned) userId) : ℤ) ≤ limits.maxPinned
    have hold := h.pinned userId
    by_cases huser : userId = row.userId
    · subst huser
      have hsub : (pointsOf s.points row.userId).Sublist s.points := List.filter_sublist
      have hle : pinnedCount (repinned (pointsOf s.points row.userId) row.key pinned) ≤
          pinnedCount (pointsOf s.points row.userId) + pinned.toNat :=
        pinnedCount_repinned ((hsub.map _).nodup h.keys)
      rw [pointsOf_repinned]
      cases pinned with
      | false => exact (Int.ofNat_le.mpr hle).trans hold
      | true =>
        have hlt := hcap rfl
        rw [Bool.toNat_true] at hle
        omega
    · rw [hothers userId huser]
      exact hold
  · exact fun other hother hunlocked => mem_repinned hother fun hkey => hunlocked (hkey ▸ hrow)
  · rintro userId hunlocked
    rw [hothers userId fun huser => hunlocked (huser ▸ hlock)]
  · exact fun userId _ => hsums userId

end Commit

end PointServer

end HelixSync
