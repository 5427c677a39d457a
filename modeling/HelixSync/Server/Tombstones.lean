import HelixSync.Server.UploadSpec
import HelixSync.Server.Snapshot

/-!
# Tombstones after a batch

The write half of an upload collects the last terminal operation of every object and the
set of restored objects, writes all tombstones, and clears the tombstones of the restored
objects after that. So whether an object has an active tombstone after a batch is decided
by three questions, asked in this order: was it restored in the batch, was it deleted in
the batch, and what was there before (`HelixSync.loadActiveTombstones_writeBatch`).
-/

namespace HelixSync

/-- The ordering key of an operation of a device. -/
def OperationIn.keyOf (op : OperationIn) (deviceId : Uuid) : OrderingKey :=
  ⟨op.lamportTimestamp, deviceId, op.operationId⟩

/-- Whether a batch restores an object. -/
def restoredIn (accepted : List OperationIn) (key : ObjectKey) : Bool :=
  accepted.any fun op => op.isRestore && op.objectKey == key

/-- The last terminal operation of a batch on an object. -/
def lastTerminal? (accepted : List OperationIn) (key : ObjectKey) : Option OperationIn :=
  (accepted.filter fun op => op.isTerminal && op.objectKey == key).getLast?

/-- The key of the active tombstone an object has after a batch, by the one it had before. -/
def activeAfter (deviceId : Uuid) (accepted : List OperationIn) (key : ObjectKey)
    (old : Option OrderingKey) : Option OrderingKey :=
  if restoredIn accepted key then none
  else match lastTerminal? accepted key with
  | some op => some (op.keyOf deviceId)
  | none => old

theorem tombstoned_eq (db : Db) (userId : Uuid) (key : ObjectKey) :
    db.tombstoned userId key = (loadActiveTombstones db userId key).isSome := by
  unfold Db.tombstoned loadActiveTombstones
  rcases db.tombstones userId key with _ | row
  · rfl
  · cases h : row.active <;> simp [Option.filter, h]

theorem loadActiveTombstones_eq_none_iff {db : Db} {userId : Uuid} {key : ObjectKey} :
    loadActiveTombstones db userId key = none ↔ db.tombstoned userId key = false := by
  rw [tombstoned_eq, ← Bool.not_eq_true, Option.isSome_iff_ne_none, not_not]

section Batch

variable {deviceId : Uuid} {accepted : List OperationIn} {key : ObjectKey}
  {old : Option OrderingKey} {op : OperationIn}

theorem restoredIn_iff :
    restoredIn accepted key = true ↔ ∃ op ∈ accepted, op.isRestore = true ∧ op.objectKey = key := by
  simp [restoredIn]

theorem lastTerminal?_eq_none_iff :
    lastTerminal? accepted key = none ↔
      ∀ op ∈ accepted, op.isTerminal = true → op.objectKey ≠ key := by
  simp [lastTerminal?]

@[simp] theorem activeAfter_nil : activeAfter deviceId [] key old = old := rfl

/-- Another object's operation changes nothing. -/
theorem activeAfter_append_of_ne (h : op.objectKey ≠ key) :
    activeAfter deviceId (accepted ++ [op]) key old = activeAfter deviceId accepted key old := by
  simp [activeAfter, restoredIn, lastTerminal?, List.any_append, List.filter_append, h]

/-- An operation that is neither terminal nor a restore changes nothing. -/
theorem activeAfter_append_of_neither (ht : op.isTerminal = false) (hr : op.isRestore = false) :
    activeAfter deviceId (accepted ++ [op]) key old = activeAfter deviceId accepted key old := by
  simp [activeAfter, restoredIn, lastTerminal?, List.any_append, List.filter_append, ht, hr]

/-- A restore clears the tombstone. -/
theorem activeAfter_append_of_isRestore (hr : op.isRestore = true) :
    activeAfter deviceId (accepted ++ [op]) op.objectKey old = none := by
  simp [activeAfter, restoredIn, List.any_append, hr]

/-- A terminal operation writes the tombstone, unless a restore stands before it. -/
theorem activeAfter_append_of_isTerminal (ht : op.isTerminal = true) :
    activeAfter deviceId (accepted ++ [op]) op.objectKey old =
      if restoredIn accepted op.objectKey then none else some (op.keyOf deviceId) := by
  have hr : op.isRestore = false := not_isRestore_of_isTerminal ht
  simp [activeAfter, restoredIn, lastTerminal?, List.any_append, List.filter_append, ht, hr]

end Batch

section Write

variable {now : DateTime} {device : AuthenticatedDevice} {accepted : List OperationIn}
  {lastSeq : ℤ} {db db' : Db}

theorem mem_restores_writesOf {userId : Uuid} {key : ObjectKey} :
    key ∈ (db.writesOf userId accepted).restores ↔ restoredIn accepted key = true := by
  rw [Db.writesOf, mem_restores, restoredIn_iff]
  have hmap := map_snd_numbered (db.currentCursor userId + 1) accepted
  constructor
  · rintro ⟨e, he, hr, hkey⟩
    exact ⟨e.2, hmap ▸ List.mem_map_of_mem he, hr, hkey⟩
  · rintro ⟨op, hop, hr, hkey⟩
    rw [← hmap] at hop
    obtain ⟨e, he, rfl⟩ := List.mem_map.mp hop
    exact ⟨e, he, hr, hkey⟩

/-- The tombstone collected for an object is that of its last terminal operation. -/
theorem get_tombstones_writesOf (userId : Uuid) (key : ObjectKey) :
    ((db.writesOf userId accepted).tombstones.get key).map
        (fun v => (v.lamportTimestamp, v.operationId)) =
      (lastTerminal? accepted key).map fun op => (op.lamportTimestamp, op.operationId) := by
  have hmap := map_snd_numbered (db.currentCursor userId + 1) accepted
  have hlast : lastTerminal? accepted key =
      ((numbered (db.currentCursor userId + 1) accepted).filter fun e =>
        e.2.isTerminal = true ∧ e.2.objectKey = key).getLast?.map Prod.snd := by
    rw [lastTerminal?, ← List.getLast?_map]
    congr 1
    conv_lhs => rw [← hmap, List.filter_map]
    congr 1
    exact List.filter_congr fun e _ => by simp [Bool.decide_and, beq_eq_decide]
  rw [Db.writesOf, get_tombstones, hlast, Option.map_map, Option.map_map]
  rfl

/-- **The tombstone of an object after a batch.** -/
theorem loadActiveTombstones_writeBatch (h : writeBatch now device accepted lastSeq db = some db')
    (userId : Uuid) (key : ObjectKey) :
    loadActiveTombstones db' userId key =
      if userId = device.userId then
        activeAfter device.deviceId accepted key (loadActiveTombstones db userId key)
      else loadActiveTombstones db userId key := by
  obtain ⟨table, -, rfl⟩ := (writeBatch_eq_some_iff.mp h).2
  by_cases hu : userId = device.userId
  · subst hu
    rw [if_pos rfl, loadActiveTombstones]
    dsimp only
    rw [Function.update_self, BatchWrites.writeTombstone]
    have hget := @get_tombstones_writesOf accepted db device.userId key
    by_cases hr : restoredIn accepted key = true
    · have hoff : ∀ row? : Option TombstoneRow, ((row?.map fun row =>
          { row with active := false }).filter TombstoneRow.active).map
            TombstoneRow.orderingKey = none := by
        rintro (_ | row) <;> rfl
      rw [if_pos (mem_restores_writesOf.mpr hr), activeAfter, if_pos hr]
      exact hoff _
    · rw [if_neg fun hmem => hr (mem_restores_writesOf.mp hmem), activeAfter, if_neg hr]
      rcases hw : (db.writesOf device.userId accepted).tombstones.get key with _ | v
      · rw [hw] at hget
        have hnone : lastTerminal? accepted key = none := by
          simpa using hget.symm
        rw [hnone]
        rfl
      · rw [hw] at hget
        obtain ⟨op, hop, heq⟩ := Option.map_eq_some_iff.mp hget.symm
        obtain ⟨hl, hid⟩ := Prod.mk.inj heq
        rw [hop]
        simp [TombstoneRow.orderingKey, OperationIn.keyOf, hl, hid, Option.filter]
  · rw [if_neg hu, loadActiveTombstones, loadActiveTombstones]
    dsimp only
    rw [Function.update_of_ne hu]

end Write

end HelixSync
