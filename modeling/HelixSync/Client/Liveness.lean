import Mathlib.Data.List.MinMax
import HelixSync.Lib.LiveSlot
import HelixSync.Client.BookmarkFields

/-!
# Whether liveness depends on the order of delivery

Every operation on a bookmark or a folder writes its `liveness` slot: a delete writes
`deleted`, all others write `live`. The slot is a `LiveSlot`
(`HelixSync.Client.map_toMark_resolveSlot`), so the exception that protects a delete
against moves makes the outcome depend on the order of delivery in exactly one case: a
delete below a create, update or restore that is itself below a move. Delivered in the
order of their keys, the three leave the object live. Delivered with the delete last,
they leave it deleted, since by then the move holds the slot and the delete replaces it
(`HelixSync.Client.not_orderIndependent`).

`HelixSync.Client.orderIndependent_iff` says that this is the only case.
-/

namespace HelixSync

namespace Client

open LiveSlot (Mark IsDeleted)

/-- The `liveness` value of an object, if it has one. -/
def livenessOf (store : FieldStore) (objectId : Uuid) : Option (Option Json) :=
  (store (objectId, .liveness)).map IncomingField.value

/-- Every two orders of delivery, split into any slices, give the same `liveness` value. -/
def OrderIndependent (objectId : Uuid) (items : List RemoteItem) : Prop :=
  ∀ slices slices' : List (List RemoteItem), slices.flatten.Perm items →
    slices'.flatten.Perm items →
      livenessOf (applySlices emptyStore slices) objectId =
        livenessOf (applySlices emptyStore slices') objectId

/-- The operation types of bookmarks and folders. -/
def bookmarkOperationTypes : List OperationType := [.create, .update, .move, .delete, .restore]

/-- Whether an operation writes the object: a create, an update or a restore. -/
def isWrite (item : RemoteItem) : Bool :=
  item.1.operationType == .create || item.1.operationType == .update
    || item.1.operationType == .restore

/-- The operations settle the object: there is no delete, or a delete has a higher key than
every write, or every move has a lower key than some write. -/
def Settled (items : List RemoteItem) : Prop :=
  (∀ item ∈ items, item.1.operationType ≠ .delete) ∨
  (∃ d ∈ items, d.1.operationType = .delete ∧
    ∀ n ∈ items, isWrite n = true → n.1.key < d.1.key) ∨
  (∀ m ∈ items, m.1.operationType = .move → ∃ n ∈ items, isWrite n = true ∧ m.1.key < n.1.key)

/-! ### The slot as a `LiveSlot` -/

/-- The mark a record of the slot stands for. -/
def toMark (record : FieldStateRecord) : Mark OrderingKey :=
  match record.operationType with
  | .delete => .deleted record.key
  | .move => .moved record.key
  | _ => .present record.key

/-- The value a `liveness` record has by its operation type. -/
def livenessValue (operationType : OperationType) : Json :=
  if operationType = .delete then deleted else live

/-- The record an operation leaves in the `liveness` slot. -/
def livenessRecord (item : RemoteItem) : FieldStateRecord :=
  ⟨item.1.key, item.1.operationType, some (livenessValue item.1.operationType)⟩

theorem key_toMark (record : FieldStateRecord) : (toMark record).key = record.key := by
  unfold toMark
  split <;> rfl

theorem toMark_of_delete {record : FieldStateRecord} (h : record.operationType = .delete) :
    toMark record = .deleted record.key := by
  rw [toMark, h]

theorem toMark_of_move {record : FieldStateRecord} (h : record.operationType = .move) :
    toMark record = .moved record.key := by
  rw [toMark, h]

theorem toMark_of_ne {record : FieldStateRecord} (hd : record.operationType ≠ .delete)
    (hm : record.operationType ≠ .move) : toMark record = .present record.key := by
  unfold toMark
  split
  · rename_i h
    exact absurd h hd
  · rename_i h
    exact absurd h hm
  · rfl

theorem isDeleted_livenessValue (t : OperationType) :
    isDeleted (some (livenessValue t)) = true ↔ t = .delete := by
  unfold livenessValue
  split
  · rename_i h
    simp [isDeleted, deleted, h]
  · rename_i h
    simp [isDeleted, live, h]

/-- **The slot is a `LiveSlot`**: one value does to the record what its mark does. -/
theorem map_toMark_resolveSlot (current : Option FieldStateRecord)
    (hcurrent : ∀ r ∈ current, r.value = some (livenessValue r.operationType))
    (incoming : IncomingField) :
    (resolveSlot .liveness current incoming).map toMark =
      LiveSlot.step (current.map toMark) (toMark incoming) := by
  rcases current with _ | held
  · rfl
  · have hvalue := hcurrent held rfl
    unfold resolveSlot arbitrateField
    dsimp only
    rw [Option.map_some, LiveSlot.step]
    by_cases hdm : incoming.operationType = .delete ∧ held.operationType = .move
    · rw [if_pos ⟨rfl, hdm⟩, toMark_of_delete hdm.1, toMark_of_move hdm.2]
      simp [LiveSlot.replaces, toMark_of_delete hdm.1]
    · rw [if_neg fun h => hdm h.2]
      by_cases hmd : incoming.operationType = .move ∧ held.operationType = .delete
      · have hdel : isDeleted held.value = true := by
          rw [hvalue]
          exact (isDeleted_livenessValue _).mpr hmd.2
        rw [if_pos ⟨rfl, hmd.1, hdel⟩, toMark_of_move hmd.1, toMark_of_delete hmd.2]
        simp [LiveSlot.replaces, toMark_of_delete hmd.2]
      · have hnot : ¬(Field.liveness = .liveness ∧ incoming.operationType = .move ∧
            isDeleted held.value = true) := by
          rintro ⟨-, hm, hdel⟩
          rw [hvalue] at hdel
          exact hmd ⟨hm, (isDeleted_livenessValue _).mp hdel⟩
        have hrep : LiveSlot.replaces (toMark held) (toMark incoming) =
            decide (held.key < incoming.key) := by
          rw [← key_toMark held, ← key_toMark incoming]
          unfold toMark
          split <;> split <;> first | rfl | exact absurd ⟨‹_›, ‹_›⟩ hdm | exact absurd ⟨‹_›, ‹_›⟩ hmd
        rw [if_neg hnot, hrep]
        by_cases hlt : held.key < incoming.key
        · rw [if_pos (compareOrderingKey_pos.mpr hlt), if_pos (decide_eq_true hlt)]
          rfl
        · rw [if_neg fun h => hlt (compareOrderingKey_pos.mp h), if_neg (by simpa using hlt)]
          rfl

/-- A run of the slot is a run of the marks, and leaves a record whose value is that of
its operation type. -/
theorem map_toMark_foldl (records : List FieldStateRecord)
    (hrecords : ∀ r ∈ records, r.value = some (livenessValue r.operationType)) :
    ∀ current : Option FieldStateRecord,
      (∀ r ∈ current, r.value = some (livenessValue r.operationType)) →
        (records.foldl (resolveSlot .liveness) current).map toMark =
            LiveSlot.run (current.map toMark) (records.map toMark) ∧
          ∀ r ∈ records.foldl (resolveSlot .liveness) current,
            r.value = some (livenessValue r.operationType) := by
  induction records with
  | nil => exact fun current hcurrent => ⟨rfl, hcurrent⟩
  | cons record records ih =>
    intro current hcurrent
    have hnext : ∀ r ∈ resolveSlot .liveness current record,
        r.value = some (livenessValue r.operationType) := by
      intro r hr
      rcases resolveSlot_mem hr with rfl | hr
      · exact hrecords r List.mem_cons_self
      · exact hcurrent r hr
    obtain ⟨hmap, hvalue⟩ :=
      ih (fun r hr => hrecords r (List.mem_cons_of_mem _ hr)) _ hnext
    refine ⟨?_, hvalue⟩
    rw [List.foldl_cons, hmap, map_toMark_resolveSlot current hcurrent]
    rfl

/-- Each operation of the vocabulary writes the `liveness` slot once. -/
theorem fieldValues_liveness {item : RemoteItem}
    (h : item.1.operationType ∈ bookmarkOperationTypes) :
    fieldValues .liveness item = [livenessRecord item] := by
  simp only [bookmarkOperationTypes, List.mem_cons, List.not_mem_nil, or_false] at h
  rcases h with h | h | h | h | h <;>
    simp only [fieldValues, remoteFieldResolutions, livenessRecord, livenessValue, h]
  · rfl
  · rcases item.2.get? "title" with _ | title <;>
      rcases stringField? item.2 "url" with _ | url <;> rfl
  · rfl
  · rfl
  · rfl

/-! ### The outcome of a delivery -/

section Deliver

variable {objectId : Uuid} {items : List RemoteItem}

/-- The marks of a list of operations. -/
def marksOf (items : List RemoteItem) : List (Mark OrderingKey) :=
  items.map fun item => toMark (livenessRecord item)

/-- The value a mark stands for. -/
def markValue (mark : Mark OrderingKey) : Option Json :=
  some (if mark.isDeleted then deleted else live)

theorem markValue_toMark {record : FieldStateRecord}
    (h : record.value = some (livenessValue record.operationType)) :
    markValue (toMark record) = record.value := by
  rw [h, markValue, livenessValue]
  by_cases hd : record.operationType = .delete
  · rw [toMark_of_delete hd, if_pos hd]
    rfl
  · rw [if_neg hd]
    by_cases hm : record.operationType = .move
    · rw [toMark_of_move hm]
      rfl
    · rw [toMark_of_ne hd hm]
      rfl

/-- **The outcome of a delivery** is that of its marks, whatever the slices. -/
theorem livenessOf_applySlices (hobj : ∀ item ∈ items, item.1.objectId = objectId)
    (htypes : ∀ item ∈ items, item.1.operationType ∈ bookmarkOperationTypes)
    {slices : List (List RemoteItem)} (hperm : slices.flatten.Perm items) :
    livenessOf (applySlices emptyStore slices) objectId =
      (LiveSlot.run none (marksOf slices.flatten)).map markValue := by
  have hmem : ∀ item ∈ slices.flatten, item ∈ items := fun item h => hperm.mem_iff.mp h
  have hself : slices.flatten.filter (fun item => item.1.objectId = objectId) = slices.flatten :=
    List.filter_eq_self.mpr fun item h => by simpa using hobj item (hmem item h)
  have hvalues : slices.flatten.flatMap (fieldValues .liveness) =
      slices.flatten.map livenessRecord := by
    rw [List.map_eq_flatMap]
    exact List.flatMap_congr fun item h => fieldValues_liveness (htypes item (hmem item h))
  have hslot : applySlices emptyStore slices (objectId, .liveness) =
      (slices.flatten.map livenessRecord).foldl (resolveSlot .liveness) none := by
    rw [applySlices_apply, hself, hvalues]
    rfl
  obtain ⟨hmap, hvalue⟩ := map_toMark_foldl (slices.flatten.map livenessRecord)
    (fun r hr => by
      obtain ⟨item, -, rfl⟩ := List.mem_map.mp hr
      rfl) none (fun _ h => absurd h (by simp))
  have hrun : LiveSlot.run none (marksOf slices.flatten) =
      (applySlices emptyStore slices (objectId, .liveness)).map toMark := by
    rw [hslot, hmap, List.map_map]
    rfl
  rw [livenessOf, hrun, Option.map_map, hslot]
  exact Option.map_congr fun record hrecord => (markValue_toMark (hvalue record hrecord)).symm

/-- Two slots with the same outcome have the same value. -/
theorem map_markValue_eq {marks marks' : List (Mark OrderingKey)} (hnil : marks = [] ↔ marks' = [])
    (h : IsDeleted (LiveSlot.run none marks) ↔ IsDeleted (LiveSlot.run none marks')) :
    (LiveSlot.run none marks).map markValue = (LiveSlot.run none marks').map markValue := by
  rcases hrun : LiveSlot.run none marks with _ | c
  · have hnone : LiveSlot.run none marks' = none := by
      rw [LiveSlot.run_eq_none_iff] at hrun ⊢
      exact ⟨rfl, hnil.mp hrun.2⟩
    rw [hnone]
  · rcases hrun' : LiveSlot.run none marks' with _ | c'
    · rw [LiveSlot.run_eq_none_iff] at hrun'
      rw [hnil.mpr hrun'.2] at hrun
      exact absurd hrun (by simp)
    · rw [hrun, hrun'] at h
      have hdel : c.isDeleted = c'.isDeleted := by
        rw [Bool.eq_iff_iff, LiveSlot.isDeleted_iff, LiveSlot.isDeleted_iff]
        exact h
      rw [Option.map_some, Option.map_some, markValue, markValue, hdel]

theorem isDeleted_of_map_markValue_eq {marks marks' : List (Mark OrderingKey)}
    (h : (LiveSlot.run none marks).map markValue = (LiveSlot.run none marks').map markValue)
    (hdel : IsDeleted (LiveSlot.run none marks)) : IsDeleted (LiveSlot.run none marks') := by
  obtain ⟨d, hrun⟩ := hdel
  rw [hrun, Option.map_some] at h
  obtain ⟨c, hrun', hc⟩ := Option.map_eq_some_iff.mp h.symm
  rw [hrun', ← LiveSlot.isDeleted_iff]
  by_contra hlive
  rw [markValue, if_neg hlive] at hc
  change some live = some deleted at hc
  exact absurd hc (by simp [live, deleted])

/-! ### Which marks a delivery has -/

theorem mem_marksOf {mark : Mark OrderingKey} :
    mark ∈ marksOf items ↔ ∃ item ∈ items, toMark (livenessRecord item) = mark :=
  List.mem_map

theorem toMark_livenessRecord_of_write {item : RemoteItem} (h : isWrite item = true) :
    toMark (livenessRecord item) = .present item.1.key := by
  simp only [isWrite, Bool.or_eq_true, beq_iff_eq] at h
  refine toMark_of_ne (fun hd => ?_) (fun hm => ?_)
  · change item.1.operationType = .delete at hd
    rw [hd] at h
    exact absurd h (by simp)
  · change item.1.operationType = .move at hm
    rw [hm] at h
    exact absurd h (by simp)

/-- A bookmark operation is a delete, a move or a write. -/
theorem delete_or_move_or_write {item : RemoteItem}
    (h : item.1.operationType ∈ bookmarkOperationTypes) :
    item.1.operationType = .delete ∨ item.1.operationType = .move ∨ isWrite item = true := by
  simp only [bookmarkOperationTypes, List.mem_cons, List.not_mem_nil, or_false] at h
  rcases h with h | h | h | h | h <;> simp [isWrite, h]

section Marks

variable (htypes : ∀ item ∈ items, item.1.operationType ∈ bookmarkOperationTypes)

include htypes

theorem deleted_mem_marksOf {d : OrderingKey} :
    Mark.deleted d ∈ marksOf items ↔
      ∃ item ∈ items, item.1.operationType = .delete ∧ item.1.key = d := by
  rw [mem_marksOf]
  refine exists_congr fun item => and_congr_right fun hmem => ?_
  rcases delete_or_move_or_write (htypes item hmem) with h | h | h
  · rw [toMark_of_delete (show (livenessRecord item).operationType = .delete from h)]
    simp [h, livenessRecord]
  · rw [toMark_of_move (show (livenessRecord item).operationType = .move from h)]
    simp [h]
  · rw [toMark_livenessRecord_of_write h]
    simp only [isWrite, Bool.or_eq_true, beq_iff_eq] at h
    constructor
    · exact fun h' => absurd h' (by simp)
    · rintro ⟨h', -⟩
      rw [h'] at h
      exact absurd h (by simp)

theorem moved_mem_marksOf {m : OrderingKey} :
    Mark.moved m ∈ marksOf items ↔
      ∃ item ∈ items, item.1.operationType = .move ∧ item.1.key = m := by
  rw [mem_marksOf]
  refine exists_congr fun item => and_congr_right fun hmem => ?_
  rcases delete_or_move_or_write (htypes item hmem) with h | h | h
  · rw [toMark_of_delete (show (livenessRecord item).operationType = .delete from h)]
    simp [h]
  · rw [toMark_of_move (show (livenessRecord item).operationType = .move from h)]
    simp [h, livenessRecord]
  · rw [toMark_livenessRecord_of_write h]
    simp only [isWrite, Bool.or_eq_true, beq_iff_eq] at h
    constructor
    · exact fun h' => absurd h' (by simp)
    · rintro ⟨h', -⟩
      rw [h'] at h
      exact absurd h (by simp)

theorem present_mem_marksOf {n : OrderingKey} :
    Mark.present n ∈ marksOf items ↔ ∃ item ∈ items, isWrite item = true ∧ item.1.key = n := by
  rw [mem_marksOf]
  refine exists_congr fun item => and_congr_right fun hmem => ?_
  rcases delete_or_move_or_write (htypes item hmem) with h | h | h
  · rw [toMark_of_delete (show (livenessRecord item).operationType = .delete from h)]
    simp [isWrite, h]
  · rw [toMark_of_move (show (livenessRecord item).operationType = .move from h)]
    simp [isWrite, h]
  · rw [toMark_livenessRecord_of_write h]
    simp [h]

end Marks

end Deliver

/-! ### When the order does not matter -/

section Independence

variable {objectId : Uuid} {items : List RemoteItem}
  (hobj : ∀ item ∈ items, item.1.objectId = objectId)
  (htypes : ∀ item ∈ items, item.1.operationType ∈ bookmarkOperationTypes)
  (hdistinct : (items.map fun item => item.1.key).Nodup)

/-- Whether an operation is a delete. -/
def isDelete (item : RemoteItem) : Bool := item.1.operationType == .delete

/-- Whether an operation is a move. -/
def isMove (item : RemoteItem) : Bool := item.1.operationType == .move

include htypes in
theorem isWrite_iff {item : RemoteItem} (hmem : item ∈ items) :
    isWrite item = true ↔ isDelete item = false ∧ isMove item = false := by
  have h := htypes item hmem
  simp only [bookmarkOperationTypes, List.mem_cons, List.not_mem_nil, or_false] at h
  rcases h with h | h | h | h | h <;> simp [isWrite, isDelete, isMove, h]

include hdistinct in
/-- A write and an operation of another kind have different keys. -/
theorem key_ne_of_isWrite {item n : RemoteItem} (hitem : item ∈ items) (hn : n ∈ items)
    (hother : isWrite item = false) (hwrite : isWrite n = true) : item.1.key ≠ n.1.key := by
  intro hkey
  have heq := List.inj_on_of_nodup_map hdistinct hitem hn hkey
  rw [← heq, hother] at hwrite
  exact Bool.false_ne_true hwrite

theorem isWrite_of_delete {item : RemoteItem} (h : item.1.operationType = .delete) :
    isWrite item = false := by
  simp [isWrite, h]

theorem isWrite_of_move {item : RemoteItem} (h : item.1.operationType = .move) :
    isWrite item = false := by
  simp [isWrite, h]

/-- Among the operations of a kind one has the highest key. -/
theorem exists_highest {p : RemoteItem → Bool} {item : RemoteItem} (hitem : item ∈ items)
    (hp : p item = true) :
    ∃ n ∈ items, p n = true ∧ ∀ w ∈ items, p w = true → w.1.key ≤ n.1.key := by
  rcases hargmax : (items.filter p).argmax (fun item => item.1.key) with _ | n
  · have hmem : item ∈ items.filter p := List.mem_filter.mpr ⟨hitem, hp⟩
    rw [List.argmax_eq_none.mp hargmax] at hmem
    exact absurd hmem List.not_mem_nil
  · obtain ⟨hn, hpn⟩ := List.mem_filter.mp (List.argmax_mem hargmax)
    refine ⟨n, hn, hpn, fun w hw hpw => ?_⟩
    exact List.le_of_mem_argmax (f := fun item : RemoteItem => item.1.key)
      (List.mem_filter.mpr ⟨hw, hpw⟩) hargmax

include htypes hdistinct in
/-- **The outcome is decided**: either every order ends deleted or every order ends live. -/
theorem isDeleted_decided (h : Settled items) :
    (∀ order, List.Perm order items → IsDeleted (LiveSlot.run none (marksOf order))) ∨
      ∀ order, List.Perm order items → ¬IsDeleted (LiveSlot.run none (marksOf order)) := by
  have hmarks : ∀ order, List.Perm order items → ∀ mark,
      mark ∈ marksOf order ↔ mark ∈ marksOf items :=
    fun order hperm mark => (hperm.map _).mem_iff
  by_cases hnone : ∀ item ∈ items, item.1.operationType ≠ .delete
  · refine Or.inr fun order hperm => LiveSlot.not_isDeleted_of_no_deleted fun d hd => ?_
    rw [hmarks order hperm, deleted_mem_marksOf htypes] at hd
    obtain ⟨item, hmem, hdel, -⟩ := hd
    exact hnone item hmem hdel
  by_cases htop : ∃ d ∈ items, d.1.operationType = .delete ∧
      ∀ n ∈ items, isWrite n = true → n.1.key < d.1.key
  · obtain ⟨d, hd, hdel, habove⟩ := htop
    refine Or.inl fun order hperm => LiveSlot.isDeleted_of_deleted_top (d := d.1.key) ?_ ?_
    · rw [hmarks order hperm, deleted_mem_marksOf htypes]
      exact ⟨d, hd, hdel, rfl⟩
    · intro n hn
      rw [hmarks order hperm, present_mem_marksOf htypes] at hn
      obtain ⟨item, hmem, hwrite, rfl⟩ := hn
      exact habove item hmem hwrite
  have hmoves := (h.resolve_left hnone).resolve_left htop
  push Not at hnone htop
  obtain ⟨d₀, hd₀, hdel₀⟩ := hnone
  obtain ⟨n₀, hn₀, hwrite₀, -⟩ := htop d₀ hd₀ hdel₀
  -- the highest write decides: it is above every delete, and above every move
  obtain ⟨n, hn, hwrite, hmax⟩ := exists_highest hn₀ hwrite₀
  refine Or.inr fun order hperm => LiveSlot.not_isDeleted_of_present_top (n := n.1.key) ?_ ?_ ?_
  · rw [hmarks order hperm, present_mem_marksOf htypes]
    exact ⟨n, hn, hwrite, rfl⟩
  · intro d hd
    rw [hmarks order hperm, deleted_mem_marksOf htypes] at hd
    obtain ⟨item, hmem, hdel, rfl⟩ := hd
    obtain ⟨w, hw, hww, hle⟩ := htop item hmem hdel
    have hne := key_ne_of_isWrite hdistinct hmem hw (isWrite_of_delete hdel) hww
    exact lt_of_lt_of_le (lt_of_le_of_ne hle hne) (hmax w hw hww)
  · intro m hm
    rw [hmarks order hperm, moved_mem_marksOf htypes] at hm
    obtain ⟨item, hmem, hmove, rfl⟩ := hm
    obtain ⟨w, hw, hww, hlt⟩ := hmoves item hmem hmove
    exact lt_of_lt_of_le hlt (hmax w hw hww)

/-- The delivery that starts with the deletes. -/
def deletesFirst (items : List RemoteItem) : List RemoteItem :=
  items.filter isDelete ++ items.filter isWrite ++ items.filter isMove

/-- The delivery that ends with the deletes. -/
def deletesLast (items : List RemoteItem) : List RemoteItem :=
  items.filter isWrite ++ items.filter isMove ++ items.filter isDelete

include htypes in
/-- The operations are the writes, the moves and the deletes. -/
theorem deletesLast_perm : (deletesLast items).Perm items := by
  have hmoves : (items.filter fun item => !isDelete item).filter isMove = items.filter isMove := by
    rw [List.filter_filter]
    refine List.filter_congr fun item hmem => ?_
    by_cases h : item.1.operationType = .move <;> simp [isMove, isDelete, h]
  have hwrites : (items.filter fun item => !isDelete item).filter (fun item => !isMove item) =
      items.filter isWrite := by
    rw [List.filter_filter]
    refine List.filter_congr fun item hmem => ?_
    rw [Bool.eq_iff_iff, isWrite_iff htypes hmem]
    simp [and_comm]
  have hsplit := List.filter_append_perm isMove (items.filter fun item => !isDelete item)
  rw [hmoves, hwrites] at hsplit
  calc items.filter isWrite ++ items.filter isMove ++ items.filter isDelete
      |>.Perm (items.filter isMove ++ items.filter isWrite ++ items.filter isDelete) :=
        List.perm_append_comm.append_right _
    _ |>.Perm ((items.filter fun item => !isDelete item) ++ items.filter isDelete) :=
        hsplit.append_right _
    _ |>.Perm (items.filter isDelete ++ items.filter fun item => !isDelete item) :=
        List.perm_append_comm
    _ |>.Perm items := List.filter_append_perm isDelete items

include htypes in
theorem deletesFirst_perm : (deletesFirst items).Perm items := by
  have hswap : (deletesFirst items).Perm (deletesLast items) := by
    rw [deletesFirst, deletesLast, List.append_assoc]
    exact List.perm_append_comm
  exact hswap.trans (deletesLast_perm htypes)

/-! The marks of the three parts. -/

theorem marksOf_filter_isDelete :
    marksOf (items.filter isDelete) =
      ((items.filter isDelete).map fun item => item.1.key).map Mark.deleted := by
  rw [marksOf, List.map_map]
  refine List.map_congr_left fun item hmem => ?_
  have h : item.1.operationType = .delete := by simpa [isDelete] using (List.mem_filter.mp hmem).2
  exact @toMark_of_delete (livenessRecord item) h

theorem marksOf_filter_isMove :
    marksOf (items.filter isMove) =
      ((items.filter isMove).map fun item => item.1.key).map Mark.moved := by
  rw [marksOf, List.map_map]
  refine List.map_congr_left fun item hmem => ?_
  have h : item.1.operationType = .move := by simpa [isMove] using (List.mem_filter.mp hmem).2
  exact @toMark_of_move (livenessRecord item) h

theorem marksOf_filter_isWrite :
    marksOf (items.filter isWrite) =
      ((items.filter isWrite).map fun item => item.1.key).map Mark.present := by
  rw [marksOf, List.map_map]
  exact List.map_congr_left fun item hmem =>
    toMark_livenessRecord_of_write (List.mem_filter.mp hmem).2

theorem marksOf_append (items items' : List RemoteItem) :
    marksOf (items ++ items') = marksOf items ++ marksOf items' :=
  List.map_append

include hdistinct in
/-- **The outcome is undecided** otherwise: with the deletes first the object ends live, with
the deletes last it ends deleted. -/
theorem isDeleted_undecided (h : ¬Settled items) :
    ¬IsDeleted (LiveSlot.run none (marksOf (deletesFirst items))) ∧
      IsDeleted (LiveSlot.run none (marksOf (deletesLast items))) := by
  unfold Settled at h
  push Not at h
  obtain ⟨⟨d, hd, hdel⟩, htop, m, hm, hmove, hmoves⟩ := h
  obtain ⟨top, htop', hdel', hmax⟩ := exists_highest (p := isDelete) hd (by simp [isDelete, hdel])
  obtain ⟨n, hn, hwrite, hle⟩ := htop top htop' (by simpa [isDelete] using hdel')
  constructor
  · rw [deletesFirst, marksOf_append, marksOf_append, marksOf_filter_isDelete,
      marksOf_filter_isWrite, marksOf_filter_isMove]
    refine LiveSlot.not_isDeleted_deletedFirst (n := n.1.key)
      (List.mem_map.mpr ⟨n, List.mem_filter.mpr ⟨hn, hwrite⟩, rfl⟩) fun d' hd' => ?_
    obtain ⟨item, hitem, rfl⟩ := List.mem_map.mp hd'
    obtain ⟨hmem, hdelete⟩ := List.mem_filter.mp hitem
    have htopType : isWrite top = false := isWrite_of_delete (by simpa [isDelete] using hdel')
    have hne := key_ne_of_isWrite hdistinct htop' hn htopType hwrite
    exact lt_of_le_of_lt (hmax item hmem hdelete) (lt_of_le_of_ne hle hne)
  · rw [deletesLast, marksOf_append, marksOf_append, marksOf_filter_isDelete,
      marksOf_filter_isWrite, marksOf_filter_isMove]
    refine LiveSlot.isDeleted_deletedLast (m := m.1.key) ?_ ?_ ?_
    · exact List.mem_map.mpr ⟨m, List.mem_filter.mpr ⟨hm, by simp [isMove, hmove]⟩, rfl⟩
    · intro n' hn'
      obtain ⟨item, hitem, rfl⟩ := List.mem_map.mp hn'
      obtain ⟨hmem, hw⟩ := List.mem_filter.mp hitem
      have hne := key_ne_of_isWrite hdistinct hm hmem (isWrite_of_move hmove) hw
      exact lt_of_le_of_ne (hmoves item hmem hw) hne.symm
    · have hmem : d ∈ items.filter isDelete := List.mem_filter.mpr ⟨hd, by simp [isDelete, hdel]⟩
      simpa using List.ne_nil_of_mem hmem

end Independence

/-- **Liveness is order independent exactly for settled operations.** -/
theorem orderIndependent_iff (objectId : Uuid) (items : List RemoteItem)
    (hobj : ∀ item ∈ items, item.1.objectId = objectId)
    (htypes : ∀ item ∈ items, item.1.operationType ∈ bookmarkOperationTypes)
    (hdistinct : (items.map fun item => item.1.key).Nodup) :
    OrderIndependent objectId items ↔ Settled items := by
  constructor
  · intro h
    by_contra hunsettled
    obtain ⟨hfirst, hlast⟩ := isDeleted_undecided hdistinct hunsettled
    have hpermFirst : [deletesFirst items].flatten.Perm items := by
      simpa using deletesFirst_perm htypes
    have hpermLast : [deletesLast items].flatten.Perm items := by
      simpa using deletesLast_perm htypes
    have hsame := h [deletesLast items] [deletesFirst items] hpermLast hpermFirst
    rw [livenessOf_applySlices hobj htypes hpermLast,
      livenessOf_applySlices hobj htypes hpermFirst] at hsame
    refine hfirst (isDeleted_of_map_markValue_eq ?_ hlast)
    simpa using hsame
  · intro hsettled slices slices' hperm hperm'
    rw [livenessOf_applySlices hobj htypes hperm, livenessOf_applySlices hobj htypes hperm']
    refine map_markValue_eq ?_ ?_
    · have hlen := (hperm.trans hperm'.symm).length_eq
      rw [← List.length_eq_zero_iff, ← List.length_eq_zero_iff, marksOf, marksOf, List.length_map,
        List.length_map, hlen]
    · rcases isDeleted_decided htypes hdistinct hsettled with hall | hall
      · exact iff_of_true (hall _ hperm) (hall _ hperm')
      · exact iff_of_false (hall _ hperm) (hall _ hperm')

/-- An operation on bookmark 7 by a device, with the Lamport timestamp as its id. -/
def bookmarkOp (deviceId lamport : Uuid) (operationType : OperationType) (payload : Json) :
    RemoteItem :=
  (⟨lamport, deviceId, lamport.val, .bookmark, 7, operationType⟩, payload)

/-- Device 2 deletes the bookmark that device 1 has created and, not knowing of the delete,
renames and moves. -/
def renamedAndMoved : List RemoteItem :=
  [bookmarkOp 1 1 .create (.object [("title", .string "a")]), bookmarkOp 2 3 .delete (.object []),
    bookmarkOp 1 5 .update (.object [("title", .string "b")]),
    bookmarkOp 1 10 .move (.object [("parent", .string "p"), ("position", .string "m")])]

/-- The same without the rename. -/
def deletedAndMoved : List RemoteItem :=
  [bookmarkOp 1 1 .create (.object [("title", .string "a")]), bookmarkOp 2 3 .delete (.object []),
    bookmarkOp 1 10 .move (.object [("parent", .string "p"), ("position", .string "m")])]

/-- **Delivery order decides**: the bookmark is live if the delete comes before the rename and
the move, and deleted if it comes after them. -/
theorem not_orderIndependent : ¬OrderIndependent 7 renamedAndMoved := by
  intro h
  have hsame := h [renamedAndMoved] [deletesLast renamedAndMoved] (by simp)
    (by simpa using deletesLast_perm (by decide))
  exact absurd (congrArg (Option.map isDeleted) hsame) (by decide +kernel)

/-- Without the rename a delete and a move give the same outcome in both orders. -/
theorem orderIndependent_deletedAndMoved :
    Settled deletedAndMoved ∧ OrderIndependent 7 deletedAndMoved := by
  have hsettled : Settled deletedAndMoved := Or.inr (Or.inl (by decide +kernel))
  exact ⟨hsettled, (orderIndependent_iff 7 deletedAndMoved (by decide) (by decide)
    (by decide)).mpr hsettled⟩

end Client

end HelixSync
