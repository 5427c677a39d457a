import HelixSync.Client.Liveness
import HelixSync.Lib.LastWrites
import HelixSync.Lib.OrderedStore
import HelixSync.Lib.Runs
import Mathlib.Data.Prod.Lex
import Mathlib.Data.String.Basic
import Mathlib.Order.BooleanAlgebra.Basic

/-!
# Purging the field state of deleted objects

`gcFieldStates` (`extension/src/storage/db.ts`) purges the field state of objects whose liveness has
read "deleted" for longer than the retention. It collects the objects in one series of transactions
and purges them in another, and other transactions may come in between: the device goes on to apply
and to capture operations. The purge does not look at the liveness again, so an object that is
restored after it was collected loses the field state it was restored with
(`HelixSync.Client.not_purges_onlyDeleted`).

A run purges deleted objects only exactly if no object it purges was left revived by the
transactions since its collection (`HelixSync.Client.purges_onlyDeleted_iff`). A step is one
transaction, and the events of a run name the one that comes next, so a run is any interleaving of
any number of passes with any other writers.
-/

namespace HelixSync

namespace Client

/-! ### The store -/

/-- The name of a field. -/
def Field.name : Field → String
  | .liveness => "liveness"
  | .title => "title"
  | .url => "url"
  | .move => "move"
  | .other name => name

/-- Tells apart the fields of one name. -/
def Field.isOther : Field → Bool
  | .other _ => true
  | _ => false

theorem Field.ext_name {a b : Field} (h : a.name = b.name) (hother : a.isOther = b.isOther) :
    a = b := by
  cases a <;> cases b <;> simp_all [Field.name, Field.isOther]

/-- The order of `fieldStateKey`: by the object id, then by the name of the field. -/
local instance slotKeyOrder : LinearOrder SlotKey :=
  LinearOrder.lift' (fun key => toLex (key.1, toLex (key.2.name, key.2.isOther))) <| by
    intro a b h
    obtain ⟨hobjectId, hfield⟩ := Prod.mk.inj (toLex.injective h)
    obtain ⟨hname, hother⟩ := Prod.mk.inj (toLex.injective hfield)
    exact Prod.ext hobjectId (Field.ext_name hname hother)

/-- A `FieldStateRecord` with its wall-clock write time. -/
structure StoredField where
  state : FieldStateRecord
  recordedAt : Option ℤ

/-- The `field_state` store. -/
abbrev FieldStateDb := OrderedStore SlotKey StoredField

namespace FieldStateDb

/-- Whether the liveness of an object reads "deleted". -/
def livenessDeleted (db : FieldStateDb) (objectId : Uuid) : Bool :=
  (db.get (objectId, .liveness)).any fun r => isDeleted r.state.value

/-- What `resolveEntriesInTx` has read and is going to write after its walk. -/
def walk (db : FieldStateDb) (entries : List BatchFieldResolution) : BatchWalk :=
  entries.foldl BatchWalk.step
    ⟨fun key => if entries.any fun entry => entry.slot = key then
        (db.get key).map StoredField.state else none, fun _ => none, []⟩

/-- `resolveInTransaction`: the winners are written. -/
def resolveInTransaction (db : FieldStateDb) (entries : List BatchFieldResolution)
    (recordedAt : ℤ) : FieldStateDb :=
  (entries.map BatchFieldResolution.slot).foldl (fun written slot =>
    match (db.walk entries).pendingWrites slot with
    | some next => written.insert slot ⟨next, some recordedAt⟩
    | none => written) db

/-- `putFieldStatesBatch`. -/
def putFieldStatesBatch (db : FieldStateDb) (records : List (SlotKey × FieldStateRecord))
    (recordedAt : ℤ) : FieldStateDb :=
  records.foldl (fun db record => db.insert record.1 ⟨record.2, some recordedAt⟩) db

/-- The delete transaction of `gcFieldStates`. -/
def deleteObjects (db : FieldStateDb) (objectIds : List Uuid) : FieldStateDb :=
  db.retain fun key _ => key.1 ∉ objectIds

end FieldStateDb

/-! ### A pass -/

/-- `Set.prototype.add`, in the order of insertion. -/
def setAdd (objectIds : List Uuid) (objectId : Uuid) : List Uuid :=
  if objectId ∈ objectIds then objectIds else objectIds ++ [objectId]

/-- `selectFieldStateGcCandidates`. -/
def selectFieldStateGcCandidates (records : List (SlotKey × StoredField)) (cutoffMs : ℤ) :
    List Uuid :=
  records.foldl (fun objectIds r =>
    if r.1.2 = .liveness ∧ isDeleted r.2.state.value = true ∧
        r.2.recordedAt.any (fun recordedAt => recordedAt < cutoffMs) = true then
      setAdd objectIds r.1.1
    else objectIds) []

/-- `FIELD_STATE_GC_RETENTION_MS`. -/
def fieldStateGcRetentionMs : ℤ := 30 * 24 * 60 * 60 * 1000

/-- `MAINTENANCE_DELETE_CHUNK`. -/
def maintenanceDeleteChunk : ℕ := 500

/-- Where a run of `gcFieldStates` is between two of its transactions, with its local variables. -/
inductive GcPass where
  | scanning (cutoffMs : ℤ) (lastSeenKey : Option SlotKey) (objectIds : List Uuid)
  | deleting (objectIds : List Uuid)

namespace GcPass

/-- The objects collected and not yet purged. -/
def objectIds : GcPass → List Uuid
  | scanning _ _ objectIds => objectIds
  | deleting objectIds => objectIds

/-- The objects its next transaction purges. -/
def deleteBatch : GcPass → List Uuid
  | scanning .. => []
  | deleting objectIds => objectIds.take maintenanceDeleteChunk

/-- The pass after its next transaction. -/
def next (db : FieldStateDb) : GcPass → GcPass
  | scanning cutoffMs lastSeenKey objectIds =>
    let scanChunk := db.scan maintenanceDeleteChunk lastSeenKey
    let objectIds := (selectFieldStateGcCandidates scanChunk cutoffMs).foldl setAdd objectIds
    if scanChunk.length < maintenanceDeleteChunk then deleting objectIds
    else scanning cutoffMs ((scanChunk.getLast?.map Prod.fst).or lastSeenKey) objectIds
  | deleting objectIds => deleting (objectIds.drop maintenanceDeleteChunk)

end GcPass

/-! ### Runs -/

/-- The store, and the passes that were started. -/
structure GcState where
  db : FieldStateDb
  passes : List GcPass

/-- The transaction that comes next. -/
inductive GcEvent where
  /-- A remote apply: `resolveField`, `resolveFields` or `resolveFieldsBatch`. -/
  | resolve (entries : List BatchFieldResolution) (recordedAt : ℤ)
  /-- A local capture or a backfill: `putFieldState` or `putFieldStatesBatch`. -/
  | put (records : List (SlotKey × FieldStateRecord)) (recordedAt : ℤ)
  /-- `clearFieldState`. -/
  | clear
  /-- `gcFieldStates` is called. -/
  | gcFieldStates (now : ℤ)
  /-- The next transaction of a pass. -/
  | pass (i : ℕ)

namespace GcState

/-- The pass of an index. -/
def passAt (s : GcState) (i : ℕ) : GcPass := s.passes[i]?.getD (.deleting [])

/-- One transaction. -/
def step (s : GcState) : GcEvent → GcState
  | .resolve entries recordedAt => { s with db := s.db.resolveInTransaction entries recordedAt }
  | .put records recordedAt => { s with db := s.db.putFieldStatesBatch records recordedAt }
  | .clear => { s with db := .empty }
  | .gcFieldStates now =>
    { s with passes := s.passes ++ [.scanning (now - fieldStateGcRetentionMs) none []] }
  | .pass i =>
    { db := s.db.deleteObjects (s.passAt i).deleteBatch
      passes := s.passes.set i ((s.passAt i).next s.db) }

/-- What a transaction leaves in a slot, if it writes or deletes there. -/
def writes (s : GcState) : GcEvent → SlotKey → Option (Option StoredField)
  | .resolve entries recordedAt, slot =>
    ((s.db.walk entries).pendingWrites slot).map fun next => some ⟨next, some recordedAt⟩
  | .put records recordedAt, slot =>
    LastWrites.last (fun record slot =>
      if slot = record.1 then some (some ⟨record.2, some recordedAt⟩) else none) slot records
  | .clear, _ => some none
  | .gcFieldStates _, _ => none
  | .pass i, slot => if slot.1 ∈ (s.passAt i).deleteBatch then some none else none

/-- What the transactions of a run write, one after the other. -/
def transactions : GcState → List GcEvent → List (SlotKey → Option (Option StoredField))
  | _, [] => []
  | s, e :: es => s.writes e :: (s.step e).transactions es

/-- A pass deletes no record of an object whose liveness is not "deleted". -/
def PurgesOnlyDeleted (s : GcState) (e : GcEvent) : Prop :=
  ∀ i, e = .pass i → ∀ slot, s.db.get slot ≠ none → (s.step e).db.get slot = none →
    s.db.livenessDeleted slot.1 = true

/-- The transactions of a run touch the liveness of an object and leave it other than "deleted". -/
def Revives (s : GcState) (es : List GcEvent) (objectId : Uuid) : Prop :=
  ∃ left, LastWrites.last (fun t => t) (objectId, .liveness) (s.transactions es) = some left ∧
    left.any (fun r => isDeleted r.state.value) = false

/-- Between the transaction that collects an object and the one that purges it, if there is anything
to purge, no others revive it. -/
def NoneRevived (s : GcState) (es : List GcEvent) : Prop :=
  ∀ (before : List GcEvent) (collect : GcEvent) (gap after : List GcEvent) (i : ℕ) (objectId : Uuid),
    es = before ++ collect :: (gap ++ .pass i :: after) →
    objectId ∉ ((Runs.run step s before).passAt i).objectIds →
    objectId ∈ (((Runs.run step s before).step collect).passAt i).objectIds →
    objectId ∈ ((Runs.run step s (before ++ collect :: gap)).passAt i).deleteBatch →
    (∃ field, (Runs.run step s (before ++ collect :: gap)).db.get (objectId, field) ≠ none) →
    ¬((Runs.run step s before).step collect).Revives gap objectId

end GcState

/-! ### What a transaction writes -/

namespace FieldStateDb

variable {db : FieldStateDb} {entries : List BatchFieldResolution} {slot : SlotKey}

theorem pendingWrites_of_not_mem (w : BatchWalk)
    (h : slot ∉ entries.map BatchFieldResolution.slot) :
    (entries.foldl BatchWalk.step w).pendingWrites slot = w.pendingWrites slot := by
  induction entries generalizing w with
  | nil => rfl
  | cons entry entries ih =>
    rw [List.map_cons, List.mem_cons, not_or] at h
    rw [List.foldl_cons, ih _ h.2, BatchWalk.step]
    split
    · rfl
    · exact Function.update_of_ne h.1 _ _

theorem walk_eq (db : FieldStateDb) (entries : List BatchFieldResolution) :
    db.walk entries = entries.foldl BatchWalk.step
      ⟨fun key => if key ∈ entries.map BatchFieldResolution.slot then
        (db.get key).map StoredField.state else none, fun _ => none, []⟩ := by
  rw [walk]
  congr 2
  funext key
  simp only [List.any_eq_true, decide_eq_true_eq, List.mem_map]

theorem get_resolveInTransaction (db : FieldStateDb) (entries : List BatchFieldResolution)
    (recordedAt : ℤ) (slot : SlotKey) :
    (db.resolveInTransaction entries recordedAt).get slot =
      (((db.walk entries).pendingWrites slot).map fun next => some ⟨next, some recordedAt⟩).getD
        (db.get slot) := by
  have hfold : ∀ (slots : List SlotKey) (written : FieldStateDb),
      (slots.foldl (fun (written : FieldStateDb) slot =>
        match (db.walk entries).pendingWrites slot with
        | some next => written.insert slot ⟨next, some recordedAt⟩
        | none => written) written).get slot =
      if slot ∈ slots then
        (((db.walk entries).pendingWrites slot).map fun next => some ⟨next, some recordedAt⟩).getD
          (written.get slot)
      else written.get slot := by
    intro slots
    induction slots with
    | nil => exact fun written => rfl
    | cons first slots ih =>
      intro written
      rw [List.foldl_cons, ih]
      by_cases hfirst : slot = first
      · subst hfirst
        rw [if_pos List.mem_cons_self]
        cases (db.walk entries).pendingWrites slot with
        | none => simp
        | some next => simp [OrderedStore.get_insert]
      · have hget : ∀ next : Option FieldStateRecord, (match next with
            | some next => written.insert first ⟨next, some recordedAt⟩
            | none => written).get slot = written.get slot := by
          rintro (_ | next)
          · rfl
          · exact (written.get_insert _ _ _).trans (if_neg hfirst)
        simp [hfirst, hget]
  rw [resolveInTransaction, hfold]
  split_ifs with hmem
  · rfl
  · rw [walk, pendingWrites_of_not_mem _ hmem]
    rfl

/-- Without the write times it is what `resolveEntriesInTx` leaves. -/
theorem map_state_resolveInTransaction (db : FieldStateDb) (entries : List BatchFieldResolution)
    (recordedAt : ℤ) (slot : SlotKey) :
    ((db.resolveInTransaction entries recordedAt).get slot).map StoredField.state =
      (resolveEntriesInTx (fun key => (db.get key).map StoredField.state) entries).2 slot := by
  rw [get_resolveInTransaction]
  change _ = ((entries.foldl BatchWalk.step
    ⟨fun key => if key ∈ entries.map BatchFieldResolution.slot then
      (db.get key).map StoredField.state else none, fun _ => none, []⟩).pendingWrites slot).orElse
        fun _ => _
  rw [← walk_eq]
  cases (db.walk entries).pendingWrites slot <;> rfl

theorem get_putFieldStatesBatch (db : FieldStateDb) (records : List (SlotKey × FieldStateRecord))
    (recordedAt : ℤ) (slot : SlotKey) :
    (db.putFieldStatesBatch records recordedAt).get slot =
      (LastWrites.last (fun record slot =>
        if slot = record.1 then some (some (⟨record.2, some recordedAt⟩ : StoredField)) else none)
        slot records).getD (db.get slot) := by
  induction records generalizing db with
  | nil => rfl
  | cons record records ih =>
    have hrest := ih (db.insert record.1 ⟨record.2, some recordedAt⟩)
    rw [putFieldStatesBatch] at hrest ⊢
    rw [List.foldl_cons, hrest, LastWrites.last, OrderedStore.get_insert]
    cases LastWrites.last _ slot records with
    | some left => rfl
    | none => split_ifs <;> rfl

theorem get_deleteObjects (db : FieldStateDb) (objectIds : List Uuid) (slot : SlotKey) :
    (db.deleteObjects objectIds).get slot = if slot.1 ∈ objectIds then none else db.get slot := by
  rw [deleteObjects, OrderedStore.get_retain]
  cases db.get slot <;> simp [Option.filter]

end FieldStateDb

namespace GcState

variable {s : GcState} {e : GcEvent} {es : List GcEvent} {i : ℕ} {objectId : Uuid}

/-- **What a transaction leaves** in a slot is what it writes there, or what was there before. -/
theorem get_step (s : GcState) (e : GcEvent) (slot : SlotKey) :
    (s.step e).db.get slot = (s.writes e slot).getD (s.db.get slot) := by
  cases e with
  | resolve entries recordedAt => exact s.db.get_resolveInTransaction entries recordedAt slot
  | put records recordedAt => exact s.db.get_putFieldStatesBatch records recordedAt slot
  | clear => rfl
  | gcFieldStates now => rfl
  | pass i =>
    rw [step, writes, FieldStateDb.get_deleteObjects]
    split_ifs <;> rfl

/-- and so for a run. -/
theorem get_run (s : GcState) (es : List GcEvent) (slot : SlotKey) :
    (Runs.run step s es).db.get slot =
      (LastWrites.last (fun t => t) slot (s.transactions es)).getD (s.db.get slot) := by
  induction es generalizing s with
  | nil => rfl
  | cons e es ih =>
    rw [Runs.run_cons, ih, get_step, transactions, LastWrites.last]
    cases LastWrites.last (fun t => t) slot ((s.step e).transactions es) <;> rfl

/-! ### Collecting -/

theorem mem_setAdd {objectIds : List Uuid} {added : Uuid} :
    objectId ∈ setAdd objectIds added ↔ objectId = added ∨ objectId ∈ objectIds := by
  rw [setAdd]
  split_ifs with h
  · exact ⟨Or.inr, fun hor => hor.elim (fun heq => heq ▸ h) id⟩
  · rw [List.mem_append, List.mem_singleton, or_comm]

theorem mem_foldl_setAdd {objectIds added : List Uuid} :
    objectId ∈ added.foldl setAdd objectIds ↔ objectId ∈ added ∨ objectId ∈ objectIds := by
  induction added generalizing objectIds with
  | nil => simp
  | cons first added ih => rw [List.foldl_cons, ih, mem_setAdd, List.mem_cons, or_left_comm, or_assoc]

/-- A candidate has a liveness record among those that were read, and it reads "deleted". -/
theorem exists_of_mem_candidates {records : List (SlotKey × StoredField)} {cutoffMs : ℤ}
    (h : objectId ∈ selectFieldStateGcCandidates records cutoffMs) :
    ∃ r ∈ records, r.1 = (objectId, .liveness) ∧ isDeleted r.2.state.value = true := by
  have hfold : ∀ objectIds : List Uuid,
      objectId ∈ records.foldl (fun objectIds r =>
        if r.1.2 = .liveness ∧ isDeleted r.2.state.value = true ∧
            r.2.recordedAt.any (fun recordedAt => recordedAt < cutoffMs) = true then
          setAdd objectIds r.1.1
        else objectIds) objectIds →
      objectId ∈ objectIds ∨
        ∃ r ∈ records, r.1 = (objectId, .liveness) ∧ isDeleted r.2.state.value = true := by
    clear h
    induction records with
    | nil => exact fun _ h => Or.inl h
    | cons r records ih =>
      intro objectIds h
      rcases ih _ h with hin | ⟨found, hfound, hkey⟩
      · dsimp only at hin
        split_ifs at hin with hcandidate
        · rcases mem_setAdd.mp hin with rfl | hin
          · exact Or.inr ⟨r, List.mem_cons_self, Prod.ext rfl hcandidate.1, hcandidate.2.1⟩
          · exact Or.inl hin
        · exact Or.inl hin
      · exact Or.inr ⟨found, List.mem_cons_of_mem _ hfound, hkey⟩
  exact (hfold [] h).resolve_left List.not_mem_nil

/-- What a pass has new after a transaction of its own is deleted. -/
theorem livenessDeleted_of_next {pass : GcPass} {db : FieldStateDb}
    (hnot : objectId ∉ pass.objectIds) (hnew : objectId ∈ (pass.next db).objectIds) :
    db.livenessDeleted objectId = true ∧ pass.deleteBatch = [] := by
  cases pass with
  | scanning cutoffMs lastSeenKey objectIds =>
    have hmem : objectId ∈ (selectFieldStateGcCandidates
        (db.scan maintenanceDeleteChunk lastSeenKey) cutoffMs).foldl setAdd objectIds := by
      rw [GcPass.next] at hnew
      split_ifs at hnew <;> exact hnew
    obtain ⟨r, hr, hkey, hdeleted⟩ :=
      exists_of_mem_candidates ((mem_foldl_setAdd.mp hmem).resolve_right hnot)
    refine ⟨?_, rfl⟩
    rw [FieldStateDb.livenessDeleted, ← hkey, db.get_of_mem_scan hr]
    exact hdeleted
  | deleting objectIds => exact absurd (List.mem_of_mem_drop hnew) hnot

/-- **What a pass collects is deleted** after the transaction that collects it. -/
theorem livenessDeleted_of_collected (hnot : objectId ∉ (s.passAt i).objectIds)
    (hnew : objectId ∈ ((s.step e).passAt i).objectIds) :
    (s.step e).db.livenessDeleted objectId = true := by
  cases e with
  | resolve entries recordedAt => exact absurd hnew hnot
  | put records recordedAt => exact absurd hnew hnot
  | clear => exact absurd hnew hnot
  | gcFieldStates now =>
    rw [passAt, step] at hnew
    dsimp only at hnew
    by_cases hi : i < s.passes.length
    · rw [List.getElem?_append_left hi] at hnew
      exact absurd hnew hnot
    · rw [List.getElem?_append_right (not_lt.mp hi)] at hnew
      cases hsub : i - s.passes.length with
      | zero =>
        rw [hsub] at hnew
        exact absurd hnew List.not_mem_nil
      | succ n =>
        rw [hsub] at hnew
        exact absurd hnew List.not_mem_nil
  | pass j =>
    have hpass : j = i ∧ objectId ∈ ((s.passAt i).next s.db).objectIds := by
      rw [passAt, step] at hnew
      dsimp only at hnew
      rw [List.getElem?_set] at hnew
      split_ifs at hnew with heq hlt
      · exact ⟨heq, heq ▸ hnew⟩
      · exact absurd hnew List.not_mem_nil
      · exact absurd hnew hnot
    obtain ⟨rfl, hnext⟩ := hpass
    obtain ⟨hdeleted, hbatch⟩ := livenessDeleted_of_next hnot hnext
    rw [step, FieldStateDb.livenessDeleted, hbatch, FieldStateDb.get_deleteObjects,
      if_neg List.not_mem_nil]
    exact hdeleted

theorem mem_objectIds_of_deleteBatch {pass : GcPass} (h : objectId ∈ pass.deleteBatch) :
    objectId ∈ pass.objectIds := by
  cases pass with
  | scanning cutoffMs lastSeenKey objectIds => exact absurd h List.not_mem_nil
  | deleting objectIds => exact List.mem_of_mem_take h

/-- An object that is not revived stays deleted. -/
theorem livenessDeleted_run (hdeleted : s.db.livenessDeleted objectId = true)
    (h : ¬s.Revives es objectId) : (Runs.run step s es).db.livenessDeleted objectId = true := by
  rw [FieldStateDb.livenessDeleted, get_run]
  cases hlast : LastWrites.last (fun t => t) (objectId, Field.liveness) (s.transactions es) with
  | none => exact hdeleted
  | some left =>
    by_contra hleft
    exact h ⟨left, hlast, Bool.eq_false_iff.mpr hleft⟩

end GcState

open GcState in
/-- **When a run purges deleted objects only**: exactly if of the transactions between the one that
collects an object and the one that purges it, none touched its liveness or the last that did left it
"deleted". -/
theorem purges_onlyDeleted_iff (db : FieldStateDb) (es : List GcEvent) :
    Runs.Meets step PurgesOnlyDeleted ⟨db, []⟩ es ↔ NoneRevived ⟨db, []⟩ es := by
  rw [Runs.meets_iff_split]
  constructor
  · rintro honly before collect gap after i objectId rfl - - hbatch ⟨field, hfield⟩ ⟨left, hlast, hleft⟩
    have hpurged : ((Runs.run step ⟨db, []⟩ (before ++ collect :: gap)).step
        (.pass i)).db.get (objectId, field) = none := by
      rw [step, FieldStateDb.get_deleteObjects, if_pos hbatch]
    have hdeleted := honly (before ++ collect :: gap) (.pass i) after (by simp) i rfl
      (objectId, field) hfield hpurged
    rw [Runs.run_append, Runs.run_cons, FieldStateDb.livenessDeleted, get_run, hlast] at hdeleted
    rw [Option.getD_some, hleft] at hdeleted
    exact absurd hdeleted (by decide)
  · rintro hnone before e after rfl i rfl slot hslot hpurged
    have hbatch : slot.1 ∈ ((Runs.run step ⟨db, []⟩ before).passAt i).deleteBatch := by
      rw [step, FieldStateDb.get_deleteObjects] at hpurged
      by_contra hnot
      rw [if_neg hnot] at hpurged
      exact hslot hpurged
    obtain ⟨start, collect, gap, rfl, hnot, hcollected⟩ :=
      Runs.exists_step_of_not (P := fun s : GcState => slot.1 ∈ (s.passAt i).objectIds)
        (by simp [passAt, GcPass.objectIds])
        (mem_objectIds_of_deleteBatch hbatch)
    have hrevives := hnone start collect gap after i slot.1 (by simp) hnot hcollected hbatch
      ⟨slot.2, hslot⟩
    rw [Runs.run_append, Runs.run_cons]
    exact livenessDeleted_run (livenessDeleted_of_collected hnot hcollected) hrevives

/-- A folder is deleted, and a month later a pass collects it; another device restores it from a
restore point, and then the pass purges what it was restored with. -/
theorem not_purges_onlyDeleted : ¬∀ (db : FieldStateDb) (es : List GcEvent),
    Runs.Meets GcState.step GcState.PurgesOnlyDeleted ⟨db, []⟩ es := by
  intro h
  have hrun := h .empty
    [.put [((1, .liveness), ⟨⟨1, 1, 1⟩, .delete, some deleted⟩)] 0,
      .gcFieldStates (31 * 24 * 60 * 60 * 1000), .pass 0,
      .resolve [⟨1, .liveness, ⟨⟨2, 2, 2⟩, .restore, some live⟩⟩] (31 * 24 * 60 * 60 * 1000),
      .pass 0]
  have hlast := hrun.2.2.2.2.1 0 rfl (1, .liveness)
  revert hlast
  decide

end Client

end HelixSync
