import HelixSync.Server.Model

/-!
# Conflict resolution on the client

`extension/src/sync/conflict.ts`. Every remote value is arbitrated against the record of
the slot it belongs to, an object and a field, before the browser sees it. The rule is
last-writer-wins by ordering key, with one exception for the `liveness` slot: a delete
replaces a move whatever their keys, and a move never replaces a delete.

A batch is read, walked and written in one transaction
(`HelixSync.Client.resolveEntriesInTx`); it leaves the store as resolving its entries one
after the other does (`HelixSync.Client.resolveFieldsBatch_snd`), and what it leaves in a
slot depends on the entries of that slot only (`HelixSync.Client.foldl_resolveEntry_apply`).

Device and operation ids are canonical lower-case UUID strings, whose order is that of
the numbers they spell. `recordedAt`, which never takes part in the arbitration, is left
out of the records.
-/

namespace HelixSync

namespace Client

/-- The fields of an object that are arbitrated separately. -/
inductive Field where
  | liveness
  | title
  | url
  | move
  /-- A field of another object type. -/
  | other (name : String)
  deriving DecidableEq, Repr

/-- A value with its provenance. The value may be `undefined`. -/
structure IncomingField where
  key : OrderingKey
  operationType : OperationType
  value : Option Json

/-- `FieldStateRecord`: what a slot of the `field_state` store holds. -/
abbrev FieldStateRecord := IncomingField

/-- `fieldStateKey`. -/
abbrev SlotKey := Uuid × Field

/-- The `field_state` store. -/
abbrev FieldStore := SlotKey → Option FieldStateRecord

/-- The empty `field_state` store. -/
def emptyStore : FieldStore := fun _ => none

/-- `compareOrderingKey`: positive if the first key wins. -/
def compareOrderingKey (a b : OrderingKey) : ℤ :=
  if a.lamportTimestamp ≠ b.lamportTimestamp then a.lamportTimestamp - b.lamportTimestamp
  else if a.deviceId ≠ b.deviceId then if a.deviceId < b.deviceId then -1 else 1
  else if a.operationId ≠ b.operationId then if a.operationId < b.operationId then -1 else 1
  else 0

/-- `value === "deleted"`. -/
def isDeleted : Option Json → Bool
  | some (.string value) => value == "deleted"
  | _ => false

/-- `ResolveResult`. -/
structure ResolveResult where
  applied : Bool
  value : Option Json

/-- `arbitrateField`: the result, and the record to store if the value is applied. -/
def arbitrateField (current : Option FieldStateRecord) (field : Field) (incoming : IncomingField) :
    ResolveResult × Option FieldStateRecord :=
  match current with
  | none => (⟨true, incoming.value⟩, some incoming)
  | some current =>
    if field = .liveness ∧ incoming.operationType = .delete ∧ current.operationType = .move then
      (⟨true, incoming.value⟩, some incoming)
    else if field = .liveness ∧ incoming.operationType = .move ∧ isDeleted current.value = true then
      (⟨false, current.value⟩, none)
    else if 0 < compareOrderingKey incoming.key current.key then
      (⟨true, incoming.value⟩, some incoming)
    else (⟨false, current.value⟩, none)

/-- `BatchFieldResolution`. -/
structure BatchFieldResolution where
  objectId : Uuid
  field : Field
  incoming : IncomingField

/-- The slot an entry is about. -/
def BatchFieldResolution.slot (entry : BatchFieldResolution) : SlotKey :=
  (entry.objectId, entry.field)

/-! ### A batch -/

/-- The walk over a batch: the records read, the records to write, and the results. -/
structure BatchWalk where
  currentByKey : SlotKey → Option FieldStateRecord
  pendingWrites : SlotKey → Option FieldStateRecord
  results : List ResolveResult

/-- One entry of the walk. -/
def BatchWalk.step (w : BatchWalk) (entry : BatchFieldResolution) : BatchWalk :=
  let arbitrated := arbitrateField (w.currentByKey entry.slot) entry.field entry.incoming
  match arbitrated.2 with
  | none => { w with results := w.results ++ [arbitrated.1] }
  | some next =>
    { currentByKey := Function.update w.currentByKey entry.slot (some next)
      pendingWrites := Function.update w.pendingWrites entry.slot (some next)
      results := w.results ++ [arbitrated.1] }

/-- `resolveEntriesInTx`: the results, and the store after the transaction. -/
def resolveEntriesInTx (store : FieldStore) (entries : List BatchFieldResolution) :
    List ResolveResult × FieldStore :=
  let keys := entries.map BatchFieldResolution.slot
  let walk := entries.foldl BatchWalk.step
    ⟨fun key => if key ∈ keys then store key else none, fun _ => none, []⟩
  (walk.results, fun key => (walk.pendingWrites key).orElse fun _ => store key)

/-- `resolveFieldsBatch`. -/
def resolveFieldsBatch (store : FieldStore) (entries : List BatchFieldResolution) :
    List ResolveResult × FieldStore :=
  if entries.isEmpty then ([], store) else resolveEntriesInTx store entries

/-! ### The order of keys -/

theorem compareOrderingKey_pos {a b : OrderingKey} : 0 < compareOrderingKey a b ↔ b < a := by
  unfold compareOrderingKey
  rw [OrderingKey.lt_iff]
  rcases lt_trichotomy a.lamportTimestamp b.lamportTimestamp with hl | hl | hl
  · rw [if_pos (ne_of_lt hl)]
    constructor <;> intro h <;> omega
  · rw [if_neg (not_not.mpr hl)]
    rcases lt_trichotomy a.deviceId b.deviceId with hd | hd | hd
    · rw [if_pos (ne_of_lt hd), if_pos hd]
      simp [hl, not_lt_of_gt hd, ne_of_gt hd]
    · rw [if_neg (not_not.mpr hd)]
      rcases lt_trichotomy a.operationId b.operationId with ho | ho | ho
      · rw [if_pos (ne_of_lt ho), if_pos ho]
        simp [hl, hd, le_of_lt ho]
      · rw [if_neg (not_not.mpr ho)]
        simp [hl, hd, ho]
      · rw [if_pos (ne_of_gt ho), if_neg (not_lt_of_gt ho)]
        simp [hl, hd, ho]
    · rw [if_pos (ne_of_gt hd), if_neg (not_lt_of_gt hd)]
      simp [hl, hd]
  · rw [if_pos (ne_of_gt hl)]
    constructor <;> intro h <;> omega

/-! ### A batch is resolved entry by entry -/

/-- One slot after one value. -/
def resolveSlot (field : Field) (current : Option FieldStateRecord) (incoming : IncomingField) :
    Option FieldStateRecord :=
  (arbitrateField current field incoming).2.orElse fun _ => current

/-- A slot holds what it held, or the value it was given. -/
theorem resolveSlot_mem {current : Option FieldStateRecord} {incoming r : IncomingField}
    {field : Field} (h : resolveSlot field current incoming = some r) :
    r = incoming ∨ current = some r := by
  unfold resolveSlot arbitrateField at h
  rcases current with _ | held
  · exact Or.inl (Option.some.inj h).symm
  · dsimp only at h
    split_ifs at h
    · exact Or.inl (Option.some.inj h).symm
    · exact Or.inr h
    · exact Or.inl (Option.some.inj h).symm
    · exact Or.inr h

/-- A slot that was given values holds one of them, or what it held. -/
theorem mem_of_foldl_resolveSlot {field : Field} {values : List IncomingField}
    {current : Option FieldStateRecord} {r : FieldStateRecord}
    (h : values.foldl (resolveSlot field) current = some r) : r ∈ values ∨ current = some r := by
  induction values generalizing current with
  | nil => exact Or.inr h
  | cons value values ih =>
    rcases ih h with hmem | hone
    · exact Or.inl (List.mem_cons_of_mem _ hmem)
    · rcases resolveSlot_mem hone with rfl | hold
      · exact Or.inl List.mem_cons_self
      · exact Or.inr hold

theorem resolveSlot_ne_none {field : Field} {current : Option FieldStateRecord}
    {incoming : IncomingField} : resolveSlot field current incoming ≠ none := by
  unfold resolveSlot arbitrateField
  rcases current with _ | held
  · simp
  · dsimp only
    split_ifs <;> simp

/-- A slot is empty only if it was given nothing. -/
theorem foldl_resolveSlot_ne_none {field : Field} {values : List IncomingField}
    {current : Option FieldStateRecord} (h : values ≠ [] ∨ current ≠ none) :
    values.foldl (resolveSlot field) current ≠ none := by
  induction values generalizing current with
  | nil => exact h.resolve_left fun hne => hne rfl
  | cons value values ih => exact ih (Or.inr resolveSlot_ne_none)

/-- The store after one entry. -/
def resolveEntry (store : FieldStore) (entry : BatchFieldResolution) : FieldStore :=
  Function.update store entry.slot (resolveSlot entry.field (store entry.slot) entry.incoming)

theorem resolveEntry_of_none {store : FieldStore} {entry : BatchFieldResolution}
    (h : (arbitrateField (store entry.slot) entry.field entry.incoming).2 = none) :
    resolveEntry store entry = store := by
  rw [resolveEntry, resolveSlot, h]
  exact Function.update_eq_self _ _

theorem resolveEntry_of_some {store : FieldStore} {entry : BatchFieldResolution}
    {next : FieldStateRecord}
    (h : (arbitrateField (store entry.slot) entry.field entry.incoming).2 = some next) :
    resolveEntry store entry = Function.update store entry.slot (some next) := by
  rw [resolveEntry, resolveSlot, h]
  rfl

/-- What the walk has read, where it reads, is what it has written over the store. -/
theorem foldl_step_eq (store : FieldStore) (keys : List SlotKey) :
    ∀ (entries : List BatchFieldResolution), (∀ e ∈ entries, e.slot ∈ keys) →
      ∀ (w : BatchWalk) (store' : FieldStore),
        (∀ key, store' key = (w.pendingWrites key).orElse fun _ => store key) →
        (∀ key ∈ keys, w.currentByKey key = store' key) →
        ∀ key, ((entries.foldl BatchWalk.step w).pendingWrites key).orElse (fun _ => store key) =
          entries.foldl resolveEntry store' key := by
  intro entries
  induction entries with
  | nil => exact fun _ w store' hpending _ key => (hpending key).symm
  | cons entry entries ih =>
    intro hkeys w store' hpending hcurrent
    have hslot := hkeys entry List.mem_cons_self
    have hrest := fun e he => hkeys e (List.mem_cons_of_mem _ he)
    rw [List.foldl_cons, List.foldl_cons]
    refine ih hrest _ _ (fun key => ?_) (fun key hkey => ?_)
    · rcases hres : (arbitrateField (store' entry.slot) entry.field entry.incoming).2 with _ | next
      · have hstep : (w.step entry).pendingWrites = w.pendingWrites := by
          simp only [BatchWalk.step, hcurrent entry.slot hslot, hres]
        rw [hstep, resolveEntry_of_none hres]
        exact hpending key
      · have hstep : (w.step entry).pendingWrites =
            Function.update w.pendingWrites entry.slot (some next) := by
          simp only [BatchWalk.step, hcurrent entry.slot hslot, hres]
        rw [hstep, resolveEntry_of_some hres]
        by_cases hk : key = entry.slot
        · simp [hk]
        · simpa [Function.update_apply, hk] using hpending key
    · rcases hres : (arbitrateField (store' entry.slot) entry.field entry.incoming).2 with _ | next
      · have hstep : (w.step entry).currentByKey = w.currentByKey := by
          simp only [BatchWalk.step, hcurrent entry.slot hslot, hres]
        rw [hstep, resolveEntry_of_none hres]
        exact hcurrent key hkey
      · have hstep : (w.step entry).currentByKey =
            Function.update w.currentByKey entry.slot (some next) := by
          simp only [BatchWalk.step, hcurrent entry.slot hslot, hres]
        rw [hstep, resolveEntry_of_some hres, Function.update_apply, Function.update_apply,
          hcurrent key hkey]

/-- **A batch is resolved entry by entry.** -/
theorem resolveFieldsBatch_snd (store : FieldStore) (entries : List BatchFieldResolution) :
    (resolveFieldsBatch store entries).2 = entries.foldl resolveEntry store := by
  unfold resolveFieldsBatch
  split
  · rename_i hempty
    rw [List.isEmpty_iff.mp hempty]
    rfl
  · funext key
    refine foldl_step_eq store (entries.map BatchFieldResolution.slot) entries
      (fun e he => List.mem_map_of_mem he) _ store (fun _ => rfl) (fun key hkey => ?_) key
    exact if_pos hkey

/-- The results of resolving entries one after the other. -/
def resolveResults : FieldStore → List BatchFieldResolution → List ResolveResult
  | _, [] => []
  | store, entry :: entries =>
    (arbitrateField (store entry.slot) entry.field entry.incoming).1 ::
      resolveResults (resolveEntry store entry) entries

theorem foldl_step_results (keys : List SlotKey) :
    ∀ (entries : List BatchFieldResolution), (∀ e ∈ entries, e.slot ∈ keys) →
      ∀ (w : BatchWalk) (store : FieldStore), (∀ key ∈ keys, w.currentByKey key = store key) →
        (entries.foldl BatchWalk.step w).results = w.results ++ resolveResults store entries := by
  intro entries
  induction entries with
  | nil => exact fun _ w _ _ => (List.append_nil w.results).symm
  | cons entry entries ih =>
    intro hkeys w store hcurrent
    have hslot := hkeys entry List.mem_cons_self
    have hrest := fun e he => hkeys e (List.mem_cons_of_mem _ he)
    have hres := hcurrent entry.slot hslot
    have hresults : (w.step entry).results =
        w.results ++ [(arbitrateField (store entry.slot) entry.field entry.incoming).1] := by
      simp only [BatchWalk.step, hres]
      split <;> rfl
    rw [List.foldl_cons, ih hrest (w.step entry) (resolveEntry store entry) ?_, hresults,
      List.append_assoc]
    · rfl
    · intro key hkey
      rcases hnext : (arbitrateField (store entry.slot) entry.field entry.incoming).2 with _ | next
      · have hstep : (w.step entry).currentByKey = w.currentByKey := by
          simp only [BatchWalk.step, hres, hnext]
        rw [hstep, resolveEntry_of_none hnext]
        exact hcurrent key hkey
      · have hstep : (w.step entry).currentByKey =
            Function.update w.currentByKey entry.slot (some next) := by
          simp only [BatchWalk.step, hres, hnext]
        rw [hstep, resolveEntry_of_some hnext, Function.update_apply, Function.update_apply,
          hcurrent key hkey]

/-- **The results of a batch** are those of its entries one by one. -/
theorem resolveFieldsBatch_fst (store : FieldStore) (entries : List BatchFieldResolution) :
    (resolveFieldsBatch store entries).1 = resolveResults store entries := by
  unfold resolveFieldsBatch
  split
  · rename_i hempty
    rw [List.isEmpty_iff.mp hempty]
    rfl
  · rw [← List.nil_append (resolveResults store entries)]
    refine foldl_step_results (entries.map BatchFieldResolution.slot) entries
      (fun e he => List.mem_map_of_mem he) _ store fun key hkey => ?_
    exact if_pos hkey

/-- **A slot depends on its own entries only.** -/
theorem foldl_resolveEntry_apply (key : SlotKey) (entries : List BatchFieldResolution) :
    ∀ store : FieldStore, entries.foldl resolveEntry store key =
      ((entries.filter fun e => e.slot = key).map BatchFieldResolution.incoming).foldl
        (resolveSlot key.2) (store key) := by
  induction entries with
  | nil => exact fun _ => rfl
  | cons entry entries ih =>
    intro store
    rw [List.foldl_cons, ih]
    by_cases hk : entry.slot = key
    · rw [List.filter_cons_of_pos (by simpa using hk), List.map_cons, List.foldl_cons]
      subst hk
      rw [resolveEntry, Function.update_self]
      rfl
    · rw [List.filter_cons_of_neg (by simpa using hk), resolveEntry,
        Function.update_of_ne (Ne.symm hk)]

end Client

end HelixSync
