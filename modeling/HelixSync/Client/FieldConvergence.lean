import HelixSync.Lib.MaxRegister
import HelixSync.Client.BookmarkFields

/-!
# Convergence of the fields

The appliers of bookmarks (`extension/src/bookmarks/index.ts`) and of tabs, windows and tab
groups (`extension/src/tabs/index.ts`) hand the values of an operation to
`resolveFieldsBatch`, slot by slot. Outside the `liveness` slot the rule is plain
last-writer-wins, so a slot is a register that keeps the greatest key
(`HelixSync.Client.resolveSlot_eq_write`): what it ends with does not depend on the order
of delivery, on repetitions or on the way the operations are split into calls
(`HelixSync.Client.fields_converge`).
-/

namespace HelixSync

namespace Client

/-! ### The values of an operation -/

/-- The slots of a remote operation on a tab (`applyTabRemoteBatch`). -/
def tabFields (op : OperationOut) (payload : Json) : List FieldResolution :=
  let incoming (value : Json) : IncomingField := ⟨op.key, op.operationType, some value⟩
  match op.operationType with
  | .close => [(.liveness, incoming deleted)]
  | .activate => [(.other "active", incoming (.bool true))]
  | _ => [(.other "state", incoming payload), (.liveness, incoming live)]

/-- The slot of a remote operation on a window (`applyWindowRemoteBatch`). -/
def windowFields (op : OperationOut) : List FieldResolution :=
  [(.liveness, ⟨op.key, op.operationType,
    some (if op.operationType = .close then deleted else live)⟩)]

/-- The slots of a remote operation on a tab group (`applyGroupRemoteBatch`). -/
def groupFields (op : OperationOut) (payload : Json) : List FieldResolution :=
  let incoming (value : Json) : IncomingField := ⟨op.key, op.operationType, some value⟩
  match op.operationType with
  | .delete => [(.liveness, incoming deleted)]
  | _ => [(.other "state", incoming payload), (.liveness, incoming live)]

/-- The slots of a remote operation, by the applier of its type. History has no slots, and
the other types have no applier. -/
def fieldResolutions (item : RemoteItem) : List FieldResolution :=
  match item.1.objectType with
  | .bookmark | .bookmarkFolder => (remoteFieldResolutions item.1 item.2).2.filterMap id
  | .tab => tabFields item.1 item.2
  | .window => windowFields item.1
  | .tabGroup => groupFields item.1 item.2
  | _ => []

/-- The entries of the operations of one call, in wire order. -/
def callEntries (items : List RemoteItem) : List BatchFieldResolution :=
  items.flatMap fun item => (fieldResolutions item).map fun f => ⟨item.1.objectId, f.1, f.2⟩

/-- The store after one call of `resolveFieldsBatch` for each list of operations. -/
def deliver (store : FieldStore) (calls : List (List RemoteItem)) : FieldStore :=
  calls.foldl (fun store items => (resolveFieldsBatch store (callEntries items)).2) store

/-- What an operation writes to a slot. -/
def writes (slot : SlotKey) (item : RemoteItem) : List IncomingField :=
  if item.1.objectId = slot.1 then
    ((fieldResolutions item).filter fun f => f.1 = slot.2).map Prod.snd
  else []

/-- The values carry the key of their operation, -/
theorem key_of_mem_fieldResolutions {item : RemoteItem} {f : FieldResolution}
    (h : f ∈ fieldResolutions item) : f.2.key = item.1.key := by
  unfold fieldResolutions at h
  split at h
  · simp only [remoteFieldResolutions] at h
    split at h <;> simp at h <;> aesop
  · simp only [remoteFieldResolutions] at h
    split at h <;> simp at h <;> aesop
  · simp only [tabFields] at h
    split at h <;> simp at h <;> aesop
  · simp only [windowFields, List.mem_singleton] at h
    rw [h]
  · simp only [groupFields] at h
    split at h <;> simp at h <;> aesop
  · exact absurd h List.not_mem_nil

/-- and there is at most one for each field. -/
theorem nodup_fieldResolutions (item : RemoteItem) :
    ((fieldResolutions item).map Prod.fst).Nodup := by
  have hbookmark : (((remoteFieldResolutions item.1 item.2).2.filterMap id).map Prod.fst).Nodup := by
    simp only [remoteFieldResolutions]
    split
    · simp
    · simp
    · cases item.2.get? "title" <;> cases stringField? item.2 "url" <;> simp
    · simp
    · simp
    · simp
  unfold fieldResolutions
  split
  · exact hbookmark
  · exact hbookmark
  · simp only [tabFields]
    split <;> simp
  · simp [windowFields]
  · simp only [groupFields]
    split <;> simp
  · exact List.nodup_nil

section Writes

variable {slot : SlotKey} {item : RemoteItem} {value : IncomingField}

theorem mem_writes : value ∈ writes slot item ↔
    item.1.objectId = slot.1 ∧ (slot.2, value) ∈ fieldResolutions item := by
  unfold writes
  split
  · rename_i hid
    simp only [List.mem_map, List.mem_filter, decide_eq_true_eq]
    constructor
    · rintro ⟨f, ⟨hf, hfield⟩, rfl⟩
      exact ⟨hid, hfield ▸ hf⟩
    · rintro ⟨-, hf⟩
      exact ⟨_, ⟨hf, rfl⟩, rfl⟩
  · rename_i hid
    simp [hid]

/-- An operation writes a slot at most once. -/
theorem writes_unique {other : IncomingField} (h : value ∈ writes slot item)
    (hother : other ∈ writes slot item) : other = value := by
  have hvalue := (mem_writes.mp h).2
  have hotherValue := (mem_writes.mp hother).2
  have heq := List.inj_on_of_nodup_map (nodup_fieldResolutions item) hotherValue hvalue rfl
  exact (Prod.mk.inj heq).2

/-- The values a slot gets are those its operations write. -/
theorem filter_callEntries (slot : SlotKey) (items : List RemoteItem) :
    ((callEntries items).filter fun e => e.slot = slot).map BatchFieldResolution.incoming =
      items.flatMap (writes slot) := by
  induction items with
  | nil => rfl
  | cons item items ih =>
    rw [callEntries, List.flatMap_cons, List.filter_append, List.map_append, ← callEntries, ih,
      List.flatMap_cons]
    congr 1
    rw [writes, List.filter_map, List.map_map]
    by_cases hid : item.1.objectId = slot.1
    · rw [if_pos hid]
      have hslot : ((fun e : BatchFieldResolution => decide (e.slot = slot)) ∘
          fun f : FieldResolution => (⟨item.1.objectId, f.1, f.2⟩ : BatchFieldResolution)) =
            fun f => decide (f.1 = slot.2) := by
        funext f
        simp [BatchFieldResolution.slot, Prod.ext_iff, hid]
      rw [hslot]
      rfl
    · rw [if_neg hid]
      have hslot : ((fun e : BatchFieldResolution => decide (e.slot = slot)) ∘
          fun f : FieldResolution => (⟨item.1.objectId, f.1, f.2⟩ : BatchFieldResolution)) =
            fun _ => false := by
        funext f
        simp [BatchFieldResolution.slot, Prod.ext_iff, hid]
      rw [hslot]
      simp

end Writes

/-! ### A slot is a register -/

/-- **Outside `liveness`** a slot keeps the greatest key. -/
theorem resolveSlot_eq_write {field : Field} (h : field ≠ .liveness)
    (current : Option FieldStateRecord) (incoming : IncomingField) :
    resolveSlot field current incoming = MaxRegister.write IncomingField.key current incoming := by
  unfold resolveSlot arbitrateField MaxRegister.write
  rcases current with _ | current
  · rfl
  · dsimp only
    rw [if_neg fun hl => h hl.1, if_neg fun hl => h hl.1]
    by_cases hlt : current.key < incoming.key
    · rw [if_pos (compareOrderingKey_pos.mpr hlt), if_pos hlt]
      rfl
    · rw [if_neg fun hpos => hlt (compareOrderingKey_pos.mp hpos), if_neg hlt]
      rfl

/-- The slot after any calls. -/
theorem deliver_slot (slot : SlotKey) (calls : List (List RemoteItem)) :
    ∀ store : FieldStore, deliver store calls slot =
      (calls.flatten.flatMap (writes slot)).foldl (resolveSlot slot.2) (store slot) := by
  induction calls with
  | nil => exact fun _ => rfl
  | cons items calls ih =>
    intro store
    rw [deliver, List.foldl_cons, ← deliver, ih, resolveFieldsBatch_snd, foldl_resolveEntry_apply,
      filter_callEntries, List.flatten_cons, List.flatMap_append, List.foldl_append]

/-- The slot after any calls, outside `liveness`. -/
theorem deliver_apply {slot : SlotKey} (h : slot.2 ≠ .liveness) (calls : List (List RemoteItem))
    (store : FieldStore) : deliver store calls slot =
      (calls.flatten.flatMap (writes slot)).foldl (MaxRegister.write IncomingField.key)
        (store slot) := by
  have hwrite : resolveSlot slot.2 = MaxRegister.write IncomingField.key := by
    funext current incoming
    exact resolveSlot_eq_write h current incoming
  rw [deliver_slot, hwrite]

theorem mem_flatMap_writes {slot : SlotKey} {items : List RemoteItem} {value : IncomingField} :
    value ∈ items.flatMap (writes slot) ↔ ∃ item ∈ items, value ∈ writes slot item :=
  List.mem_flatMap

/-- A value that does not exceed what its slot holds is not applied. -/
theorem not_applied_of_le {field : Field} (h : field ≠ .liveness) {held : FieldStateRecord}
    {incoming : IncomingField} (hle : incoming.key ≤ held.key) :
    (arbitrateField (some held) field incoming).1.applied = false := by
  unfold arbitrateField
  dsimp only
  rw [if_neg fun hl => h hl.1, if_neg fun hl => h hl.1,
    if_neg fun hpos => not_lt.mpr hle (compareOrderingKey_pos.mp hpos)]

/-- Entries whose slots already hold at least their keys change no slot but `liveness`, and
are reported as not applied. -/
theorem resolve_again (entries : List BatchFieldResolution) :
    ∀ store : FieldStore, (∀ e ∈ entries, e.field ≠ .liveness →
        ∃ held, store e.slot = some held ∧ e.incoming.key ≤ held.key) →
      (∀ slot : SlotKey, slot.2 ≠ .liveness → entries.foldl resolveEntry store slot = store slot) ∧
      ∀ p ∈ entries.zip (resolveResults store entries), p.1.field ≠ .liveness →
        p.2.applied = false := by
  induction entries with
  | nil => exact fun _ _ => ⟨fun _ _ => rfl, fun p hp => absurd hp List.not_mem_nil⟩
  | cons entry entries ih =>
    intro store hheld
    -- the first entry keeps every slot but `liveness`
    have hkeep : ∀ slot : SlotKey, slot.2 ≠ .liveness → resolveEntry store entry slot = store slot := by
      intro slot hslot
      rw [resolveEntry, Function.update_apply]
      split
      · rename_i heq
        subst heq
        have hfield : entry.field ≠ .liveness := hslot
        obtain ⟨held, hstore, hle⟩ := hheld entry List.mem_cons_self hfield
        rw [resolveSlot_eq_write hfield, hstore, MaxRegister.write_eq_self hle]
      · rfl
    obtain ⟨hslots, hresults⟩ := ih (resolveEntry store entry) fun e he hfield => by
      obtain ⟨held, hstore, hle⟩ := hheld e (List.mem_cons_of_mem _ he) hfield
      exact ⟨held, (hkeep e.slot hfield).trans hstore, hle⟩
    refine ⟨fun slot hslot => ?_, fun p hp hfield => ?_⟩
    · rw [List.foldl_cons, hslots slot hslot, hkeep slot hslot]
    · rw [resolveResults, List.zip_cons_cons] at hp
      rcases List.mem_cons.mp hp with rfl | hp
      · obtain ⟨held, hstore, hle⟩ := hheld entry List.mem_cons_self hfield
        change (arbitrateField (store entry.slot) entry.field entry.incoming).1.applied = false
        rw [hstore]
        exact not_applied_of_le hfield hle
      · exact hresults p hp hfield

/-- The parent and the position in a value of the `move` slot are those of one payload. -/
theorem move_of_mem_writes {objectId : Uuid} {item : RemoteItem} {value : IncomingField}
    (h : value ∈ writes (objectId, .move) item) : ∃ place, value.value = some place ∧
      place.get? "parent" = item.2.get? "parent" ∧
      place.get? "position" = item.2.get? "position" := by
  have hmem := (mem_writes.mp h).2
  have hlookup : ∀ payload : Json, (moveValue payload).get? "parent" = payload.get? "parent" ∧
      (moveValue payload).get? "position" = payload.get? "position" := by
    intro payload
    rw [moveValue]
    rcases payload.get? "parent" with _ | parent <;> rcases payload.get? "position" with _ | position <;>
      exact ⟨rfl, rfl⟩
  have hbookmark : ((Field.move, value) : FieldResolution) ∈
      (remoteFieldResolutions item.1 item.2).2.filterMap id → ∃ place, value.value = some place ∧
        place.get? "parent" = item.2.get? "parent" ∧
        place.get? "position" = item.2.get? "position" := by
    intro hf
    simp only [remoteFieldResolutions] at hf
    split at hf <;> simp at hf
    · exact ⟨moveValue item.2, by rw [hf], hlookup item.2⟩
    · exact ⟨moveValue item.2, by rw [hf], hlookup item.2⟩
    · exact ⟨item.2, by rw [hf], rfl, rfl⟩
  unfold fieldResolutions at hmem
  split at hmem
  · exact hbookmark hmem
  · exact hbookmark hmem
  · simp only [tabFields] at hmem
    split at hmem <;> simp at hmem
  · simp [windowFields] at hmem
  · simp only [groupFields] at hmem
    split at hmem <;> simp at hmem
  · exact absurd hmem List.not_mem_nil

/-- **The fields converge.** Operations whose keys tell them apart are delivered in any
order, any number of times and in any calls, to an empty store. Then every slot but
`liveness` holds the value and the key of the greatest-key operation that writes it; a
`move` slot has parent and position of one operation; and calls that deliver some of the
operations again change no such slot and report nothing as applied. -/
theorem fields_converge (objectId : Uuid) (calls : List (List RemoteItem))
    (hkeys : ∀ a ∈ calls.flatten, ∀ b ∈ calls.flatten,
      a.1.objectId = objectId → b.1.objectId = objectId → a.1.key = b.1.key → a = b) :
    (∀ field, field ≠ .liveness → ∀ item ∈ calls.flatten,
      ∀ value ∈ writes (objectId, field) item,
        (∀ other ∈ calls.flatten, writes (objectId, field) other ≠ [] →
          other.1.key ≤ item.1.key) →
        deliver emptyStore calls (objectId, field) = some value ∧ value.key = item.1.key) ∧
    (∀ field, field ≠ .liveness → (∀ item ∈ calls.flatten, writes (objectId, field) item = []) →
      deliver emptyStore calls (objectId, field) = none) ∧
    (∀ held, deliver emptyStore calls (objectId, .move) = some held →
      ∃ item ∈ calls.flatten, item.1.objectId = objectId ∧ held.key = item.1.key ∧
        ∃ place, held.value = some place ∧ place.get? "parent" = item.2.get? "parent" ∧
          place.get? "position" = item.2.get? "position") ∧
    (∀ again : List RemoteItem, (∀ item ∈ again, item ∈ calls.flatten) →
      (∀ slot : SlotKey, slot.2 ≠ .liveness →
        (resolveFieldsBatch (deliver emptyStore calls) (callEntries again)).2 slot =
          deliver emptyStore calls slot) ∧
      ∀ p ∈ (callEntries again).zip
          (resolveFieldsBatch (deliver emptyStore calls) (callEntries again)).1,
        p.1.field ≠ .liveness → p.2.applied = false) := by
  have hkeyOf : ∀ (slot : SlotKey) (item : RemoteItem) (value : IncomingField),
      value ∈ writes slot item → value.key = item.1.key := fun slot item value h =>
    key_of_mem_fieldResolutions (mem_writes.mp h).2
  refine ⟨fun field hfield item hitem value hvalue hgreatest => ⟨?_, hkeyOf _ _ _ hvalue⟩,
    fun field hfield hnone => ?_, fun held hheld => ?_, fun again hagain => ?_⟩
  · rw [deliver_apply hfield]
    refine MaxRegister.foldl_eq_of_greatest (mem_flatMap_writes.mpr ⟨item, hitem, hvalue⟩)
      (fun v hv => ?_) (fun v hv hkey => ?_)
    · obtain ⟨other, hother, hw⟩ := mem_flatMap_writes.mp hv
      rw [hkeyOf _ _ _ hw, hkeyOf _ _ _ hvalue]
      exact hgreatest other hother (List.ne_nil_of_mem hw)
    · obtain ⟨other, hother, hw⟩ := mem_flatMap_writes.mp hv
      rw [hkeyOf _ _ _ hw, hkeyOf _ _ _ hvalue] at hkey
      obtain rfl := hkeys other hother item hitem (mem_writes.mp hw).1 (mem_writes.mp hvalue).1 hkey
      exact writes_unique hvalue hw
  · rw [deliver_apply hfield]
    have hnil : calls.flatten.flatMap (writes (objectId, field)) = [] :=
      List.flatMap_eq_nil_iff.mpr hnone
    rw [hnil]
    rfl
  · rw [deliver_apply (show ((objectId, .move) : SlotKey).2 ≠ .liveness from nofun)] at hheld
    rcases MaxRegister.mem_of_foldl hheld with hnone | hmem
    · exact absurd hnone (by simp [emptyStore])
    · obtain ⟨item, hitem, hw⟩ := mem_flatMap_writes.mp hmem
      exact ⟨item, hitem, (mem_writes.mp hw).1, hkeyOf _ _ _ hw, move_of_mem_writes hw⟩
  · rw [resolveFieldsBatch_snd, resolveFieldsBatch_fst]
    refine resolve_again (callEntries again) _ fun e he hfield => ?_
    obtain ⟨item, hitem, hentry⟩ := List.mem_flatMap.mp he
    obtain ⟨f, hf, rfl⟩ := List.mem_map.mp hentry
    have hw : f.2 ∈ calls.flatten.flatMap (writes (item.1.objectId, f.1)) :=
      mem_flatMap_writes.mpr ⟨item, hagain item hitem, mem_writes.mpr ⟨rfl, hf⟩⟩
    have hslot := @deliver_apply (item.1.objectId, f.1) hfield calls emptyStore
    obtain ⟨held, hheld⟩ := Option.ne_none_iff_exists'.mp
      (@MaxRegister.foldl_ne_none _ _ _ IncomingField.key (emptyStore (item.1.objectId, f.1)) _ _ hw)
    exact ⟨held, hslot.trans hheld, MaxRegister.le_of_foldl hw hheld⟩

/-- A bookmark is created, renamed and moved, by three devices. -/
def createdItem : RemoteItem :=
  (⟨11, 1, 1, .bookmark, 7, .create⟩, .object [("title", .string "a"), ("url", .string "u"),
    ("parent", .string "p"), ("position", .string "m")])

/-- The rename. -/
def renamedItem : RemoteItem := (⟨12, 2, 5, .bookmark, 7, .update⟩, .object [("title", .string "b")])

/-- The move. -/
def movedItem : RemoteItem :=
  (⟨13, 3, 3, .bookmark, 7, .move⟩, .object [("parent", .string "q"), ("position", .string "n")])

/-- The rename arrives first, the move twice. -/
theorem fields_converge_outOfOrder :
    (deliver emptyStore [[renamedItem, movedItem], [createdItem], [movedItem]] (7, .title) =
      some ⟨renamedItem.1.key, .update, some (.string "b")⟩) ∧
    deliver emptyStore [[renamedItem, movedItem], [createdItem], [movedItem]] (7, .move) =
      some ⟨movedItem.1.key, .move, some movedItem.2⟩ := by
  have hkeys : ∀ a ∈ [[renamedItem, movedItem], [createdItem], [movedItem]].flatten,
      ∀ b ∈ [[renamedItem, movedItem], [createdItem], [movedItem]].flatten,
        a.1.objectId = 7 → b.1.objectId = 7 → a.1.key = b.1.key → a = b := by
    intro a ha b hb _ _ hkey
    simp only [List.flatten_cons, List.flatten_nil, List.append_nil, List.cons_append,
      List.nil_append, List.mem_cons, List.not_mem_nil, or_false] at ha hb
    rcases ha with rfl | rfl | rfl | rfl <;> rcases hb with rfl | rfl | rfl | rfl <;>
      first
        | rfl
        | exact absurd hkey (by decide)
  obtain ⟨hgreatest, -⟩ := fields_converge 7 _ hkeys
  refine ⟨(hgreatest .title nofun renamedItem (by simp) _ (List.mem_singleton.mpr rfl) ?_).1,
    (hgreatest .move nofun movedItem (by simp) _ (List.mem_singleton.mpr rfl) ?_).1⟩
  · intro other hother _
    simp only [List.flatten_cons, List.flatten_nil, List.append_nil, List.cons_append,
      List.nil_append, List.mem_cons, List.not_mem_nil, or_false] at hother
    rcases hother with rfl | rfl | rfl | rfl <;> decide
  · intro other hother hwrites
    simp only [List.flatten_cons, List.flatten_nil, List.append_nil, List.cons_append,
      List.nil_append, List.mem_cons, List.not_mem_nil, or_false] at hother
    rcases hother with rfl | rfl | rfl | rfl
    · exact absurd rfl hwrites
    · decide
    · decide
    · decide

end Client

end HelixSync
