import HelixSync.Client.FieldConvergence

/-!
# Remote tabs, windows and tab groups

The appliers of `extension/src/tabs/index.ts` keep two stores: the slots of `field_state`, which
are arbitrated, and the rows of `remote_objects`, which the list of tabs from other devices is
made of. An applier writes a row when a slot it looks at was applied: `liveness` for a window,
`state` for a tab or a tab group, and `liveness` again for a close or a delete.

A batch is resolved in one transaction and its rows are written in a second one. What it leaves
is what its operations leave one after the other (`HelixSync.Client.applyItems_eq`), and of that
an object sees its own operations only (`HelixSync.Client.view_applyRemoteCalls`).

Left out are `updatedAt`, which orders the rows for display, and what a batch does to the tabs
and groups of the browser itself, which neither store depends on.
-/

namespace HelixSync

namespace Client

/-! ### The stores -/

/-- `RemoteObjectRecord`. -/
structure RemoteObjectRecord where
  objectId : Uuid
  objectType : ObjectType
  originDeviceId : Uuid
  payload : Option Json
  deleted : Bool

/-- The `field_state` and `remote_objects` stores. -/
structure RemoteStores where
  fields : FieldStore
  remoteObjects : Uuid → Option RemoteObjectRecord

/-- A profile that has received nothing. -/
def RemoteStores.empty : RemoteStores := ⟨emptyStore, fun _ => none⟩

/-- `remoteObjectRecord`. -/
def remoteObjectRecord (op : OperationOut) (objectType : ObjectType) (payload : Option Json)
    (deleted : Bool) : RemoteObjectRecord :=
  ⟨op.objectId, objectType, op.deviceId, payload, deleted⟩

/-- `putRemoteObjectsBatch`. -/
def putRemoteObjectsBatch (remoteObjects : Uuid → Option RemoteObjectRecord)
    (records : List RemoteObjectRecord) : Uuid → Option RemoteObjectRecord :=
  records.foldl (fun objects record => Function.update objects record.objectId (some record))
    remoteObjects

/-! ### One operation's row -/

/-- The row an operation on a window writes. -/
def windowRecord (item : RemoteItem) : List ResolveResult → Option RemoteObjectRecord
  | liveness :: _ =>
    if liveness.applied then
      some (remoteObjectRecord item.1 .window (some item.2) (item.1.operationType == .close))
    else none
  | [] => none

/-- The row an operation on a tab writes. -/
def tabRecord (item : RemoteItem) (results : List ResolveResult) : Option RemoteObjectRecord :=
  match item.1.operationType, results with
  | .close, liveness :: _ =>
    if liveness.applied then some (remoteObjectRecord item.1 .tab (some .null) true) else none
  | .activate, _ => none
  | _, state :: liveness :: _ =>
    if state.applied then
      some (remoteObjectRecord item.1 .tab state.value (isDeleted liveness.value))
    else none
  | _, _ => none

/-- The row an operation on a tab group writes: a group is never marked deleted by an update. -/
def groupRecord (item : RemoteItem) (results : List ResolveResult) : Option RemoteObjectRecord :=
  match item.1.operationType, results with
  | .delete, liveness :: _ =>
    if liveness.applied then some (remoteObjectRecord item.1 .tabGroup (some .null) true) else none
  | .delete, [] => none
  | _, state :: _ =>
    if state.applied then some (remoteObjectRecord item.1 .tabGroup state.value false) else none
  | _, [] => none

/-! ### A batch -/

/-- The results of each item, from the results of all. -/
def splitAlong {α : Type} : List ℕ → List α → List (List α)
  | [], _ => []
  | count :: counts, results => results.take count :: splitAlong counts (results.drop count)

/-- The entries of some items, in wire order. -/
def entriesOf (fieldsFor : RemoteItem → List FieldResolution) (items : List RemoteItem) :
    List BatchFieldResolution :=
  items.flatMap fun item => (fieldsFor item).map fun f => ⟨item.1.objectId, f.1, f.2⟩

/-- `resolveItems`: one transaction. -/
def resolveItems (store : FieldStore) (items : List RemoteItem)
    (fieldsFor : RemoteItem → List FieldResolution) : List (List ResolveResult) × FieldStore :=
  let (results, store') := resolveFieldsBatch store (entriesOf fieldsFor items)
  (splitAlong (items.map fun item => (fieldsFor item).length) results, store')

/-- A batch: its slots are resolved, then the rows are written. -/
def applyItems (fieldsFor : RemoteItem → List FieldResolution)
    (recordOf : RemoteItem → List ResolveResult → Option RemoteObjectRecord)
    (stores : RemoteStores) (items : List RemoteItem) : RemoteStores :=
  if items.isEmpty then stores
  else
    let (results, fields) := resolveItems stores.fields items fieldsFor
    ⟨fields, putRemoteObjectsBatch stores.remoteObjects
      ((items.zip results).filterMap fun e => recordOf e.1 e.2)⟩

/-- `applyWindowRemoteBatch`, and `applyWindowRemote` for a batch of one. -/
def applyWindowRemoteBatch : RemoteStores → List RemoteItem → RemoteStores :=
  applyItems (fun item => windowFields item.1) windowRecord

/-- `applyTabRemoteBatch`, and `applyTabRemote` for a batch of one. -/
def applyTabRemoteBatch : RemoteStores → List RemoteItem → RemoteStores :=
  applyItems (fun item => tabFields item.1 item.2) tabRecord

/-- `applyGroupRemoteBatch`, and `applyGroupRemote` for a batch of one. -/
def applyGroupRemoteBatch : RemoteStores → List RemoteItem → RemoteStores :=
  applyItems (fun item => groupFields item.1 item.2) groupRecord

/-- A call of a batch applier: the operations of one type. -/
abbrev RemoteCall := ObjectType × List RemoteItem

/-- The applier registered for a type. -/
def applyRemoteCall (stores : RemoteStores) (call : RemoteCall) : RemoteStores :=
  match call.1 with
  | .window => applyWindowRemoteBatch stores call.2
  | .tab => applyTabRemoteBatch stores call.2
  | .tabGroup => applyGroupRemoteBatch stores call.2
  | _ => stores

/-- Calls one after the other. -/
def applyRemoteCalls (stores : RemoteStores) (calls : List RemoteCall) : RemoteStores :=
  calls.foldl applyRemoteCall stores

/-! ### One operation after the other -/

/-- The stores after one operation. -/
def applyItem (fieldsFor : RemoteItem → List FieldResolution)
    (recordOf : RemoteItem → List ResolveResult → Option RemoteObjectRecord)
    (stores : RemoteStores) (item : RemoteItem) : RemoteStores where
  fields := (entriesOf fieldsFor [item]).foldl resolveEntry stores.fields
  remoteObjects := putRemoteObjectsBatch stores.remoteObjects
    (recordOf item (resolveResults stores.fields (entriesOf fieldsFor [item]))).toList

theorem length_resolveResults (entries : List BatchFieldResolution) :
    ∀ store : FieldStore, (resolveResults store entries).length = entries.length := by
  induction entries with
  | nil => exact fun _ => rfl
  | cons entry entries ih => exact fun store => congrArg (· + 1) (ih _)

theorem resolveResults_append (entries entries' : List BatchFieldResolution) :
    ∀ store : FieldStore, resolveResults store (entries ++ entries') =
      resolveResults store entries ++ resolveResults (entries.foldl resolveEntry store) entries' := by
  induction entries with
  | nil => exact fun _ => rfl
  | cons entry entries ih => exact fun store => congrArg (_ :: ·) (ih _)

theorem putRemoteObjectsBatch_append (objects : Uuid → Option RemoteObjectRecord)
    (records records' : List RemoteObjectRecord) :
    putRemoteObjectsBatch objects (records ++ records') =
      putRemoteObjectsBatch (putRemoteObjectsBatch objects records) records' :=
  List.foldl_append

section Batch

variable {fieldsFor : RemoteItem → List FieldResolution}
  {recordOf : RemoteItem → List ResolveResult → Option RemoteObjectRecord}

theorem entriesOf_cons (item : RemoteItem) (items : List RemoteItem) :
    entriesOf fieldsFor (item :: items) = entriesOf fieldsFor [item] ++ entriesOf fieldsFor items := by
  simp [entriesOf]

/-- The first item's results are those of its own entries, in the store before it. -/
theorem splitAlong_cons (store : FieldStore) (item : RemoteItem) (items : List RemoteItem) :
    splitAlong ((item :: items).map fun item => (fieldsFor item).length)
        (resolveResults store (entriesOf fieldsFor (item :: items))) =
      resolveResults store (entriesOf fieldsFor [item]) ::
        splitAlong (items.map fun item => (fieldsFor item).length)
          (resolveResults ((entriesOf fieldsFor [item]).foldl resolveEntry store)
            (entriesOf fieldsFor items)) := by
  have hlength : (resolveResults store (entriesOf fieldsFor [item])).length =
      (fieldsFor item).length := by
    rw [length_resolveResults]
    simp [entriesOf]
  rw [entriesOf_cons, resolveResults_append, List.map_cons, splitAlong]
  congr 1
  · exact List.take_left' hlength
  · rw [List.drop_left' hlength]

/-- **A batch is its operations one after the other.** -/
theorem applyItems_eq (items : List RemoteItem) : ∀ stores : RemoteStores,
    applyItems fieldsFor recordOf stores items =
      items.foldl (applyItem fieldsFor recordOf) stores := by
  -- the rows of a batch, with the results its entries have one by one
  have hrows : ∀ (items : List RemoteItem) (stores : RemoteStores),
      (⟨(entriesOf fieldsFor items).foldl resolveEntry stores.fields,
        putRemoteObjectsBatch stores.remoteObjects ((items.zip
          (splitAlong (items.map fun item => (fieldsFor item).length)
            (resolveResults stores.fields (entriesOf fieldsFor items)))).filterMap
              fun e => recordOf e.1 e.2)⟩ : RemoteStores) =
        items.foldl (applyItem fieldsFor recordOf) stores := by
    intro items
    induction items with
    | nil => exact fun _ => rfl
    | cons item items ih =>
      intro stores
      rw [List.foldl_cons, ← ih, splitAlong_cons, entriesOf_cons, List.foldl_append,
        List.zip_cons_cons, List.filterMap_cons]
      dsimp only [applyItem]
      congr 1
      cases recordOf item (resolveResults stores.fields (entriesOf fieldsFor [item])) with
      | none => rfl
      | some record => exact putRemoteObjectsBatch_append _ [record] _
  intro stores
  rw [applyItems]
  split
  · rename_i hempty
    rw [List.isEmpty_iff.mp hempty]
    rfl
  · have hresolve : ∀ entries, resolveFieldsBatch stores.fields entries =
        (resolveResults stores.fields entries, entries.foldl resolveEntry stores.fields) :=
      fun entries => Prod.ext (resolveFieldsBatch_fst _ entries) (resolveFieldsBatch_snd _ entries)
    rw [← hrows, resolveItems, hresolve]

end Batch

/-- One operation, by the applier of its type. -/
def applyRemoteItem (stores : RemoteStores) (item : RemoteItem) : RemoteStores :=
  match item.1.objectType with
  | .window => applyItem (fun item => windowFields item.1) windowRecord stores item
  | .tab => applyItem (fun item => tabFields item.1 item.2) tabRecord stores item
  | .tabGroup => applyItem (fun item => groupFields item.1 item.2) groupRecord stores item
  | _ => stores

/-- The operations of some calls, in the order they are applied. -/
def received (calls : List RemoteCall) : List RemoteItem := calls.flatMap Prod.snd

/-- Every call is one of the three appliers, and its operations are of its type. -/
def WellTyped (calls : List RemoteCall) : Prop :=
  ∀ call ∈ calls, (call.1 = .window ∨ call.1 = .tab ∨ call.1 = .tabGroup) ∧
    ∀ item ∈ call.2, item.1.objectType = call.1

instance (calls : List RemoteCall) : Decidable (WellTyped calls) :=
  inferInstanceAs (Decidable (∀ call ∈ calls, (call.1 = .window ∨ call.1 = .tab ∨
    call.1 = .tabGroup) ∧ ∀ item ∈ call.2, item.1.objectType = call.1))

/-- **Calls are their operations one after the other.** -/
theorem applyRemoteCalls_eq {calls : List RemoteCall} (h : WellTyped calls) :
    ∀ stores, applyRemoteCalls stores calls = (received calls).foldl applyRemoteItem stores := by
  induction calls with
  | nil => exact fun _ => rfl
  | cons call calls ih =>
    intro stores
    obtain ⟨hcall, hrest⟩ := List.forall_mem_cons.mp h
    have hone : applyRemoteCall stores call = call.2.foldl applyRemoteItem stores := by
      obtain ⟨objectType, items⟩ := call
      obtain ⟨htype, hitems⟩ := hcall
      have hfold : ∀ f : RemoteStores → RemoteItem → RemoteStores,
          (∀ item ∈ items, ∀ stores, applyRemoteItem stores item = f stores item) →
            items.foldl f stores = items.foldl applyRemoteItem stores := by
        intro f hf
        refine List.foldl_ext f applyRemoteItem stores fun stores item hitem => ?_
        exact (hf item hitem stores).symm
      rcases htype with rfl | rfl | rfl
      · refine (applyItems_eq items stores).trans (hfold _ fun item hitem stores => ?_)
        rw [applyRemoteItem, hitems item hitem]
      · refine (applyItems_eq items stores).trans (hfold _ fun item hitem stores => ?_)
        rw [applyRemoteItem, hitems item hitem]
      · refine (applyItems_eq items stores).trans (hfold _ fun item hitem stores => ?_)
        rw [applyRemoteItem, hitems item hitem]
    have hreceived : received (call :: calls) = call.2 ++ received calls := List.flatMap_cons
    rw [applyRemoteCalls, List.foldl_cons, ← applyRemoteCalls, ih hrest, hone, hreceived,
      List.foldl_append]

/-! ### One object -/

/-- What the two stores hold about an object. -/
structure TabView where
  state : Option FieldStateRecord
  liveness : Option FieldStateRecord
  record : Option RemoteObjectRecord

/-- What is known of an object of which nothing was received. -/
def TabView.empty : TabView := ⟨none, none, none⟩

/-- The view of an object. -/
def RemoteStores.view (stores : RemoteStores) (objectId : Uuid) : TabView where
  state := stores.fields (objectId, .other "state")
  liveness := stores.fields (objectId, .liveness)
  record := stores.remoteObjects objectId

/-- A value of an operation. -/
def RemoteItem.incoming (item : RemoteItem) (value : Json) : IncomingField :=
  ⟨item.1.key, item.1.operationType, some value⟩

/-- An operation that writes `liveness` alone, and the row with it. -/
def TabView.mark (view : TabView) (item : RemoteItem) (value : Json) (payload : Option Json) :
    TabView where
  state := view.state
  liveness := resolveSlot .liveness view.liveness (item.incoming value)
  record :=
    if (arbitrateField view.liveness .liveness (item.incoming value)).1.applied then
      some (remoteObjectRecord item.1 item.1.objectType payload (isDeleted (some value)))
    else view.record

/-- An operation that writes `state` and `liveness`, and the row with the first. -/
def TabView.write (view : TabView) (item : RemoteItem) : TabView :=
  let state := arbitrateField view.state (.other "state") (item.incoming item.2)
  let liveness := arbitrateField view.liveness .liveness (item.incoming live)
  { state := resolveSlot (.other "state") view.state (item.incoming item.2)
    liveness := resolveSlot .liveness view.liveness (item.incoming live)
    record :=
      if state.1.applied then
        some (remoteObjectRecord item.1 item.1.objectType state.1.value
          (item.1.objectType == .tab && isDeleted liveness.1.value))
      else view.record }

/-- One operation on the object. -/
def TabView.step (view : TabView) (item : RemoteItem) : TabView :=
  match item.1.objectType with
  | .window => view.mark item (if item.1.operationType = .close then deleted else live) (some item.2)
  | .tab =>
    if item.1.operationType = .close then view.mark item deleted (some .null)
    else if item.1.operationType = .activate then view
    else view.write item
  | .tabGroup =>
    if item.1.operationType = .delete then view.mark item deleted (some .null) else view.write item
  | _ => view

/-- The row an operation writes is one of its own object. -/
theorem objectId_of_record {item : RemoteItem} {results : List ResolveResult}
    {record : RemoteObjectRecord} (h : windowRecord item results = some record ∨
      tabRecord item results = some record ∨ groupRecord item results = some record) :
    record.objectId = item.1.objectId := by
  rcases h with h | h | h
  · unfold windowRecord at h
    split at h
    · split at h <;> simp at h
      rw [← h, remoteObjectRecord]
    · simp at h
  · unfold tabRecord at h
    split at h
    · split at h <;> simp at h
      rw [← h, remoteObjectRecord]
    · simp at h
    · split at h <;> simp at h
      rw [← h, remoteObjectRecord]
    · simp at h
  · unfold groupRecord at h
    split at h
    · split at h <;> simp at h
      rw [← h, remoteObjectRecord]
    · simp at h
    · split at h <;> simp at h
      rw [← h, remoteObjectRecord]
    · simp at h

section View

variable {fieldsFor : RemoteItem → List FieldResolution}
  {recordOf : RemoteItem → List ResolveResult → Option RemoteObjectRecord}

/-- An operation leaves the other objects as they are. -/
theorem view_applyItem_of_ne {item : RemoteItem} {objectId : Uuid}
    (hrecord : ∀ results record, recordOf item results = some record →
      record.objectId = item.1.objectId) (hne : item.1.objectId ≠ objectId)
    (stores : RemoteStores) :
    (applyItem fieldsFor recordOf stores item).view objectId = stores.view objectId := by
  have hfields : ∀ field, (entriesOf fieldsFor [item]).foldl resolveEntry stores.fields
      (objectId, field) = stores.fields (objectId, field) := by
    intro field
    rw [foldl_resolveEntry_apply, List.filter_eq_nil_iff.mpr]
    · rfl
    · intro e he
      simp only [entriesOf, List.flatMap_cons, List.flatMap_nil, List.append_nil,
        List.mem_map] at he
      obtain ⟨f, -, rfl⟩ := he
      simp [BatchFieldResolution.slot, hne]
  have hobjects : (applyItem fieldsFor recordOf stores item).remoteObjects objectId =
      stores.remoteObjects objectId := by
    dsimp only [applyItem]
    cases hr : recordOf item (resolveResults stores.fields (entriesOf fieldsFor [item])) with
    | none => rfl
    | some record =>
      show Function.update stores.remoteObjects record.objectId (some record) objectId = _
      rw [hrecord _ _ hr, Function.update_of_ne (Ne.symm hne)]
  rw [RemoteStores.view, hobjects]
  dsimp only [applyItem]
  rw [hfields, hfields]
  rfl

section Own

variable {item : RemoteItem} {stores : RemoteStores}

theorem putRemoteObjectsBatch_ite (objects : Uuid → Option RemoteObjectRecord) (applied : Bool)
    (record : RemoteObjectRecord) :
    putRemoteObjectsBatch objects (if applied = true then some record else none).toList
      record.objectId = if applied = true then some record else objects record.objectId := by
  cases applied with
  | true => exact Function.update_self _ _ _
  | false => rfl

theorem view_applyItem_mark {value : Json} {payload : Option Json}
    (hfields : fieldsFor item = [(.liveness, item.incoming value)])
    (hrecord : ∀ result, recordOf item [result] = if result.applied = true then
      some (remoteObjectRecord item.1 item.1.objectType payload (isDeleted (some value))) else none) :
    (applyItem fieldsFor recordOf stores item).view item.1.objectId =
      (stores.view item.1.objectId).mark item value payload := by
  have hentries : entriesOf fieldsFor [item] =
      [⟨item.1.objectId, .liveness, item.incoming value⟩] := by
    simp [entriesOf, hfields]
  simp only [RemoteStores.view, applyItem, hentries, List.foldl_cons, List.foldl_nil, TabView.mark,
    resolveResults, hrecord, resolveEntry, BatchFieldResolution.slot, Function.update_self]
  have hstate : ((item.1.objectId, .other "state") : SlotKey) ≠ (item.1.objectId, .liveness) := by
    simp
  congr 1
  · exact Function.update_of_ne hstate _ _
  · exact putRemoteObjectsBatch_ite _ _ (remoteObjectRecord item.1 _ _ _)

theorem view_applyItem_write (deletes : Bool)
    (hfields : fieldsFor item = [(.other "state", item.incoming item.2), (.liveness, item.incoming live)])
    (hdeletes : deletes = (item.1.objectType == .tab))
    (hrecord : ∀ state liveness, recordOf item [state, liveness] = if state.applied = true then
      some (remoteObjectRecord item.1 item.1.objectType state.value
        (deletes && isDeleted liveness.value)) else none) :
    (applyItem fieldsFor recordOf stores item).view item.1.objectId =
      (stores.view item.1.objectId).write item := by
  have hentries : entriesOf fieldsFor [item] =
      [⟨item.1.objectId, .other "state", item.incoming item.2⟩,
        ⟨item.1.objectId, .liveness, item.incoming live⟩] := by
    simp [entriesOf, hfields]
  -- the second entry finds its slot as the first one found it
  have hne : ((item.1.objectId, .liveness) : SlotKey) ≠ (item.1.objectId, .other "state") := by simp
  simp only [RemoteStores.view, applyItem, hentries, List.foldl_cons, List.foldl_nil, TabView.write,
    resolveResults, hrecord, resolveEntry, BatchFieldResolution.slot, Function.update_self,
    Function.update_of_ne hne, Function.update_of_ne hne.symm, hdeletes]
  congr 1
  exact putRemoteObjectsBatch_ite _ _ (remoteObjectRecord item.1 _ _ _)

theorem view_applyItem_activate (value : Json)
    (hfields : fieldsFor item = [(.other "active", item.incoming value)])
    (hrecord : ∀ results, recordOf item results = none) :
    (applyItem fieldsFor recordOf stores item).view item.1.objectId =
      stores.view item.1.objectId := by
  have hentries : entriesOf fieldsFor [item] =
      [⟨item.1.objectId, .other "active", item.incoming value⟩] := by
    simp [entriesOf, hfields]
  have hstate : ((item.1.objectId, .other "state") : SlotKey) ≠ (item.1.objectId, .other "active") := by
    simp
  have hliveness : ((item.1.objectId, .liveness) : SlotKey) ≠ (item.1.objectId, .other "active") := by
    simp
  simp only [RemoteStores.view, applyItem, hentries, List.foldl_cons, List.foldl_nil, hrecord,
    resolveEntry, BatchFieldResolution.slot, Function.update_of_ne hstate,
    Function.update_of_ne hliveness]
  rfl

end Own

end View

/-- **An operation changes the view of its own object only.** -/
theorem view_applyRemoteItem (stores : RemoteStores) (item : RemoteItem) (objectId : Uuid) :
    (applyRemoteItem stores item).view objectId =
      if item.1.objectId = objectId then (stores.view objectId).step item
      else stores.view objectId := by
  split
  · rename_i hid
    subst hid
    cases htype : item.1.objectType with
    | window =>
      simp only [applyRemoteItem, htype, TabView.step]
      refine view_applyItem_mark rfl fun result => ?_
      by_cases hclose : item.1.operationType = .close
      · simp [windowRecord, hclose, htype, isDeleted, deleted]
      · simp [windowRecord, beq_eq_false_iff_ne.mpr hclose, hclose, htype, isDeleted, live]
    | tab =>
      simp only [applyRemoteItem, htype, TabView.step]
      split
      · rename_i hclose
        exact view_applyItem_mark (by simp [tabFields, hclose, RemoteItem.incoming])
          (by simp [tabRecord, hclose, htype, isDeleted, deleted])
      · rename_i hclose
        split
        · rename_i hactivate
          exact view_applyItem_activate (.bool true) (by simp [tabFields, hactivate, RemoteItem.incoming])
            (by simp [tabRecord, hactivate])
        · rename_i hactivate
          refine view_applyItem_write true ?_ (by rw [htype]; rfl) fun state liveness => ?_
          · unfold tabFields
            split
            · exact absurd ‹_› hclose
            · exact absurd ‹_› hactivate
            · rfl
          · unfold tabRecord
            split
            · exact absurd ‹_› hclose
            · exact absurd ‹_› hactivate
            · rename_i heq _ _
              cases heq
              rw [htype, Bool.true_and]
            · rename_i hresults _
              exact (hresults state liveness [] rfl).elim
    | tabGroup =>
      simp only [applyRemoteItem, htype, TabView.step]
      split
      · rename_i hdelete
        exact view_applyItem_mark (by simp [groupFields, hdelete, RemoteItem.incoming])
          (by simp [groupRecord, hdelete, htype, isDeleted, deleted])
      · rename_i hdelete
        refine view_applyItem_write false ?_ (by rw [htype]; rfl) fun state liveness => ?_
        · unfold groupFields
          split
          · exact absurd ‹_› hdelete
          · rfl
        · unfold groupRecord
          split
          · exact absurd ‹_› hdelete
          · rename_i heq
            exact absurd heq (List.cons_ne_nil _ _)
          · rename_i heq _
            cases heq
            rw [htype, Bool.false_and]
          · rename_i heq _
            exact absurd heq (List.cons_ne_nil _ _)
    | _ => simp only [applyRemoteItem, htype, TabView.step]
  · rename_i hid
    unfold applyRemoteItem
    split
    · exact view_applyItem_of_ne (fun _ _ h => objectId_of_record (Or.inl h)) hid stores
    · exact view_applyItem_of_ne (fun _ _ h => objectId_of_record (Or.inr (Or.inl h))) hid stores
    · exact view_applyItem_of_ne (fun _ _ h => objectId_of_record (Or.inr (Or.inr h))) hid stores
    · rfl

/-- **An object sees its own operations only.** -/
theorem view_applyRemoteCalls {calls : List RemoteCall} (h : WellTyped calls) (objectId : Uuid)
    (stores : RemoteStores) : (applyRemoteCalls stores calls).view objectId =
      ((received calls).filter fun item => item.1.objectId = objectId).foldl TabView.step
        (stores.view objectId) := by
  rw [applyRemoteCalls_eq h]
  induction received calls generalizing stores with
  | nil => rfl
  | cons item items ih =>
    rw [List.foldl_cons, ih, view_applyRemoteItem]
    split
    · rename_i hid
      rw [List.filter_cons_of_pos (by simpa using hid), List.foldl_cons]
    · rename_i hid
      rw [List.filter_cons_of_neg (by simpa using hid)]

end Client

end HelixSync
