import HelixSync.Client.BookmarkCapture

/-!
# Every bookmark has a recorded position

A device that has captured every local create and every local move, and that has applied creates and
moves of other devices, has a mapping for each node of its tree that is not a built-in folder, and a
recorded position for each mapped object (`HelixSync.Client.AllPositioned`). The applier keeps this, whatever
it is given and wherever a call of the browser is rejected: a node is made for an object only when the
slots of the object have been resolved, in this batch or before the object was deferred.
-/

namespace HelixSync

namespace Client

open Forest

/-! ### Devices and what they hold -/

/-- A device when it begins to sync: nothing but the built-in folders, and the folders that stand in
for hidden ones. -/
structure BookmarkDevice where
  bookmarks : BookmarksModule
  browser : Browser
  /-- `resolveRoots`: what stands in for a built-in folder is linked to it, -/
  standIn_isRoot : ∀ id ∈ bookmarks.standInIds, bookmarks.objectIdByChromiumId id ≠ none
  /-- and nothing else is but the built-in folders themselves. -/
  root_cases : ∀ entry ∈ bookmarks.chromiumIdByObjectId,
    entry.2 ∈ Browser.permanentIds ∨ entry.2 ∈ bookmarks.standInIds
  all_roots : ∀ node ∈ browser.nodes, bookmarks.objectIdByChromiumId node.id ≠ none
  below_root : ∀ node ∈ browser.nodes, node.id ∈ Browser.permanentIds → ∀ parent ∈ node.parent, parent = 0
  root_lt : ∀ id ∈ Browser.permanentIds ++ bookmarks.standInIds, id < browser.nextId
  node_lt : ∀ node ∈ browser.nodes, node.id < browser.nextId
  distinct : Forest.Distinct browser.nodes

/-- What is linked to a built-in folder is that folder, or stands in for it. -/
theorem BookmarkDevice.cases_of_root (device : BookmarkDevice) {id : ChromiumId}
    (h : device.bookmarks.objectIdByChromiumId id ≠ none) :
    id ∈ Browser.permanentIds ∨ id ∈ device.bookmarks.standInIds := by
  obtain ⟨objectId, hobject⟩ := Option.ne_none_iff_exists'.mp h
  obtain ⟨entry, hentry, -⟩ := Option.map_eq_some_iff.mp hobject
  have heq : entry.2 = id := by simpa using List.find?_some hentry
  exact heq ▸ device.root_cases entry (List.mem_of_find?_eq_some hentry)

/-- The position of a `move` value. -/
def positionIn (value : Option Json) : Option String :=
  value.bind fun value => textField value "position"

/-- The operations that were sent: creates and moves, each with a valid position. -/
def SentKeys (sent : List RemoteItem) : Prop :=
  ∀ item ∈ sent, (item.1.operationType = .create ∨ item.1.operationType = .move) ∧
    ∃ position, textField item.2 "position" = some position ∧ IsKey position

/-- An object has a recorded `move` slot. -/
def HasMove (profile : Profile) (objectId : Uuid) : Prop :=
  (profile.fields (objectId, .move)).isSome

/-- **A profile that is positioned throughout**: all nodes that are no built-in folders are mapped to objects with a recorded
position, which somebody has sent. -/
structure AllPositioned (device : BookmarkDevice) (sent : List RemoteItem) (profile : Profile) : Prop where
  root_lt : ∀ id ∈ Browser.permanentIds ++ device.bookmarks.standInIds, id < profile.browser.nextId
  node_lt : ∀ node ∈ profile.browser.nodes, node.id < profile.browser.nextId
  mapping_lt : ∀ entry ∈ profile.mappings, entry.1 < profile.browser.nextId
  distinct : Forest.Distinct profile.browser.nodes
  isRoot : ∀ node ∈ profile.browser.nodes, node.id ∈ Browser.permanentIds →
    device.bookmarks.objectIdByChromiumId node.id ≠ none
  below_root : ∀ node ∈ profile.browser.nodes, node.id ∈ Browser.permanentIds →
    ∀ parent ∈ node.parent, parent = 0
  unlinked : ∀ entry ∈ profile.mappings, entry.1 ∉ device.bookmarks.standInIds
  mapped : ∀ node ∈ profile.browser.nodes, device.bookmarks.objectIdByChromiumId node.id = none →
    ∃ objectId, profile.mappingOf node.id = some objectId ∧ HasMove profile objectId
  recorded : ∀ objectId held, profile.fields (objectId, .move) = some held →
    ∃ item ∈ sent, item.1.objectId = objectId ∧ textField item.2 "position" = positionIn held.value
  waiting : ∀ record ∈ profile.deferred, HasMove profile record.objectId

section

variable {device : BookmarkDevice} {sent : List RemoteItem} {profile : Profile}

/-- At the beginning there is nothing but built-in folders. -/
theorem allPositioned_start (device : BookmarkDevice) :
    AllPositioned device [] ⟨device.browser, [], [], emptyStore⟩ where
  root_lt := device.root_lt
  node_lt := device.node_lt
  mapping_lt _ h := absurd h List.not_mem_nil
  distinct := device.distinct
  isRoot node hnode _ := device.all_roots node hnode
  below_root := device.below_root
  unlinked _ h := absurd h List.not_mem_nil
  mapped node hnode h := absurd h (device.all_roots node hnode)
  recorded _ _ h := by simp [emptyStore] at h
  waiting _ h := absurd h List.not_mem_nil

theorem AllPositioned.sent_append (h : AllPositioned device sent profile) (items : List RemoteItem) :
    AllPositioned device (sent ++ items) profile :=
  { h with
    recorded := fun objectId held hheld => by
      obtain ⟨item, hitem, hrest⟩ := h.recorded objectId held hheld
      exact ⟨item, List.mem_append_left _ hitem, hrest⟩ }

/-! ### One change of a profile -/

/-- Positions do not depend on which nodes are where, as long as no node is new and the built-in
folders stay. -/
theorem AllPositioned.browser (h : AllPositioned device sent profile) {browser : Browser}
    (hnext : profile.browser.nextId ≤ browser.nextId) (hdistinct : Forest.Distinct browser.nodes)
    (hnodes : ∀ node ∈ browser.nodes, ∃ old ∈ profile.browser.nodes, old.id = node.id ∧
      (node.id ∈ Browser.permanentIds → node.parent = old.parent)) :
    AllPositioned device sent { profile with browser := browser } where
  root_lt id hid := lt_of_lt_of_le (h.root_lt id hid) hnext
  node_lt node hnode := by
    obtain ⟨old, hold, heq, -⟩ := hnodes node hnode
    exact heq ▸ lt_of_lt_of_le (h.node_lt old hold) hnext
  mapping_lt entry hentry := lt_of_lt_of_le (h.mapping_lt entry hentry) hnext
  distinct := hdistinct
  isRoot node hnode hid := by
    obtain ⟨old, hold, heq, -⟩ := hnodes node hnode
    rw [← heq] at hid ⊢
    exact h.isRoot old hold hid
  below_root node hnode hid := by
    obtain ⟨old, hold, heq, hparent⟩ := hnodes node hnode
    rw [hparent hid]
    exact h.below_root old hold (heq ▸ hid)
  unlinked := h.unlinked
  mapped node hnode hroot := by
    obtain ⟨old, hold, heq, -⟩ := hnodes node hnode
    rw [← heq] at hroot ⊢
    exact h.mapped old hold hroot
  recorded := h.recorded
  waiting := h.waiting

theorem AllPositioned.putDeferred (h : AllPositioned device sent profile) {record : DeferredMaterialization}
    (hmove : HasMove profile record.objectId) : AllPositioned device sent (profile.putDeferred record) :=
  { h with
    waiting := fun other hother => by
      rcases List.mem_append.mp hother with hother | hother
      · exact h.waiting other (List.mem_of_mem_filter hother)
      · rw [List.mem_singleton.mp hother]
        exact hmove }

theorem AllPositioned.deleteDeferred (h : AllPositioned device sent profile) (objectIds : List Uuid) :
    AllPositioned device sent (profile.deleteDeferred objectIds) :=
  { h with waiting := fun record hrecord => h.waiting record (List.mem_of_mem_filter hrecord) }

/-- The mappings of some ids. -/
theorem lookup_filter (p : ChromiumId → Bool) (mappings : List (ChromiumId × Uuid)) (id : ChromiumId) :
    (mappings.filter fun entry => p entry.1).lookup id = if p id then mappings.lookup id else none := by
  induction mappings with
  | nil => simp
  | cons entry mappings ih =>
    rw [List.filter_cons, List.lookup_cons]
    by_cases heq : id = entry.1
    · subst heq
      by_cases hkept : p entry.1 = true
      · rw [if_pos hkept, if_pos hkept, List.lookup_cons]
        simp
      · rw [if_neg hkept, if_neg hkept, ih, if_neg hkept]
    · have hne : (id == entry.1) = false := by simpa using heq
      rw [hne]
      split_ifs with hkept hid hid
      · rw [List.lookup_cons, hne, ih, if_pos hid]
      · rw [List.lookup_cons, hne, ih, if_neg hid]
      · rw [ih, if_pos hid]
      · rw [ih, if_neg hid]

@[simp] theorem mappingOf_putMapping (profile : Profile) (id other : ChromiumId) (objectId : Uuid) :
    (profile.putMapping id objectId).mappingOf other =
      if other = id then some objectId else profile.mappingOf other := by
  have hfilter := lookup_filter (fun key => decide (key ≠ id)) profile.mappings other
  rw [Profile.putMapping, Profile.mappingOf, List.lookup_append, hfilter, List.lookup_cons]
  by_cases heq : other = id
  · simp [heq]
  · have hne : (other == id) = false := by simpa using heq
    simp [Profile.mappingOf, heq, hne]

@[simp] theorem mappingOf_deleteMappings (profile : Profile) (ids : List ChromiumId) (id : ChromiumId) :
    (profile.deleteMappings ids).mappingOf id = if id ∈ ids then none else profile.mappingOf id := by
  have hfilter := lookup_filter (fun key => decide (key ∉ ids)) profile.mappings id
  rw [Profile.deleteMappings, Profile.mappingOf, hfilter]
  by_cases hmem : id ∈ ids <;> simp [hmem, Profile.mappingOf]

theorem AllPositioned.putMapping (h : AllPositioned device sent profile) {id : ChromiumId} {objectId : Uuid}
    (hlt : id < profile.browser.nextId) (hid : id ∉ device.bookmarks.standInIds)
    (hmove : HasMove profile objectId) : AllPositioned device sent (profile.putMapping id objectId) :=
  { h with
    mapping_lt := fun entry hentry => by
      rcases List.mem_append.mp hentry with hentry | hentry
      · exact h.mapping_lt entry (List.mem_of_mem_filter hentry)
      · rw [List.mem_singleton.mp hentry]
        exact hlt
    unlinked := fun entry hentry => by
      rcases List.mem_append.mp hentry with hentry | hentry
      · exact h.unlinked entry (List.mem_of_mem_filter hentry)
      · rw [List.mem_singleton.mp hentry]
        exact hid
    mapped := fun node hnode hroot => by
      rw [mappingOf_putMapping]
      split_ifs
      · exact ⟨objectId, rfl, hmove⟩
      · exact h.mapped node hnode hroot }

/-- A mapping of a node that is gone is forgotten. -/
theorem AllPositioned.deleteMappings (h : AllPositioned device sent profile) {id : ChromiumId}
    (hid : profile.browser.has id = false) : AllPositioned device sent (profile.deleteMappings [id]) :=
  { h with
    mapping_lt := fun entry hentry => h.mapping_lt entry (List.mem_of_mem_filter hentry)
    unlinked := fun entry hentry => h.unlinked entry (List.mem_of_mem_filter hentry)
    mapped := fun node hnode hroot => by
      have hne : node.id ∉ [id] := by
        intro hmem
        rw [Browser.has, Option.isSome_eq_false_iff, Option.isNone_iff_eq_none] at hid
        exact absurd (List.mem_singleton.mp hmem) (by simpa using List.find?_eq_none.mp hid node hnode)
      rw [mappingOf_deleteMappings, if_neg hne]
      exact h.mapped node hnode hroot }

/-- A node is moved. -/
theorem AllPositioned.move (h : AllPositioned device sent profile) {id parentId : ChromiumId} {index : ℕ}
    {browser : Browser} (hmove : profile.browser.move id parentId index = some browser) :
    AllPositioned device sent { profile with browser := browser } := by
  rw [Browser.move] at hmove
  split_ifs at hmove with hallowed
  have hchange : profile.browser.has id = true ∧ id ∉ Browser.permanentIds := by
    simpa [Browser.canChange] using hallowed.1
  obtain rfl := Option.some.inj hmove
  refine h.browser le_rfl (h.distinct.place id parentId _) fun node hnode => ?_
  rcases mem_place hnode with ⟨old, hold, hid, rfl⟩ | ⟨hmem, -⟩
  · exact ⟨old, hold, rfl, fun hpermanent => absurd (hid ▸ hpermanent) hchange.2⟩
  · exact ⟨node, hmem, rfl, fun _ => rfl⟩

/-- A new node has an id of its own. -/
theorem AllPositioned.distinct_append (h : AllPositioned device sent profile) (parentId : ChromiumId)
    (data : BookmarkData) :
    Forest.Distinct (profile.browser.nodes.append ⟨profile.browser.nextId, some parentId, data⟩) := by
  rw [Forest.Distinct, Forest.append, List.map_append, List.nodup_append]
  refine ⟨h.distinct, List.nodup_singleton _, fun id hid other hother => ?_⟩
  obtain ⟨node, hnode, rfl⟩ := List.mem_map.mp hid
  rw [List.mem_singleton.mp hother]
  exact (h.node_lt node hnode).ne

/-- A node is made and mapped to an object with a recorded position. -/
theorem AllPositioned.added (h : AllPositioned device sent profile) {browser : Browser} {objectId : Uuid}
    (hnext : profile.browser.nextId < browser.nextId) (hdistinct : Forest.Distinct browser.nodes)
    (hnodes : ∀ node ∈ browser.nodes, node ∈ profile.browser.nodes ∨ node.id = profile.browser.nextId)
    (hmove : HasMove profile objectId) : AllPositioned device sent
      ({ profile with browser := browser }.putMapping profile.browser.nextId objectId) := by
  have hnew : ∀ id ∈ Browser.permanentIds ++ device.bookmarks.standInIds,
      profile.browser.nextId ≠ id := fun id hid => (h.root_lt id hid).ne'
  refine
    { root_lt := fun id hid => (h.root_lt id hid).trans hnext
      node_lt := fun node hnode => ?_
      mapping_lt := fun entry hentry => ?_
      distinct := hdistinct
      isRoot := fun node hnode hid => ?_
      below_root := fun node hnode hid => ?_
      unlinked := fun entry hentry => ?_
      mapped := fun node hnode hroot => ?_
      recorded := h.recorded
      waiting := h.waiting }
  · rcases hnodes node hnode with hold | heq
    · exact (h.node_lt node hold).trans hnext
    · exact heq ▸ hnext
  · rcases List.mem_append.mp hentry with hentry | hentry
    · exact (h.mapping_lt entry (List.mem_of_mem_filter hentry)).trans hnext
    · rw [List.mem_singleton.mp hentry]
      exact hnext
  · rcases hnodes node hnode with hold | heq
    · exact h.isRoot node hold hid
    · exact absurd heq.symm (hnew node.id (List.mem_append_left _ hid))
  · rcases hnodes node hnode with hold | heq
    · exact h.below_root node hold hid
    · exact absurd heq.symm (hnew node.id (List.mem_append_left _ hid))
  · rcases List.mem_append.mp hentry with hentry | hentry
    · exact h.unlinked entry (List.mem_of_mem_filter hentry)
    · rw [List.mem_singleton.mp hentry]
      exact fun hstandIn => hnew _ (List.mem_append_right _ hstandIn) rfl
  · rw [mappingOf_putMapping]
    split_ifs with heq
    · exact ⟨objectId, rfl, hmove⟩
    · exact h.mapped node ((hnodes node hnode).resolve_right heq) hroot

/-- Field states are written. -/
theorem AllPositioned.withFields (h : AllPositioned device sent profile) {fields : FieldStore}
    (hkept : ∀ objectId, HasMove profile objectId → (fields (objectId, .move)).isSome)
    (hrecorded : ∀ objectId held, fields (objectId, .move) = some held →
      profile.fields (objectId, .move) = some held ∨
        ∃ item ∈ sent, item.1.objectId = objectId ∧ textField item.2 "position" = positionIn held.value) :
    AllPositioned device sent { profile with fields := fields } :=
  { h with
    mapped := fun node hnode hroot => by
      obtain ⟨objectId, hmapping, hmove⟩ := h.mapped node hnode hroot
      exact ⟨objectId, hmapping, hkept objectId hmove⟩
    recorded := fun objectId held hheld => (hrecorded objectId held hheld).elim
      (h.recorded objectId held) id
    waiting := fun record hrecord => hkept _ (h.waiting record hrecord) }

end

/-! ### Resolving a slice -/

section Slices

variable {item : RemoteItem} {entry : BatchFieldResolution}

theorem position_moveValue (payload : Json) :
    positionIn (some (moveValue payload)) = textField payload "position" := by
  have hget : (moveValue payload).get? "position" = payload.get? "position" := by
    rw [moveValue]
    rcases payload.get? "parent" with _ | parent <;> rcases payload.get? "position" with _ | position <;>
      rfl
  exact congrArg textOf hget

/-- The `move` slot that a create or a move brings has the position of its payload. -/
theorem position_of_mem_itemEntries
    (htype : item.1.operationType = .create ∨ item.1.operationType = .move)
    (hentry : entry ∈ itemEntries item) (hfield : entry.field = .move) :
    textField item.2 "position" = positionIn entry.incoming.value := by
  rcases htype with htype | htype <;>
    simp only [itemEntries, remoteFieldResolutions, htype, List.filterMap_cons, List.filterMap_nil, id,
      List.map_cons, List.map_nil, List.mem_cons, List.not_mem_nil, or_false] at hentry
  · rcases hentry with rfl | rfl | rfl | rfl
    · exact absurd hfield (by simp)
    · exact absurd hfield (by simp)
    · exact absurd hfield (by simp)
    · exact (position_moveValue item.2).symm
  · rcases hentry with rfl | rfl
    · rfl
    · exact absurd hfield (by simp)

/-- A create or a move brings a `move` slot. -/
theorem exists_move_entry (htype : item.1.operationType = .create ∨ item.1.operationType = .move) :
    ∃ entry ∈ itemEntries item, entry.slot = (item.1.objectId, .move) := by
  rcases htype with htype | htype <;>
    simp only [itemEntries, remoteFieldResolutions, htype, List.filterMap_cons, List.filterMap_nil, id,
      List.map_cons, List.map_nil, List.mem_cons, List.not_mem_nil, or_false]
  · exact ⟨_, Or.inr (Or.inr (Or.inr rfl)), rfl⟩
  · exact ⟨_, Or.inl rfl, rfl⟩

variable {device : BookmarkDevice} {sent slice : List RemoteItem} {profile : Profile}

/-- Operations that were sent are resolved. -/
theorem AllPositioned.resolve (h : AllPositioned device sent profile) (hsent : SentKeys sent)
    (hslice : ∀ item ∈ slice, item ∈ sent) : AllPositioned device sent
      { profile with fields := (resolveFieldsBatch profile.fields (sliceEntries slice)).2 } := by
  refine h.withFields (fun objectId hmove => ?_) fun objectId held hheld => ?_
  · obtain ⟨held, hheld⟩ := Option.isSome_iff_exists.mp hmove
    obtain ⟨next, hnext, -⟩ := neverBack_resolveFieldsBatch profile.fields (sliceEntries slice)
      (objectId, .move) (by simp) held hheld
    exact Option.isSome_iff_exists.mpr ⟨next, hnext⟩
  · refine (mem_of_resolveFieldsBatch (by simp) hheld).imp_right ?_
    rintro ⟨entry, hentry, hslot, rfl⟩
    obtain ⟨item, hitem, hentry⟩ := List.mem_flatMap.mp hentry
    obtain ⟨hobject, hfield⟩ := Prod.ext_iff.mp hslot
    exact ⟨item, hslice item hitem, (objectId_of_mem_itemEntries hentry).symm.trans hobject,
      position_of_mem_itemEntries (hsent item (hslice item hitem)).1 hentry hfield⟩

/-- Then each of them has a recorded position. -/
theorem hasMove_resolve (hsent : SentKeys sent) (hslice : ∀ item ∈ slice, item ∈ sent)
    (fields : FieldStore) (hitem : item ∈ slice) :
    ((resolveFieldsBatch fields (sliceEntries slice)).2 (item.1.objectId, .move)).isSome := by
  obtain ⟨entry, hentry, hslot⟩ := exists_move_entry (hsent item (hslice item hitem)).1
  have hfield : entry.field = .move := congrArg Prod.snd hslot
  obtain ⟨next, hnext, -⟩ := @le_of_resolveFieldsBatch fields (sliceEntries slice) entry
    (by rw [hfield]; simp) (List.mem_flatMap.mpr ⟨item, hitem, hentry⟩)
  rw [hslot] at hnext
  exact Option.isSome_iff_exists.mpr ⟨next, hnext⟩

end Slices

/-! ### A run of the applier -/

/-- A run that has come to a profile that is positioned throughout. What it knows of some objects, that they have recorded
positions, it knows only as long as nothing was rejected: then it does nothing more. -/
structure Steady (device : BookmarkDevice) (sent : List RemoteItem) (known : Set Uuid) (run : Run) :
    Prop where
  positioned : AllPositioned device sent run.profile
  knows : run.rejected = false → ∀ objectId ∈ known, HasMove run.profile objectId

namespace Steady

variable {device : BookmarkDevice} {sent : List RemoteItem} {known : Set Uuid} {run : Run}

theorem effect (h : Steady device sent known run) {change : Profile → Profile}
    (hfields : (change run.profile).fields = run.profile.fields)
    (hchange : (∀ objectId ∈ known, HasMove run.profile objectId) →
      AllPositioned device sent (change run.profile)) : Steady device sent known (run.effect change) := by
  rw [Run.effect]
  split_ifs with hrejected
  · exact h
  · have hknows := h.knows (by simpa using hrejected)
    refine ⟨hchange hknows, fun _ objectId hobject => ?_⟩
    have hmove := hknows objectId hobject
    rwa [HasMove, ← hfields] at hmove

theorem call (h : Steady device sent known run) {change : Browser → Option Browser}
    (hchange : ∀ browser, change run.profile.browser = some browser →
      AllPositioned device sent { run.profile with browser := browser }) :
    Steady device sent known (run.call change) := by
  rw [Run.call]
  cases hcall : change run.profile.browser with
  | none => exact ⟨h.positioned, fun hrejected => absurd hrejected (by simp)⟩
  | some browser => exact h.effect rfl fun _ => hchange browser hcall

theorem learn (h : Steady device sent known run) {more : Set Uuid}
    (hmore : ∀ objectId ∈ more, HasMove run.profile objectId) :
    Steady device sent (known ∪ more) run :=
  ⟨h.positioned, fun hrejected objectId hobject =>
    hobject.elim (h.knows hrejected objectId) (hmore objectId)⟩

theorem mono (h : Steady device sent known run) {fewer : Set Uuid} (hsub : fewer ⊆ known) :
    Steady device sent fewer run :=
  ⟨h.positioned, fun hrejected objectId hobject => h.knows hrejected objectId (hsub hobject)⟩

theorem deleteDeferred (h : Steady device sent known run) (objectIds : List Uuid) :
    Steady device sent known (run.effect fun profile => profile.deleteDeferred objectIds) :=
  h.effect rfl fun _ => h.positioned.deleteDeferred objectIds

/-- A node is made, and mapped to an object whose slots have been resolved. -/
theorem create (h : Steady device sent known run) {objectId : Uuid} (hobject : objectId ∈ known)
    (parentId : ChromiumId) (data : BookmarkData) :
    Steady device sent known ((run.call fun browser => browser.create parentId data).effect
      fun profile => profile.putMapping run.profile.browser.nextId objectId) := by
  by_cases hrejected : run.rejected = true
  · have hsame : ∀ change : Profile → Profile, run.effect change = run := fun change => if_pos hrejected
    rw [Run.call]
    cases run.profile.browser.create parentId data with
    | none => exact ⟨h.positioned, fun hfalse => absurd hfalse (by simp [Run.effect])⟩
    | some browser =>
      dsimp only
      rwa [hsame, hsame]
  · rw [Run.call]
    cases hcreate : run.profile.browser.create parentId data with
    | none =>
      refine ⟨?_, fun hfalse => absurd hfalse (by simp [Run.effect])⟩
      simpa [Run.effect] using h.positioned
    | some browser =>
      have hknows := h.knows (by simpa using hrejected)
      have hprofile : ((run.effect fun profile => { profile with browser := browser }).effect
          fun profile => profile.putMapping run.profile.browser.nextId objectId).profile =
            { run.profile with browser := browser }.putMapping run.profile.browser.nextId objectId := by
        simp [Run.effect, hrejected]
      rw [Browser.create] at hcreate
      split_ifs at hcreate
      obtain rfl := Option.some.inj hcreate
      refine ⟨?_, fun _ other hother => ?_⟩
      · rw [hprofile]
        refine h.positioned.added (Nat.lt_succ_self _) (h.positioned.distinct_append parentId data)
          (fun node hnode => ?_) (hknows objectId hobject)
        exact (List.mem_append.mp hnode).imp_right fun hnew => by rw [List.mem_singleton.mp hnew]
      · rw [hprofile]
        exact hknows other hother

variable {move : RemoteMove}

/-- What is done for a move. -/
theorem perform (h : Steady device sent known run) {action : MoveAction}
    (haction : ∀ record, action = .defer record → record.objectId ∈ known) :
    Steady device sent known (action.perform run) := by
  cases action with
  | skip => exact h
  | defer record =>
    rw [MoveAction.perform]
    refine h.effect rfl fun hknows => ?_
    exact h.positioned.putDeferred (hknows _ (haction record rfl))
  | move objectId id parentId index =>
    rw [MoveAction.perform]
    refine (h.deleteDeferred [objectId]).call fun browser hmove => ?_
    exact (h.deleteDeferred [objectId]).positioned.move hmove

theorem applyMove (h : Steady device sent known run) (hmove : move.objectId ∈ known) :
    Steady device sent known (device.bookmarks.applyMove run move) := by
  rw [BookmarksModule.applyMove_eq]
  refine h.perform fun record hrecord => ?_
  rw [BookmarksModule.moveAction] at hrecord
  split at hrecord
  · exact absurd hrecord (by simp)
  · split at hrecord
    · rw [← MoveAction.defer.inj hrecord]
      exact hmove
    · exact absurd hrecord (by simp)

theorem applyMoveCached {state : Run × BookmarksModule.ParentOrders}
    (h : Steady device sent known state.1) (hmove : move.objectId ∈ known)
    (chromiumIds : Prefetched) (incoming : Uuid → Option String) :
    Steady device sent known (BookmarksModule.applyMoveCached chromiumIds incoming state move).1 := by
  rw [BookmarksModule.applyMoveCached_eq]
  refine h.perform fun record hrecord => ?_
  rw [BookmarksModule.cachedMoveAction] at hrecord
  split at hrecord
  · exact absurd hrecord (by simp)
  · split at hrecord
    · rw [← MoveAction.defer.inj hrecord]
      exact hmove
    · exact absurd hrecord (by simp)

theorem applyMovesBatch (h : Steady device sent known run) {moves : List RemoteMove}
    (hmoves : ∀ move ∈ moves, move.objectId ∈ known) :
    Steady device sent known (device.bookmarks.applyMovesBatch run moves) := by
  rw [BookmarksModule.applyMovesBatch_eq]
  generalize device.bookmarks.batchIds run.profile moves = chromiumIds
  generalize BookmarksModule.incomingPosition moves = incoming
  have hstate : Steady device sent known ((run, []) : Run × BookmarksModule.ParentOrders).1 := h
  generalize ((run, []) : Run × BookmarksModule.ParentOrders) = state at hstate ⊢
  induction moves generalizing state with
  | nil => exact hstate
  | cons move moves ih =>
    exact ih (fun other hother => hmoves other (List.mem_cons_of_mem _ hother)) _
      (hstate.applyMoveCached (hmoves move List.mem_cons_self) chromiumIds incoming)

/-! ### Objects get their nodes -/

section Materialize

variable {retry : Run → Uuid → Run} {objectId : Uuid}

theorem linkNode (h : Steady device sent known run) (hobject : objectId ∈ known) {id : ChromiumId}
    (hlt : id < run.profile.browser.nextId) (hid : id ∉ device.bookmarks.standInIds) :
    Steady device sent known (BookmarksModule.linkNode run id objectId) := by
  rw [BookmarksModule.linkNode]
  refine deleteDeferred ?_ [objectId]
  refine h.effect rfl fun hknows => ?_
  exact h.positioned.putMapping hlt hid (hknows objectId hobject)

/-- A node that is linked to an object is there, and stands in for no built-in folder. -/
theorem findUnlinkedMatch_spec {profile : Profile} {parentId id : ChromiumId}
    {p : BookmarkPayload} (h : device.bookmarks.findUnlinkedMatch profile parentId p = some id) :
    (∃ node ∈ profile.browser.nodes, node.id = id) ∧ id ∉ device.bookmarks.standInIds := by
  rw [BookmarksModule.findUnlinkedMatch] at h
  obtain ⟨node, hfound, rfl⟩ := Option.map_eq_some_iff.mp h
  have hmatch := List.find?_some hfound
  simp only [Bool.and_eq_true, decide_eq_true_eq] at hmatch
  exact ⟨⟨node, List.mem_of_mem_filter (List.mem_of_find?_eq_some hfound), rfl⟩, hmatch.1.1⟩

theorem materializeNew (h : Steady device sent known run) (hobject : objectId ∈ known)
    (hretry : ∀ run objectId, Steady device sent known run →
      Steady device sent known (retry run objectId)) (objectType : ObjectType) (p : BookmarkPayload)
    (chromiumIds : Prefetched) (prefetched : Option Prefetched) :
    Steady device sent known (device.bookmarks.materializeNew retry run objectId objectType p
      chromiumIds prefetched).1 := by
  rw [BookmarksModule.materializeNew]
  dsimp only
  split
  · split
    · dsimp only
      refine h.effect rfl fun hknows => ?_
      exact h.positioned.putDeferred (hknows objectId hobject)
    · exact h
  · split_ifs
    · exact h
    all_goals
      split
      · rename_i hmatch _
        refine hretry _ objectId ?_
        first
        | obtain ⟨⟨node, hnode, rfl⟩, hstandIn⟩ := findUnlinkedMatch_spec hmatch
          exact (h.linkNode hobject (h.positioned.node_lt node hnode) hstandIn).applyMove hobject
        | exact absurd hmatch (by simp)
      · refine hretry _ objectId ?_
        exact (h.create hobject _ _).deleteDeferred [objectId]

theorem materialize (h : Steady device sent known run) (hobject : objectId ∈ known)
    (hretry : ∀ run objectId, Steady device sent known run →
      Steady device sent known (retry run objectId)) (objectType : ObjectType) (p : BookmarkPayload)
    (prefetched : Option Prefetched) :
    Steady device sent known (device.bookmarks.materialize retry run objectId objectType p
      prefetched).1 := by
  unfold BookmarksModule.materialize
  extract_lets looked chromiumIds
  rcases chromiumIds objectId with _ | chromiumId
  · exact h.materializeNew hobject hretry objectType p chromiumIds prefetched
  · dsimp only
    split_ifs with hexists
    · exact h.deleteDeferred [objectId]
    · refine materializeNew ?_ hobject hretry objectType p _ _
      refine h.effect rfl fun _ => h.positioned.deleteMappings ?_
      rw [Bool.not_eq_true, BookmarksModule.mappedNodeExists, Bool.or_eq_false_iff] at hexists
      exact hexists.2

theorem retryRecord (h : Steady device sent known run) {record : DeferredMaterialization}
    (hrecord : record.objectId ∈ known)
    (hretry : ∀ run objectId, Steady device sent known run →
      Steady device sent known (retry run objectId)) (stored : Profile) :
    Steady device sent known (device.bookmarks.retryRecord retry stored run record) := by
  rw [BookmarksModule.retryRecord]
  rcases BookmarksModule.waitingMove stored record with ⟨parent, position⟩
  split_ifs
  · exact h
  · cases parent with
    | none => exact h
    | some parent => exact h.applyMove hrecord
  · exact h.materialize hrecord hretry _ _ none

/-- **The objects that wait for a parent are retried**, and those that wait for them. What is deferred
has a recorded position. -/
theorem retryDeferredParent (depth : ℕ) (h : Steady device sent known run) (parentObjectId : Uuid) :
    Steady device sent known (device.bookmarks.retryDeferredParent depth run parentObjectId) := by
  induction depth generalizing known run parentObjectId with
  | zero => exact h
  | succ depth ih =>
    rw [BookmarksModule.retryDeferredParent]
    dsimp only
    split_ifs
    · exact h
    · set deferred := run.profile.waitingOn parentObjectId with hdeferred
      have hwaiting : ∀ record ∈ deferred, HasMove run.profile record.objectId := by
        intro record hrecord
        rw [hdeferred, Profile.waitingOn, List.mem_insertionSort] at hrecord
        exact h.positioned.waiting record (List.mem_of_mem_filter hrecord)
      -- what is known while they are retried, besides what was known before
      set waits : Set Uuid := {objectId | ∃ record ∈ deferred, record.objectId = objectId}
      have hlearned : Steady device sent (known ∪ waits) run := by
        refine h.learn ?_
        rintro _ ⟨record, hrecord, rfl⟩
        exact hwaiting record hrecord
      have hrecords : ∀ record ∈ BookmarksModule.inPositionOrder run.profile deferred,
          record.objectId ∈ known ∪ waits := by
        intro record hrecord
        rw [BookmarksModule.inPositionOrder, List.mem_insertionSort] at hrecord
        exact Or.inr ⟨record, hrecord, rfl⟩
      have hstart := hlearned.deleteDeferred (deferred.map DeferredMaterialization.objectId)
      refine mono ?_ (Set.subset_union_left : known ⊆ known ∪ waits)
      generalize BookmarksModule.inPositionOrder run.profile deferred = records at hrecords ⊢
      generalize (run.effect fun profile => profile.deleteDeferred
        (deferred.map DeferredMaterialization.objectId)) = cleared at hstart ⊢
      induction records generalizing cleared with
      | nil => exact hstart
      | cons record records ihrecords =>
        refine ihrecords (fun other hother => hrecords other (List.mem_cons_of_mem _ hother)) _ ?_
        exact hstart.retryRecord (hrecords record List.mem_cons_self)
          (fun _ objectId hrun => ih hrun objectId) run.profile

theorem retryAll (h : Steady device sent known run) (parentObjectId : Uuid) :
    Steady device sent known (device.bookmarks.retryAll run parentObjectId) :=
  h.retryDeferredParent _ parentObjectId

end Materialize

/-! ### One operation, and a batch -/

section Apply

variable {slice : List RemoteItem} {resolved : BookmarksModule.ResolvedOp}

/-- The objects of some operations. -/
def objectsOf (items : List RemoteItem) : Set Uuid := {objectId | ∃ item ∈ items, item.1.objectId = objectId}

theorem mem_of_mem_planSlice (slice : List RemoteItem) : ∀ results : List ResolveResult,
    ∀ resolved ∈ BookmarksModule.planSlice slice results, resolved.item ∈ slice ∧
      resolved.kind = (remoteFieldResolutions resolved.item.1 resolved.item.2).1 := by
  induction slice with
  | nil => exact fun _ resolved h => absurd h List.not_mem_nil
  | cons item slice ih =>
    intro results resolved hmem
    rcases List.mem_cons.mp hmem with rfl | hmem
    · exact ⟨List.mem_cons_self, rfl⟩
    · exact (ih _ resolved hmem).imp_left (List.mem_cons_of_mem _)

theorem resolveSlice (h : Steady device sent known run) (hsent : SentKeys sent)
    (hslice : ∀ item ∈ slice, item ∈ sent) :
    Steady device sent (known ∪ objectsOf slice) (BookmarksModule.resolveSlice run slice).1 := by
  rw [BookmarksModule.resolveSlice]
  dsimp only
  rw [Run.effect]
  split_ifs with hrejected
  · exact ⟨h.positioned, fun hfalse => absurd hfalse (by simp [hrejected])⟩
  · refine ⟨h.positioned.resolve hsent hslice, fun _ objectId hobject => ?_⟩
    rcases hobject with hobject | ⟨item, hitem, rfl⟩
    · have hresolved := h.knows (by simpa using hrejected) objectId hobject
      obtain ⟨held, hheld⟩ := Option.isSome_iff_exists.mp hresolved
      obtain ⟨next, hnext, -⟩ := neverBack_resolveFieldsBatch run.profile.fields (sliceEntries slice)
        (objectId, .move) (by simp) held hheld
      exact Option.isSome_iff_exists.mpr ⟨next, hnext⟩
    · exact hasMove_resolve hsent hslice run.profile.fields hitem

/-- What was resolved of operations that were sent is a create or a move. -/
theorem kind_cases (hsent : SentKeys sent) (hslice : ∀ item ∈ slice, item ∈ sent)
    {results : List ResolveResult} (hresolved : resolved ∈ BookmarksModule.planSlice slice results) :
    resolved.item.1.objectId ∈ objectsOf slice ∧ (resolved.kind = .create ∨ resolved.kind = .move) := by
  obtain ⟨hitem, hkind⟩ := mem_of_mem_planSlice slice results resolved hresolved
  refine ⟨⟨_, hitem, rfl⟩, ?_⟩
  rcases (hsent _ (hslice _ hitem)).1 with htype | htype <;>
    simp [hkind, remoteFieldResolutions, htype]

theorem objectId_of_remoteMove {op : OperationOut} {payload : Json} {move : RemoteMove}
    (h : remoteMove op payload = some move) : move.objectId = op.objectId := by
  obtain ⟨parent, -, rfl⟩ := Option.map_eq_some_iff.mp h
  rfl

/-- One operation that has been resolved. -/
theorem applyResolved (h : Steady device sent known run) (hobject : resolved.item.1.objectId ∈ known)
    (hkind : resolved.kind = .create ∨ resolved.kind = .move) :
    Steady device sent known (device.bookmarks.applyResolved run resolved) := by
  obtain ⟨⟨op, payload⟩, kind, res⟩ := resolved
  rw [BookmarksModule.applyResolved]
  dsimp only at hobject hkind ⊢
  rcases hkind with rfl | rfl
  · dsimp only
    split_ifs
    · have hmade := h.materialize hobject (fun _ objectId hrun => hrun.retryAll objectId) op.objectType
        (bookmarkPayload payload) none
      split
      · rename_i hmove
        exact hmade.applyMove (objectId_of_remoteMove hmove ▸ hobject)
      · exact hmade
    · exact h
  · dsimp only
    split_ifs
    · split
      · rename_i hmove
        exact h.applyMove (objectId_of_remoteMove hmove ▸ hobject)
      · exact h
    · exact h

/-- **`applyRemote`** keeps a profile positioned throughout. -/
theorem applyRemote (h : Steady device sent known run) (hsent : SentKeys sent) {item : RemoteItem}
    (hitem : item ∈ sent) : Steady device sent known (device.bookmarks.applyRemote run item) := by
  have hslice : ∀ other ∈ [item], other ∈ sent := fun other hother => List.mem_singleton.mp hother ▸ hitem
  have hresolved := h.resolveSlice hsent hslice
  rw [BookmarksModule.applyRemote]
  refine mono ?_ (Set.subset_union_left : known ⊆ known ∪ objectsOf [item])
  have hall : ∀ resolved ∈ (BookmarksModule.resolveSlice run [item]).2,
      resolved.item.1.objectId ∈ objectsOf [item] ∧ (resolved.kind = .create ∨ resolved.kind = .move) :=
    fun resolved hmem => kind_cases hsent hslice hmem
  generalize BookmarksModule.resolveSlice run [item] = planned at hresolved hall ⊢
  obtain ⟨run, plan⟩ := planned
  dsimp only at hresolved hall ⊢
  induction plan generalizing run with
  | nil => exact hresolved
  | cons resolved plan ih =>
    obtain ⟨hobject, hkind⟩ := hall resolved List.mem_cons_self
    refine ih _ ?_ fun other hother => hall other (List.mem_cons_of_mem _ hother)
    exact hresolved.applyResolved (Or.inr hobject) hkind

end Apply

end Steady

/-- Where a batch of creates and moves stands: what it has put off are moves of objects whose slots
have been resolved. -/
structure SteadyBatch (device : BookmarkDevice) (sent : List RemoteItem) (known : Set Uuid)
    (batch : BookmarksModule.Batch) : Prop where
  run : Steady device sent known batch.run
  moves : ∀ move ∈ batch.pendingMoves, move.objectId ∈ known
  placements : ∀ move ∈ batch.restorePlacements, move.objectId ∈ known
  titles : batch.pendingTitleUrl = []

namespace SteadyBatch

variable {device : BookmarkDevice} {sent slice : List RemoteItem} {known : Set Uuid}
  {batch : BookmarksModule.Batch} {resolved : BookmarksModule.ResolvedOp}

theorem flushMoves (h : SteadyBatch device sent known batch) :
    SteadyBatch device sent known (device.bookmarks.flushMoves batch) where
  run := h.run.applyMovesBatch h.moves
  moves _ hmove := absurd hmove List.not_mem_nil
  placements := h.placements
  titles := h.titles

theorem flushTitleUrl (h : SteadyBatch device sent known batch) :
    device.bookmarks.flushTitleUrl batch = batch := by
  obtain ⟨run, prefetched, moves, placements, titles⟩ := batch
  obtain rfl : titles = [] := h.titles
  rfl

theorem step (h : SteadyBatch device sent known batch) (hobject : resolved.item.1.objectId ∈ known)
    (hkind : resolved.kind = .create ∨ resolved.kind = .move) :
    SteadyBatch device sent known (device.bookmarks.batchStep batch resolved) := by
  obtain ⟨⟨op, payload⟩, kind, res⟩ := resolved
  have hmoves : ∀ move ∈ (remoteMove op payload).toList, move.objectId ∈ known := fun move hmove =>
    (Steady.objectId_of_remoteMove (Option.mem_toList.mp hmove)) ▸ hobject
  rw [BookmarksModule.batchStep]
  dsimp only at hobject hkind ⊢
  rcases hkind with rfl | rfl
  · have hflushed := h.flushMoves
    dsimp only
    rw [hflushed.flushTitleUrl]
    split_ifs
    · have hmade := hflushed.run.materialize hobject (fun _ objectId hrun => hrun.retryAll objectId)
        op.objectType (bookmarkPayload payload)
        (some (device.bookmarks.flushMoves batch).prefetched)
      refine ⟨hmade, hflushed.moves, fun move hmove => ?_, hflushed.titles⟩
      rcases List.mem_append.mp hmove with hmove | hmove
      · exact hflushed.placements move hmove
      · exact hmoves move hmove
    · refine ⟨?_, hflushed.moves, fun move hmove => ?_, hflushed.titles⟩
      · exact hflushed.run.materialize hobject (fun _ objectId hrun => hrun.retryAll objectId)
          op.objectType (bookmarkPayload payload)
          (some (device.bookmarks.flushMoves batch).prefetched)
      · exact hflushed.placements move (by simpa using hmove)
    · exact hflushed
  · dsimp only
    split_ifs
    · refine ⟨h.run, fun move hmove => ?_, h.placements, h.titles⟩
      exact (List.mem_append.mp hmove).elim (h.moves move) (hmoves move)
    · exact h

theorem mono (h : SteadyBatch device sent known batch) {fewer : Set Uuid} (run : Run)
    (hrun : Steady device sent fewer run) (hsub : known ⊆ fewer) :
    SteadyBatch device sent fewer { batch with run := run } :=
  ⟨hrun, fun move hmove => hsub (h.moves move hmove),
    fun move hmove => hsub (h.placements move hmove), h.titles⟩

/-- One slice. -/
theorem batchSlice (h : SteadyBatch device sent known batch) (hsent : SentKeys sent)
    (hslice : ∀ item ∈ slice, item ∈ sent) :
    SteadyBatch device sent (known ∪ Steady.objectsOf slice)
      (device.bookmarks.batchSlice batch slice) := by
  have hall : ∀ resolved ∈ (BookmarksModule.resolveSlice batch.run slice).2,
      resolved.item.1.objectId ∈ Steady.objectsOf slice ∧
        (resolved.kind = .create ∨ resolved.kind = .move) :=
    fun resolved hmem => Steady.kind_cases hsent hslice hmem
  have hstart := h.mono _ (h.run.resolveSlice hsent hslice) Set.subset_union_left
  rw [BookmarksModule.batchSlice]
  generalize BookmarksModule.resolveSlice batch.run slice = planned at hall hstart ⊢
  obtain ⟨run, plan⟩ := planned
  dsimp only at hall hstart ⊢
  have hplan : SteadyBatch device sent (known ∪ Steady.objectsOf slice)
      (plan.foldl device.bookmarks.batchStep { batch with run := run }) := by
    generalize { batch with run := run } = batch at hstart ⊢
    induction plan generalizing batch with
    | nil => exact hstart
    | cons resolved plan ih =>
      obtain ⟨hobject, hkind⟩ := hall resolved List.mem_cons_self
      exact ih (fun other hother => hall other (List.mem_cons_of_mem _ hother)) _
        (hstart.step (Or.inr hobject) hkind)
  rw [hplan.flushTitleUrl]
  exact hplan

end SteadyBatch

/-- **`applyRemoteBatch`** keeps a profile positioned throughout. -/
theorem AllPositioned.applyRemoteBatch {device : BookmarkDevice} {sent items : List RemoteItem}
    {profile : Profile} (h : AllPositioned device sent profile) (hsent : SentKeys sent)
    (hitems : ∀ item ∈ items, item ∈ sent) : AllPositioned device sent
      (device.bookmarks.applyRemoteBatch (.start profile) items).profile := by
  have hslices : ∀ (slices : List (List RemoteItem)) (known : Set Uuid) (batch : BookmarksModule.Batch),
      (∀ slice ∈ slices, ∀ item ∈ slice, item ∈ sent) → SteadyBatch device sent known batch →
        ∃ known, SteadyBatch device sent known (slices.foldl device.bookmarks.batchSlice batch) := by
    intro slices
    induction slices with
    | nil => exact fun known batch _ hbatch => ⟨known, hbatch⟩
    | cons slice slices ih =>
      intro known batch hall hbatch
      exact ih _ _ (fun s hs => hall s (List.mem_cons_of_mem _ hs))
        (hbatch.batchSlice hsent (hall slice List.mem_cons_self))
  obtain ⟨known, hend⟩ := hslices (chunks BookmarksModule.remoteResolveSlice items) ∅
    ⟨.start profile, device.bookmarks.chromiumIdsFor profile (BookmarksModule.involved items), [], [], []⟩
    (fun slice hslice item hitem => hitems item (by
      obtain ⟨i, -, rfl⟩ := List.mem_map.mp hslice
      exact List.mem_of_mem_drop (List.mem_of_mem_take hitem)))
    ⟨⟨h, fun _ _ hobject => absurd hobject (Set.notMem_empty _)⟩, by simp, by simp, rfl⟩
  rw [BookmarksModule.applyRemoteBatch]
  dsimp only [Run.start] at hend ⊢
  rw [hend.flushTitleUrl]
  exact (hend.flushMoves.run.applyMovesBatch hend.flushMoves.placements).positioned

end Client

end HelixSync
