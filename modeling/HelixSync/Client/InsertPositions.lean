import HelixSync.Client.PositionedNodes
import HelixSync.Lib.Runs

/-!
# Positions of local inserts

Devices create and move bookmarks, and receive what the others have created and moved
(`HelixSync.Client.BookmarkAccount`). Each local change is captured by a flush of its own, which asks
for a key between the recorded positions of the siblings on the two sides.

As long as all local changes have been captured, every sibling has a recorded position that is a valid
key, so the siblings asked about are the nearest positioned ones, and a key between them is found if
the one is below the other (`HelixSync.Client.AllPositioned.captured_create`,
`HelixSync.Client.AllPositioned.captured_move`). The change is then recorded and sent, and all is
positioned as before. Nothing keeps the children of a folder in the order of their positions, though:
two devices that insert at one place give equal keys, and between these there is none
(`HelixSync.Client.BookmarkAccount.not_findsPosition`).
-/

namespace HelixSync

namespace Client

open CodeUnits Forest

/-! ### Local changes -/

/-- A user creates a bookmark or a folder at an index, or moves one. -/
inductive LocalPlacement where
  | create (parentId : ChromiumId) (index : ℕ) (node : BookmarkData)
  | move (id parentId : ChromiumId) (index : ℕ)

/-- A node is created at an index of a folder. -/
def Browser.createAt (browser : Browser) (parentId : ChromiumId) (index : ℕ) (node : BookmarkData) :
    Option Browser :=
  if browser.canHold parentId ∧ index ≤ (browser.childIds parentId).length then
    some
      { nodes := (browser.nodes.append ⟨browser.nextId, some parentId, node⟩).place browser.nextId
          parentId index
        nextId := browser.nextId + 1 }
  else none

/-- A change that was made, as the flush finds it. -/
structure Placed where
  /-- The profile with the changed tree. -/
  profile : Profile
  id : ChromiumId
  parentId : ChromiumId
  event : QueuedPlacement

namespace Placed

variable (placed : Placed)

/-- The children of the folder. -/
def siblings : List ChromiumId := placed.profile.browser.childIds placed.parentId

/-- The index the event comes with. -/
def index : ℕ := placed.siblings.idxOf placed.id

/-- The recorded position of the nearest positioned sibling before the node. -/
def positionBefore : Option String :=
  (placed.siblings.take placed.index).reverse.findSome? placed.profile.recordedPosition

/-- The recorded position of the nearest positioned sibling after the node. -/
def positionAfter : Option String :=
  (placed.siblings.drop (placed.index + 1)).findSome? placed.profile.recordedPosition

/-- **There is room**: the nearest positioned siblings on the two sides are in order. -/
def HasRoom : Prop :=
  ∀ lo ∈ placed.positionBefore, ∀ hi ∈ placed.positionAfter, codeUnits lo < codeUnits hi

instance : Decidable placed.HasRoom :=
  inferInstanceAs (Decidable (∀ lo ∈ placed.positionBefore, ∀ hi ∈ placed.positionAfter, _))

end Placed

namespace BookmarksModule

variable (bookmarks : BookmarksModule)

/-- **A local change**, if the browser makes it. The id that is minted for a new node has no field
states, and the folders that stand in for hidden ones stay where they are. -/
def place (profile : Profile) (uuidv7 : ℕ → Uuid) : LocalPlacement → Option Placed
  | .create parentId index node =>
    if (profile.fields (uuidv7 0, .move)).isNone then
      (profile.browser.createAt parentId index node).map fun browser =>
        let id := profile.browser.nextId
        ⟨{ profile with browser := browser }, id, parentId,
          .created id node (some parentId) (some ((browser.childIds parentId).idxOf id))⟩
    else none
  | .move id parentId index =>
    if id ∈ bookmarks.standInIds then none
    else
      (profile.browser.move id parentId index).map fun browser =>
        ⟨{ profile with browser := browser }, id, parentId,
          .moved id parentId ((browser.childIds parentId).idxOf id)⟩

/-- What `computePosition` returns for the only event of a flush. -/
def positionComputed (uuidv7 : ℕ → Uuid) (profile : Profile) :
    QueuedPlacement → Except CaptureError String
  | .created id _ (some parentId) index =>
    let caches := (bookmarks.objectIdFor uuidv7 profile .empty id).2
    let caches := (bookmarks.objectIdFor uuidv7 profile caches parentId).2
    (bookmarks.computePosition uuidv7 profile caches parentId (index.getD 0)).1
  | .created _ _ none _ => (keyBetween none none).mapError .noKey
  | .moved _ parentId index =>
    let caches := (bookmarks.objectIdFor uuidv7 profile .empty parentId).2
    (bookmarks.computePosition uuidv7 profile caches parentId index).1

/-- The flush of a local change. -/
def flushed (uuidv7 : ℕ → Uuid) (keys : ℕ → OrderingKey) (placed : Placed) :
    Profile × List RemoteItem :=
  bookmarks.flushBookmarkEvents uuidv7 keys placed.profile [placed.event]

/-- **A position is found** for a local change, after what has been sent before: `computePosition`
returns a key strictly between the recorded positions of the nearest positioned siblings, and the flush
records it as the position of the node and sends it. -/
structure FindsPosition (sent : List RemoteItem) (uuidv7 : ℕ → Uuid) (keys : ℕ → OrderingKey)
    (placed : Placed) (objectId : Uuid) (position : String) : Prop where
  computed : bookmarks.positionComputed uuidv7 placed.profile placed.event = .ok position
  between : Between placed.positionBefore placed.positionAfter position
  mapped : (bookmarks.flushed uuidv7 keys placed).1.mappingOf placed.id = some objectId
  recorded : (bookmarks.flushed uuidv7 keys placed).1.recordedPosition placed.id = some position
  sent : ∃ item ∈ sent ++ (bookmarks.flushed uuidv7 keys placed).2, item.1.objectId = objectId ∧
    textField item.2 "position" = some position

end BookmarksModule

/-! ### Runs of several devices -/

/-- The profiles of the devices, and the operations that were sent. -/
structure BookmarkAccount where
  profiles : Uuid → Profile
  sent : List RemoteItem

/-- What may happen next on a device. -/
inductive BookmarkAccountEvent where
  /-- A local change and its capture, with the ids minted and the Lamport values and operation ids
  given in it. -/
  | place (device : Uuid) (placement : LocalPlacement) (uuidv7 : ℕ → Uuid) (stamps : ℕ → ℤ × Uuid)
  /-- Some of the operations are applied as a batch, in any order. -/
  | receive (device : Uuid) (indices : List ℕ)
  /-- One is applied by itself. -/
  | receiveOne (device : Uuid) (index : ℕ)

namespace BookmarkAccount

variable (devices : Uuid → BookmarkDevice) (s : BookmarkAccount)

/-- All devices begin to sync. -/
def start : BookmarkAccount where
  profiles device := ⟨(devices device).browser, [], [], emptyStore⟩
  sent := []

/-- The operations at some indices that other devices have sent. -/
def received (device : Uuid) (indices : List ℕ) : List RemoteItem :=
  (indices.filterMap fun index => s.sent[index]?).filter fun item => item.1.deviceId ≠ device

/-- The keys that a device gives. -/
def keysOf (device : Uuid) (stamps : ℕ → ℤ × Uuid) (i : ℕ) : OrderingKey :=
  ⟨(stamps i).1, device, (stamps i).2⟩

/-- A device has a new profile, and has sent something. -/
def update (device : Uuid) (profile : Profile) (items : List RemoteItem) : BookmarkAccount where
  profiles := Function.update s.profiles device profile
  sent := s.sent ++ items

/-- One step. -/
def step (s : BookmarkAccount) : BookmarkAccountEvent → BookmarkAccount
  | .place device placement uuidv7 stamps =>
    match (devices device).bookmarks.place (s.profiles device) uuidv7 placement with
    | none => s
    | some placed =>
      let (profile, items) := (devices device).bookmarks.flushed uuidv7 (keysOf device stamps) placed
      s.update device profile items
  | .receive device indices =>
    s.update device ((devices device).bookmarks.applyRemoteBatch (.start (s.profiles device))
      (s.received device indices)).profile []
  | .receiveOne device index =>
    s.update device ((s.received device [index]).foldl (devices device).bookmarks.applyRemote
      (.start (s.profiles device))).profile []

/-- A position is found for a local change. -/
def FindsPosition (s : BookmarkAccount) : BookmarkAccountEvent → Prop
  | .place device placement uuidv7 stamps =>
    ∀ placed ∈ (devices device).bookmarks.place (s.profiles device) uuidv7 placement,
      ∃ objectId position, (devices device).bookmarks.FindsPosition s.sent uuidv7
        (keysOf device stamps) placed objectId position
  | _ => True

/-- A local change is made where there is room. -/
def HasRoom (s : BookmarkAccount) : BookmarkAccountEvent → Prop
  | .place device placement uuidv7 _ =>
    ∀ placed ∈ (devices device).bookmarks.place (s.profiles device) uuidv7 placement, placed.HasRoom
  | _ => True

instance (s : BookmarkAccount) : ∀ event, Decidable (HasRoom devices s event)
  | .place device placement uuidv7 _ =>
    inferInstanceAs (Decidable (∀ placed ∈ (devices device).bookmarks.place (s.profiles device) uuidv7
      placement, placed.HasRoom))
  | .receive _ _ => .isTrue trivial
  | .receiveOne _ _ => .isTrue trivial

end BookmarkAccount

/-! ### Siblings -/

section Siblings

variable {device : BookmarkDevice} {sent : List RemoteItem} {profile : Profile} {id : ChromiumId}
  {objectId : Uuid}

/-- A mapped object has a recorded position, and that is a key. -/
theorem AllPositioned.recordedPosition (h : AllPositioned device sent profile) (hsent : SentKeys sent)
    (hmapping : profile.mappingOf id = some objectId) (hmove : HasMove profile objectId) :
    ∃ position, profile.recordedPosition id = some position ∧
      positionIn (profile.fieldValue objectId .move) = some position ∧ IsKey position := by
  obtain ⟨held, hheld⟩ := Option.isSome_iff_exists.mp hmove
  obtain ⟨item, hitem, -, hposition⟩ := h.recorded objectId held hheld
  obtain ⟨position, hsome, hkey⟩ := (hsent item hitem).2
  have hvalue : positionIn (profile.fieldValue objectId .move) = some position := by
    rw [Profile.fieldValue, hheld]
    exact hposition.symm.trans hsome
  refine ⟨position, ?_, hvalue, hkey⟩
  rw [Profile.recordedPosition, hmapping, Option.bind_some, BookmarksModule.positionOf]
  have hrecorded : (recordedMove (profile.fieldValue objectId .move)).2 = some position := hvalue
  rw [hrecorded, truthy, Option.filter_some, if_pos (by simpa using hkey.ne_empty)]

/-- What stands in for a built-in folder has none. -/
theorem AllPositioned.recordedPosition_standIn (h : AllPositioned device sent profile)
    (hid : id ∈ device.bookmarks.standInIds) : profile.recordedPosition id = none := by
  have hnone : profile.mappingOf id = none := by
    rw [Profile.mappingOf, List.lookup_eq_none_iff]
    rintro entry hentry
    exact bne_iff_ne.mpr fun heq => h.unlinked entry hentry (heq ▸ hid)
  rw [Profile.recordedPosition, hnone, Option.bind_none]

/-- A node that stands in for a built-in folder, or is mapped to an object with a recorded position. -/
def Accounted (device : BookmarkDevice) (profile : Profile) (id : ChromiumId) : Prop :=
  id ∈ device.bookmarks.standInIds ∨ device.bookmarks.objectIdByChromiumId id = none ∧
    ∃ objectId, profile.mappingOf id = some objectId ∧ HasMove profile objectId

/-- A node in a folder other than the root is accounted for. -/
theorem AllPositioned.accounted (h : AllPositioned device sent profile) {node : BookmarkNode}
    (hnode : node ∈ profile.browser.nodes) {parentId : ChromiumId} (hparent : node.parent = some parentId)
    (hne : parentId ≠ 0) : Accounted device profile node.id := by
  by_cases hroot : device.bookmarks.objectIdByChromiumId node.id = none
  · exact Or.inr ⟨hroot, h.mapped node hnode hroot⟩
  · rcases device.cases_of_root hroot with hpermanent | hstandIn
    · exact absurd (h.below_root node hnode hpermanent parentId hparent) hne
    · exact Or.inl hstandIn

/-- The caches of a flush say nothing about what was there before it. -/
structure FlushCaches.Clean (profile : Profile) (caches : FlushCaches) : Prop where
  newMappings : ∀ entry ∈ caches.newMappings, profile.mappingOf entry.1 = none
  overlay : ∀ objectId, HasMove profile objectId → caches.overlay objectId = none

theorem FlushCaches.clean_empty (profile : Profile) : FlushCaches.empty.Clean profile :=
  ⟨fun _ h => absurd h List.not_mem_nil, fun _ _ => rfl⟩

variable {caches : FlushCaches} (uuidv7 : ℕ → Uuid)

theorem FlushCaches.Clean.objectIdFor (h : caches.Clean profile)
    (hroot : device.bookmarks.objectIdByChromiumId id = none)
    (hmapping : profile.mappingOf id = some objectId) :
    device.bookmarks.objectIdFor uuidv7 profile caches id = (objectId, caches) := by
  have hnone : caches.newMappings.lookup id = none := by
    rw [List.lookup_eq_none_iff]
    intro entry hentry
    refine bne_iff_ne.mpr fun heq => ?_
    have hunmapped := h.newMappings entry hentry
    rw [← heq, hmapping] at hunmapped
    exact absurd hunmapped (by simp)
  rw [BookmarksModule.objectIdFor, hroot, FlushCaches.cachedObjectId, hnone, hmapping]
  rfl

theorem FlushCaches.Clean.positionOf (h : caches.Clean profile) (hmove : HasMove profile objectId) :
    caches.positionOf profile objectId = positionIn (profile.fieldValue objectId .move) := by
  rw [FlushCaches.positionOf, FlushCaches.moveOf, h.overlay objectId hmove]
  rfl

/-- The nearest sibling that does not stand in for a built-in folder is the nearest one with a
recorded position. -/
theorem AllPositioned.nearest (h : AllPositioned device sent profile) (hsent : SentKeys sent)
    (hclean : caches.Clean profile) {siblings : List ChromiumId}
    (hsiblings : ∀ id ∈ siblings, Accounted device profile id) :
    ∃ found, device.bookmarks.objectIdForAny uuidv7 profile caches
        (siblings.find? fun id => id ∉ device.bookmarks.standInIds) = (found, caches) ∧
      found.bind (caches.positionOf profile) = siblings.findSome? profile.recordedPosition ∧
      ∀ position ∈ siblings.findSome? profile.recordedPosition, IsKey position := by
  induction siblings with
  | nil => exact ⟨none, rfl, rfl, by simp⟩
  | cons id siblings ih =>
    rcases hsiblings id List.mem_cons_self with hstandIn | ⟨hroot, objectId, hmapping, hmove⟩
    · rw [List.find?_cons_of_neg (by simpa using hstandIn), List.findSome?_cons,
        h.recordedPosition_standIn hstandIn]
      exact ih fun other hother => hsiblings other (List.mem_cons_of_mem _ hother)
    · obtain ⟨position, hrecorded, hvalue, hkey⟩ := h.recordedPosition hsent hmapping hmove
      have hid : id ∉ device.bookmarks.standInIds := by
        intro hstandIn
        rw [h.recordedPosition_standIn hstandIn] at hrecorded
        exact absurd hrecorded (by simp)
      rw [List.find?_cons_of_pos (by simpa using hid), List.findSome?_cons, hrecorded]
      refine ⟨some objectId, ?_, ?_, ?_⟩
      · rw [BookmarksModule.objectIdForAny, hclean.objectIdFor uuidv7 hroot hmapping]
      · exact (hclean.positionOf hmove).trans hvalue
      · rintro _ ⟨⟩
        exact hkey

theorem siblingBefore_eq (standInIds siblings : List ChromiumId) {index : ℕ}
    (hindex : index ≤ siblings.length) : siblingBefore standInIds siblings index =
      (siblings.take index).reverse.find? fun id => id ∉ standInIds := by
  induction index with
  | zero => rfl
  | succ before ih =>
    have hlt : before < siblings.length := hindex
    rw [siblingBefore, List.take_add_one, List.getElem?_eq_getElem hlt, Option.toList_some,
      List.reverse_append, List.reverse_singleton, List.singleton_append, ih hlt.le]
    dsimp only
    split_ifs with hstandIn
    · rw [List.find?_cons_of_neg (by simpa using hstandIn)]
    · rw [List.find?_cons_of_pos (by simpa using hstandIn)]

/-- **The position computed** in a folder whose other children are accounted for is a key between the
nearest positioned siblings, if these are in order. -/
theorem AllPositioned.computePosition (h : AllPositioned device sent profile) (hsent : SentKeys sent)
    (hclean : caches.Clean profile) {browser : Browser} {parentId : ChromiumId} {index : ℕ}
    (hhas : browser.has parentId = true) (hindex : index ≤ (browser.childIds parentId).length)
    (hsiblings : ∀ id ∈ (browser.childIds parentId).take index ++
      (browser.childIds parentId).drop (index + 1), Accounted device profile id) {lo hi : Option String}
    (hlo : ((browser.childIds parentId).take index).reverse.findSome? profile.recordedPosition = lo)
    (hhi : ((browser.childIds parentId).drop (index + 1)).findSome? profile.recordedPosition = hi)
    (hroom : ∀ l ∈ lo, ∀ u ∈ hi, codeUnits l < codeUnits u) :
    ∃ position, device.bookmarks.computePosition uuidv7 { profile with browser := browser } caches
        parentId index = (.ok position, caches) ∧ Between lo hi position ∧ IsKey position := by
  obtain ⟨before, hbefore, hbeforeAt, hbeforeKey⟩ := h.nearest uuidv7 hsent hclean fun id hid =>
    hsiblings id (List.mem_append_left _ (List.mem_reverse.mp hid))
  obtain ⟨after, hafter, hafterAt, hafterKey⟩ := h.nearest uuidv7 hsent hclean fun id hid =>
    hsiblings id (List.mem_append_right _ hid)
  rw [hlo] at hbeforeAt hbeforeKey
  rw [hhi] at hafterAt hafterKey
  obtain ⟨position, hposition, hkey, hbetween⟩ := exists_keyBetween hbeforeKey hafterKey hroom
  rw [← siblingBefore_eq device.bookmarks.standInIds _ hindex] at hbefore
  refine ⟨position, ?_, hbetween, hkey⟩
  have hcomputed : device.bookmarks.computePosition uuidv7 { profile with browser := browser } caches
      parentId index = ((keyBetween (before.bind (caches.positionOf profile))
        (after.bind (caches.positionOf profile))).mapError .noKey, caches) := by
    rw [BookmarksModule.computePosition, if_pos hhas]
    have hbefore' : device.bookmarks.objectIdForAny uuidv7 { profile with browser := browser } caches
        (siblingBefore device.bookmarks.standInIds (browser.childIds parentId) index) =
          (before, caches) := hbefore
    have hafter' : device.bookmarks.objectIdForAny uuidv7 { profile with browser := browser } caches
        (siblingAfter device.bookmarks.standInIds (browser.childIds parentId) index) =
          (after, caches) := hafter
    dsimp only
    rw [hbefore']
    dsimp only
    rw [hafter']
    rfl
  rw [hcomputed, hbeforeAt, hafterAt, hposition]
  rfl

end Siblings

/-! ### What a flush records -/

/-- An operation that says where its object is. -/
structure StagedBookmarkOp.Tells (op : StagedBookmarkOp) (position : String) : Prop where
  placement : op.operationType = .create ∨ op.operationType = .move
  payload : textField op.payload "position" = some position
  fields : ∀ value, (Field.move, value) ∈ op.fields → positionIn value = some position
  move : ∃ value, (Field.move, value) ∈ op.fields

section Flush

variable {device : BookmarkDevice} {sent : List RemoteItem} {profile : Profile} {op : StagedBookmarkOp}
  {position : String}

/-- The records of an operation give its object the position. -/
theorem StagedBookmarkOp.Tells.put (h : op.Tells position) (store : FieldStore) (key : OrderingKey) :
    ∃ held, putFieldStatesBatch store (op.records key) (op.objectId, .move) = some held ∧
      positionIn held.value = some position := by
  obtain ⟨value, hvalue⟩ := h.move
  obtain ⟨held, hheld, -⟩ := @le_of_put (op.records key)
    ⟨op.objectId, .move, ⟨key, op.operationType, value⟩⟩
    (List.pairwise_map.mpr (List.pairwise_of_forall fun _ _ => le_refl key))
    (List.mem_map.mpr ⟨_, hvalue, rfl⟩)
  obtain ⟨entry, hentry, hslot, rfl⟩ := mem_of_put hheld
  obtain ⟨field, hfield, rfl⟩ := List.mem_map.mp hentry
  have hname : field.1 = .move := congrArg Prod.snd hslot
  refine ⟨⟨key, op.operationType, field.2⟩, ?_, h.fields field.2 (hname ▸ hfield)⟩
  rw [putFieldStatesBatch_apply]
  exact congrArg (fun found : Option FieldStateRecord => found.orElse fun _ => _) hheld

/-- **The records of an operation that is sent** keep all nodes positioned. -/
theorem AllPositioned.put (h : AllPositioned device sent profile) (htells : op.Tells position)
    (key : OrderingKey) : AllPositioned device (sent ++ [op.remote key])
      { profile with fields := putFieldStatesBatch profile.fields (op.records key) } := by
  refine (h.sent_append [op.remote key]).withFields (fun objectId hmove => ?_) fun objectId held hheld => ?_
  · rw [putFieldStatesBatch_apply]
    cases putFieldStatesBatch emptyStore (op.records key) (objectId, .move) with
    | none => exact hmove
    | some held => rfl
  · rw [putFieldStatesBatch_apply] at hheld
    rcases hput : putFieldStatesBatch emptyStore (op.records key) (objectId, .move) with _ | put
    · rw [hput] at hheld
      exact Or.inl hheld
    · rw [hput] at hheld
      obtain rfl : put = held := Option.some.inj hheld
      obtain ⟨entry, hentry, hslot, rfl⟩ := mem_of_put hput
      obtain ⟨field, hfield, rfl⟩ := List.mem_map.mp hentry
      have hname : field.1 = .move := congrArg Prod.snd hslot
      refine Or.inr ⟨op.remote key, by simp, congrArg Prod.fst hslot, ?_⟩
      exact htells.payload.trans (htells.fields field.2 (hname ▸ hfield)).symm

theorem StagedBookmarkOp.Tells.sentKeys (h : op.Tells position) (hsent : SentKeys sent)
    (hkey : IsKey position) (key : OrderingKey) : SentKeys (sent ++ [op.remote key]) := by
  intro item hitem
  rcases List.mem_append.mp hitem with hitem | hitem
  · exact hsent item hitem
  · rw [List.mem_singleton.mp hitem]
    exact ⟨h.placement, position, h.payload, hkey⟩

variable {bookmarks : BookmarksModule} {uuidv7 : ℕ → Uuid} {keys : ℕ → OrderingKey} {placed : Placed}
  {caches : FlushCaches}

theorem fields_putMappings (entries : List (ChromiumId × Uuid)) (profile : Profile) :
    (entries.foldl (fun profile entry => profile.putMapping entry.1 entry.2) profile).fields =
      profile.fields := by
  induction entries generalizing profile with
  | nil => rfl
  | cons entry entries ih => exact ih (profile.putMapping entry.1 entry.2)

/-- A flush whose only event is staged. -/
theorem flushed_of_staged (h : bookmarks.stageEvent uuidv7 placed.profile .empty placed.event =
      (.ok (some op), caches)) : bookmarks.flushed uuidv7 keys placed =
      ({ caches.newMappings.foldl (fun profile entry => profile.putMapping entry.1 entry.2)
          placed.profile with
          fields := putFieldStatesBatch placed.profile.fields (op.records (keys 0)) },
        [op.remote (keys 0)]) := by
  rw [BookmarksModule.flushed, BookmarksModule.flushBookmarkEvents, BookmarksModule.stageEvents, h]
  simp [BookmarksModule.stageEvents, Except.toOption, fields_putMappings]

/-- A flush whose only event needs no operation. -/
theorem flushed_of_recorded (h : bookmarks.stageEvent uuidv7 placed.profile .empty placed.event =
      (.ok none, caches)) : bookmarks.flushed uuidv7 keys placed = (placed.profile, []) := by
  rw [BookmarksModule.flushed, BookmarksModule.flushBookmarkEvents, BookmarksModule.stageEvents, h]
  rfl

end Flush

/-! ### A local change in a profile that is positioned throughout -/

section Place

variable {device : BookmarkDevice} {sent : List RemoteItem} {profile : Profile} {placed : Placed}
  {uuidv7 : ℕ → Uuid} {keys : ℕ → OrderingKey} {op : StagedBookmarkOp} {position : String}
  {caches : FlushCaches}

/-- What is staged and mapped has found its position. -/
theorem findsPosition_of_staged {bookmarks : BookmarksModule} (htells : op.Tells position)
    (hkey : IsKey position)
    (hcomputed : bookmarks.positionComputed uuidv7 placed.profile placed.event = .ok position)
    (hbetween : Between placed.positionBefore placed.positionAfter position)
    (hstaged : bookmarks.stageEvent uuidv7 placed.profile .empty placed.event = (.ok (some op), caches))
    (hmapped : (caches.newMappings.foldl (fun profile entry => profile.putMapping entry.1 entry.2)
      placed.profile).mappingOf placed.id = some op.objectId) :
    bookmarks.FindsPosition sent uuidv7 keys placed op.objectId position := by
  have hflushed := @flushed_of_staged op bookmarks uuidv7 keys placed caches hstaged
  obtain ⟨held, hheld, hposition⟩ := htells.put placed.profile.fields (keys 0)
  refine ⟨hcomputed, hbetween, ?_, ?_, op.remote (keys 0), ?_, rfl, htells.payload⟩
  · rw [hflushed]
    exact hmapped
  · rw [hflushed, Profile.recordedPosition]
    have hvalue : (recordedMove ((putFieldStatesBatch placed.profile.fields (op.records (keys 0))
        (op.objectId, .move)).bind IncomingField.value)).2 = some position := by
      rw [hheld]
      exact hposition
    change ((caches.newMappings.foldl (fun profile entry => profile.putMapping entry.1 entry.2)
      placed.profile).mappingOf placed.id).bind _ = _
    rw [hmapped, Option.bind_some, BookmarksModule.positionOf]
    change truthy (recordedMove ((putFieldStatesBatch placed.profile.fields (op.records (keys 0))
      (op.objectId, .move)).bind IncomingField.value)).2 = _
    rw [hvalue, truthy, Option.filter_some, if_pos (by simpa using hkey.ne_empty)]
  · rw [hflushed]
    simp

theorem ne_of_mem_around {ids : List ChromiumId} (h : ids.Nodup) {id other : ChromiumId}
    (hother : other ∈ ids.take (ids.idxOf id) ++ ids.drop (ids.idxOf id + 1)) : other ≠ id := by
  rintro rfl
  obtain ⟨i, hi, hget, hne⟩ : ∃ i, ∃ hi : i < ids.length, ids[i] = other ∧ i ≠ ids.idxOf other := by
    rcases List.mem_append.mp hother with hother | hother
    · obtain ⟨i, hi, hget⟩ := List.mem_take_iff_getElem.mp hother
      exact ⟨i, by omega, hget, by omega⟩
    · obtain ⟨i, hi, hget⟩ := List.mem_drop_iff_getElem.mp hother
      exact ⟨i + (ids.idxOf other + 1), by omega, by simpa [Nat.add_comm] using hget, by omega⟩
  have hlt : ids.idxOf other < ids.length := List.idxOf_lt_length_of_mem (hget ▸ List.getElem_mem hi)
  exact hne ((List.Nodup.getElem_inj_iff h).mp (hget.trans (List.getElem_idxOf hlt).symm))

namespace Browser

variable {browser changed : Browser} {id parentId : ChromiumId} {index : ℕ}

theorem has_iff : browser.has id = true ↔ id ∈ browser.nodes.map Forest.Node.id := by
  rw [has, node?, List.find?_isSome, List.mem_map]
  simp

theorem has_of_canHold (h : browser.canHold parentId = true) :
    browser.has parentId = true ∧ parentId ≠ 0 := by
  rw [canHold] at h
  rw [has]
  cases hnode : browser.nodes.node? parentId with
  | none => simp [hnode] at h
  | some node =>
    rw [hnode] at h
    have hboth : node.value.url.isNone = true ∧ parentId ≠ 0 := by simpa using h
    exact ⟨rfl, hboth.2⟩

theorem has_move (h : Forest.Distinct browser.nodes) (hmove : browser.move id parentId index = some changed)
    (other : ChromiumId) : changed.has other = browser.has other := by
  rw [move] at hmove
  split_ifs at hmove
  obtain rfl := Option.some.inj hmove
  rw [Bool.eq_iff_iff, has_iff, has_iff]
  exact (map_id_place_perm h id parentId _).mem_iff

/-- A node in a folder. -/
theorem exists_of_mem_childIds (h : id ∈ browser.childIds parentId) :
    ∃ node ∈ browser.nodes, node.id = id ∧ node.parent = some parentId := by
  obtain ⟨node, hnode, rfl⟩ := List.mem_map.mp h
  obtain ⟨hmem, hparent⟩ := mem_children.mp hnode
  exact ⟨node, hmem, rfl, hparent⟩

end Browser

/-- **A node made at an index** is the only new one. -/
theorem AllPositioned.createAt (h : AllPositioned device sent profile) {parentId : ChromiumId}
    {index : ℕ} {node : BookmarkData} {browser : Browser}
    (hcreate : profile.browser.createAt parentId index node = some browser) :
    profile.browser.canHold parentId = true ∧ browser.has parentId = true ∧
      profile.browser.nextId < browser.nextId ∧ Forest.Distinct browser.nodes ∧
      ∀ other ∈ browser.nodes, other ∈ profile.browser.nodes ∨ other.id = profile.browser.nextId := by
  rw [Browser.createAt] at hcreate
  split_ifs at hcreate with hallowed
  obtain rfl := Option.some.inj hcreate
  have happended := h.distinct_append parentId node
  refine ⟨hallowed.1, ?_, Nat.lt_succ_self _, happended.place _ _ _, fun other hother => ?_⟩
  · have hhas := Browser.has_iff.mp (Browser.has_of_canHold hallowed.1).1
    refine Browser.has_iff.mpr ((map_id_place_perm happended _ _ _).mem_iff.mpr ?_)
    rw [Forest.append, List.map_append]
    exact List.mem_append_left _ hhas
  · rcases mem_place hother with ⟨old, -, hid, rfl⟩ | ⟨hmem, hne⟩
    · exact Or.inr hid
    · refine Or.inl ((List.mem_append.mp hmem).resolve_right fun hnew => hne ?_)
      rw [List.mem_singleton.mp hnew]

/-- The id of an object that is there, or of a built-in folder, is found. -/
theorem AllPositioned.exists_objectIdFor (h : AllPositioned device sent profile)
    (hclean : caches.Clean profile) {id : ChromiumId} (hid : profile.browser.has id = true) :
    ∃ objectId, device.bookmarks.objectIdFor uuidv7 profile caches id = (objectId, caches) := by
  obtain ⟨node, hnode, rfl⟩ := List.mem_map.mp (Browser.has_iff.mp hid)
  cases hroot : device.bookmarks.objectIdByChromiumId node.id with
  | none =>
    obtain ⟨objectId, hmapping, -⟩ := h.mapped node hnode hroot
    exact ⟨objectId, hclean.objectIdFor uuidv7 hroot hmapping⟩
  | some objectId =>
    refine ⟨objectId, ?_⟩
    rw [BookmarksModule.objectIdFor, hroot]
    rfl

/-- What a device has when a local change has been captured: its position was found, and all is
positioned again. -/
def Captured (device : BookmarkDevice) (sent : List RemoteItem) (uuidv7 : ℕ → Uuid)
    (keys : ℕ → OrderingKey) (placed : Placed) : Prop :=
  (∃ objectId position, device.bookmarks.FindsPosition sent uuidv7 keys placed objectId position) ∧
    AllPositioned device (sent ++ (device.bookmarks.flushed uuidv7 keys placed).2)
      (device.bookmarks.flushed uuidv7 keys placed).1 ∧
    SentKeys (sent ++ (device.bookmarks.flushed uuidv7 keys placed).2)

/-- What is staged for a node that was created. -/
def createdOp (objectId : Uuid) (payload : BookmarkPayload) : StagedBookmarkOp where
  objectType := bookmarkObjectType payload.url
  objectId := objectId
  operationType := .create
  payload := payload.toJson
  fields := [(.title, some (.string payload.title)), (.url, some (nullable payload.url)),
    (.move, some payload.move), (.liveness, some live)]

theorem tells_createdOp (objectId : Uuid) (payload : BookmarkPayload) :
    (createdOp objectId payload).Tells payload.position where
  placement := Or.inl rfl
  payload := rfl
  fields value hvalue := by
    simp only [createdOp, List.mem_cons, Prod.mk.injEq, reduceCtorEq, false_and, true_and,
      List.not_mem_nil, or_false, false_or] at hvalue
    rw [hvalue]
    rfl
  move := ⟨some payload.move, by simp [createdOp]⟩

/-- What is staged for a node that was moved. -/
def movedOp (objectType : ObjectType) (objectId parentObjectId : Uuid) (position : String) :
    StagedBookmarkOp :=
  let payload : Json := .object [("parent", .string (uuidText parentObjectId)),
    ("position", .string position)]
  { objectType := objectType
    objectId := objectId
    operationType := .move
    payload := payload
    fields := [(.move, some payload)] }

theorem tells_movedOp (objectType : ObjectType) (objectId parentObjectId : Uuid) (position : String) :
    (movedOp objectType objectId parentObjectId position).Tells position where
  placement := Or.inr rfl
  payload := rfl
  fields value hvalue := by
    simp only [movedOp, List.mem_cons, Prod.mk.injEq, true_and, List.not_mem_nil, or_false] at hvalue
    rw [hvalue]
    rfl
  move := ⟨_, List.mem_singleton_self _⟩

section Stage

variable {bookmarks : BookmarksModule} {id parentId : ChromiumId} {index : ℕ}
  {objectId parentObjectId : Uuid} {cached parented positioned : FlushCaches}

/-- Staging a node that was created, step by step. -/
theorem stageEvent_created {node : BookmarkData}
    (hobject : bookmarks.objectIdFor uuidv7 profile caches id = (objectId, cached))
    (hparent : bookmarks.objectIdFor uuidv7 profile cached parentId = (parentObjectId, parented))
    (hposition : bookmarks.computePosition uuidv7 profile parented parentId index =
      (.ok position, positioned)) :
    bookmarks.stageEvent uuidv7 profile caches (.created id node (some parentId) (some index)) =
      (.ok (some (createdOp objectId ⟨node.title, node.url, some parentObjectId, position⟩)),
        positioned.stage objectId
          (BookmarkPayload.move ⟨node.title, node.url, some parentObjectId, position⟩)) := by
  simp only [BookmarksModule.stageEvent, BookmarksModule.stageCreated, BookmarksModule.objectIdForAny,
    hobject, hparent, Option.getD_some, hposition, createdOp]
  rfl

/-- Staging a node that was moved: there is an operation unless it is recorded where it is. -/
theorem stageEvent_moved {node : BookmarkNode} (hobject : caches.cachedObjectId profile id = some objectId)
    (hnode : profile.browser.nodes.node? id = some node)
    (hparent : bookmarks.objectIdFor uuidv7 profile caches parentId = (parentObjectId, parented))
    (hposition : bookmarks.computePosition uuidv7 profile parented parentId index =
      (.ok position, positioned)) :
    (∃ after, bookmarks.stageEvent uuidv7 profile caches (.moved id parentId index) =
        (.ok (some (movedOp (bookmarkObjectType node.value.url) objectId parentObjectId position)),
          after) ∧ after.newMappings = positioned.newMappings) ∨
      positionIn (positioned.moveOf profile objectId) = some position ∧
        bookmarks.stageEvent uuidv7 profile caches (.moved id parentId index) =
          (.ok none, positioned) := by
  simp only [BookmarksModule.stageEvent, BookmarksModule.stageMoved, hobject, hnode, hparent, hposition]
  split_ifs with hsame
  · exact Or.inr ⟨hsame.2, rfl⟩
  · exact Or.inl ⟨_, rfl, rfl⟩

end Stage

/-- The browser has never had the next id before. -/
theorem AllPositioned.nextId_new (h : AllPositioned device sent profile) :
    device.bookmarks.objectIdByChromiumId profile.browser.nextId = none ∧
      profile.mappingOf profile.browser.nextId = none := by
  constructor
  · by_contra hroot
    exact lt_irrefl _ (h.root_lt _ (List.mem_append.mpr (device.cases_of_root hroot)))
  · rw [Profile.mappingOf, List.lookup_eq_none_iff]
    exact fun entry hentry => bne_iff_ne.mpr (h.mapping_lt entry hentry).ne'

/-- A new object for a new id says nothing about what was there. -/
theorem clean_mint {id : ChromiumId} {objectId : Uuid} (hid : profile.mappingOf id = none)
    (hobject : profile.fields (objectId, .move) = none) :
    (FlushCaches.empty.mint id objectId).Clean profile where
  newMappings entry hentry := by
    rw [List.mem_singleton.mp hentry]
    exact hid
  overlay other hmove := by
    have hne : other ≠ objectId := by
      rintro rfl
      rw [HasMove, hobject] at hmove
      exact absurd hmove (by simp)
    exact Function.update_of_ne hne _ _

/-- **A node that is created** where there is room is captured. -/
theorem AllPositioned.captured_create (h : AllPositioned device sent profile) (hsent : SentKeys sent)
    {parentId : ChromiumId} {index : ℕ} {node : BookmarkData}
    (hplaced : device.bookmarks.place profile uuidv7 (.create parentId index node) = some placed)
    (hroom : placed.HasRoom) : Captured device sent uuidv7 keys placed := by
  rw [BookmarksModule.place] at hplaced
  split_ifs at hplaced with hfresh
  obtain ⟨browser, hcreate, rfl⟩ := Option.map_eq_some_iff.mp hplaced
  obtain ⟨hhold, hhas, hnext, hdistinct, hnodes⟩ := h.createAt hcreate
  obtain ⟨hparent, hne⟩ := Browser.has_of_canHold hhold
  set created := profile.browser.nextId with hcreated
  have hsiblings : ∀ other ∈
      (browser.childIds parentId).take ((browser.childIds parentId).idxOf created) ++
        (browser.childIds parentId).drop ((browser.childIds parentId).idxOf created + 1),
      Accounted device profile other := by
    intro other hother
    have hnew := ne_of_mem_around (Browser.nodup_childIds hdistinct parentId) hother
    have hmem : other ∈ browser.childIds parentId :=
      (List.mem_append.mp hother).elim List.mem_of_mem_take List.mem_of_mem_drop
    obtain ⟨node, hnode, rfl, hbelow⟩ := Browser.exists_of_mem_childIds hmem
    exact h.accounted ((hnodes node hnode).resolve_right hnew) hbelow hne
  -- the new node gets a new object, its parent has one
  obtain ⟨hroot, hunmapped⟩ := h.nextId_new
  have hobject : device.bookmarks.objectIdFor uuidv7 profile .empty created =
      (uuidv7 0, FlushCaches.empty.mint created (uuidv7 0)) := by
    rw [BookmarksModule.objectIdFor, hroot, FlushCaches.cachedObjectId, hunmapped]
    rfl
  have hclean := clean_mint hunmapped (Option.isNone_iff_eq_none.mp hfresh)
  obtain ⟨parentObject, hparentObject⟩ := @AllPositioned.exists_objectIdFor device sent profile uuidv7
    _ h hclean parentId hparent
  obtain ⟨position, hcomputed, hbetween, hkey⟩ := h.computePosition uuidv7 hsent hclean hhas
    List.idxOf_le_length hsiblings rfl rfl hroom
  have htells := tells_createdOp (uuidv7 0) ⟨node.title, node.url, some parentObject, position⟩
  have hevent := @stageEvent_created { profile with browser := browser } uuidv7 _ _ device.bookmarks created
    parentId _ _ _ _ _ _ node hobject hparentObject hcomputed
  have hflushed := @flushed_of_staged _ device.bookmarks uuidv7 keys ⟨_, created, parentId, _⟩ _ hevent
  refine ⟨⟨uuidv7 0, position, findsPosition_of_staged htells hkey ?_ hbetween hevent ?_⟩, ?_, ?_⟩
  · have hobject' : device.bookmarks.objectIdFor uuidv7 { profile with browser := browser } .empty
        created = (uuidv7 0, FlushCaches.empty.mint created (uuidv7 0)) := hobject
    have hparentObject' : device.bookmarks.objectIdFor uuidv7 { profile with browser := browser }
        (FlushCaches.empty.mint created (uuidv7 0)) parentId = (parentObject, _) := hparentObject
    dsimp only [BookmarksModule.positionComputed]
    rw [hobject', hparentObject', Option.getD_some, hcomputed]
  · exact (mappingOf_putMapping _ created created (uuidv7 0)).trans (if_pos rfl)
  · rw [hflushed]
    obtain ⟨held, hheld, -⟩ := htells.put profile.fields (keys 0)
    exact (h.put htells (keys 0)).added hnext hdistinct hnodes (Option.isSome_iff_exists.mpr ⟨held, hheld⟩)
  · rw [hflushed]
    exact htells.sentKeys hsent hkey (keys 0)

/-- **A node that is moved** to where there is room is captured. -/
theorem AllPositioned.captured_move (h : AllPositioned device sent profile) (hsent : SentKeys sent)
    {id parentId : ChromiumId} {index : ℕ}
    (hplaced : device.bookmarks.place profile uuidv7 (.move id parentId index) = some placed)
    (hroom : placed.HasRoom) : Captured device sent uuidv7 keys placed := by
  rw [BookmarksModule.place] at hplaced
  split_ifs at hplaced with hstandIn
  obtain ⟨browser, hmove, rfl⟩ := Option.map_eq_some_iff.mp hplaced
  have hmoved := h.move hmove
  have hallowed : profile.browser.canChange id = true ∧ profile.browser.canHold parentId = true := by
    rw [Browser.move] at hmove
    split_ifs at hmove with hallowed
    exact ⟨hallowed.1, hallowed.2.1⟩
  obtain ⟨hparent, hne⟩ := Browser.has_of_canHold hallowed.2
  have hchange : profile.browser.has id = true ∧ id ∉ Browser.permanentIds := by
    simpa [Browser.canChange] using hallowed.1
  have hhas : ∀ other, profile.browser.has other = true → browser.has other = true := fun other hother =>
    (Browser.has_move h.distinct hmove other).trans hother
  have hsiblings : ∀ other ∈ (browser.childIds parentId).take ((browser.childIds parentId).idxOf id) ++
        (browser.childIds parentId).drop ((browser.childIds parentId).idxOf id + 1),
      Accounted device { profile with browser := browser } other := by
    intro other hother
    have hmem : other ∈ browser.childIds parentId :=
      (List.mem_append.mp hother).elim List.mem_of_mem_take List.mem_of_mem_drop
    obtain ⟨node, hnode, rfl, hbelow⟩ := Browser.exists_of_mem_childIds hmem
    exact hmoved.accounted hnode hbelow hne
  -- the node and its parent have their objects
  obtain ⟨node, hnode⟩ := Option.isSome_iff_exists.mp (hhas id hchange.1)
  have hid : node.id = id := id_eq_of_node? hnode
  have hroot : device.bookmarks.objectIdByChromiumId id = none := by
    by_contra hroot
    exact (device.cases_of_root hroot).elim hchange.2 hstandIn
  obtain ⟨objectId, hmapping, hhasMove⟩ := hmoved.mapped node (List.mem_of_find?_eq_some hnode)
    (hid ▸ hroot)
  rw [hid] at hmapping
  have hobject : FlushCaches.empty.cachedObjectId { profile with browser := browser } id =
      some objectId := hmapping
  have hclean := FlushCaches.clean_empty { profile with browser := browser }
  obtain ⟨parentObject, hparentObject⟩ := @AllPositioned.exists_objectIdFor device sent _ uuidv7 _ hmoved
    hclean parentId (hhas parentId hparent)
  obtain ⟨position, hcomputed, hbetween, hkey⟩ := hmoved.computePosition uuidv7 hsent hclean
    (hhas parentId hparent) List.idxOf_le_length hsiblings rfl rfl hroom
  have hposition : device.bookmarks.positionComputed uuidv7 { profile with browser := browser }
      (.moved id parentId ((browser.childIds parentId).idxOf id)) = .ok position := by
    dsimp only [BookmarksModule.positionComputed]
    rw [hparentObject, hcomputed]
  rcases @stageEvent_moved _ uuidv7 _ _ device.bookmarks id parentId _ objectId _ _ _ node hobject hnode
    hparentObject hcomputed with ⟨after, hstaged, hnew⟩ | ⟨hrecorded, hstaged⟩
  · have htells := tells_movedOp (bookmarkObjectType node.value.url) objectId parentObject position
    have hflushed := @flushed_of_staged _ device.bookmarks uuidv7 keys ⟨_, id, parentId, _⟩ _ hstaged
    refine ⟨⟨objectId, position, findsPosition_of_staged htells hkey hposition hbetween hstaged ?_⟩,
      ?_, ?_⟩
    · rw [hnew]
      exact hmapping
    · rw [hflushed, hnew]
      exact hmoved.put htells (keys 0)
    · rw [hflushed]
      exact htells.sentKeys hsent hkey (keys 0)
  · have hflushed := @flushed_of_recorded device.bookmarks uuidv7 keys ⟨_, id, parentId, _⟩ _ hstaged
    obtain ⟨held, hheld⟩ := Option.isSome_iff_exists.mp hhasMove
    obtain ⟨item, hitem, hitemObject, hsame⟩ := hmoved.recorded objectId held hheld
    obtain ⟨found, hfound, hvalue, -⟩ := hmoved.recordedPosition hsent hmapping hhasMove
    have hheldPosition : positionIn held.value = some position := by
      rw [← hrecorded, FlushCaches.moveOf, hclean.overlay objectId hhasMove, Profile.fieldValue, hheld]
      rfl
    obtain rfl : found = position := by
      rw [Profile.fieldValue, hheld] at hvalue
      exact Option.some.inj (hvalue.symm.trans hheldPosition)
    refine ⟨⟨objectId, found, hposition, hbetween, ?_, ?_, item, ?_, hitemObject,
      hsame.trans hheldPosition⟩, ?_, ?_⟩
    · rw [hflushed]
      exact hmapping
    · rw [hflushed]
      exact hfound
    · rw [hflushed]
      simpa using hitem
    · rw [hflushed]
      simpa using hmoved
    · rw [hflushed]
      simpa using hsent

end Place

/-! ### Runs -/

namespace BookmarkAccount

variable {devices : Uuid → BookmarkDevice} {s : BookmarkAccount} {event : BookmarkAccountEvent}

/-- All devices are positioned throughout, with the positions that were sent. -/
structure IsPositioned (devices : Uuid → BookmarkDevice) (s : BookmarkAccount) : Prop where
  sentKeys : SentKeys s.sent
  profiles : ∀ device, AllPositioned (devices device) s.sent (s.profiles device)

theorem isPositioned_start (devices : Uuid → BookmarkDevice) : IsPositioned devices (start devices) :=
  ⟨fun _ h => absurd h List.not_mem_nil, fun device => allPositioned_start (devices device)⟩

theorem IsPositioned.update (h : IsPositioned devices s) {device : Uuid} {profile : Profile}
    {items : List RemoteItem} (hkeys : SentKeys (s.sent ++ items))
    (hprofile : AllPositioned (devices device) (s.sent ++ items) profile) :
    IsPositioned devices (s.update device profile items) := by
  refine ⟨hkeys, fun other => ?_⟩
  dsimp only [BookmarkAccount.update]
  rw [Function.update_apply]
  split_ifs with heq
  · exact heq ▸ hprofile
  · exact (h.profiles other).sent_append items

/-- A local change where there is room. -/
theorem IsPositioned.captured (h : IsPositioned devices s) {device : Uuid} {placement : LocalPlacement}
    {uuidv7 : ℕ → Uuid} {placed : Placed}
    (hplaced : (devices device).bookmarks.place (s.profiles device) uuidv7 placement = some placed)
    (hroom : placed.HasRoom) (stamps : ℕ → ℤ × Uuid) :
    Captured (devices device) s.sent uuidv7 (keysOf device stamps) placed := by
  cases placement with
  | create parentId index node =>
    exact (h.profiles device).captured_create h.sentKeys hplaced hroom
  | move id parentId index => exact (h.profiles device).captured_move h.sentKeys hplaced hroom

theorem mem_of_mem_received {device : Uuid} {indices : List ℕ} {item : RemoteItem}
    (h : item ∈ s.received device indices) : item ∈ s.sent := by
  obtain ⟨i, -, hitem⟩ := List.mem_filterMap.mp (List.mem_of_mem_filter h)
  exact List.mem_of_getElem? hitem

theorem IsPositioned.step (h : IsPositioned devices s) (hroom : HasRoom devices s event) :
    IsPositioned devices (step devices s event) := by
  cases event with
  | place device placement uuidv7 stamps =>
    rw [BookmarkAccount.step]
    cases hplaced : (devices device).bookmarks.place (s.profiles device) uuidv7 placement with
    | none => exact h
    | some placed =>
      obtain ⟨-, hprofile, hkeys⟩ := h.captured hplaced (hroom placed hplaced) stamps
      exact h.update hkeys hprofile
  | receive device indices =>
    have hsent : s.sent ++ [] = s.sent := List.append_nil _
    refine h.update (hsent.symm ▸ h.sentKeys) (hsent.symm ▸ ?_)
    exact (h.profiles device).applyRemoteBatch h.sentKeys fun _ => mem_of_mem_received
  | receiveOne device index =>
    have hsent : s.sent ++ [] = s.sent := List.append_nil _
    refine h.update (hsent.symm ▸ h.sentKeys) (hsent.symm ▸ ?_)
    have hall : ∀ item ∈ s.received device [index], item ∈ s.sent := fun _ => mem_of_mem_received
    have hrun : Steady (devices device) s.sent ∅ (.start (s.profiles device)) :=
      ⟨h.profiles device, fun _ _ hobject => absurd hobject (Set.notMem_empty _)⟩
    generalize s.received device [index] = items at hall ⊢
    generalize Run.start (s.profiles device) = run at hrun ⊢
    induction items generalizing run with
    | nil => exact hrun.positioned
    | cons item items ih =>
      exact ih (fun other hother => hall other (List.mem_cons_of_mem _ hother)) _
        (hrun.applyRemote h.sentKeys (hall item List.mem_cons_self))

theorem IsPositioned.findsPosition (h : IsPositioned devices s) (hroom : HasRoom devices s event) :
    FindsPosition devices s event := by
  cases event with
  | place device placement uuidv7 stamps =>
    exact fun placed hplaced => (h.captured hplaced (hroom placed hplaced) stamps).1
  | receive => trivial
  | receiveOne => trivial

/-- A key between two others needs room. -/
theorem hasRoom_of_findsPosition (h : FindsPosition devices s event) : HasRoom devices s event := by
  cases event with
  | place device placement uuidv7 stamps =>
    intro placed hplaced lo hlo hi hhi
    obtain ⟨_, _, hfinds⟩ := h placed hplaced
    exact (hfinds.between.1 lo hlo).trans (hfinds.between.2 hi hhi)
  | receive => trivial
  | receiveOne => trivial

theorem meets_hasRoom {events : List BookmarkAccountEvent}
    (h : Runs.Meets (BookmarkAccount.step devices) (FindsPosition devices) s events) :
    Runs.Meets (BookmarkAccount.step devices) (HasRoom devices) s events :=
  Runs.Meets.imp_of_invariant (I := fun _ => True) (fun _ _ _ _ => trivial)
    (fun _ _ _ => hasRoom_of_findsPosition) trivial h

/-- **When local inserts find their positions**: in every run of any number of devices that insert,
move and receive from each other in any order, all local inserts and moves find a position exactly if
each is made where the nearest positioned siblings are in order. -/
theorem findsPosition_iff_hasRoom (devices : Uuid → BookmarkDevice) (events : List BookmarkAccountEvent) :
    Runs.Meets (BookmarkAccount.step devices) (FindsPosition devices) (start devices) events ↔
      Runs.Meets (BookmarkAccount.step devices) (HasRoom devices) (start devices) events := by
  refine ⟨meets_hasRoom, fun h => ?_⟩
  exact Runs.Meets.imp_of_invariant (I := IsPositioned devices) (fun _ _ => IsPositioned.step)
    (fun _ _ => IsPositioned.findsPosition) (isPositioned_start devices) h

/-- A desktop browser, which hides an empty folder for mobile bookmarks. -/
def desktopDevice : BookmarkDevice where
  bookmarks :=
    { chromiumIdByObjectId := [(Fin.ofNat _ 0x70008000000000000000, 0),
        (Fin.ofNat _ 0x70008000000000000001, 1), (Fin.ofNat _ 0x70008000000000000002, 2),
        (Fin.ofNat _ 0x70008000000000000003, 4)]
      standInIds := [4]
      linkExistingBookmarks := false
      isSyncableUrl _ := true }
  browser :=
    { nodes := [⟨0, none, ⟨"", none⟩⟩, ⟨1, some 0, ⟨"Bookmarks bar", none⟩⟩,
        ⟨2, some 0, ⟨"Other bookmarks", none⟩⟩, ⟨4, some 2, ⟨"Mobile bookmarks", none⟩⟩]
      nextId := 5 }
  standIn_isRoot := by decide
  root_cases := by decide
  all_roots := by decide
  below_root := by decide
  root_lt := by decide
  node_lt := by decide
  distinct := by
    rw [Forest.Distinct]
    decide

/-- A bookmark. -/
def pageNamed (title : String) : BookmarkData := ⟨title, some "https://example.org"⟩

/-- Two devices put their first bookmarks into the bookmarks bar. One of them receives that of the
other, and puts a bookmark between the two. -/
def concurrentInserts : List BookmarkAccountEvent :=
  [.place 1 (.create 1 0 (pageNamed "a")) (fun _ => 101) fun _ => (1, 201),
    .place 2 (.create 1 0 (pageNamed "b")) (fun _ => 102) fun _ => (1, 202),
    .receive 1 [1],
    .place 1 (.create 1 1 (pageNamed "c")) (fun _ => 103) fun _ => (3, 203)]

/-- **Concurrent inserts have equal positions**, and nothing fits between them. -/
theorem not_findsPosition : ¬∀ (devices : Uuid → BookmarkDevice) (events : List BookmarkAccountEvent),
    Runs.Meets (BookmarkAccount.step devices) (FindsPosition devices) (start devices) events := by
  intro h
  have hroom := meets_hasRoom (h (fun _ => desktopDevice) concurrentInserts)
  exact absurd hroom (by decide +kernel)

end BookmarkAccount

end Client

end HelixSync
