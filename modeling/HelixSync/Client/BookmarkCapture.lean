import HelixSync.Client.Backfill
import HelixSync.Client.CachedMoves
import HelixSync.Client.Provenance

/-!
# Capturing bookmarks that are put somewhere

A bookmark or a folder that is created or moved in the browser becomes an operation with a position
(`extension/src/bookmarks/index.ts`). `flushBookmarkEvents` stages the events of a burst one after the
other: `computePosition` reads the children of the folder as they are when the flush runs, takes the
siblings on either side of the index that the event came with, and asks `keyBetween` for a key between
what is recorded of the two. Whatever throws costs the event and no other.

Of the caches of a flush those are left out that repeat what is stored, and the titles and URLs, which
only renames read. What a flush stages itself is kept (`HelixSync.Client.FlushCaches`): the mappings
minted so far and the `move` slots of the overlay. Removed and renamed nodes, the setting that turns
the capture off and the scheduling of the next sync are left out too.
-/

namespace HelixSync

namespace Client

/-! ### Documents -/

namespace BookmarkPayload

variable (payload : BookmarkPayload)

/-- `{ parent: payload.parent, position: payload.position }`. -/
def move : Json :=
  .object [("parent", nullable (payload.parent.map uuidText)), ("position", .string payload.position)]

/-- The document of a payload. -/
def toJson : Json :=
  .object [("title", .string payload.title), ("url", nullable payload.url),
    ("parent", nullable (payload.parent.map uuidText)), ("position", .string payload.position)]

end BookmarkPayload

/-! ### What a flush keeps -/

/-- `QueuedBookmarkEvent`, of a node that was created or moved. -/
inductive QueuedPlacement where
  | created (id : ChromiumId) (node : BookmarkData) (parentId : Option ChromiumId) (index : Option ℕ)
  | moved (id parentId : ChromiumId) (index : ℕ)

/-- `StagedBookmarkOp`. -/
structure StagedBookmarkOp where
  objectType : ObjectType
  objectId : Uuid
  operationType : OperationType
  payload : Json
  fields : List (Field × Option Json)

/-- What a flush has staged: the mappings it has minted, and the slots in its overlay. A slot may be
there as `undefined`. -/
structure FlushCaches where
  newMappings : List (ChromiumId × Uuid)
  overlay : Uuid → Option (Option Json)

/-- What makes the capture of an event fail. -/
inductive CaptureError where
  | noNode (id : ChromiumId)
  | noKey (error : KeyError)

namespace FlushCaches

variable (caches : FlushCaches) (profile : Profile)

/-- The caches at the beginning. -/
def empty : FlushCaches := ⟨[], fun _ => none⟩

/-- `cachedObjectId`. -/
def cachedObjectId (id : ChromiumId) : Option Uuid :=
  (caches.newMappings.lookup id).or (profile.mappingOf id)

/-- `overlayOrFieldState`, of a `move` slot. -/
def moveOf (objectId : Uuid) : Option Json :=
  (caches.overlay objectId).getD (profile.fieldValue objectId .move)

/-- `positionOf`. -/
def positionOf (objectId : Uuid) : Option String :=
  (caches.moveOf profile objectId).bind fun value => textField value "position"

/-- An id is minted. It has no field states yet. -/
def mint (id : ChromiumId) (objectId : Uuid) : FlushCaches where
  newMappings := caches.newMappings ++ [(id, objectId)]
  overlay := Function.update caches.overlay objectId ((caches.overlay objectId).or (some none))

/-- A `move` slot is staged. -/
def stage (objectId : Uuid) (move : Json) : FlushCaches :=
  { caches with overlay := Function.update caches.overlay objectId (some (some move)) }

end FlushCaches

/-! ### Positions -/

/-- `siblings[before]?.id`, when `before` has come down to one less than the number given. -/
def siblingBefore (standInIds siblings : List ChromiumId) : ℕ → Option ChromiumId
  | 0 => none
  | before + 1 =>
    match siblings[before]? with
    | some id => if id ∈ standInIds then siblingBefore standInIds siblings before else some id
    | none => none

/-- `siblings[after]?.id`. -/
def siblingAfter (standInIds siblings : List ChromiumId) (index : ℕ) : Option ChromiumId :=
  (siblings.drop (index + 1)).find? fun id => id ∉ standInIds

namespace BookmarksModule

variable (bookmarks : BookmarksModule) (uuidv7 : ℕ → Uuid) (profile : Profile)

/-- `objectIdByChromiumId.get`. -/
def objectIdByChromiumId (id : ChromiumId) : Option Uuid :=
  (bookmarks.chromiumIdByObjectId.find? fun entry => entry.2 = id).map Prod.fst

/-- `objectIdFor`. A built-in folder has no mapping, so it does not matter that a flush asks its cache
before it asks for the built-in folders when a node was created. -/
def objectIdFor (caches : FlushCaches) (id : ChromiumId) : Uuid × FlushCaches :=
  match (bookmarks.objectIdByChromiumId id).or (caches.cachedObjectId profile id) with
  | some objectId => (objectId, caches)
  | none =>
    let objectId := uuidv7 caches.newMappings.length
    (objectId, caches.mint id objectId)

/-- `objectIdFor`, of a node there may not be. -/
def objectIdForAny (caches : FlushCaches) : Option ChromiumId → Option Uuid × FlushCaches
  | some id =>
    let (objectId, caches) := bookmarks.objectIdFor uuidv7 profile caches id
    (some objectId, caches)
  | none => (none, caches)

/-- `computePosition`. -/
def computePosition (caches : FlushCaches) (parentId : ChromiumId) (index : ℕ) :
    Except CaptureError String × FlushCaches :=
  if profile.browser.has parentId then
    let siblings := profile.browser.childIds parentId
    let (before, caches) := bookmarks.objectIdForAny uuidv7 profile caches
      (siblingBefore bookmarks.standInIds siblings index)
    let (after, caches) := bookmarks.objectIdForAny uuidv7 profile caches
      (siblingAfter bookmarks.standInIds siblings index)
    ((keyBetween (before.bind (caches.positionOf profile))
      (after.bind (caches.positionOf profile))).mapError .noKey, caches)
  else (.error (.noNode parentId), caches)

/-! ### Staging -/

/-- `stageCreated`. -/
def stageCreated (caches : FlushCaches) (id : ChromiumId) (node : BookmarkData)
    (parentId : Option ChromiumId) (index : Option ℕ) :
    Except CaptureError StagedBookmarkOp × FlushCaches :=
  let (objectId, caches) := bookmarks.objectIdFor uuidv7 profile caches id
  let (parentObjectId, caches) := bookmarks.objectIdForAny uuidv7 profile caches parentId
  let (position, caches) := match parentId with
    | some parentId => bookmarks.computePosition uuidv7 profile caches parentId (index.getD 0)
    | none => ((keyBetween none none).mapError .noKey, caches)
  match position with
  | .error error => (.error error, caches)
  | .ok position =>
    let payload : BookmarkPayload := ⟨node.title, node.url, parentObjectId, position⟩
    (.ok
      { objectType := bookmarkObjectType node.url
        objectId := objectId
        operationType := .create
        payload := payload.toJson
        fields := [(.title, some (.string payload.title)), (.url, some (nullable payload.url)),
          (.move, some payload.move), (.liveness, some live)] },
      caches.stage objectId payload.move)

/-- `stageMoved`. A node without an object is not moved, and a move that is recorded already is not
staged. -/
def stageMoved (caches : FlushCaches) (id parentId : ChromiumId) (index : ℕ) :
    Except CaptureError (Option StagedBookmarkOp) × FlushCaches :=
  match caches.cachedObjectId profile id with
  | none => (.ok none, caches)
  | some objectId =>
    match profile.browser.nodes.node? id with
    | none => (.error (.noNode id), caches)
    | some node =>
      let (parentObjectId, caches) := bookmarks.objectIdFor uuidv7 profile caches parentId
      let (position, caches) := bookmarks.computePosition uuidv7 profile caches parentId index
      match position with
      | .error error => (.error error, caches)
      | .ok position =>
        let current := caches.moveOf profile objectId
        if (current.bind fun value => textField value "parent") = some (uuidText parentObjectId) ∧
            (current.bind fun value => textField value "position") = some position then
          (.ok none, caches)
        else
          let payload : Json := .object [("parent", .string (uuidText parentObjectId)),
            ("position", .string position)]
          (.ok (some
            { objectType := bookmarkObjectType node.value.url
              objectId := objectId
              operationType := .move
              payload := payload
              fields := [(.move, some payload)] }),
            caches.stage objectId payload)

/-- One event of a burst. -/
def stageEvent (caches : FlushCaches) :
    QueuedPlacement → Except CaptureError (Option StagedBookmarkOp) × FlushCaches
  | .created id node parentId index =>
    let (op, caches) := bookmarks.stageCreated uuidv7 profile caches id node parentId index
    (op.map some, caches)
  | .moved id parentId index => bookmarks.stageMoved uuidv7 profile caches id parentId index

/-- The events of a burst, one after the other. What throws is reported and passed over. -/
def stageEvents (caches : FlushCaches) : List QueuedPlacement → List StagedBookmarkOp × FlushCaches
  | [] => ([], caches)
  | event :: events =>
    let (op, caches) := bookmarks.stageEvent uuidv7 profile caches event
    let (staged, caches) := stageEvents caches events
    (op.toOption.join.toList ++ staged, caches)

end BookmarksModule

/-! ### The flush -/

namespace StagedBookmarkOp

variable (op : StagedBookmarkOp) (key : OrderingKey)

/-- The records that an operation puts, under its key. -/
def records : List BatchFieldResolution :=
  op.fields.map fun field => ⟨op.objectId, field.1, ⟨key, op.operationType, field.2⟩⟩

/-- The operation as the other devices get it. -/
def remote : RemoteItem :=
  (⟨key.operationId, key.deviceId, key.lamportTimestamp, op.objectType, op.objectId,
    op.operationType⟩, op.payload)

end StagedBookmarkOp

/-- `flushBookmarkEvents`, with the keys that `createLocalOperationsBatch` gives: the profile after it,
and the operations it queues. -/
def BookmarksModule.flushBookmarkEvents (bookmarks : BookmarksModule) (uuidv7 : ℕ → Uuid)
    (keys : ℕ → OrderingKey) (profile : Profile) (events : List QueuedPlacement) :
    Profile × List RemoteItem :=
  let (staged, caches) := bookmarks.stageEvents uuidv7 profile .empty events
  if staged.isEmpty then (profile, [])
  else
    let mapped := caches.newMappings.foldl (fun profile entry => profile.putMapping entry.1 entry.2)
      profile
    ({ mapped with
        fields := putFieldStatesBatch mapped.fields
          (staged.zipIdx.flatMap fun entry => entry.1.records (keys entry.2)) },
      staged.zipIdx.map fun entry => entry.1.remote (keys entry.2))

end Client

end HelixSync
