import HelixSync.Client.BookmarkTree
import HelixSync.Client.DownloadPage
import HelixSync.Lib.CodeUnits

/-!
# Applying remote bookmark operations

The applier of `extension/src/bookmarks/index.ts`: an operation that wins a slot changes the
browser. A create whose parent has no node yet is deferred, and so is a move whose destination
has none; both are retried when the parent gets its node
(`HelixSync.Client.BookmarksModule.retryDeferredParent`).

One operation at a time goes through `applyRemote`, a list of them through `applyRemoteBatch`,
which resolves the fields of a slice in one transaction before it touches the browser, and lets
moves, titles and URLs wait until something needs them done.

Left out are the conflict records, the restore point before a mass deletion, and the yields to
the event loop: nothing here reads what they write. Title and URL changes of one group run at the
same time in the source and one after the other here.
-/

namespace HelixSync

namespace Client

open CodeUnits

/-! ### Payloads -/

/-- A JSON string. -/
def textOf : Option Json → Option String
  | some (.string text) => some text
  | _ => none

/-- A string field of a document. -/
def textField (payload : Json) (name : String) : Option String := textOf (payload.get? name)

/-- A string that is not empty, as a condition takes it. -/
def truthy (text : Option String) : Option String := text.filter fun text => text ≠ ""

/-- The value of a hexadecimal digit. -/
def hexDigit? (digit : Char) : Option ℕ :=
  if '0' ≤ digit ∧ digit ≤ '9' then some (digit.toNat - 48)
  else if 'a' ≤ digit ∧ digit ≤ 'f' then some (digit.toNat - 87)
  else none

/-- The id a canonical text spells. Any other text is the id of no object. -/
def uuidOfText? (text : String) : Option Uuid :=
  let digits := text.toList.filter fun digit => digit ≠ '-'
  if digits.length = 32 then
    (digits.mapM hexDigit?).map fun digits =>
      Fin.ofNat (2 ^ 128) (digits.foldl (fun value digit => 16 * value + digit) 0)
  else none

/-- A hexadecimal digit. -/
def hexDigit (value : ℕ) : Char := "0123456789abcdef".toList.getD value '0'

/-- The last so many hexadecimal digits of a number. -/
def hexDigits (count value : ℕ) : List Char :=
  (List.range count).reverse.map fun place => hexDigit (value / 16 ^ place % 16)

/-- The canonical text of an id. -/
def uuidText (id : Uuid) : String :=
  let group (start count : ℕ) : List Char := ((hexDigits 32 id.val).drop start).take count
  String.ofList (['-'].intercalate [group 0 8, group 8 4, group 12 4, group 16 4, group 20 12])

/-- A text, or `null`. -/
def nullable (text : Option String) : Json := text.elim .null .string

/-- `BookmarkPayload`. -/
structure BookmarkPayload where
  title : String
  url : Option String
  parent : Option Uuid
  position : String

/-- A payload read as a `BookmarkPayload`. -/
def bookmarkPayload (payload : Json) : BookmarkPayload where
  title := (textField payload "title").getD ""
  url := textField payload "url"
  parent := (textField payload "parent").bind uuidOfText?
  position := (textField payload "position").getD ""

/-- `keyBetween(null, null)`: `START_KEY`. -/
def startKey : String := "V"

/-- The value of a `move` slot, or of nothing: its parent and its position. -/
def recordedMove (value : Option Json) : Option Uuid × Option String :=
  ((value.bind fun value => textField value "parent").bind uuidOfText?,
    value.bind fun value => textField value "position")

/-! ### The module -/

/-- The built-in folders as they were resolved, and whether remote bookmarks are linked to those
the browser has. -/
structure BookmarksModule where
  chromiumIdByObjectId : List (Uuid × ChromiumId)
  standInIds : List ChromiumId
  linkExistingBookmarks : Bool
  isSyncableUrl : String → Bool

/-- The ids looked up for a batch. -/
abbrev Prefetched := Uuid → Option ChromiumId

/-- `RemoteMove`. -/
structure RemoteMove where
  objectId : Uuid
  objectType : ObjectType
  parent : Uuid
  position : String

/-- A payload read as a `BookmarkMove`, if its parent is an id. -/
def remoteMove (op : OperationOut) (payload : Json) : Option RemoteMove :=
  (bookmarkPayload payload).parent.map fun parent =>
    ⟨op.objectId, op.objectType, parent, (bookmarkPayload payload).position⟩

/-- Siblings whose position is known. -/
abbrev Positioned := ChromiumId × String

/-- The siblings in the order of their positions, which is that of their code units
(`byPosition`). -/
def sortByPosition (siblings : List Positioned) : List Positioned :=
  siblings.insertionSort fun a b => codeUnits a.2 ≤ codeUnits b.2

/-- `moveIndex`. -/
def moveIndex (liveOrder : List ChromiumId) (moverId : ChromiumId) (beforeId : Option ChromiumId) : ℕ :=
  let others := liveOrder.filter fun id => id ≠ moverId
  let target := match beforeId with
    | some before => others.idxOf before
    | none => others.length
  if moverId ∈ liveOrder ∧ liveOrder.idxOf moverId ≤ target then target + 1 else target

/-- The loop of `sortedInsertIndex`, for at most so many rounds. -/
def insertIndexBetween (sorted : List Positioned) (position : String) : ℕ → ℕ → ℕ → ℕ
  | 0, lo, _ => lo
  | rounds + 1, lo, hi =>
    if lo < hi then
      let mid := (lo + hi) / 2
      match sorted[mid]? with
      | some other =>
        if codeUnits other.2 ≤ codeUnits position then
          insertIndexBetween sorted position rounds (mid + 1) hi
        else insertIndexBetween sorted position rounds lo mid
      | none => lo
    else lo

/-- `sortedInsertIndex`. -/
def sortedInsertIndex (sorted : List Positioned) (position : String) : ℕ :=
  insertIndexBetween sorted position sorted.length 0 sorted.length

namespace BookmarksModule

variable (bookmarks : BookmarksModule)

/-- `chromiumIdFor`. -/
def chromiumIdFor (profile : Profile) (objectId : Uuid) : Option ChromiumId :=
  (bookmarks.chromiumIdByObjectId.lookup objectId).or (profile.mappedIdOf objectId)

/-- `chromiumIdsFor`. -/
def chromiumIdsFor (profile : Profile) (objectIds : List Uuid) : Prefetched :=
  fun objectId => if objectId ∈ objectIds then bookmarks.chromiumIdFor profile objectId else none

/-- `mappedNodeExists`. -/
def mappedNodeExists (profile : Profile) (objectId : Uuid) (id : ChromiumId) : Bool :=
  (bookmarks.chromiumIdByObjectId.lookup objectId).isSome || profile.browser.has id

/-- `findUnlinkedMatch`. -/
def findUnlinkedMatch (profile : Profile) (parentId : ChromiumId) (p : BookmarkPayload) :
    Option ChromiumId :=
  ((profile.browser.nodes.children parentId).find? fun node =>
    node.id ∉ bookmarks.standInIds && node.value == ⟨p.title, p.url⟩ &&
      (profile.mappingOf node.id).isNone).map Forest.Node.id

/-! ### Moves -/

/-- The position a profile knows of a sibling. -/
def positionOf (profile : Profile) (objectId : Uuid) : Option String :=
  truthy (recordedMove (profile.fieldValue objectId .move)).2

/-- `applyMove`. -/
def applyMove (run : Run) (move : RemoteMove) : Run :=
  match bookmarks.chromiumIdFor run.profile move.objectId with
  | none => run
  | some chromiumId =>
    match bookmarks.chromiumIdFor run.profile move.parent with
    | none => run.effect fun profile =>
        profile.putDeferred ⟨move.objectId, move.objectType, move.parent⟩
    | some parentId =>
      let run := run.effect fun profile => profile.deleteDeferred [move.objectId]
      let siblings := run.profile.browser.childIds parentId
      let withPositions := siblings.filterMap fun id =>
        if id = chromiumId then none
        else ((run.profile.mappingOf id).bind (positionOf run.profile)).map (Prod.mk id)
      let before := (sortByPosition withPositions).find? fun sibling =>
        codeUnits move.position < codeUnits sibling.2
      let index := moveIndex siblings chromiumId (before.map Prod.fst)
      run.call fun browser => browser.move chromiumId parentId index

/-- `CachedParentOrder`. -/
structure CachedParentOrder where
  liveOrder : List ChromiumId
  sorted : List Positioned

/-- A cached order without a node. -/
def CachedParentOrder.without (order : CachedParentOrder) (id : ChromiumId) : CachedParentOrder where
  liveOrder := order.liveOrder.filter fun other => other ≠ id
  sorted := order.sorted.filter fun other => other.1 ≠ id

/-- A cached order with a node put in, before another one or at the end. -/
def CachedParentOrder.with (order : CachedParentOrder) (id : ChromiumId) (position : String)
    (index : ℕ) (before : Option ChromiumId) : CachedParentOrder where
  liveOrder := order.liveOrder.insertIdx
    ((before.bind fun before => order.liveOrder.idxOf? before).getD order.liveOrder.length) id
  sorted := order.sorted.insertIdx index (id, position)

/-- `getParentOrder`, of a parent that is not cached. The positions of the run itself come before
the stored ones. -/
def loadParentOrder (profile : Profile) (incoming : Uuid → Option String) (parentId : ChromiumId) :
    CachedParentOrder where
  liveOrder := profile.browser.childIds parentId
  sorted := sortByPosition <| (profile.browser.childIds parentId).filterMap fun id =>
    ((profile.mappingOf id).bind fun objectId =>
      truthy ((incoming objectId).or (positionOf profile objectId))).map (Prod.mk id)

/-- The orders cached so far. -/
abbrev ParentOrders := List (ChromiumId × CachedParentOrder)

/-- One move of `applyMovesBatch`. -/
def applyMoveCached (chromiumIds : Prefetched) (incoming : Uuid → Option String)
    (state : Run × ParentOrders) (move : RemoteMove) : Run × ParentOrders :=
  let (run, cache) := state
  match chromiumIds move.objectId with
  | none => (run, cache)
  | some chromiumId =>
    match chromiumIds move.parent with
    | none => (run.effect fun profile =>
        profile.putDeferred ⟨move.objectId, move.objectType, move.parent⟩, cache)
    | some parentId =>
      let run := run.effect fun profile => profile.deleteDeferred [move.objectId]
      let order := (cache.lookup parentId).getD (loadParentOrder run.profile incoming parentId)
      let sorted := order.sorted.filter fun other => other.1 ≠ chromiumId
      let index := sortedInsertIndex sorted move.position
      let before := sorted[index]?.map Prod.fst
      let liveIndex := moveIndex order.liveOrder chromiumId before
      let run := run.call fun browser => browser.move chromiumId parentId liveIndex
      let others := (cache.filter fun entry => entry.1 ≠ parentId).map fun entry =>
        (entry.1, entry.2.without chromiumId)
      (run, (parentId, (order.without chromiumId).with chromiumId move.position index before) :: others)

/-- `applyMovesBatch`. -/
def applyMovesBatch (run : Run) (moves : List RemoteMove) : Run :=
  if moves.isEmpty then run
  else
    let chromiumIds := bookmarks.chromiumIdsFor run.profile
      (moves.flatMap fun move => [move.objectId, move.parent])
    let incoming : Uuid → Option String := fun objectId =>
      ((moves.filter fun move => move.objectId = objectId).getLast?).map RemoteMove.position
    (moves.foldl (applyMoveCached chromiumIds incoming) (run, [])).1

/-! ### Creates -/

/-- The end of `materialize`, when a node has been found or made. -/
def linkNode (run : Run) (id : ChromiumId) (objectId : Uuid) : Run :=
  (run.effect fun profile => profile.putMapping id objectId).effect fun profile =>
    profile.deleteDeferred [objectId]

/-- `materialize`, for an object that has no node. Its children may be waiting. -/
def materializeNew (retry : Run → Uuid → Run) (run : Run) (objectId : Uuid) (objectType : ObjectType)
    (p : BookmarkPayload) (chromiumIds : Prefetched) (prefetched : Option Prefetched) :
    Run × Option Prefetched :=
  let linked (id : ChromiumId) : Option Prefetched :=
    prefetched.map fun ids => Function.update ids objectId (some id)
  match p.parent.bind chromiumIds with
  | none =>
    match p.parent with
    | some parent => (run.effect fun profile =>
        profile.putDeferred ⟨objectId, objectType, parent⟩, prefetched)
    | none => (run, prefetched)
  | some parentId =>
    if (truthy p.url).any fun url => !bookmarks.isSyncableUrl url then (run, prefetched)
    else
      let matching := if bookmarks.linkExistingBookmarks then
          bookmarks.findUnlinkedMatch run.profile parentId p
        else none
      match matching, p.parent with
      | some id, some parent =>
        let run := linkNode run id objectId
        let run := bookmarks.applyMove run ⟨objectId, objectType, parent, p.position⟩
        (retry run objectId, linked id)
      | _, _ =>
        let id := run.profile.browser.nextId
        let run := run.call fun browser => browser.create parentId ⟨p.title, p.url⟩
        (retry (linkNode run id objectId) objectId, linked id)

/-- `materialize`, with what retries the objects that wait for this one. A mapping whose node is
gone is forgotten. -/
def materialize (retry : Run → Uuid → Run) (run : Run) (objectId : Uuid) (objectType : ObjectType)
    (p : BookmarkPayload) (prefetched : Option Prefetched) : Run × Option Prefetched :=
  let looked := bookmarks.chromiumIdsFor run.profile (objectId :: p.parent.toList)
  let chromiumIds := match prefetched with
    | some ids =>
      if (ids objectId).isSome && p.parent.all fun parent => (ids parent).isSome then ids else looked
    | none => looked
  match chromiumIds objectId with
  | none => bookmarks.materializeNew retry run objectId objectType p chromiumIds prefetched
  | some chromiumId =>
    if bookmarks.mappedNodeExists run.profile objectId chromiumId then
      (run.effect fun profile => profile.deleteDeferred [objectId], prefetched)
    else
      bookmarks.materializeNew retry (run.effect fun profile => profile.deleteMappings [chromiumId])
        objectId objectType p (Function.update chromiumIds objectId none)
        (prefetched.map fun ids => Function.update ids objectId none)

/-- The move an object waits with. -/
def waitingMove (profile : Profile) (record : DeferredMaterialization) : Option Uuid × Option String :=
  recordedMove (profile.fieldValue record.objectId .move)

/-- One record of `retryDeferredParent`. What is read is what was stored before the first. -/
def retryRecord (retry : Run → Uuid → Run) (stored : Profile) (run : Run)
    (record : DeferredMaterialization) : Run :=
  if textOf (stored.fieldValue record.objectId .liveness) ≠ some "live" then run
  else
    let (parent, position) := waitingMove stored record
    if (bookmarks.chromiumIdFor stored record.objectId).isSome then
      match parent with
      | some parent => bookmarks.applyMove run
          ⟨record.objectId, record.objectType, parent, position.getD startKey⟩
      | none => run
    else
      (bookmarks.materialize retry run record.objectId record.objectType
        { title := (textOf (stored.fieldValue record.objectId .title)).getD ""
          url := textOf (stored.fieldValue record.objectId .url)
          parent := parent
          position := position.getD startKey } none).1

/-- The records in the order of their positions. -/
def inPositionOrder (profile : Profile) (records : List DeferredMaterialization) :
    List DeferredMaterialization :=
  records.insertionSort fun a b =>
    codeUnits ((waitingMove profile a).2.getD "") ≤ codeUnits ((waitingMove profile b).2.getD "")

/-- `retryDeferredParent`, at most so many objects deep. -/
def retryDeferredParent : ℕ → Run → Uuid → Run
  | 0, run, _ => run
  | depth + 1, run, parentObjectId =>
    let deferred := run.profile.waitingOn parentObjectId
    if deferred.isEmpty then run
    else
      let cleared := run.effect fun profile =>
        profile.deleteDeferred (deferred.map DeferredMaterialization.objectId)
      (inPositionOrder run.profile deferred).foldl
        (bookmarks.retryRecord (retryDeferredParent depth) run.profile) cleared

/-- `retryDeferredParent`: every object on the way down is one that was deferred. -/
def retryAll (run : Run) (parentObjectId : Uuid) : Run :=
  bookmarks.retryDeferredParent run.profile.deferred.length run parentObjectId

/-! ### Titles, URLs and deletes -/

/-- A change of a title or a URL that waits. -/
inductive TitleUrl where
  | title (objectId : Uuid) (title : String)
  | url (objectId : Uuid) (url : String)

/-- The node of an object, as looked up for the batch or else as stored. -/
def nodeOf (run : Run) (prefetched : Option Prefetched) (objectId : Uuid) : Option ChromiumId :=
  (prefetched.bind fun ids => ids objectId).or (bookmarks.chromiumIdFor run.profile objectId)

/-- `applyTitle` and `applyUrl`. -/
def applyTitleUrl (prefetched : Option Prefetched) (run : Run) : TitleUrl → Run
  | .title objectId title =>
    match bookmarks.nodeOf run prefetched objectId with
    | some id => run.call fun browser => browser.updateTitle id title
    | none => run
  | .url objectId url =>
    if bookmarks.isSyncableUrl url then
      match bookmarks.nodeOf run prefetched objectId with
      | some id => run.call fun browser => browser.updateUrl id url
      | none => run
    else run

/-- `applyDelete`. The mappings of what is below the node go with its own. -/
def applyDelete (run : Run) (objectId : Uuid) (prefetched : Option Prefetched) :
    Run × Option Prefetched :=
  let run := run.effect fun profile => profile.deleteDeferred [objectId]
  match bookmarks.nodeOf run prefetched objectId with
  | none => (run, prefetched)
  | some chromiumId =>
    let descendants := run.profile.browser.nodes.below chromiumId
    let run := run.attempt fun browser => browser.removeTree chromiumId
    let run := run.effect fun profile => profile.deleteMappings [chromiumId]
    let prefetched := prefetched.map fun ids => Function.update ids objectId none
    if descendants.isEmpty then (run, prefetched)
    else
      let forgotten := descendants.filterMap run.profile.mappingOf
      (run.effect fun profile => profile.deleteMappings descendants,
        prefetched.map fun ids objectId => if objectId ∈ forgotten then none else ids objectId)

/-! ### Resolving -/

/-- An operation with the results of its slots, at the positions `remoteFieldResolutions` defines. -/
structure ResolvedOp where
  item : RemoteItem
  kind : RemoteOpKind
  res : List (Option ResolveResult)

/-- `res[i]!.applied`. -/
def ResolvedOp.applied (resolved : ResolvedOp) (i : ℕ) : Bool :=
  (resolved.res[i]?.join).any ResolveResult.applied

/-- The results of one operation, and those of the operations after it. -/
def takeResults : List (Option FieldResolution) → List ResolveResult →
    List (Option ResolveResult) × List ResolveResult
  | [], results => ([], results)
  | none :: fields, results =>
    let (taken, others) := takeResults fields results
    (none :: taken, others)
  | some _ :: fields, results =>
    let (taken, others) := takeResults fields results.tail
    (results.head? :: taken, others)

/-- The operations of a slice with their results. -/
def planSlice : List RemoteItem → List ResolveResult → List ResolvedOp
  | [], _ => []
  | item :: items, results =>
    let (kind, fields) := remoteFieldResolutions item.1 item.2
    let (res, others) := takeResults fields results
    ⟨item, kind, res⟩ :: planSlice items others

/-- `resolveRemoteSlice`, and `resolveFields` for a slice of one. -/
def resolveSlice (run : Run) (slice : List RemoteItem) : Run × List ResolvedOp :=
  let (results, fields) := resolveFieldsBatch run.profile.fields (sliceEntries slice)
  (run.effect fun profile => { profile with fields := fields }, planSlice slice results)

/-! ### One operation -/

/-- What `applyRemote` does with an operation that has been resolved. -/
def applyResolved (run : Run) (resolved : ResolvedOp) : Run :=
  let (op, payload) := resolved.item
  match resolved.kind with
  | .create =>
    if resolved.applied 0 then
      let p := bookmarkPayload payload
      let run := (bookmarks.materialize bookmarks.retryAll run op.objectId op.objectType p none).1
      match op.operationType, remoteMove op payload with
      | .restore, some move => bookmarks.applyMove run move
      | _, _ => run
    else run
  | .update =>
    let run := match payload.get? "title" with
      | some title =>
        if resolved.applied 1 then
          bookmarks.applyTitleUrl none run (.title op.objectId ((textOf (some title)).getD ""))
        else run
      | none => run
    match textField payload "url" with
    | some url =>
      if resolved.applied 2 then bookmarks.applyTitleUrl none run (.url op.objectId url) else run
    | none => run
  | .move =>
    if resolved.applied 0 ∧ textOf ((resolved.res[1]?.join).bind ResolveResult.value) = some "live" then
      match remoteMove op payload with
      | some move => bookmarks.applyMove run move
      | none => run
    else run
  | .delete => if resolved.applied 0 then (bookmarks.applyDelete run op.objectId none).1 else run
  | .unknown => run

/-- `applyRemote`. -/
def applyRemote (run : Run) (item : RemoteItem) : Run :=
  let (run, resolved) := resolveSlice run [item]
  resolved.foldl bookmarks.applyResolved run

/-! ### A batch -/

/-- Where a batch stands. -/
structure Batch where
  run : Run
  prefetched : Prefetched
  pendingMoves : List RemoteMove
  restorePlacements : List RemoteMove
  pendingTitleUrl : List TitleUrl

/-- `flushMoves`. -/
def flushMoves (batch : Batch) : Batch :=
  { batch with run := bookmarks.applyMovesBatch batch.run batch.pendingMoves, pendingMoves := [] }

/-- `flushTitleUrl`. -/
def flushTitleUrl (batch : Batch) : Batch :=
  { batch with
    run := batch.pendingTitleUrl.foldl (bookmarks.applyTitleUrl (some batch.prefetched)) batch.run
    pendingTitleUrl := [] }

/-- `REMOTE_TITLE_URL_CONCURRENCY`. -/
def remoteTitleUrlConcurrency : ℕ := 10

/-- `REMOTE_RESOLVE_SLICE`. -/
def remoteResolveSlice : ℕ := 50

/-- The title and URL changes an update has won. -/
def wonTitleUrl (resolved : ResolvedOp) : List TitleUrl :=
  let (op, payload) := resolved.item
  (match payload.get? "title" with
    | some title =>
      if resolved.applied 1 then [.title op.objectId ((textOf (some title)).getD "")] else []
    | none => []) ++
  match textField payload "url" with
  | some url => if resolved.applied 2 then [.url op.objectId url] else []
  | none => []

/-- One operation of a batch. -/
def batchStep (batch : Batch) (resolved : ResolvedOp) : Batch :=
  let (op, payload) := resolved.item
  match resolved.kind with
  | .create =>
    let batch := bookmarks.flushTitleUrl (bookmarks.flushMoves batch)
    if resolved.applied 0 then
      let (run, prefetched) := bookmarks.materialize bookmarks.retryAll batch.run op.objectId
        op.objectType (bookmarkPayload payload) (some batch.prefetched)
      { batch with
        run := run
        prefetched := prefetched.getD batch.prefetched
        restorePlacements := batch.restorePlacements ++
          if op.operationType = .restore then (remoteMove op payload).toList else [] }
    else batch
  | .update =>
    let batch := { batch with pendingTitleUrl := batch.pendingTitleUrl ++ wonTitleUrl resolved }
    if 2 * remoteTitleUrlConcurrency ≤ batch.pendingTitleUrl.length then bookmarks.flushTitleUrl batch
    else batch
  | .move =>
    if resolved.applied 0 ∧ textOf ((resolved.res[1]?.join).bind ResolveResult.value) = some "live" then
      { batch with pendingMoves := batch.pendingMoves ++ (remoteMove op payload).toList }
    else batch
  | .delete =>
    let batch := bookmarks.flushTitleUrl (bookmarks.flushMoves batch)
    if resolved.applied 0 then
      let (run, prefetched) := bookmarks.applyDelete batch.run op.objectId (some batch.prefetched)
      { batch with run := run, prefetched := prefetched.getD batch.prefetched }
    else batch
  | .unknown => bookmarks.flushTitleUrl (bookmarks.flushMoves batch)

/-- One slice of a batch. -/
def batchSlice (batch : Batch) (slice : List RemoteItem) : Batch :=
  let (run, resolved) := resolveSlice batch.run slice
  bookmarks.flushTitleUrl (resolved.foldl bookmarks.batchStep { batch with run := run })

/-- The objects a batch is about: their own ids and those of the parents they name. -/
def involved (items : List RemoteItem) : List Uuid :=
  items.flatMap fun item => item.1.objectId ::
    match item.1.operationType with
    | .create | .restore | .move => (bookmarkPayload item.2).parent.toList
    | _ => []

/-- `applyRemoteBatch`. -/
def applyRemoteBatch (run : Run) (items : List RemoteItem) : Run :=
  let start : Batch := ⟨run, bookmarks.chromiumIdsFor run.profile (involved items), [], [], []⟩
  let batch := (chunks remoteResolveSlice items).foldl bookmarks.batchSlice start
  let batch := bookmarks.flushMoves (bookmarks.flushTitleUrl batch)
  bookmarks.applyMovesBatch batch.run batch.restorePlacements

end BookmarksModule

end Client

end HelixSync
