import HelixSync.Lib.Threads
import HelixSync.Client.DownloadPage
import HelixSync.Client.RemoteApply
import HelixSync.Client.RemoteTabs

/-!
# The threads that read and write object mappings

A row of `object_mappings` says which object an id of the browser stands for. Capture writes a row
when it meets an id without one (`extension/src/sync/mapping.ts`, `extension/src/tabs/index.ts`,
`extension/src/bookmarks/index.ts`), and the appliers of the last two write one when they have made a
tab, a tab group or a bookmark for an object of another device. Each looks a mapping up, does
something in the browser and writes only then, in transactions of their own, and all of them run
concurrently. Here they are threads (`Thread`), one call of the database or of the browser after the
other.

The state also has what the rows alone do not say: which object an id was ever given while it was there
(`HelixSync.Client.Given`), which tabs were opened for which object (`HelixSync.Client.OpenedTab`),
and the moments at which rows were written. A thread keeps the moment of the lookup that a write of
its own goes back to.

Of the threads only that is modelled which is about mappings. Left out are the operations that capture
queues and the values it compares them with, the moves, titles and URLs that the appliers set, the
store of what waits for a parent (which objects are retried is up to the event), the conflicts they
record, and the first import of all bookmarks. What else records values of fields or deletes mappings
is an event of the outside.
-/

namespace HelixSync

namespace Client

/-! ### The state -/

/-- `mappingKey`: the type and the id of a tab, a window, a tab group or a bookmark of the browser. -/
abbrev MappingKey := ObjectType × ChromiumId

/-- `ObjectMappingRecord`, with the moment it was written. -/
structure MappingRow where
  key : MappingKey
  objectId : Uuid
  writtenAt : ℕ
  deriving DecidableEq

/-- An id was given an object at a moment while it was there. It is linked as long as no row of it has
been deleted since. -/
structure Given where
  key : MappingKey
  objectId : Uuid
  moment : ℕ
  linked : Bool
  deriving DecidableEq

/-- A tab that is there and was opened for an object. -/
structure OpenedTab where
  chromiumId : ChromiumId
  objectId : Uuid
  deriving DecidableEq

/-- A row to be written, with the moment of the lookup that it goes back to. -/
structure Link where
  key : MappingKey
  objectId : Uuid
  lookedAt : ℕ
  deriving DecidableEq

/-- The tables, the browser and the variables of the worker. -/
structure MappingState where
  rows : List MappingRow
  fields : FieldStore
  /-- The ids that the browser has ever had, and those that it has. -/
  issued : List MappingKey
  live : List MappingKey
  /-- The values of `uuidv7` so far. -/
  drawn : List Uuid
  materializingTabIds : List ChromiumId
  /-- The keys that `groupSyncLock` is held for. -/
  groupSyncLock : List Uuid
  moment : ℕ
  given : List Given
  opened : List OpenedTab

namespace MappingState

variable (s : MappingState)

/-- `get` by the key of a row. -/
def rowOf (key : MappingKey) : Option MappingRow := s.rows.find? fun row => row.key = key

/-- The first row of a list in the order of the keys. -/
def firstByKey : List MappingRow → Option MappingRow
  | [] => none
  | row :: rows =>
    match firstByKey rows with
    | some first => some (if toString row.key.2 ≤ toString first.key.2 then row else first)
    | none => some row

/-- The rows of a type with an object. -/
def rowsFor (objectType : ObjectType) (objectId : Uuid) : List MappingRow :=
  s.rows.filter fun row => row.key.1 = objectType ∧ row.objectId = objectId

/-- `get` by the index `by-object-id`: the first row in the order of the keys, which start with the
type. -/
def rowByObject (objectId : Uuid) : Option MappingRow :=
  [ObjectType.bookmark, .tab, .tabGroup, .window].findSome? fun objectType =>
    firstByKey (s.rowsFor objectType objectId)

/-- A row is written. -/
def putRow (rows : List MappingRow) (row : MappingRow) : List MappingRow :=
  row :: rows.filter fun other => other.key ≠ row.key

/-- The row of a link. -/
def linkRow (link : Link) : MappingRow := ⟨link.key, link.objectId, s.moment⟩

/-- `putMappingsBatch`, and `putMapping` for a batch of one. An id that is there is given its
object. -/
def putMappings (links : List Link) : MappingState :=
  { s with
    rows := (links.map s.linkRow).foldl putRow s.rows
    given := ((links.filter fun link => link.key ∈ s.live).map fun link =>
      ⟨link.key, link.objectId, s.moment, true⟩) ++ s.given
    moment := s.moment + 1 }

/-- `deleteMappingsBatch`, and `deleteMappingByLocalId` for a batch of one. -/
def deleteMappings (keys : List MappingKey) : MappingState :=
  { s with
    rows := s.rows.filter fun row => row.key ∉ keys
    given := s.given.map fun g => if g.key ∈ keys then { g with linked := false } else g }

/-- The browser has a new id. -/
def issue (key : MappingKey) : MappingState :=
  { s with issued := key :: s.issued, live := key :: s.live }

/-- Ids of the browser are gone. -/
def drop (keys : List MappingKey) : MappingState :=
  { s with
    live := s.live.filter fun key => key ∉ keys
    given := s.given.filter fun g => g.key ∉ keys
    opened := s.opened.filter fun tab => (.tab, tab.chromiumId) ∉ keys }

end MappingState

/-! ### Calls -/

/-- `RestorePolicy`. -/
inductive RestorePolicy where
  | disabled
  | ask
  | automatic
  deriving DecidableEq

/-- What a thread asks of the database, of the browser, or of a variable of the worker. -/
inductive MappingCall where
  /-- `getMappingsByLocalIds`, and `getMappingByLocalId` for one id. -/
  | getMappingsByLocalIds (objectType : ObjectType) (ids : List ChromiumId)
  /-- `getMappingsByObjectIds`, and `getMappingByObjectId` for one object. -/
  | getMappingsByObjectIds (objectIds : List Uuid)
  | putMappings (links : List Link)
  | deleteMappings (objectType : ObjectType) (ids : List ChromiumId)
  | uuidv7
  | getFieldStates
  | resolveTabs (items : List RemoteItem)
  | resolveRemoteSlice (slice : List RemoteItem)
  | fetchTabRestorePolicy
  /-- A setting, or whether something is supported or as it was recorded. -/
  | flag
  /-- `chrome.tabs.create`, for an object that was looked up at a moment. -/
  | tabsCreate (objectId : Uuid) (lookedAt : ℕ)
  | tabsUpdate (id : ChromiumId)
  | tabsGroup (existingGroupId : Option ChromiumId)
  | bookmarksCreate (parentId : ChromiumId)
  | bookmarksGet (id : ChromiumId)
  /-- `chrome.bookmarks.getChildren` or `getSubTree`, less the node itself. It may throw. -/
  | bookmarkIds
  | bookmarksRemoveTree (ids : List ChromiumId)
  | getDeferredMaterializationsWaitingOn (objectId : Uuid)
  | setMaterializing (id : ChromiumId) (opening : Bool)
  | isMaterializing (id : ChromiumId)
  | lockGroup (objectId : Uuid)
  | unlockGroup (objectId : Uuid)
  /-- What is thrown ends the thread. -/
  | throws

/-- What a call returns. A lookup is returned with its moment. -/
abbrev MappingCall.Result : MappingCall → Type
  | .getMappingsByLocalIds _ _ => (ChromiumId → Option Uuid) × ℕ
  | .getMappingsByObjectIds _ => (Uuid → Option MappingKey) × ℕ
  | .uuidv7 => Uuid
  | .getFieldStates => SlotKey → Option Json
  | .resolveTabs _ => List (List ResolveResult)
  | .resolveRemoteSlice _ => List BookmarksModule.ResolvedOp
  | .fetchTabRestorePolicy => RestorePolicy
  | .flag | .isMaterializing _ | .tabsUpdate _ | .bookmarksGet _ => Bool
  | .tabsCreate _ _ | .tabsGroup _ | .bookmarksCreate _ => Option ChromiumId
  | .bookmarkIds => Option (List ChromiumId)
  | .getDeferredMaterializationsWaitingOn _ => List Uuid
  | .putMappings _ | .deleteMappings _ _ | .bookmarksRemoveTree _ | .setMaterializing _ _
  | .lockGroup _ | .unlockGroup _ => Unit
  | .throws => Empty

/-- What the outside contributes to a call. -/
inductive MappingAnswer where
  | nothing
  | flag (value : Bool)
  | policy (policy : RestorePolicy)
  | uuid (value : Uuid)
  | id (id : ChromiumId)
  | ids (ids : List ChromiumId)
  | objects (objectIds : List Uuid)

namespace MappingState

variable (s : MappingState)

/-- The browser makes a thing with an id that it has never had, or fails. -/
def make (objectType : ObjectType) : MappingAnswer → Option (Option ChromiumId × MappingState)
  | .id id => if (objectType, id) ∈ s.issued then none else some (some id, s.issue (objectType, id))
  | .nothing => some (none, s)
  | _ => none

/-- **A call is executed.** A call that is not answered waits. -/
def exec : (call : MappingCall) → MappingAnswer → MappingState → Option (call.Result × MappingState)
  | .getMappingsByLocalIds objectType ids, _, s =>
    some ((fun id => if id ∈ ids then (s.rowOf (objectType, id)).map MappingRow.objectId else none,
      s.moment), s)
  | .getMappingsByObjectIds objectIds, _, s =>
    some ((fun objectId => if objectId ∈ objectIds then (s.rowByObject objectId).map MappingRow.key
      else none, s.moment), s)
  | .putMappings links, _, s => some ((), s.putMappings links)
  | .deleteMappings objectType ids, _, s =>
    some ((), s.deleteMappings (ids.map fun id => (objectType, id)))
  | .uuidv7, .uuid value, s =>
    if value ∈ s.drawn ∨ value ∈ s.rows.map MappingRow.objectId then none
    else some (value, { s with drawn := value :: s.drawn })
  | .uuidv7, _, _ => none
  | .getFieldStates, _, s => some (fun slot => (s.fields slot).bind IncomingField.value, s)
  | .resolveTabs items, _, s =>
    let (results, fields) := resolveItems s.fields items fun item => tabFields item.1 item.2
    some (results, { s with fields := fields })
  | .resolveRemoteSlice slice, _, s =>
    let (results, fields) := resolveFieldsBatch s.fields (sliceEntries slice)
    some (BookmarksModule.planSlice slice results, { s with fields := fields })
  | .fetchTabRestorePolicy, .policy policy, s => some (policy, s)
  | .fetchTabRestorePolicy, _, _ => none
  | .flag, .flag value, s => some (value, s)
  | .flag, _, _ => none
  | .tabsCreate objectId _, answer, s =>
    (s.make .tab answer).map fun (id, s) =>
      (id, { s with opened := (id.map fun id => ⟨id, objectId⟩).toList ++ s.opened })
  | .tabsUpdate id, _, s => some (decide ((ObjectType.tab, id) ∈ s.live), s)
  | .tabsGroup (some id), _, s =>
    some (if (ObjectType.tabGroup, id) ∈ s.live then some id else none, s)
  | .tabsGroup none, answer, s => s.make .tabGroup answer
  | .bookmarksCreate _, answer, s => s.make .bookmark answer
  | .bookmarksGet id, _, s => some (decide ((ObjectType.bookmark, id) ∈ s.live), s)
  | .bookmarkIds, .ids ids, s =>
    if ∀ id ∈ ids, (ObjectType.bookmark, id) ∈ s.issued then some (some ids, s) else none
  | .bookmarkIds, _, s => some (none, s)
  | .bookmarksRemoveTree ids, _, s => some ((), s.drop (ids.map fun id => (.bookmark, id)))
  | .getDeferredMaterializationsWaitingOn _, .objects objectIds, s => some (objectIds, s)
  | .getDeferredMaterializationsWaitingOn _, _, _ => none
  | .setMaterializing id opening, _, s =>
    some ((), { s with materializingTabIds :=
      if opening then id :: s.materializingTabIds else s.materializingTabIds.filter (· ≠ id) })
  | .isMaterializing id, _, s => some (decide (id ∈ s.materializingTabIds), s)
  | .lockGroup objectId, _, s =>
    if objectId ∈ s.groupSyncLock then none
    else some ((), { s with groupSyncLock := objectId :: s.groupSyncLock })
  | .unlockGroup objectId, _, s =>
    some ((), { s with groupSyncLock := s.groupSyncLock.filter (· ≠ objectId) })
  | .throws, _, _ => none

end MappingState

/-! ### Bodies -/

/-- What the mappings need of a `TabPayload`. -/
structure TabPayload where
  url : String
  groupObjectId : Option Uuid
  deriving DecidableEq

/-- A stored value read as a `TabPayload`, if it is one. -/
def tabPayloadOf : Option Json → Option TabPayload
  | some (.object fields) =>
    let payload := Json.object fields
    some ⟨(textField payload "url").getD "", (textField payload "groupObjectId").bind uuidOfText?⟩
  | _ => none

/-- What the mappings need of a `chrome.tabs.Tab`: the group is that of a tab that has one. -/
structure BrowserTab where
  id : Option ChromiumId
  windowId : Option ChromiumId
  groupId : Option ChromiumId
  hasUrl : Bool
  deriving DecidableEq

/-- `QueuedTabEvent`. -/
inductive QueuedTabEvent where
  | tabCreated (tab : BrowserTab)
  | tabUpdated (tabId : ChromiumId) (tab : BrowserTab)
  | tabActivated (tabId : ChromiumId)
  | tabRemoved (tabId : ChromiumId)
  | groupUpdated (groupId : ChromiumId)
  | groupRemoved (groupId : ChromiumId)
  | windowCreated (windowId : Option ChromiumId)
  | windowRemoved (windowId : ChromiumId)
  deriving DecidableEq

/-- `QueuedBookmarkEvent`. A removed node comes with what was under it. -/
inductive QueuedBookmarkEvent where
  | created (id : ChromiumId) (parentId : Option ChromiumId) (index : ℕ)
  | removed (id : ChromiumId) (descendants : List ChromiumId)
  | changed (id : ChromiumId)
  | moved (id parentId : ChromiumId) (index : ℕ)
  deriving DecidableEq

/-- What runs as a thread. A flush of the tab events begins with the stashed titles. -/
inductive MappingBody where
  | flushTabEvents (events : List QueuedTabEvent)
  | flushBookmarkEvents (events : List QueuedBookmarkEvent)
  | applyTabRemoteBatch (items : List RemoteItem)
  | materializeTab (objectId : Uuid) (p : TabPayload)
  | restoreTab (objectId : Uuid)
  | restoreTabs (objectIds : List Uuid)
  | applyRemoteBatch (items : List RemoteItem)
  | applyRemote (item : RemoteItem)
  | retryDeferredParent (parentObjectId : Uuid)

/-- A program over mappings. -/
abbrev MappingProgram (β : Type) := Thread MappingCall MappingBody MappingCall.Result β

namespace MappingProgram

/-- One call. -/
def ask (call : MappingCall) : MappingProgram call.Result := Thread.ask call

/-! ### `sync/mapping.ts` -/

/-- `lookupObjectId`, with its moment. -/
def lookupObjectId (key : MappingKey) : MappingProgram (Option Uuid × ℕ) := do
  let (found, lookedAt) ← ask (.getMappingsByLocalIds key.1 [key.2])
  pure (found key.2, lookedAt)

/-- `lookupChromiumLocalId`, with the type of the row and the moment. -/
def lookupChromiumLocalId (objectId : Uuid) : MappingProgram (Option MappingKey × ℕ) := do
  let (found, lookedAt) ← ask (.getMappingsByObjectIds [objectId])
  pure (found objectId, lookedAt)

/-- `establishMapping`. -/
def establishMapping (key : MappingKey) (objectId : Uuid) (lookedAt : ℕ) : MappingProgram Unit :=
  ask (.putMappings [⟨key, objectId, lookedAt⟩])

/-- `forgetMapping`. -/
def forgetMapping (key : MappingKey) : MappingProgram Unit :=
  ask (.deleteMappings key.1 [key.2])

/-- `getOrCreateObjectId`. -/
def getOrCreateObjectId (key : MappingKey) : MappingProgram Uuid := do
  let (existing, lookedAt) ← lookupObjectId key
  match existing with
  | some objectId => pure objectId
  | none =>
    let objectId ← ask .uuidv7
    establishMapping key objectId lookedAt
    pure objectId

/-- What is thrown. -/
def throw {β : Type} : MappingProgram β := .call .throws nofun

/-! ### The capture of tabs -/

/-- `TabFlushCaches`: the three maps, by the type. -/
abbrev TabFlushCaches := MappingKey → Option Uuid

/-- `cachedLookupObjectId`. -/
def cachedLookupObjectId (key : MappingKey) (caches : TabFlushCaches) :
    MappingProgram (Option Uuid × TabFlushCaches) := do
  match caches key with
  | some objectId => pure (some objectId, caches)
  | none =>
    let (found, _) ← lookupObjectId key
    pure (found, Function.update caches key found)

/-- `cachedGetOrCreateObjectId`. -/
def cachedGetOrCreateObjectId (key : MappingKey) (caches : TabFlushCaches) :
    MappingProgram TabFlushCaches := do
  match caches key with
  | some _ => pure caches
  | none =>
    let objectId ← getOrCreateObjectId key
    pure (Function.update caches key (some objectId))

/-- `stageRemoval`. -/
def stageRemoval (key : MappingKey) (caches : TabFlushCaches) : MappingProgram TabFlushCaches := do
  let (objectId, caches) ← cachedLookupObjectId key caches
  match objectId with
  | none => pure caches
  | some _ =>
    forgetMapping key
    pure (Function.update caches key none)

/-- `tabPayload`, for a tab of a window: whether there is one. -/
def tabPayload (tab : BrowserTab) (caches : TabFlushCaches) :
    MappingProgram (Bool × TabFlushCaches) := do
  match tab.id, tab.windowId, tab.hasUrl with
  | some _, some windowId, true =>
    let caches ← cachedGetOrCreateObjectId (.window, windowId) caches
    match tab.groupId with
    | none => pure (true, caches)
    | some groupId =>
      let caches ← cachedGetOrCreateObjectId (.tabGroup, groupId) caches
      pure (true, caches)
  | _, _, _ => pure (false, caches)

/-- `stageTabCreated`. -/
def stageTabCreated (tab : BrowserTab) (caches : TabFlushCaches) : MappingProgram TabFlushCaches := do
  match tab.id with
  | none => pure caches
  | some id =>
    let (isTab, caches) ← tabPayload tab caches
    if isTab then cachedGetOrCreateObjectId (.tab, id) caches else pure caches

/-- `stageTabUpdated`. -/
def stageTabUpdated (tabId : ChromiumId) (tab : BrowserTab) (caches : TabFlushCaches) :
    MappingProgram TabFlushCaches := do
  let (objectId, caches) ← cachedLookupObjectId (.tab, tabId) caches
  match objectId with
  | none =>
    let opening ← ask (.isMaterializing tabId)
    if opening then pure caches else stageTabCreated tab caches
  | some _ =>
    let (_, caches) ← tabPayload tab caches
    pure caches

/-- `stageEvent`. -/
def stageTabEvent (caches : TabFlushCaches) : QueuedTabEvent → MappingProgram TabFlushCaches
  | .tabCreated tab => stageTabCreated tab caches
  | .tabUpdated tabId tab => stageTabUpdated tabId tab caches
  | .tabActivated tabId => do
    let (_, caches) ← cachedLookupObjectId (.tab, tabId) caches
    pure caches
  | .tabRemoved tabId => stageRemoval (.tab, tabId) caches
  | .groupUpdated groupId => cachedGetOrCreateObjectId (.tabGroup, groupId) caches
  | .groupRemoved groupId => stageRemoval (.tabGroup, groupId) caches
  | .windowCreated none => pure caches
  | .windowCreated (some windowId) => cachedGetOrCreateObjectId (.window, windowId) caches
  | .windowRemoved windowId => stageRemoval (.window, windowId) caches

/-- `collectTabRef`. -/
def tabKeys (tab : BrowserTab) : List MappingKey :=
  (tab.id.map fun id => (.tab, id)).toList ++ (tab.windowId.map fun id => (.window, id)).toList ++
    (tab.groupId.map fun id => (.tabGroup, id)).toList

/-- The ids that an event refers to. -/
def tabEventKeys : QueuedTabEvent → List MappingKey
  | .tabCreated tab => tabKeys tab
  | .tabUpdated tabId tab => (.tab, tabId) :: tabKeys tab
  | .tabActivated tabId | .tabRemoved tabId => [(.tab, tabId)]
  | .groupUpdated groupId | .groupRemoved groupId => [(.tabGroup, groupId)]
  | .windowCreated windowId => (windowId.map fun id => (.window, id)).toList
  | .windowRemoved windowId => [(.window, windowId)]

/-- `prefetchTabFlushCaches`. -/
def prefetchTabFlushCaches (events : List QueuedTabEvent) : MappingProgram TabFlushCaches := do
  let keys := events.flatMap tabEventKeys
  let idsOf (objectType : ObjectType) : List ChromiumId :=
    (keys.filter fun key => key.1 = objectType).map Prod.snd
  let (tabs, _) ← ask (.getMappingsByLocalIds .tab (idsOf .tab))
  let (windows, _) ← ask (.getMappingsByLocalIds .window (idsOf .window))
  let (groups, _) ← ask (.getMappingsByLocalIds .tabGroup (idsOf .tabGroup))
  pure fun key => match key.1 with
    | .tab => tabs key.2
    | .window => windows key.2
    | .tabGroup => groups key.2
    | _ => none

/-- Whether an event is about a tab group itself. -/
def isGroupEvent : QueuedTabEvent → Bool
  | .groupUpdated _ | .groupRemoved _ => true
  | _ => false

/-- `flushTabEvents`. -/
def flushTabEvents (events : List QueuedTabEvent) : MappingProgram Unit := do
  let tabsOn ← ask .flag
  if tabsOn then
    let groupsOn ← ask .flag
    let events := if groupsOn then events else events.filter fun event => !isGroupEvent event
    let caches ← (if events.length = 1 then pure (fun _ => none) else prefetchTabFlushCaches events)
    let _ ← events.foldlM stageTabEvent caches
    pure ()
  else pure ()

/-! ### Materializing tabs -/

/-- `syncTabGroup`, with `groupSyncLock`. What is thrown gives up the lock. A write that joins a group
goes back to a lookup only if that found the row of a group. -/
def syncTabGroup (groupObjectId : Uuid) : MappingProgram Unit := do
  let supported ← ask .flag
  if supported then
    ask (.lockGroup groupObjectId)
    let (existing, lookedAt) ← lookupChromiumLocalId groupObjectId
    let groupId ← ask (.tabsGroup (existing.map Prod.snd))
    match groupId with
    | none =>
      ask (.unlockGroup groupObjectId)
      throw
    | some groupId =>
      establishMapping (.tabGroup, groupId) groupObjectId
        (if existing.all fun key => key.1 = .tabGroup then lookedAt else 0)
      ask (.unlockGroup groupObjectId)
  else pure ()

/-- The end of `materializeTab`. -/
def joinGroup (p : TabPayload) : MappingProgram Unit :=
  match p.groupObjectId with
  | none => pure ()
  | some groupObjectId => syncTabGroup groupObjectId

/-- `materializeTab`. -/
def materializeTab (isSyncableUrl : String → Bool) (objectId : Uuid) (p : TabPayload) :
    MappingProgram Unit := do
  if isSyncableUrl p.url then
    let (existing, lookedAt) ← lookupChromiumLocalId objectId
    match existing with
    | some key =>
      let updated ← ask (.tabsUpdate key.2)
      if updated then joinGroup p else throw
    | none =>
      let created ← ask (.tabsCreate objectId lookedAt)
      match created with
      | none => throw
      | some id =>
        ask (.setMaterializing id true)
        establishMapping (.tab, id) objectId lookedAt
        ask (.setMaterializing id false)
        joinGroup p
  else pure ()

/-- `REMOTE_APPLY_CONCURRENCY`. -/
def remoteApplyConcurrency : ℕ := 10

/-- `materializeAll`. -/
def materializeAll (targets : List (Uuid × TabPayload)) : MappingProgram Unit :=
  (chunks remoteApplyConcurrency targets).foldlM
    (fun _ batch => Thread.all (batch.map fun target => .materializeTab target.1 target.2)) ()

/-- `restoreTab`. -/
def restoreTab (isSyncableUrl : String → Bool) (objectId : Uuid) : MappingProgram Unit := do
  let stored ← ask .getFieldStates
  match tabPayloadOf (stored (objectId, .other "state")) with
  | none => pure ()
  | some p => materializeTab isSyncableUrl objectId p

/-- `restoreTabs`. -/
def restoreTabs (objectIds : List Uuid) : MappingProgram Unit := do
  let states ← ask .getFieldStates
  materializeAll (objectIds.filterMap fun objectId =>
    (tabPayloadOf (states (objectId, .other "state"))).map (Prod.mk objectId))

/-- The object of a close that was applied. -/
def closedObjectId (item : RemoteItem) (results : List ResolveResult) : Option Uuid :=
  match item.1.operationType, results with
  | .close, liveness :: _ => if liveness.applied then some item.1.objectId else none
  | _, _ => none

/-- The tab to materialize for an operation. -/
def tabTarget (policy : RestorePolicy) (item : RemoteItem) (results : List ResolveResult) :
    Option (Uuid × TabPayload) :=
  match item.1.operationType, results with
  | .close, _ | .activate, _ => none
  | _, state :: liveness :: _ =>
    if state.applied ∧ textOf liveness.value = some "live" ∧ policy = .automatic then
      (tabPayloadOf state.value).map (Prod.mk item.1.objectId)
    else none
  | _, _ => none

/-- The mappings of tabs that were closed are deleted. -/
def forgetClosed (closedObjectIds : List Uuid) : MappingProgram Unit := do
  if closedObjectIds.isEmpty then pure ()
  else
    let (mappings, _) ← ask (.getMappingsByObjectIds closedObjectIds)
    ask (.deleteMappings .tab (closedObjectIds.filterMap fun id => (mappings id).map Prod.snd))

/-- `applyTabRemoteBatch`, and `applyTabRemote` for a batch of one. -/
def applyTabRemoteBatch (items : List RemoteItem) : MappingProgram Unit := do
  if items.isEmpty then pure ()
  else
    let policy ← ask .fetchTabRestorePolicy
    let results ← ask (.resolveTabs items)
    forgetClosed ((items.zip results).filterMap fun e => closedObjectId e.1 e.2)
    materializeAll ((items.zip results).filterMap fun e => tabTarget policy e.1 e.2)

/-! ### The capture of bookmarks -/

/-- The built-in folders, and which URLs are synced. -/
structure MappingConfig where
  rootByChromiumId : ChromiumId → Option Uuid
  rootByObjectId : Uuid → Option ChromiumId
  standInIds : List ChromiumId
  isSyncableUrl : String → Bool

/-- What a flush of bookmark events gathers. -/
structure BookmarkFlush where
  mappingCache : ChromiumId → Option Uuid
  newMappings : List Link
  deletedLocalIds : List ChromiumId
  staged : Bool

section Bookmarks

variable (cfg : MappingConfig)

/-- `objectIdFor`: the row of a new object is only collected. -/
def objectIdFor (flush : BookmarkFlush) (id : ChromiumId) : MappingProgram BookmarkFlush := do
  match cfg.rootByChromiumId id, flush.mappingCache id with
  | some _, _ | none, some _ => pure flush
  | none, none =>
    let (existing, lookedAt) ← lookupObjectId (.bookmark, id)
    match existing with
    | some objectId =>
      pure { flush with mappingCache := Function.update flush.mappingCache id (some objectId) }
    | none =>
      let objectId ← ask .uuidv7
      pure { flush with
        mappingCache := Function.update flush.mappingCache id (some objectId)
        newMappings := flush.newMappings ++ [⟨(.bookmark, id), objectId, lookedAt⟩] }

/-- `cachedObjectId`. -/
def cachedObjectId (flush : BookmarkFlush) (id : ChromiumId) :
    MappingProgram (Bool × BookmarkFlush) := do
  match flush.mappingCache id with
  | some _ => pure (true, flush)
  | none =>
    let (found, _) ← lookupObjectId (.bookmark, id)
    pure (found.isSome, { flush with mappingCache := Function.update flush.mappingCache id found })

/-- The siblings before and after an index that are not built-in folders. -/
def neighbours (siblings : List ChromiumId) (index : ℕ) : List ChromiumId :=
  let ordinary := fun id => id ∉ cfg.standInIds
  ((siblings.take index).reverse.find? ordinary).toList ++
    ((siblings.drop (index + 1)).find? ordinary).toList

/-- `computePosition`, which names the neighbours. Whether it returned. -/
def computePosition (flush : BookmarkFlush) (index : ℕ) : MappingProgram (Bool × BookmarkFlush) := do
  let siblings ← ask .bookmarkIds
  match siblings with
  | none => pure (false, flush)
  | some siblings =>
    let flush ← (neighbours cfg siblings index).foldlM (objectIdFor cfg) flush
    let returns ← ask .flag
    pure (returns, flush)

/-- `stageCreated`. -/
def stageCreated (flush : BookmarkFlush) (id : ChromiumId) (parentId : Option ChromiumId)
    (index : ℕ) : MappingProgram BookmarkFlush := do
  let flush ← (match flush.mappingCache id with
    | some _ => pure flush
    | none => objectIdFor cfg flush id)
  match parentId with
  | none => pure { flush with staged := true }
  | some parentId =>
    let flush ← objectIdFor cfg flush parentId
    let (returns, flush) ← computePosition cfg flush index
    pure { flush with staged := flush.staged || returns }

/-- `stageRemoved`. -/
def stageRemoved (flush : BookmarkFlush) (id : ChromiumId) (descendants : List ChromiumId) :
    MappingProgram BookmarkFlush := do
  let (isMapped, flush) ← cachedObjectId flush id
  if isMapped then
    pure { flush with
      mappingCache := fun other => if other ∈ id :: descendants then none else flush.mappingCache other
      deletedLocalIds := flush.deletedLocalIds ++ id :: descendants
      staged := true }
  else pure flush

/-- `stageChanged`. It throws if the node is gone, and stages nothing if nothing has changed. -/
def stageChanged (flush : BookmarkFlush) (id : ChromiumId) : MappingProgram BookmarkFlush := do
  let (isMapped, flush) ← cachedObjectId flush id
  let changed ← ask .flag
  pure { flush with staged := flush.staged || (isMapped && changed) }

/-- `stageMoved`. -/
def stageMoved (flush : BookmarkFlush) (id parentId : ChromiumId) (index : ℕ) :
    MappingProgram BookmarkFlush := do
  let (isMapped, flush) ← cachedObjectId flush id
  let isThere ← ask .flag
  if isMapped && isThere then
    let flush ← objectIdFor cfg flush parentId
    let (returns, flush) ← computePosition cfg flush index
    let changed ← ask .flag
    pure { flush with staged := flush.staged || (returns && changed) }
  else pure flush

/-- One event of a flush. -/
def stageBookmarkEvent (flush : BookmarkFlush) : QueuedBookmarkEvent → MappingProgram BookmarkFlush
  | .created id parentId index => stageCreated cfg flush id parentId index
  | .removed id descendants => stageRemoved flush id descendants
  | .changed id => stageChanged flush id
  | .moved id parentId index => stageMoved cfg flush id parentId index

/-- The ids that an event refers to. -/
def bookmarkEventIds : QueuedBookmarkEvent → List ChromiumId
  | .created id parentId _ => id :: parentId.toList
  | .removed id _ | .changed id => [id]
  | .moved id parentId _ => [id, parentId]

/-- `prefetchFlushCaches`: the ids of the events, then siblings of theirs. -/
def prefetchFlushCaches (events : List QueuedBookmarkEvent) :
    MappingProgram (ChromiumId → Option Uuid) := do
  let (named, _) ← ask (.getMappingsByLocalIds .bookmark (events.flatMap bookmarkEventIds))
  let siblings ← ask .bookmarkIds
  let (warmed, _) ← ask (.getMappingsByLocalIds .bookmark (siblings.getD []))
  pure fun id => (named id).or (warmed id)

/-- `dedupeByKey`. -/
def dedupeByKey : List Link → List Link
  | [] => []
  | link :: links => link :: (dedupeByKey links).filter fun other => other.key ≠ link.key

/-- The end of `flushBookmarkEvents`. -/
def commitFlush (flush : BookmarkFlush) : MappingProgram Unit := do
  if flush.staged then
    ask (.putMappings (dedupeByKey flush.newMappings))
    ask (.deleteMappings .bookmark flush.deletedLocalIds)
  else pure ()

/-- `flushBookmarkEvents`, if bookmarks are synced and the device is known. -/
def flushBookmarkEvents (events : List QueuedBookmarkEvent) : MappingProgram Unit := do
  let enabled ← ask .flag
  if enabled then
    let mappingCache ←
      (if events.length = 1 then pure (fun _ => none) else prefetchFlushCaches events)
    let flush ← events.foldlM (stageBookmarkEvent cfg) ⟨mappingCache, [], [], false⟩
    commitFlush flush
  else pure ()

/-! ### Materializing bookmarks -/

/-- The ids that objects were found at, with the moment. -/
abbrev FoundIds := Uuid → Option ChromiumId × ℕ

/-- `chromiumIdsFor`. -/
def chromiumIdsFor (objectIds : List Uuid) : MappingProgram FoundIds := do
  let (mappings, lookedAt) ← ask (.getMappingsByObjectIds objectIds)
  pure fun objectId => ((cfg.rootByObjectId objectId).or ((mappings objectId).map Prod.snd), lookedAt)

/-- `mappedNodeExists`. -/
def mappedNodeExists (objectId : Uuid) (id : ChromiumId) : MappingProgram Bool :=
  match cfg.rootByObjectId objectId with
  | some _ => pure true
  | none => ask (.bookmarksGet id)

/-- `findUnlinkedMatch`: the candidates are what the browser has. -/
def findUnlinkedMatch : MappingProgram (Option ChromiumId) := do
  let candidates ← ask .bookmarkIds
  let (linked, _) ← ask (.getMappingsByLocalIds .bookmark (candidates.getD []))
  pure ((candidates.getD []).find? fun id => (linked id).isNone)

/-- The end of `materialize`, for a node that has been found or made. -/
def linkNode (objectId : Uuid) (id : ChromiumId) (lookedAt : ℕ) (prefetched : Option FoundIds) :
    MappingProgram (Option FoundIds) := do
  establishMapping (.bookmark, id) objectId lookedAt
  Thread.all [.retryDeferredParent objectId]
  pure (prefetched.map fun ids => Function.update ids objectId (some id, lookedAt))

/-- A node is made for an object. -/
def createNode (objectId : Uuid) (parentId : ChromiumId) (lookedAt : ℕ)
    (prefetched : Option FoundIds) : MappingProgram (Option FoundIds) := do
  let created ← ask (.bookmarksCreate parentId)
  match created with
  | none => throw
  | some id => linkNode objectId id lookedAt prefetched

/-- `materialize`, for an object that has no node, with the moment it was looked up. -/
def materializeNew (objectId : Uuid) (p : BookmarkPayload) (parentId : Option ChromiumId)
    (lookedAt : ℕ) (prefetched : Option FoundIds) : MappingProgram (Option FoundIds) := do
  match parentId with
  | none => pure prefetched
  | some parentId =>
    if (truthy p.url).any fun url => !cfg.isSyncableUrl url then pure prefetched
    else
      let linkExistingBookmarks ← ask .flag
      let found ← (if linkExistingBookmarks then findUnlinkedMatch else pure none)
      match found with
      | some id => linkNode objectId id lookedAt prefetched
      | none => createNode objectId parentId lookedAt prefetched

/-- Whether what was prefetched answers for an object and its parent. -/
def answersFor (objectId : Uuid) (p : BookmarkPayload) (ids : FoundIds) : Bool :=
  (ids objectId).1.isSome && p.parent.all fun parent => (ids parent).1.isSome

/-- What was prefetched, if it answers, or else a lookup. -/
def prefetchedOr (prefetched : Option FoundIds) (answers : FoundIds → Bool) (objectIds : List Uuid) :
    MappingProgram FoundIds :=
  match prefetched.filter answers with
  | some ids => pure ids
  | none => chromiumIdsFor cfg objectIds

/-- `materialize`. A mapping whose node is gone is forgotten. -/
def materialize (objectId : Uuid) (p : BookmarkPayload) (prefetched : Option FoundIds) :
    MappingProgram (Option FoundIds) := do
  let chromiumIds ←
    prefetchedOr cfg prefetched (answersFor objectId p) (objectId :: p.parent.toList)
  let (mapped, lookedAt) := chromiumIds objectId
  match mapped with
  | none =>
    materializeNew cfg objectId p (p.parent.bind fun parent => (chromiumIds parent).1) lookedAt
      prefetched
  | some id =>
    let isThere ← mappedNodeExists cfg objectId id
    if isThere then pure prefetched
    else
      forgetMapping (.bookmark, id)
      let without (ids : FoundIds) : FoundIds := Function.update ids objectId (none, 0)
      materializeNew cfg objectId p (p.parent.bind fun parent => (without chromiumIds parent).1)
        lookedAt (prefetched.map without)

/-- One record of `retryDeferredParent`, with what was stored before the first. -/
def retryRecord (stored : SlotKey → Option Json) (found : FoundIds) (objectId : Uuid) :
    MappingProgram Unit := do
  if textOf (stored (objectId, .liveness)) = some "live" ∧ (found objectId).1 = none then
    let (parent, position) := recordedMove (stored (objectId, .move))
    let _ ← materialize cfg objectId
      { title := (textOf (stored (objectId, .title))).getD ""
        url := textOf (stored (objectId, .url))
        parent := parent
        position := position.getD startKey } none
    pure ()
  else pure ()

/-- `retryDeferredParent`. -/
def retryDeferredParent (parentObjectId : Uuid) : MappingProgram Unit := do
  let deferred ← ask (.getDeferredMaterializationsWaitingOn parentObjectId)
  let stored ← ask .getFieldStates
  let found ← chromiumIdsFor cfg deferred
  deferred.foldlM (fun _ objectId => retryRecord cfg stored found objectId) ()

/-- The descendants of a removed node are forgotten. -/
def forgetDescendants (descendants : List ChromiumId) (prefetched : Option FoundIds) :
    MappingProgram (Option FoundIds) := do
  let (forgotten, _) ← ask (.getMappingsByLocalIds .bookmark descendants)
  ask (.deleteMappings .bookmark descendants)
  pure (prefetched.map fun ids objectId =>
    if objectId ∈ descendants.filterMap forgotten then (none, 0) else ids objectId)

/-- `applyDelete`. -/
def applyDelete (objectId : Uuid) (prefetched : Option FoundIds) : MappingProgram (Option FoundIds) := do
  let chromiumIds ← prefetchedOr cfg prefetched (fun ids => (ids objectId).1.isSome) [objectId]
  match (chromiumIds objectId).1 with
  | none => pure prefetched
  | some id =>
    let descendants ← ask .bookmarkIds
    ask (.bookmarksRemoveTree (id :: descendants.getD []))
    forgetMapping (.bookmark, id)
    forgetDescendants (descendants.getD [])
      (prefetched.map fun ids => Function.update ids objectId (none, 0))

/-- What `applyRemoteBatch` does with an operation that has been resolved. -/
def applyResolved (prefetched : Option FoundIds) (resolved : BookmarksModule.ResolvedOp) :
    MappingProgram (Option FoundIds) :=
  let (op, payload) := resolved.item
  match resolved.kind, resolved.applied 0 with
  | .create, true => materialize cfg op.objectId (bookmarkPayload payload) prefetched
  | .delete, true => applyDelete cfg op.objectId prefetched
  | _, _ => pure prefetched

/-- A slice of `applyRemoteBatch`. -/
def applySlice (prefetched : Option FoundIds) (slice : List RemoteItem) :
    MappingProgram (Option FoundIds) := do
  let resolved ← ask (.resolveRemoteSlice slice)
  resolved.foldlM (applyResolved cfg) prefetched

/-- `applyRemoteBatch`. -/
def applyRemoteBatch (items : List RemoteItem) : MappingProgram Unit := do
  let prefetched ← chromiumIdsFor cfg (BookmarksModule.involved items)
  let _ ← (chunks BookmarksModule.remoteResolveSlice items).foldlM (applySlice cfg) (some prefetched)
  pure ()

/-- `applyRemote`. -/
def applyRemote (item : RemoteItem) : MappingProgram Unit := do
  let _ ← applySlice cfg none [item]
  pure ()

end Bookmarks

/-! ### All threads -/

/-- The program of a body. -/
def bodyOf (cfg : MappingConfig) : MappingBody → MappingProgram Unit
  | .flushTabEvents events => flushTabEvents events
  | .flushBookmarkEvents events => flushBookmarkEvents cfg events
  | .applyTabRemoteBatch items => applyTabRemoteBatch items
  | .materializeTab objectId p => materializeTab cfg.isSyncableUrl objectId p
  | .restoreTab objectId => restoreTab cfg.isSyncableUrl objectId
  | .restoreTabs objectIds => restoreTabs objectIds
  | .applyRemoteBatch items => applyRemoteBatch cfg items
  | .applyRemote item => applyRemote cfg item
  | .retryDeferredParent parentObjectId => retryDeferredParent cfg parentObjectId

end MappingProgram

/-- What happens outside: the browser has something new, or something is gone from it, the values of
fields are recorded, or mappings are swept. -/
inductive MappingOutside where
  | appears (key : MappingKey)
  | gone (key : MappingKey)
  | record (fields : FieldStore)
  | sweep (keys : List MappingKey)

namespace MappingState

/-- Nothing is mapped, and the browser is empty. -/
def empty : MappingState := ⟨[], emptyStore, [], [], [], [], [], 0, [], []⟩

/-- What happens outside. The browser never gives an id twice. -/
def outside : MappingOutside → MappingState → MappingState
  | .appears key, s => if key ∈ s.issued then s else s.issue key
  | .gone key, s => s.drop [key]
  | .record fields, s => { s with fields := fields }
  | .sweep keys, s => s.deleteMappings keys

/-- The worker is stopped, and its variables are gone. -/
def stopped (s : MappingState) : MappingState :=
  { s with materializingTabIds := [], groupSyncLock := [] }

/-- The browser reports only ids that it has had. -/
def admits : MappingBody → MappingState → Bool
  | .flushTabEvents events, s =>
    (events.flatMap MappingProgram.tabEventKeys).all fun key => key ∈ s.issued
  | .flushBookmarkEvents events, s =>
    (events.flatMap MappingProgram.bookmarkEventIds).all fun id => (ObjectType.bookmark, id) ∈ s.issued
  | _, _ => true

end MappingState

/-- **The system**: any number of threads over one profile. -/
def mappingSystem (cfg : MappingProgram.MappingConfig) : Threads.System MappingState MappingAnswer
    MappingOutside MappingCall MappingBody MappingCall.Result where
  exec := MappingState.exec
  body := MappingProgram.bodyOf cfg
  admits := MappingState.admits
  outside := MappingState.outside
  stopped := MappingState.stopped

/-- A profile with its threads. -/
abbrev MappingPool := Threads.Pool MappingState MappingCall MappingBody MappingCall.Result

/-- What happens to it. -/
abbrev MappingEvent := Threads.Event MappingAnswer MappingOutside MappingBody

end Client

end HelixSync
