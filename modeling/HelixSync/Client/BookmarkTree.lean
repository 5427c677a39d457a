import HelixSync.Client.BookmarkFields
import HelixSync.Lib.Forest
import Mathlib.Data.List.Sort
import Mathlib.Logic.Equiv.Defs

/-!
# The browser's bookmarks

`chrome.bookmarks`, as far as remote operations use it: a tree of folders and bookmarks whose
nodes have ids the browser hands out, and calls that may be rejected. What outlives the service
worker is the tree together with the stores of the extension
(`HelixSync.Client.Profile`). A run of the applier goes from profile to profile
(`HelixSync.Client.Run`), and a worker that is stopped leaves one of those it has passed.
-/

namespace HelixSync

namespace Client

/-! ### `chrome.bookmarks` -/

/-- A node id of the browser. -/
abbrev ChromiumId := ℕ

/-- What a node shows. A folder has no URL. -/
structure BookmarkData where
  title : String
  url : Option String
  deriving DecidableEq, Repr

/-- A node of the tree. -/
abbrev BookmarkNode := Forest.Node ChromiumId BookmarkData

/-- The tree, and the next id. -/
structure Browser where
  nodes : Forest ChromiumId BookmarkData
  nextId : ChromiumId

namespace Browser

/-- The root and the built-in folders, which cannot be changed. -/
def permanentIds : List ChromiumId := [0, 1, 2, 3]

variable (browser : Browser)

/-- Whether a node exists. -/
def has (id : ChromiumId) : Bool := (browser.nodes.node? id).isSome

/-- Whether a node can be given children: a folder other than the root. -/
def canHold (id : ChromiumId) : Bool :=
  match browser.nodes.node? id with
  | some node => node.value.url.isNone && id ≠ 0
  | none => false

/-- Whether a node can be changed. -/
def canChange (id : ChromiumId) : Bool := browser.has id && id ∉ permanentIds

/-- `chrome.bookmarks.create`: at the end of the folder. -/
def create (parentId : ChromiumId) (data : BookmarkData) : Option Browser :=
  if browser.canHold parentId then
    some { nodes := browser.nodes.append ⟨browser.nextId, some parentId, data⟩
           nextId := browser.nextId + 1 }
  else none

/-- `chrome.bookmarks.update`, with a title. -/
def updateTitle (id : ChromiumId) (title : String) : Option Browser :=
  if browser.canChange id then
    some { browser with nodes := browser.nodes.revalue id fun data => { data with title := title } }
  else none

/-- `chrome.bookmarks.update`, with a URL: not for a folder. -/
def updateUrl (id : ChromiumId) (url : String) : Option Browser :=
  if browser.canChange id ∧ ((browser.nodes.node? id).bind fun node => node.value.url).isSome then
    some { browser with nodes := browser.nodes.revalue id fun data => { data with url := some url } }
  else none

/-- The ids of the children of a node. -/
def childIds (id : ChromiumId) : List ChromiumId :=
  (browser.nodes.children id).map Forest.Node.id

/-- `chrome.bookmarks.move`. Within a folder the index counts the node where it still is. A
folder cannot be moved to itself or below itself. -/
def move (id parentId : ChromiumId) (index : ℕ) : Option Browser :=
  if browser.canChange id ∧ browser.canHold parentId ∧ index ≤ (browser.childIds parentId).length ∧
      parentId ≠ id ∧ parentId ∉ browser.nodes.below id then
    let oldIndex := (browser.childIds parentId).idxOf id
    let target := if id ∈ browser.childIds parentId ∧ oldIndex < index then index - 1 else index
    some { browser with nodes := browser.nodes.place id parentId target }
  else none

/-- `chrome.bookmarks.removeTree`. -/
def removeTree (id : ChromiumId) : Option Browser :=
  if browser.canChange id then some { browser with nodes := browser.nodes.prune id } else none

end Browser

/-! ### What outlives the worker -/

/-- `DeferredMaterializationRecord`. -/
structure DeferredMaterialization where
  objectId : Uuid
  objectType : ObjectType
  waitingOnParent : Uuid
  deriving DecidableEq, Repr

/-- The browser's bookmarks, and the stores `object_mappings`, `deferred_materializations` and
`field_state`. Mappings go from node ids to object ids. -/
structure Profile where
  browser : Browser
  mappings : List (ChromiumId × Uuid)
  deferred : List DeferredMaterialization
  fields : FieldStore

namespace Profile

variable (profile : Profile)

/-- `putMapping`. -/
def putMapping (id : ChromiumId) (objectId : Uuid) : Profile :=
  { profile with mappings := profile.mappings.filter (fun entry => entry.1 ≠ id) ++ [(id, objectId)] }

/-- `deleteMappingsBatch`. -/
def deleteMappings (ids : List ChromiumId) : Profile :=
  { profile with mappings := profile.mappings.filter fun entry => entry.1 ∉ ids }

/-- `getMappingByLocalId`. -/
def mappingOf (id : ChromiumId) : Option Uuid := profile.mappings.lookup id

/-- `getMappingByObjectId`. -/
def mappedIdOf (objectId : Uuid) : Option ChromiumId :=
  (profile.mappings.find? fun entry => entry.2 = objectId).map Prod.fst

/-- `putDeferredMaterialization`. -/
def putDeferred (record : DeferredMaterialization) : Profile :=
  { profile with
    deferred := profile.deferred.filter (fun other => other.objectId ≠ record.objectId) ++ [record] }

/-- `deleteDeferredMaterializationsBatch`. -/
def deleteDeferred (objectIds : List Uuid) : Profile :=
  { profile with deferred := profile.deferred.filter fun record => record.objectId ∉ objectIds }

/-- `getDeferredMaterializationsWaitingOn`, in the order of the object ids. -/
def waitingOn (parentObjectId : Uuid) : List DeferredMaterialization :=
  (profile.deferred.filter fun record => record.waitingOnParent = parentObjectId).insertionSort
    fun a b => a.objectId ≤ b.objectId

/-- The value of a slot. -/
def fieldValue (objectId : Uuid) (field : Field) : Option Json :=
  (profile.fields (objectId, field)).bind IncomingField.value

end Profile

/-! ### A run -/

/-- A run so far: the profile, those it has passed, and whether a call of the browser was
rejected, after which nothing more is done. -/
structure Run where
  profile : Profile
  passed : List Profile
  rejected : Bool

namespace Run

variable (run : Run)

/-- The run before its first effect. -/
def start (profile : Profile) : Run := ⟨profile, [], false⟩

/-- An effect: one transaction, or one call of the browser. -/
def effect (change : Profile → Profile) : Run :=
  if run.rejected then run
  else { run with profile := change run.profile, passed := run.passed ++ [run.profile] }

/-- A call of the browser, which may be rejected. -/
def call (change : Browser → Option Browser) : Run :=
  match change run.profile.browser with
  | some browser => run.effect fun profile => { profile with browser := browser }
  | none => { run with rejected := true }

/-- A call of the browser whose rejection is caught. -/
def attempt (change : Browser → Option Browser) : Run :=
  match change run.profile.browser with
  | some browser => run.effect fun profile => { profile with browser := browser }
  | none => run

end Run

end Client

end HelixSync
