import HelixSync.Lib.TreeWalk
import HelixSync.Client.PointFormat

/-!
# Plans of a restore

What a restore has to do is worked out as the difference between a restore point and the
bookmarks of the browser (`planRestore`, `extension/src/restore-points/planner.ts`): nodes
that are gone are restored, those that differ updated or moved, and in exact mode what the
point does not hold is deleted, in this order.

The browser's bookmarks are a list of nodes with the ids of their parents, as
`readLiveBookmarks` gives them. `HelixSync.Client.execute` is what an operation does to them,
or `none` if the browser cannot do it: the parent has to exist, and a node cannot be put
under itself or under what is below it. The order of siblings is that of their positions, so
the order of the list says nothing. Left out is the id a node has in the browser, which the
plan does not read.
-/

namespace HelixSync

namespace Client

open ParentChains TreeWalk

/-! ### The bookmarks of the browser -/

/-- `LiveBookmarkNode`. -/
structure LiveBookmarkNode where
  objectId : String
  kind : NodeKind
  title : String
  url : Option String
  parentObjectId : String
  position : Option String
  unmodifiable : Bool
  deriving DecidableEq

/-- `liveById.get`. -/
def liveById (live : List LiveBookmarkNode) (id : String) : Option LiveBookmarkNode :=
  byId LiveBookmarkNode.objectId live id

/-- `pointById.get`. -/
def pointById (nodes : List PointNode) (id : String) : Option PointNode :=
  byId PointNode.o nodes id

/-- The parent of a node of the browser. -/
def liveUp (live : List LiveBookmarkNode) (id : String) : Option String :=
  (liveById live id).map LiveBookmarkNode.parentObjectId

/-! ### Plans -/

/-- `RestoreMode`. -/
inductive RestoreMode where
  | merge
  | exactly
  deriving DecidableEq

/-- `RestoreScope`: everything, or a folder of the point. -/
inductive RestoreScope where
  | all
  | folder (id : String)
  deriving DecidableEq

/-- The `operationType` of a planned operation with its `payload`. -/
inductive PlannedChange where
  | restore (title : String) (url : Option String) (parent position : String)
  | update (title url : Option String)
  | move (parent position : String)
  | delete
  deriving DecidableEq

/-- `PlannedOperation`. -/
structure PlannedOperation where
  objectType : ObjectType
  objectId : String
  change : PlannedChange
  title : String
  deriving DecidableEq

/-- `PlanCounts`. -/
structure PlanCounts where
  restored : ℕ
  updated : ℕ
  moved : ℕ
  deleted : ℕ
  skipped : ℕ
  deriving DecidableEq

/-- The `sample` of a plan. -/
structure PlanSample where
  restored : List String
  updated : List String
  moved : List String
  deleted : List String
  deriving DecidableEq

/-- `RestorePlan`. -/
structure RestorePlan where
  operations : List PlannedOperation
  counts : PlanCounts
  sample : PlanSample
  deriving DecidableEq

/-- The message of `UnknownRestoreScopeError`. -/
def unknownRestoreScope : String := "The folder to restore is not in this restore point."

/-- `SAMPLE_SIZE`. -/
def sampleSize : ℕ := 8

/-- `objectTypeOf`. -/
def objectTypeOf : NodeKind → ObjectType
  | .bookmark => .bookmark
  | .folder => .bookmarkFolder

/-- The kind of the node that is created for an object. -/
def kindOf (objectType : ObjectType) : NodeKind :=
  if objectType = .bookmark then .bookmark else .folder

/-- Which nodes of the point a restore covers, and which only have to exist. -/
structure RestoreCover where
  inScope : List String
  ancestorsToRestore : List String

/-- The folders in a folder, the last first, as they leave the stack. -/
def foldersIn {α : Type} (key parent : α → String) (kind : α → NodeKind) (items : List α)
    (id : String) : List String :=
  ((items.filter fun item => parent item = id ∧ kind item = .folder).map key).reverse

/-- The folders in a folder of the point. -/
def pointFolders (nodes : List PointNode) (id : String) : List String :=
  foldersIn PointNode.o PointNode.p PointNode.k nodes id

/-- The loop over `parent` that collects `ancestorsToRestore`. -/
def pointAncestors (nodes : List PointNode) : ℕ → String → List String
  | 0, _ => []
  | fuel + 1, id =>
    match pointById nodes id with
    | none => []
    | some parent => parent.o :: pointAncestors nodes fuel parent.p

/-- `inScope` and `ancestorsToRestore`, if the point has the folder. -/
def coverOf (nodes : List PointNode) : RestoreScope → Option RestoreCover
  | .all => some ⟨nodes.map PointNode.o, []⟩
  | .folder id =>
    match pointById nodes id with
    | none => none
    | some folder =>
      if folder.k = .folder then
        let popped := walk (pointFolders nodes) nodes.length [folder.o]
        some ⟨folder.o :: popped.flatMap fun id => (nodes.filter fun node => node.p = id).map PointNode.o,
          pointAncestors nodes nodes.length folder.p⟩
      else none

/-- What one round of the loop over the point adds to `restores`, `updates`, `moves` and
`counts.skipped`. -/
structure NodePlan where
  restore : Option PlannedOperation
  update : Option PlannedOperation
  move : Option PlannedOperation
  skipped : ℕ

/-- A round that adds nothing. -/
def NodePlan.nothing : NodePlan := ⟨none, none, none, 0⟩

section Plan

variable (isSyncableUrl : String → Bool)

/-- Whether a node of the point has a URL that the extension does not create. -/
def isUnsyncable (node : PointNode) : Bool := node.k = .bookmark && !isSyncableUrl (node.u.getD "")

/-- The title an `update` sets. -/
def changedTitle (node : PointNode) (existing : LiveBookmarkNode) : Option String :=
  if existing.title ≠ node.t then some node.t else none

/-- The URL an `update` sets. -/
def changedUrl (node : PointNode) (existing : LiveBookmarkNode) : Option String :=
  if node.k = .bookmark ∧ existing.url ≠ node.u ∧ isSyncableUrl (node.u.getD "") then node.u else none

/-- One round of the loop over the point. -/
def planNode (cover : RestoreCover) (live : List LiveBookmarkNode) (node : PointNode) : NodePlan :=
  if node.o ∉ cover.inScope ∧ node.o ∉ cover.ancestorsToRestore then .nothing else
  match liveById live node.o with
  | none =>
    if isUnsyncable isSyncableUrl node then { NodePlan.nothing with skipped := 1 } else
    { NodePlan.nothing with
      restore := some ⟨objectTypeOf node.k, node.o,
        .restore node.t (if node.k = .bookmark then node.u else none) node.p node.x, node.t⟩ }
  | some existing =>
    if node.o ∉ cover.inScope ∨ existing.unmodifiable then .nothing else
    let title := changedTitle node existing
    let url := changedUrl isSyncableUrl node existing
    { restore := none
      update := if title.isSome ∨ url.isSome then
          some ⟨objectTypeOf node.k, node.o, .update title url, node.t⟩
        else none
      move := if existing.parentObjectId ≠ node.p ∨ existing.position ≠ some node.x then
          some ⟨objectTypeOf node.k, node.o, .move node.p node.x, node.t⟩
        else none
      skipped := if existing.url ≠ node.u ∧ isUnsyncable isSyncableUrl node then 1 else 0 }

/-- The folders in a folder of the browser. -/
def liveFolders (live : List LiveBookmarkNode) (id : String) : List String :=
  foldersIn LiveBookmarkNode.objectId LiveBookmarkNode.parentObjectId LiveBookmarkNode.kind live id

/-- The nodes that are considered for deletion: all, or what is inside the folder as it is
now. -/
def considered (live : List LiveBookmarkNode) : RestoreScope → List LiveBookmarkNode
  | .all => live
  | .folder id =>
    if (liveById live id).isSome then
      (walk (liveFolders live) live.length [id]).flatMap fun id =>
        live.filter fun node => node.parentObjectId = id
    else []

/-- `unwanted`. -/
def unwanted (nodes : List PointNode) (live : List LiveBookmarkNode) (scope : RestoreScope) :
    List String :=
  ((considered live scope).filter fun node =>
    (pointById nodes node.objectId).isNone ∧ !node.unmodifiable).map LiveBookmarkNode.objectId

/-- `deletes`: the topmost unwanted nodes. -/
def deletes (nodes : List PointNode) (live : List LiveBookmarkNode) (mode : RestoreMode)
    (scope : RestoreScope) : List PlannedOperation :=
  match mode with
  | .merge => []
  | .exactly =>
    let unwanted := unwanted nodes live scope
    (live.filter fun node => node.objectId ∈ unwanted ∧ node.parentObjectId ∉ unwanted ∧
      node.objectId ∉ rootIds).map fun node =>
        ⟨objectTypeOf node.kind, node.objectId, .delete, node.title⟩

/-- `planRestore`. -/
def planRestore (nodes : List PointNode) (live : List LiveBookmarkNode) (mode : RestoreMode)
    (scope : RestoreScope) : Except String RestorePlan :=
  match coverOf nodes scope with
  | none => .error unknownRestoreScope
  | some cover =>
    let plans := nodes.map (planNode isSyncableUrl cover live)
    let restores := plans.filterMap NodePlan.restore
    let updates := plans.filterMap NodePlan.update
    let moves := plans.filterMap NodePlan.move
    let deletes := deletes nodes live mode scope
    let titles := fun (operations : List PlannedOperation) =>
      (operations.take sampleSize).map PlannedOperation.title
    .ok {
      operations := restores ++ updates ++ moves ++ deletes
      counts := ⟨restores.length, updates.length, moves.length, deletes.length,
        (plans.map NodePlan.skipped).sum⟩
      sample := ⟨titles restores, titles updates, titles moves, titles deletes⟩ }

end Plan

/-! ### What the operations do -/

/-- The nodes of a list as a forest. -/
def forestOf {α : Type} (key parent : α → String) (items : List α) : Forest String Unit :=
  items.reverse.map fun item => ⟨key item, some (parent item), ()⟩

/-- Whether a node is below another. -/
def isBelow (live : List LiveBookmarkNode) (top id : String) : Bool :=
  (forestOf LiveBookmarkNode.objectId LiveBookmarkNode.parentObjectId live).isBelow top live.length id

/-- Whether something can be put there: a built-in folder, or a node that exists. -/
def isPlace (live : List LiveBookmarkNode) (id : String) : Bool :=
  id ∈ rootIds || (liveById live id).isSome

/-- A node with another title or URL. -/
def LiveBookmarkNode.edited (title url : Option String) (node : LiveBookmarkNode) : LiveBookmarkNode :=
  { node with title := title.getD node.title, url := url.or node.url }

/-- A node in another place. -/
def LiveBookmarkNode.placed (parent position : String) (node : LiveBookmarkNode) : LiveBookmarkNode :=
  { node with parentObjectId := parent, position := some position }

/-- The bookmarks with one node changed. -/
def changeNode (live : List LiveBookmarkNode) (id : String)
    (change : LiveBookmarkNode → LiveBookmarkNode) : List LiveBookmarkNode :=
  live.map fun node => if node.objectId = id then change node else node

/-- A node put elsewhere. One that is not there is left for when it is. -/
def relocate (live : List LiveBookmarkNode) (id parent position : String) :
    Option (List LiveBookmarkNode) :=
  if (liveById live id).isNone then some live
  else if isPlace live parent ∧ parent ≠ id ∧ !isBelow live id parent then
    some (changeNode live id (.placed parent position))
  else none

/-- A planned operation carried out, if the browser can and its parent is there. -/
def execute (live : List LiveBookmarkNode) (operation : PlannedOperation) :
    Option (List LiveBookmarkNode) :=
  match operation.change with
  | .restore title url parent position =>
    if (liveById live operation.objectId).isSome then relocate live operation.objectId parent position
    else if isPlace live parent then
      some (live ++ [⟨operation.objectId, kindOf operation.objectType, title, url, parent,
        some position, false⟩])
    else none
  | .update title url => some (changeNode live operation.objectId (.edited title url))
  | .move parent position => relocate live operation.objectId parent position
  | .delete =>
    some (live.filter fun node =>
      node.objectId ≠ operation.objectId ∧ !isBelow live operation.objectId node.objectId)

/-- Operations carried out in order, as long as the browser can and parents are there. -/
def executeAll (live : List LiveBookmarkNode) : List PlannedOperation → Option (List LiveBookmarkNode)
  | [] => some live
  | operation :: rest =>
    match execute live operation with
    | none => none
    | some live => executeAll live rest

section Folders

variable {α : Type} {key parent : α → String} {kind : α → NodeKind} {items : List α} {id x : String}

theorem mem_foldersIn : x ∈ foldersIn key parent kind items id ↔
    ∃ item ∈ items, key item = x ∧ parent item = id ∧ kind item = .folder := by
  simp only [foldersIn, List.mem_reverse, List.mem_map, List.mem_filter, decide_eq_true_eq]
  constructor
  · rintro ⟨item, ⟨hmem, hp, hk⟩, ho⟩
    exact ⟨item, hmem, ho, hp, hk⟩
  · rintro ⟨item, hmem, ho, hp, hk⟩
    exact ⟨item, ⟨hmem, hp, hk⟩, ho⟩

/-- The parents of some items. -/
def upIn (key parent : α → String) (items : List α) (id : String) : Option String :=
  (byId key items id).map parent

theorem upIn_of_mem (hdistinct : (items.map key).Nodup) {item : α} (hmem : item ∈ items) :
    upIn key parent items (key item) = some (parent item) := by
  rw [upIn, (byId_eq_some_iff hdistinct).mpr ⟨hmem, rfl⟩]
  rfl

theorem reached_foldersIn (hdistinct : (items.map key).Nodup)
    (hx : Reached (foldersIn key parent kind items) [id] x) :
    x = id ∨ Below (upIn key parent items) id x := by
  induction hx with
  | start hx => exact Or.inl (List.mem_singleton.mp hx)
  | kid _ hy ih =>
    obtain ⟨item, hmem, rfl, rfl, -⟩ := mem_foldersIn.mp hy
    exact Or.inr (below_iff.mpr ⟨_, upIn_of_mem hdistinct hmem, ih⟩)

/-- **A walk through the folders comes to none of them twice**, if none is below itself. -/
theorem isTree_foldersIn (hdistinct : (items.map key).Nodup)
    (hacyclic : ∀ item ∈ items, ¬ Below (upIn key parent items) (key item) (key item)) :
    IsTree (foldersIn key parent kind items) [id] where
  start_nodup := List.nodup_singleton _
  kids_nodup x _ := by
    rw [foldersIn, List.nodup_reverse]
    exact hdistinct.sublist (List.filter_sublist.map _)
  parent_unique x x' y _ _ hy hy' := by
    obtain ⟨item, hmem, rfl, rfl, -⟩ := mem_foldersIn.mp hy
    obtain ⟨item', hmem', ho, rfl, -⟩ := mem_foldersIn.mp hy'
    rw [List.inj_on_of_nodup_map hdistinct hmem hmem' ho.symm]
  not_kid x hx y hy hkid := by
    obtain rfl := List.mem_singleton.mp hy
    obtain ⟨item, hmem, rfl, rfl, -⟩ := mem_foldersIn.mp hkid
    exact hacyclic item hmem
      (below_iff.mpr ⟨_, upIn_of_mem hdistinct hmem, reached_foldersIn hdistinct hx⟩)

/-- **The walk gets through**: what leaves the stack is what can be reached. -/
theorem mem_walk_foldersIn (hdistinct : (items.map key).Nodup)
    (hacyclic : ∀ item ∈ items, ¬ Below (upIn key parent items) (key item) (key item))
    (hid : id ∈ items.map key) :
    x ∈ walk (foldersIn key parent kind items) items.length [id] ↔
      Reached (foldersIn key parent kind items) [id] x := by
  have hall : ∀ y, Reached (foldersIn key parent kind items) [id] y → y ∈ items.map key := by
    intro y hy
    cases hy with
    | start hy => exact List.mem_singleton.mp hy ▸ hid
    | kid _ hy =>
      obtain ⟨item, hmem, rfl, -⟩ := mem_foldersIn.mp hy
      exact List.mem_map_of_mem hmem
  exact mem_walk_iff (left_eq_nil (isTree_foldersIn hdistinct hacyclic) hall (List.length_map _).le)

end Folders

/-! ### Forests of the browser -/

/-- The bookmarks of a browser: **ids are distinct, none is that of a built-in folder, and every
node comes to one**. -/
structure IsLiveForest (live : List LiveBookmarkNode) : Prop where
  distinct : (live.map LiveBookmarkNode.objectId).Nodup
  notRoot : ∀ node ∈ live, node.objectId ∉ rootIds
  rooted : ∀ node ∈ live, Rooted (· ∈ rootIds) (liveUp live) node.objectId

theorem up_forestOf {α : Type} (key parent : α → String) (items : List α) :
    (forestOf key parent items).up = fun id => (byId key items id).map parent := by
  funext id
  rw [Forest.up, Forest.node?, forestOf, List.find?_map, Option.bind_map, Option.map_eq_bind]
  rfl

/-- The test is the relation. -/
theorem isBelow_iff {live : List LiveBookmarkNode} {top id : String} :
    isBelow live top id = true ↔ Below (liveUp live) top id := by
  have hlength : live.length =
      (forestOf LiveBookmarkNode.objectId LiveBookmarkNode.parentObjectId live).length := by
    simp [forestOf]
  rw [isBelow, hlength, Forest.isBelow_length_iff, up_forestOf]
  rfl

theorem isPlace_iff {live : List LiveBookmarkNode} {id : String} :
    isPlace live id = true ↔ id ∈ rootIds ∨ (liveById live id).isSome := by
  simp [isPlace]

theorem liveById_isSome_iff {live : List LiveBookmarkNode} {id : String} :
    (liveById live id).isSome ↔ id ∈ live.map LiveBookmarkNode.objectId := by
  rw [← not_iff_not, Option.not_isSome_iff_eq_none]
  exact byId_eq_none_iff

theorem liveUp_eq_none_iff {live : List LiveBookmarkNode} {id : String} :
    liveUp live id = none ↔ liveById live id = none := Option.map_eq_none_iff

namespace IsLiveForest

variable {live live' : List LiveBookmarkNode}

theorem liveById_eq_some_iff (h : IsLiveForest live) {id : String} {node : LiveBookmarkNode} :
    liveById live id = some node ↔ node ∈ live ∧ node.objectId = id :=
  byId_eq_some_iff h.distinct

theorem liveById_root (h : IsLiveForest live) {id : String} (hid : id ∈ rootIds) :
    liveById live id = none := by
  rw [liveById, byId_eq_none_iff, List.mem_map]
  rintro ⟨node, hnode, rfl⟩
  exact h.notRoot node hnode hid

theorem liveUp_root (h : IsLiveForest live) (id : String) (hid : id ∈ rootIds) :
    liveUp live id = none :=
  liveUp_eq_none_iff.mpr (h.liveById_root hid)

theorem rooted_of_isSome (h : IsLiveForest live) {id : String} (hid : (liveById live id).isSome) :
    Rooted (· ∈ rootIds) (liveUp live) id := by
  obtain ⟨node, hnode⟩ := Option.isSome_iff_exists.mp hid
  obtain ⟨hmem, rfl⟩ := h.liveById_eq_some_iff.mp hnode
  exact h.rooted node hmem

theorem rooted_of_isPlace (h : IsLiveForest live) {id : String} (hid : isPlace live id = true) :
    Rooted (· ∈ rootIds) (liveUp live) id :=
  (isPlace_iff.mp hid).elim .root h.rooted_of_isSome

/-- The parent of a node is a place. -/
theorem isPlace_parent (h : IsLiveForest live) {id parent : String}
    (hup : liveUp live id = some parent) : isPlace live parent = true := by
  obtain ⟨node, hnode, -⟩ := Option.map_eq_some_iff.mp hup
  have hrooted := h.rooted_of_isSome (Option.isSome_iff_exists.mpr ⟨node, hnode⟩)
  cases hrooted with
  | root hr => exact absurd (h.liveUp_root id hr) (by rw [hup]; exact nofun)
  | step hup' hparent =>
    obtain rfl := Option.some.inj (hup.symm.trans hup')
    cases hparent with
    | root hr => exact isPlace_iff.mpr (Or.inl hr)
    | step hup'' _ =>
      refine isPlace_iff.mpr (Or.inr (Option.isSome_iff_ne_none.mpr fun hnone => ?_))
      exact absurd (liveUp_eq_none_iff.mpr hnone) (by rw [hup'']; exact nofun)

/-- **A node is not below itself.** -/
theorem not_below_self (h : IsLiveForest live) {id : String} : ¬ Below (liveUp live) id id := by
  intro hbelow
  obtain ⟨parent, hup, -⟩ := below_iff.mp hbelow
  obtain ⟨node, hnode, -⟩ := Option.map_eq_some_iff.mp hup
  exact (h.rooted_of_isSome (Option.isSome_iff_exists.mpr ⟨node, hnode⟩)).not_below h.liveUp_root hbelow

/-- The order in which the bookmarks are listed does not matter. -/
theorem liveById_perm (h : IsLiveForest live) (hperm : live'.Perm live) : liveById live' = liveById live := by
  have hdistinct : (live'.map LiveBookmarkNode.objectId).Nodup :=
    (hperm.map LiveBookmarkNode.objectId).nodup_iff.mpr h.distinct
  funext id
  refine Option.ext fun node => ?_
  rw [liveById, byId_eq_some_iff hdistinct, hperm.mem_iff, ← h.liveById_eq_some_iff]

/-- The nodes found by their ids are the bookmarks. -/
theorem perm_of_liveById (h : IsLiveForest live) (h' : IsLiveForest live')
    (hlook : liveById live' = liveById live) : live'.Perm live := by
  refine (List.perm_ext_iff_of_nodup h'.distinct.of_map h.distinct.of_map).mpr fun node => ?_
  have hmem : liveById live node.objectId = some node ↔ node ∈ live ∧ _ := h.liveById_eq_some_iff
  have hmem' : liveById live' node.objectId = some node ↔ node ∈ live' ∧ _ := h'.liveById_eq_some_iff
  rw [hlook, hmem] at hmem'
  simpa using hmem'.symm

/-- A forest as the nodes found by their ids. -/
theorem of_liveById (hdistinct : (live'.map LiveBookmarkNode.objectId).Nodup)
    (hroot : ∀ id ∈ rootIds, liveById live' id = none)
    (hrooted : ∀ id, (liveById live' id).isSome → Rooted (· ∈ rootIds) (liveUp live') id) :
    IsLiveForest live' where
  distinct := hdistinct
  notRoot node hnode hid := by
    have hnone := hroot _ hid
    rw [liveById, byId_eq_none_iff] at hnone
    exact hnone (List.mem_map_of_mem hnode)
  rooted node hnode := hrooted _ (liveById_isSome_iff.mpr (List.mem_map_of_mem hnode))

end IsLiveForest

/-! ### One operation -/

section Execute

variable {live live' : List LiveBookmarkNode} {id parent position title : String}

theorem liveById_changeNode (change : LiveBookmarkNode → LiveBookmarkNode)
    (hchange : ∀ node, (change node).objectId = node.objectId) :
    liveById (changeNode live id change) =
      Function.update (liveById live) id ((liveById live id).map change) := by
  funext other
  rw [liveById, changeNode, byId_map]
  · by_cases hother : other = id
    · subst hother
      rw [Function.update_self, liveById]
      refine Option.map_congr fun node hnode => ?_
      rw [if_pos (mem_of_byId hnode).2]
    · rw [Function.update_of_ne hother]
      refine (Option.map_congr fun node hnode => ?_).trans Option.map_id'
      rw [if_neg]
      rintro rfl
      exact hother (mem_of_byId hnode).2.symm
  · intro node
    by_cases hid : node.objectId = id
    · rw [if_pos hid, hchange]
    · rw [if_neg hid]

theorem objectIds_changeNode (change : LiveBookmarkNode → LiveBookmarkNode)
    (hchange : ∀ node, (change node).objectId = node.objectId) :
    (changeNode live id change).map LiveBookmarkNode.objectId =
      live.map LiveBookmarkNode.objectId := by
  rw [changeNode, List.map_map]
  refine List.map_congr_left fun node _ => ?_
  by_cases hid : node.objectId = id
  · rw [Function.comp_apply, if_pos hid, hchange]
  · rw [Function.comp_apply, if_neg hid]

theorem isSome_changeNode (change : LiveBookmarkNode → LiveBookmarkNode)
    (hchange : ∀ node, (change node).objectId = node.objectId) (a : String) :
    (liveById (changeNode live id change) a).isSome = (liveById live a).isSome := by
  rw [Bool.eq_iff_iff, liveById_isSome_iff, liveById_isSome_iff, objectIds_changeNode change hchange]

/-- The parents after one node changed. -/
theorem liveUp_of_update {node : LiveBookmarkNode}
    (hlook : liveById live' = Function.update (liveById live) id (some node)) :
    liveUp live' id = some node.parentObjectId ∧
      ∀ other, other ≠ id → liveUp live' other = liveUp live other := by
  constructor
  · rw [liveUp, hlook, Function.update_self]
    rfl
  · intro other hother
    rw [liveUp, hlook, Function.update_of_ne hother]
    rfl

theorem liveById_append {node : LiveBookmarkNode} :
    liveById (live ++ [node]) = Function.update (liveById live) node.objectId (some node) := by
  funext other
  rw [liveById, byId_append]
  by_cases hother : other = node.objectId
  · subst hother
    rw [Function.update_self]
    simp [byId]
  · rw [Function.update_of_ne hother]
    simp [byId, Ne.symm hother, liveById]

/-- A new node in a place that exists. -/
theorem IsLiveForest.append (h : IsLiveForest live) {node : LiveBookmarkNode}
    (hgone : liveById live node.objectId = none) (hroot : node.objectId ∉ rootIds)
    (hparent : isPlace live node.parentObjectId = true) : IsLiveForest (live ++ [node]) := by
  have hups : liveUp (live ++ [node]) node.objectId = some node.parentObjectId ∧ _ :=
    liveUp_of_update liveById_append
  have hkept : ∀ a b, True → liveUp live a = some b → liveUp (live ++ [node]) a = some b ∧ True := by
    intro a b _ hab
    refine ⟨(hups.2 a ?_).trans hab, trivial⟩
    rintro rfl
    rw [liveUp, hgone] at hab
    exact absurd hab nofun
  refine .of_liveById ?_ ?_ ?_
  · rw [List.map_append, List.nodup_append]
    refine ⟨h.distinct, List.nodup_singleton _, ?_⟩
    rintro a ha _ hid rfl
    obtain rfl := List.mem_singleton.mp hid
    exact byId_eq_none_iff.mp hgone ha
  · intro a ha
    rw [liveById_append, Function.update_of_ne (by rintro rfl; exact hroot ha)]
    exact h.liveById_root ha
  · intro a ha
    by_cases hid : a = node.objectId
    · subst hid
      exact .step hups.1 ((h.rooted_of_isPlace hparent).of_kept hkept trivial)
    · rw [liveById_append, Function.update_of_ne hid] at ha
      exact (h.rooted_of_isSome ha).of_kept hkept trivial

/-- **A restore** of a node that is gone, to a place that exists. -/
theorem execute_restore (h : IsLiveForest live) (operation : PlannedOperation) {url : Option String}
    (hchange : operation.change = .restore title url parent position)
    (hgone : liveById live operation.objectId = none) (hroot : operation.objectId ∉ rootIds)
    (hparent : isPlace live parent = true) :
    ∃ live', execute live operation = some live' ∧ IsLiveForest live' ∧
      liveById live' = Function.update (liveById live) operation.objectId
        (some ⟨operation.objectId, kindOf operation.objectType, title, url, parent, some position,
          false⟩) := by
  refine ⟨live ++ [⟨operation.objectId, kindOf operation.objectType, title, url, parent,
    some position, false⟩], ?_, h.append hgone hroot hparent, liveById_append⟩
  rw [execute, hchange]
  exact (if_neg (by simp [hgone])).trans (if_pos hparent)

/-- **An update** changes no place. -/
theorem execute_update (h : IsLiveForest live) (operation : PlannedOperation)
    {title url : Option String} (hchange : operation.change = .update title url) :
    ∃ live', execute live operation = some live' ∧ IsLiveForest live' ∧
      liveById live' = Function.update (liveById live) operation.objectId
        ((liveById live operation.objectId).map (.edited title url)) := by
  have hlook : liveById (changeNode live operation.objectId (.edited title url)) = _ :=
    liveById_changeNode (.edited title url) fun _ => rfl
  have hsome : ∀ a, (liveById (changeNode live operation.objectId (.edited title url)) a).isSome =
      (liveById live a).isSome :=
    isSome_changeNode (.edited title url) fun _ => rfl
  have hup : liveUp (changeNode live operation.objectId (.edited title url)) = liveUp live := by
    funext a
    rw [liveUp, hlook]
    by_cases hid : a = operation.objectId
    · subst hid
      rw [Function.update_self, Option.map_map]
      rfl
    · rw [Function.update_of_ne hid]
      rfl
  refine ⟨_, by rw [execute, hchange], ?_, hlook⟩
  refine .of_liveById ?_ ?_ ?_
  · rw [objectIds_changeNode (.edited title url) fun _ => rfl]
    exact h.distinct
  · intro a ha
    rw [← Option.not_isSome_iff_eq_none, hsome, h.liveById_root ha]
    exact nofun
  · intro a ha
    rw [hup]
    exact h.rooted_of_isSome (hsome a ▸ ha)

/-- **A move** of a node to a place that is neither the node nor below it. -/
theorem relocate_eq (h : IsLiveForest live) {node : LiveBookmarkNode} (hnode : liveById live id = some node)
    (hparent : isPlace live parent = true) (hne : parent ≠ id) (hnot : ¬ Below (liveUp live) id parent) :
    ∃ live', relocate live id parent position = some live' ∧ IsLiveForest live' ∧
      liveById live' = Function.update (liveById live) id (some (node.placed parent position)) := by
  have hlook : liveById (changeNode live id (.placed parent position)) = _ :=
    liveById_changeNode (.placed parent position) fun _ => rfl
  rw [hnode] at hlook
  have hups : liveUp (changeNode live id (.placed parent position)) id = some parent ∧ _ :=
    liveUp_of_update hlook
  refine ⟨_, ?_, ?_, hlook⟩
  · refine (if_neg (by simp [hnode])).trans (if_pos ⟨hparent, hne, ?_⟩)
    rw [Bool.not_eq_true', ← Bool.not_eq_true, isBelow_iff]
    exact hnot
  · have hsome : ∀ a, (liveById (changeNode live id (.placed parent position)) a).isSome =
        (liveById live a).isSome :=
      isSome_changeNode (.placed parent position) fun _ => rfl
    refine .of_liveById ?_ ?_ ?_
    · rw [objectIds_changeNode (.placed parent position) fun _ => rfl]
      exact h.distinct
    · intro a ha
      rw [← Option.not_isSome_iff_eq_none, hsome, h.liveById_root ha]
      exact nofun
    · intro a ha
      rw [hsome] at ha
      exact Rooted.of_move hups.2 hups.1 (h.rooted_of_isPlace hparent) hne hnot (h.rooted_of_isSome ha)

/-- **A deletion** takes what is below with it. -/
theorem execute_delete (h : IsLiveForest live) (operation : PlannedOperation)
    (hchange : operation.change = .delete) :
    ∃ live', execute live operation = some live' ∧ IsLiveForest live' ∧
      (∀ a, a ≠ operation.objectId → ¬ Below (liveUp live) operation.objectId a →
        liveById live' a = liveById live a) ∧
      ∀ a, a = operation.objectId ∨ Below (liveUp live) operation.objectId a → liveById live' a = none := by
  have hlook : ∀ a, liveById (live.filter fun node => node.objectId ≠ operation.objectId ∧
      !isBelow live operation.objectId node.objectId) a =
      if decide (a ≠ operation.objectId ∧ (!isBelow live operation.objectId a) = true) = true
        then liveById live a else none :=
    byId_filter (fun id => id ≠ operation.objectId ∧ !isBelow live operation.objectId id) live
  have hkept : ∀ a, a ≠ operation.objectId → ¬ Below (liveUp live) operation.objectId a →
      liveById (live.filter fun node => node.objectId ≠ operation.objectId ∧
        !isBelow live operation.objectId node.objectId) a = liveById live a := by
    intro a hne hnot
    rw [hlook, if_pos]
    rw [decide_eq_true_iff, Bool.not_eq_true', ← Bool.not_eq_true, isBelow_iff]
    exact ⟨hne, hnot⟩
  have hgone : ∀ a, a = operation.objectId ∨ Below (liveUp live) operation.objectId a →
      liveById (live.filter fun node => node.objectId ≠ operation.objectId ∧
        !isBelow live operation.objectId node.objectId) a = none := by
    intro a ha
    rw [hlook, if_neg]
    rw [decide_eq_true_iff, Bool.not_eq_true', ← Bool.not_eq_true, isBelow_iff]
    exact fun hkeep => ha.elim hkeep.1 hkeep.2
  refine ⟨_, by rw [execute, hchange], ?_, hkept, hgone⟩
  refine .of_liveById ?_ ?_ ?_
  · exact h.distinct.sublist (List.filter_sublist.map _)
  · intro a ha
    rw [hlook, h.liveById_root ha, ite_self]
  · intro a ha
    by_cases hkeep : a ≠ operation.objectId ∧ ¬ Below (liveUp live) operation.objectId a
    · rw [hkept a hkeep.1 hkeep.2] at ha
      refine @Rooted.of_kept _ _ _ _ _
        (fun b => b ≠ operation.objectId ∧ ¬ Below (liveUp live) operation.objectId b) ?_ hkeep
        (h.rooted_of_isSome ha)
      intro b c hb hbc
      obtain ⟨-, hc⟩ := @kept_of_not_below _ (liveUp live) (liveUp live) _ (fun _ _ => rfl) b c hb hbc
      refine ⟨?_, hc⟩
      rw [liveUp, hkept b hb.1 hb.2]
      exact hbc
    · rw [hgone a (or_iff_not_and_not.mpr hkeep)] at ha
      exact absurd ha nofun

end Execute

end Client

end HelixSync
