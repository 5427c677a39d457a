import HelixSync.Client.PartialRestores

/-!
# What goes with the deletions of a restore

An exact restore of a folder deletes what it does not want there. A node that the point has
elsewhere is not moved away from where it is, so it may go with a deletion.
`HelixSync.Client.planRestore_folder_keeps_iff` says when it does not.

Here operations are applied as they come (`HelixSync.Client.carryOut`): one whose parent is not
there is deferred and the others go on. A parent is not there if it is, or would hang on, a
bookmark left out for its URL (`HelixSync.Client.IsStranded`), so that what is carried out is what
a cover without such nodes has (`HelixSync.Client.RestoreCover.attached`). No later operation of
the plan restores such a parent (`HelixSync.Client.not_restored_later`), so nothing that was
deferred is taken up again.
-/

namespace HelixSync

namespace Client

open ParentChains TreeWalk

/-! ### Operations as they are applied -/

section Deferred

variable {next : PointNode → Option LiveBookmarkNode → Option LiveBookmarkNode}
  {operation? planned? : PointNode → Option PlannedOperation}
  {possible : List PointNode → PointNode → Prop} {nodes earlier rest : List PointNode}
  {live mid : List LiveBookmarkNode}

end Deferred

/-! ### What is deferred -/

section Stranded

variable (isSyncableUrl : String → Bool) (nodes : List PointNode) (live : List LiveBookmarkNode)

end Stranded

section Attached

variable {isSyncableUrl : String → Bool} {cover : RestoreCover} {nodes earlier rest : List PointNode}
  {node parent : PointNode} {existing : LiveBookmarkNode} {live mid : List LiveBookmarkNode}

/-- The parent that a planned change needs. -/
def PlannedChange.parent? : PlannedChange → Option String
  | .restore _ _ parent _ | .move parent _ => some parent
  | .update _ _ | .delete => none

/-- Whether an operation restores a node. -/
def PlannedOperation.Restores (operation : PlannedOperation) (id : String) : Prop :=
  operation.objectId = id ∧ ∃ title url parent position,
    operation.change = .restore title url parent position

theorem not_restores_of_edit {operation : PlannedOperation} {id : String}
    (h : operation ∈ nodes.filterMap (fun node => (planNode isSyncableUrl cover live node).update) ++
      nodes.filterMap (fun node => (planNode isSyncableUrl cover live node).move)) :
    ¬ operation.Restores id := by
  rintro ⟨-, title, url, parent, position, hchange⟩
  rcases List.mem_append.mp h with hmem | hmem
  · obtain ⟨node, -, hop⟩ := List.mem_filterMap.mp hmem
    rw [planNode_update] at hop
    obtain ⟨existing, -, hop⟩ := Option.bind_eq_some_iff.mp hop
    obtain ⟨-, hop⟩ := Option.ite_none_right_eq_some.mp hop
    obtain rfl := Option.some.inj hop
    cases hchange
  · obtain ⟨node, -, hop⟩ := List.mem_filterMap.mp hmem
    rw [planNode_move] at hop
    obtain ⟨existing, -, hop⟩ := Option.bind_eq_some_iff.mp hop
    obtain ⟨-, hop⟩ := Option.ite_none_right_eq_some.mp hop
    obtain rfl := Option.some.inj hop
    cases hchange

/-- **No operation that comes later restores the parent that an operation needs**, as parents come
first in a point. -/
theorem not_restored_later (hpoint : IsPoint nodes) {before after : List PlannedOperation}
    {operation : PlannedOperation}
    (heq : restoresToMoves isSyncableUrl cover nodes live = before ++ operation :: after) {parent : String}
    (hparent : operation.change.parent? = some parent) : ∀ later ∈ after, ¬ later.Restores parent := by
  intro later hlater hrestores
  have hedit := fun other => @not_restores_of_edit isSyncableUrl cover nodes live other parent
  rw [restoresToMoves, List.append_assoc] at heq
  rcases List.append_eq_append_iff.mp heq with ⟨mid, -, hedits⟩ | ⟨mid, hsplit, hedits⟩
  · refine hedit later ?_ hrestores
    rw [hedits]
    exact List.mem_append_right _ (List.mem_cons_of_mem _ hlater)
  · cases mid with
    | nil =>
      refine hedit later ?_ hrestores
      rw [← List.nil_append (_ ++ _), ← hedits]
      exact List.mem_cons_of_mem _ hlater
    | cons first mid =>
      obtain ⟨rfl, rfl⟩ := List.cons.inj hedits
      rcases List.mem_append.mp hlater with hmid | hlater
      · -- Both are restores, and the parent would come after the node.
        obtain ⟨first, others, rfl, -, hothers⟩ := List.filterMap_eq_append_iff.mp hsplit
        obtain ⟨skipped, node, rest, rfl, -, hop, rfl⟩ := List.filterMap_eq_cons_iff.mp hothers
        obtain ⟨other, hother, hlaterOp⟩ := List.mem_filterMap.mp hmid
        obtain ⟨between, last, rfl⟩ := List.append_of_mem hother
        rw [planNode_restore] at hop hlaterOp
        obtain ⟨-, hop⟩ := Option.ite_none_right_eq_some.mp hop
        obtain rfl := Option.some.inj hop
        obtain ⟨-, hlaterOp⟩ := Option.ite_none_right_eq_some.mp hlaterOp
        obtain rfl := Option.some.inj hlaterOp
        have ho : other.o = node.p := hrestores.1.trans (Option.some.inj hparent).symm
        have hnode := hpoint (first ++ skipped) node (between ++ other :: last) (by simp)
        have hlast := hpoint (first ++ skipped ++ node :: between) other last (by simp)
        rcases hnode.parent with hroot | hearlier
        · exact hlast.notRoot (ho ▸ hroot)
        · refine hlast.fresh ?_
          rw [ho, List.map_append]
          exact List.mem_append_left _ hearlier
      · exact hedit later hlater hrestores

/-! ### The phases with what is deferred -/

end Attached

/-! ### What is deleted -/

/-- What the browser has in a folder, through its subfolders. -/
inductive IsLiveInside (live : List LiveBookmarkNode) (folder : String) : LiveBookmarkNode → Prop
  | child {node : LiveBookmarkNode} (hmem : node ∈ live) (hp : node.parentObjectId = folder) :
      IsLiveInside live folder node
  | deeper {parent node : LiveBookmarkNode} (hparent : IsLiveInside live folder parent)
      (hfolder : parent.kind = .folder) (hmem : node ∈ live) (hp : node.parentObjectId = parent.objectId) :
      IsLiveInside live folder node

section Deleted

variable {isSyncableUrl : String → Bool} {cover : RestoreCover} {nodes : List PointNode}
  {folder node : PointNode} {live live' : List LiveBookmarkNode} {existing : LiveBookmarkNode} {id : String}

theorem IsLiveInside.mem (h : IsLiveInside live id existing) : existing ∈ live := by
  cases h with
  | child hmem _ => exact hmem
  | deeper _ _ hmem _ => exact hmem

theorem IsLiveForest.liveUp_of_mem (h : IsLiveForest live) (hmem : existing ∈ live) :
    liveUp live existing.objectId = some existing.parentObjectId := by
  rw [liveUp, h.liveById_eq_some_iff.mpr ⟨hmem, rfl⟩]
  rfl

/-- A folder that has something in it is there. -/
theorem IsLiveInside.isSome (h : IsLiveForest live) (hroot : id ∉ rootIds)
    (hinside : IsLiveInside live id existing) : (liveById live id).isSome := by
  induction hinside with
  | child hmem hp =>
    have hplace := h.isPlace_parent (h.liveUp_of_mem hmem)
    rw [hp] at hplace
    exact (isPlace_iff.mp hplace).resolve_left hroot
  | deeper _ _ _ _ ih => exact ih

end Deleted

end Client

end HelixSync
