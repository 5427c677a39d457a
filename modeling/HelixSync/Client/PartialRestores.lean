import HelixSync.Client.RestoreSteps

/-!
# Restoring one folder

A restore can be confined to a folder of the point. It covers what the point has in the
folder (`HelixSync.Client.IsInside`) and restores the folders around it that are gone, but
leaves those that exist where they are. This breaks the order in which everything is put in
its place: the folder's place may be below the folder. `HelixSync.Client.planRestore_folder_iff`
says when all operations can be carried out.
-/

namespace HelixSync

namespace Client

open ParentChains TreeWalk

/-! ### What is covered -/

/-- What a point has in a folder, through its subfolders. -/
inductive IsInside (nodes : List PointNode) (folder : PointNode) : PointNode → Prop
  | self : IsInside nodes folder folder
  | child {parent node : PointNode} (hparent : IsInside nodes folder parent) (hmem : node ∈ nodes)
      (hfolder : parent.k = .folder) (hp : node.p = parent.o) : IsInside nodes folder node

/-- What a restore of a folder covers, and what it only needs to exist. -/
structure IsFolderCover (nodes : List PointNode) (folder : PointNode) (cover : RestoreCover) : Prop where
  inScope : ∀ node ∈ nodes, node.o ∈ cover.inScope ↔ IsInside nodes folder node
  ancestors : ∀ node ∈ nodes, node.o ∈ cover.ancestorsToRestore ↔ Below (pointUp nodes) node.o folder.o

section Cover

variable {nodes : List PointNode} {folder node parent : PointNode}

theorem IsInside.mem (hfolder : folder ∈ nodes) (h : IsInside nodes folder node) : node ∈ nodes := by
  cases h with
  | self => exact hfolder
  | child _ hmem _ _ => exact hmem

theorem IsPoint.eq_of_o (h : IsPoint nodes) (hnode : node ∈ nodes) (hparent : parent ∈ nodes)
    (ho : node.o = parent.o) : node = parent :=
  List.inj_on_of_nodup_map h.distinct hnode hparent ho

theorem IsPoint.pointUp_of_mem (h : IsPoint nodes) (hmem : node ∈ nodes) :
    pointUp nodes node.o = some node.p := by
  rw [pointUp, (byId_eq_some_iff h.distinct).mpr ⟨hmem, rfl⟩]
  rfl

theorem pointUp_eq_some {id p : String} (h : pointUp nodes id = some p) :
    ∃ node ∈ nodes, node.o = id ∧ node.p = p := by
  obtain ⟨node, hnode, hp⟩ := Option.map_eq_some_iff.mp h
  obtain ⟨hmem, ho⟩ := mem_of_byId hnode
  exact ⟨node, hmem, ho, hp⟩

theorem IsPoint.pointUp_root (h : IsPoint nodes) (id : String) (hid : id ∈ rootIds) :
    pointUp nodes id = none := by
  refine Option.eq_none_iff_forall_ne_some.mpr fun p hp => ?_
  obtain ⟨node, hmem, rfl, -⟩ := pointUp_eq_some hp
  exact h.notRoot hmem hid

/-- **A node of a point is not below itself.** -/
theorem IsPoint.not_below_self (h : IsPoint nodes) (hmem : node ∈ nodes) :
    ¬ Below (pointUp nodes) node.o node.o :=
  (h.rooted hmem).not_below h.pointUp_root

/-- The folders that are popped are those inside. -/
theorem reached_iff (hk : folder.k = .folder) {x : String} :
    Reached (pointFolders nodes) [folder.o] x ↔
      ∃ node, IsInside nodes folder node ∧ node.k = .folder ∧ node.o = x := by
  constructor
  · intro hx
    induction hx with
    | start hx => exact ⟨folder, .self, hk, (List.mem_singleton.mp hx).symm⟩
    | kid _ hy ih =>
      obtain ⟨parent, hparent, hpk, rfl⟩ := ih
      obtain ⟨node, hmem, rfl, hp, hnk⟩ := mem_foldersIn.mp hy
      exact ⟨node, .child hparent hmem hpk hp, hnk, rfl⟩
  · rintro ⟨node, hinside, hnk, rfl⟩
    induction hinside with
    | self => exact .start (List.mem_singleton_self _)
    | child _ hmem hpk hp ih => exact .kid (ih hpk) (mem_foldersIn.mpr ⟨_, hmem, rfl, hp, hnk⟩)

theorem IsInside.eq_or_below (h : IsPoint nodes) (hinside : IsInside nodes folder node) :
    node = folder ∨ Below (pointUp nodes) folder.o node.o := by
  induction hinside with
  | self => exact Or.inl rfl
  | child _ hmem _ hp ih =>
    refine Or.inr (below_iff.mpr ⟨_, h.pointUp_of_mem hmem, ?_⟩)
    rw [hp]
    exact ih.imp (congrArg PointNode.o) id

theorem mem_pointAncestors {fuel : ℕ} {id x : String} : x ∈ pointAncestors nodes fuel id ↔
    ∃ k < fuel, (forestOf PointNode.o PointNode.p nodes).climb k id = some x ∧
      (pointById nodes x).isSome := by
  induction fuel generalizing id with
  | zero => exact iff_of_false List.not_mem_nil (by rintro ⟨k, hk, -⟩; exact absurd hk (Nat.not_lt_zero k))
  | succ fuel ih =>
    have hup : (forestOf PointNode.o PointNode.p nodes).up id = (pointById nodes id).map PointNode.p :=
      congrFun (up_forestOf PointNode.o PointNode.p nodes) id
    rw [pointAncestors]
    cases hid : pointById nodes id with
    | none =>
      rw [hid] at hup
      refine iff_of_false List.not_mem_nil ?_
      rintro ⟨_ | k, -, hclimb, hx⟩
      · obtain rfl := Option.some.inj hclimb
        rw [hid] at hx
        cases hx
      · rw [Forest.climb, hup] at hclimb
        cases hclimb
    | some parent =>
      rw [hid] at hup
      obtain ⟨-, ho⟩ := mem_of_byId hid
      have hclimb : ∀ k, (forestOf PointNode.o PointNode.p nodes).climb (k + 1) id =
          (forestOf PointNode.o PointNode.p nodes).climb k parent.p := fun k => by
        rw [Forest.climb, hup]
        rfl
      rw [List.mem_cons, ih]
      constructor
      · rintro (rfl | ⟨k, hk, hx, hsome⟩)
        · exact ⟨0, Nat.succ_pos fuel, by rw [ho]; rfl, by rw [ho, hid]; rfl⟩
        · exact ⟨k + 1, Nat.succ_lt_succ hk, (hclimb k).trans hx, hsome⟩
      · rintro ⟨_ | k, hk, hx, hsome⟩
        · obtain rfl := Option.some.inj hx
          exact Or.inl ho.symm
        · exact Or.inr ⟨k, Nat.lt_of_succ_lt_succ hk, (hclimb k).symm.trans hx, hsome⟩

/-- **What the plan covers** is what is inside the folder, and what only has to exist is what
is above it. -/
theorem exists_coverOf (h : IsPoint nodes) (hfolder : folder ∈ nodes) (hk : folder.k = .folder) :
    ∃ cover, coverOf nodes (.folder folder.o) = some cover ∧ IsFolderCover nodes folder cover := by
  have hfound : pointById nodes folder.o = some folder := (byId_eq_some_iff h.distinct).mpr ⟨hfolder, rfl⟩
  refine ⟨_, by rw [coverOf, hfound]; exact if_pos hk, fun node hmem => ?_, fun node hmem => ?_⟩
  · have hpopped : ∀ x, x ∈ walk (pointFolders nodes) nodes.length [folder.o] ↔
        ∃ parent, IsInside nodes folder parent ∧ parent.k = .folder ∧ parent.o = x := fun x =>
      (mem_walk_foldersIn h.distinct (fun _ hmem => h.not_below_self hmem)
        (List.mem_map_of_mem hfolder)).trans (reached_iff hk)
    rw [List.mem_cons, List.mem_flatMap]
    constructor
    · rintro (ho | ⟨x, hx, hin⟩)
      · rw [h.eq_of_o hmem hfolder ho]
        exact .self
      · obtain ⟨parent, hparent, hpk, rfl⟩ := (hpopped x).mp hx
        obtain ⟨other, hother, ho⟩ := List.mem_map.mp hin
        obtain ⟨hother, hp⟩ := List.mem_filter.mp hother
        rw [← h.eq_of_o hother hmem ho]
        exact .child hparent hother hpk (of_decide_eq_true hp)
    · intro hinside
      cases hinside with
      | self => exact Or.inl rfl
      | child hparent _ hpk hp =>
        refine Or.inr ⟨_, (hpopped _).mpr ⟨_, hparent, hpk, rfl⟩, ?_⟩
        exact List.mem_map_of_mem (List.mem_filter.mpr ⟨hmem, decide_eq_true hp⟩)
  · have hlength : (forestOf PointNode.o PointNode.p nodes).length = nodes.length := by simp [forestOf]
    have hup : (forestOf PointNode.o PointNode.p nodes).up = pointUp nodes :=
      up_forestOf PointNode.o PointNode.p nodes
    have hclimb : ∀ k, (forestOf PointNode.o PointNode.p nodes).climb (k + 1) folder.o =
        (forestOf PointNode.o PointNode.p nodes).climb k folder.p := fun k => by
      rw [Forest.climb, hup, h.pointUp_of_mem hfolder]
      rfl
    have hsome : (pointById nodes node.o).isSome := by
      rw [show pointById nodes node.o = some node from (byId_eq_some_iff h.distinct).mpr ⟨hmem, rfl⟩]
      rfl
    rw [mem_pointAncestors, ← hup]
    constructor
    · rintro ⟨k, -, hk, -⟩
      exact Forest.below_iff_climb.mpr ⟨k + 1, Nat.succ_pos k, (hclimb k).trans hk⟩
    · intro hbelow
      obtain ⟨k, hpos, hle, hk⟩ := Forest.exists_climb_le_length hbelow
      obtain ⟨k, rfl⟩ := Nat.exists_eq_succ_of_ne_zero hpos.ne'
      exact ⟨k, by omega, (hclimb k).symm.trans hk, hsome⟩

theorem IsFolderCover.isWanted_iff {cover : RestoreCover} (hcover : IsFolderCover nodes folder cover)
    (hmem : node ∈ nodes) : IsWanted cover node ↔
      IsInside nodes folder node ∨ Below (pointUp nodes) node.o folder.o :=
  or_congr (hcover.inScope node hmem) (hcover.ancestors node hmem)

/-- With a node its parent is covered or has to exist. -/
theorem IsFolderCover.isClosed {cover : RestoreCover} (hcover : IsFolderCover nodes folder cover)
    (h : IsPoint nodes) (hfolder : folder ∈ nodes) {live : List LiveBookmarkNode} :
    IsClosedCover cover nodes live := by
  intro node hmem hwanted parent hparent ho _
  rw [hcover.isWanted_iff hparent]
  rcases (hcover.isWanted_iff hmem).mp hwanted with hinside | hbelow
  · cases hinside with
    | self => exact Or.inr (below_iff.mpr ⟨parent.o, ho ▸ h.pointUp_of_mem hfolder, Or.inl rfl⟩)
    | child hother hmem' _ hp =>
      have hsame := h.eq_of_o (hother.mem hfolder) hparent (hp.symm.trans ho.symm)
      exact Or.inl (hsame ▸ hother)
  · have hup : Below (pointUp nodes) parent.o node.o :=
      below_iff.mpr ⟨parent.o, ho ▸ h.pointUp_of_mem hmem, Or.inl rfl⟩
    exact Or.inr (hbelow.trans hup)

end Cover

/-! ### When a plan can be carried out -/

section Executable

variable {isSyncableUrl : String → Bool} {cover : RestoreCover} {nodes : List PointNode}
  {folder node : PointNode} {live : List LiveBookmarkNode}

/-- Whether a node is gone and will be restored. -/
def IsToRestore (isSyncableUrl : String → Bool) (cover : RestoreCover) (live : List LiveBookmarkNode)
    (node : PointNode) : Prop :=
  liveById live node.o = none ∧ IsWanted cover node ∧ isUnsyncable isSyncableUrl node = false

/-- Whether a node is somewhere else than in the point and will be moved. -/
def IsToMove (cover : RestoreCover) (live : List LiveBookmarkNode) (node : PointNode) : Prop :=
  ∃ existing, liveById live node.o = some existing ∧ MayEdit cover node existing ∧
    (existing.parentObjectId ≠ node.p ∨ existing.position ≠ some node.x)

theorem restore_isSome :
    (planNode isSyncableUrl cover live node).restore.isSome ↔ IsToRestore isSyncableUrl cover live node := by
  rw [planNode_restore]
  constructor
  · intro h
    obtain ⟨operation, hop⟩ := Option.isSome_iff_exists.mp h
    exact (Option.ite_none_right_eq_some.mp hop).1
  · rintro ⟨hgone, hwanted, hurl⟩
    rw [if_pos ⟨hgone, hwanted, hurl⟩]
    rfl

theorem move_isSome : (planNode isSyncableUrl cover live node).move.isSome ↔ IsToMove cover live node := by
  rw [planNode_move]
  constructor
  · intro h
    obtain ⟨operation, hop⟩ := Option.isSome_iff_exists.mp h
    obtain ⟨existing, hexisting, hop⟩ := Option.bind_eq_some_iff.mp hop
    obtain ⟨⟨hedit, hdiffers⟩, -⟩ := Option.ite_none_right_eq_some.mp hop
    exact ⟨existing, hexisting, hedit, hdiffers⟩
  · rintro ⟨existing, hexisting, hedit, hdiffers⟩
    rw [hexisting, Option.bind_some, if_pos ⟨hedit, hdiffers⟩]
    rfl

/-- **When a restore can be carried out**: what is restored or moved has a parent that is not
left out for its URL, and what is moved does not come to itself on the way up from its new
parent. -/
structure IsFeasible (isSyncableUrl : String → Bool) (cover : RestoreCover) (nodes : List PointNode)
    (live : List LiveBookmarkNode) : Prop where
  restored : ∀ node ∈ nodes, IsToRestore isSyncableUrl cover live node →
    IsParentKept isSyncableUrl nodes live node
  moved : ∀ earlier node rest, nodes = earlier ++ node :: rest → IsToMove cover live node →
    IsMovable isSyncableUrl cover nodes live earlier node

/-- Where the browser stands before the deletions. -/
structure IsBeforeDeletes (isSyncableUrl : String → Bool) (cover : RestoreCover) (nodes : List PointNode)
    (live moved : List LiveBookmarkNode) : Prop where
  forest : IsLiveForest moved
  up : liveUp moved = mixedUp isSyncableUrl cover nodes live nodes

/-- The operations before the deletions. -/
def restoresToMoves (isSyncableUrl : String → Bool) (cover : RestoreCover) (nodes : List PointNode)
    (live : List LiveBookmarkNode) : List PlannedOperation :=
  nodes.filterMap (fun node => (planNode isSyncableUrl cover live node).restore) ++
    nodes.filterMap (fun node => (planNode isSyncableUrl cover live node).update) ++
    nodes.filterMap (fun node => (planNode isSyncableUrl cover live node).move)

theorem exists_before_deletes (hpoint : IsPoint nodes) (hclosed : IsClosedCover cover nodes live)
    (hlive : IsLiveForest live) (h : IsFeasible isSyncableUrl cover nodes live) :
    ∃ moved, executeAll live (restoresToMoves isSyncableUrl cover nodes live) = some moved ∧
      IsBeforeDeletes isSyncableUrl cover nodes live moved := by
  have hphase₁ : IsPhase (afterRestore isSyncableUrl cover) _ _ nodes live :=
    isPhase_restore hpoint hclosed
  obtain ⟨live₁, hrun₁, hforest₁, hover₁⟩ := hphase₁.passes hpoint hlive
    fun earlier node rest heq hsome =>
      h.restored node (by rw [heq]; exact List.mem_append_right _ List.mem_cons_self)
        (restore_isSome.mp hsome)
  have hphase₂ : IsPhase (afterUpdate isSyncableUrl cover) _ _ nodes live₁ := isPhase_update hpoint hover₁
  obtain ⟨live₂, hrun₂, hforest₂, hover₂⟩ := hphase₂.passes hpoint hforest₁ fun _ _ _ _ _ => trivial
  have hphase₃ : IsPhase (afterMove cover) _ (IsMovable isSyncableUrl cover nodes live) nodes live₂ :=
    isPhase_move hpoint hclosed hover₁ hover₂
  obtain ⟨live₃, hrun₃, hforest₃, hover₃⟩ := hphase₃.passes hpoint hforest₂
    fun earlier node rest heq hsome => h.moved earlier node rest heq (move_isSome.mp hsome)
  have htrue : ∀ {good : List LiveBookmarkNode → Prop} {a b : List LiveBookmarkNode}
      {operations : List PlannedOperation}, Passes good a operations b →
      Passes (fun _ => True) a operations b := fun h => h.mono fun _ _ => trivial
  refine ⟨live₃, (((htrue hrun₁).append (htrue hrun₂)).append (htrue hrun₃)).executeAll, hforest₃,
    liveUp_eq_mixedUp hpoint hover₁ hover₂ hover₃ (List.Subset.refl _)⟩

/-- **A plan that was carried out was feasible.** -/
theorem feasible_of_run (hpoint : IsPoint nodes) (hclosed : IsClosedCover cover nodes live)
    (hlive : IsLiveForest live)
    (hrun : (executeAll live (restoresToMoves isSyncableUrl cover nodes live)).isSome) :
    IsFeasible isSyncableUrl cover nodes live := by
  rw [restoresToMoves, executeAll_append, executeAll_append] at hrun
  obtain ⟨moved, hmoved⟩ := Option.isSome_iff_exists.mp hrun
  obtain ⟨live₂, hrun₂, hrun₃⟩ := Option.bind_eq_some_iff.mp hmoved
  obtain ⟨live₁, hrun₁, hrun₂⟩ := Option.bind_eq_some_iff.mp hrun₂
  have hphase₁ : IsPhase (afterRestore isSyncableUrl cover) _ _ nodes live :=
    isPhase_restore hpoint hclosed
  have hpossible₁ := hphase₁.possible_of_run hpoint hlive (by rw [hrun₁]; rfl)
  obtain ⟨live₁', hpass₁, hforest₁, hover₁⟩ := hphase₁.passes hpoint hlive hpossible₁
  obtain rfl := Option.some.inj (hrun₁.symm.trans hpass₁.executeAll)
  have hphase₂ : IsPhase (afterUpdate isSyncableUrl cover) _ _ nodes live₁ := isPhase_update hpoint hover₁
  obtain ⟨live₂', hpass₂, hforest₂, hover₂⟩ := hphase₂.passes hpoint hforest₁ fun _ _ _ _ _ => trivial
  obtain rfl := Option.some.inj (hrun₂.symm.trans hpass₂.executeAll)
  have hphase₃ : IsPhase (afterMove cover) _ (IsMovable isSyncableUrl cover nodes live) nodes live₂ :=
    isPhase_move hpoint hclosed hover₁ hover₂
  refine ⟨fun node hmem hrestore => ?_, fun earlier node rest heq hmove => ?_⟩
  · obtain ⟨earlier, rest, heq, -⟩ := hpoint.of_mem hmem
    exact hpossible₁ earlier node rest heq (restore_isSome.mpr hrestore)
  · exact hphase₃.possible_of_run hpoint hforest₂ (by rw [hrun₃]; rfl) earlier node rest heq
      (move_isSome.mpr hmove)

/-- **Whether a plan can be carried out** is settled before the deletions. -/
theorem isSome_executeAll_iff (hpoint : IsPoint nodes) (hclosed : IsClosedCover cover nodes live)
    (hlive : IsLiveForest live) {deletions : List PlannedOperation}
    (hdelete : ∀ operation ∈ deletions, operation.change = .delete) :
    (executeAll live (restoresToMoves isSyncableUrl cover nodes live ++ deletions)).isSome ↔
      IsFeasible isSyncableUrl cover nodes live := by
  rw [executeAll_append]
  constructor
  · intro hrun
    obtain ⟨last, hlast⟩ := Option.isSome_iff_exists.mp hrun
    obtain ⟨moved, hmoved, -⟩ := Option.bind_eq_some_iff.mp hlast
    exact feasible_of_run hpoint hclosed hlive (by rw [hmoved]; rfl)
  · intro h
    obtain ⟨moved, hmoved, hbefore⟩ := exists_before_deletes hpoint hclosed hlive h
    obtain ⟨last, hrun, -⟩ := passes_deletes hbefore.forest hdelete
    rw [hmoved, Option.bind_some, hrun.executeAll]
    rfl

/-! ### Without managed nodes -/

/-- What is restored or moved has a parent that is not left out for its URL. -/
def KeepsParents (isSyncableUrl : String → Bool) (cover : RestoreCover) (nodes : List PointNode)
    (live : List LiveBookmarkNode) : Prop :=
  ∀ node ∈ nodes, IsToRestore isSyncableUrl cover live node ∨ IsToMove cover live node →
    IsParentKept isSyncableUrl nodes live node

/-- The place of the folder is not below anything that the point has in it: with what is
restored in its place, the way up from the folder's parent comes to no such node. -/
def IsPlaceOutside (isSyncableUrl : String → Bool) (cover : RestoreCover) (nodes : List PointNode)
    (live : List LiveBookmarkNode) (folder : PointNode) : Prop :=
  ∀ node ∈ nodes, IsInside nodes folder node → (liveById live node.o).isSome →
    ¬ Below (mixedUp isSyncableUrl cover nodes live []) node.o folder.p

theorem mixedUp_of_live {earlier : List PointNode} (hpoint : IsPoint nodes) (hmem : node ∈ nodes)
    {existing : LiveBookmarkNode} (hexisting : liveById live node.o = some existing) :
    mixedUp isSyncableUrl cover nodes live earlier node.o =
      if node ∈ earlier ∧ MayEdit cover node existing then some node.p else some existing.parentObjectId := by
  have hnode : pointById nodes node.o = some node := (byId_eq_some_iff hpoint.distinct).mpr ⟨hmem, rfl⟩
  rw [mixedUp, hnode, hexisting]

theorem mixedUp_of_gone {earlier : List PointNode} (hpoint : IsPoint nodes) (hmem : node ∈ nodes)
    (hgone : liveById live node.o = none) :
    mixedUp isSyncableUrl cover nodes live earlier node.o =
      if IsWanted cover node ∧ isUnsyncable isSyncableUrl node = false then some node.p else none := by
  have hnode : pointById nodes node.o = some node := (byId_eq_some_iff hpoint.distinct).mpr ⟨hmem, rfl⟩
  rw [mixedUp, hnode, hgone]

/-- What is not moved has its parent at any time. -/
theorem mixedUp_outside (hpoint : IsPoint nodes) (hcover : IsFolderCover nodes folder cover) {id : String}
    (hout : ∀ node ∈ nodes, IsInside nodes folder node → node.o = id → liveById live id = none)
    (earlier : List PointNode) : mixedUp isSyncableUrl cover nodes live earlier id =
      mixedUp isSyncableUrl cover nodes live [] id := by
  cases hid : pointById nodes id with
  | none => rw [mixedUp, mixedUp, hid]
  | some node =>
    obtain ⟨hmem, rfl⟩ := mem_of_byId hid
    cases hlive : liveById live node.o with
    | none => rw [mixedUp_of_gone hpoint hmem hlive, mixedUp_of_gone hpoint hmem hlive]
    | some existing =>
      have hnot : ¬ MayEdit cover node existing := fun hedit => by
        have hgone := hout node hmem ((hcover.inScope node hmem).mp hedit.1) rfl
        rw [hlive] at hgone
        cases hgone
      rw [mixedUp_of_live hpoint hmem hlive, mixedUp_of_live hpoint hmem hlive, if_neg fun h => hnot h.2,
        if_neg fun h => hnot h.2]

/-- The parent of the folder is not inside it. -/
theorem IsInside.ne_parent (hpoint : IsPoint nodes) (hfolder : folder ∈ nodes)
    (h : IsInside nodes folder node) : node.o ≠ folder.p := by
  intro ho
  refine hpoint.not_below_self hfolder (below_iff.mpr ⟨_, hpoint.pointUp_of_mem hfolder, ?_⟩)
  rw [← ho]
  exact (h.eq_or_below hpoint).imp (congrArg PointNode.o) id

section NoneManaged

variable (hpoint : IsPoint nodes) (hcover : IsFolderCover nodes folder cover) (hfolder : folder ∈ nodes)
  (hmanaged : ∀ node ∈ nodes, IsInside nodes folder node → ∀ existing,
    liveById live node.o = some existing → existing.unmodifiable = false)

include hpoint hcover hfolder hmanaged

omit hfolder in
/-- What had its turn is in its place. -/
theorem mixedUp_inside {earlier : List PointNode} (hsub : earlier ⊆ nodes) (hmem : node ∈ earlier)
    (hinside : IsInside nodes folder node) {parent : String}
    (hup : mixedUp isSyncableUrl cover nodes live earlier node.o = some parent) : parent = node.p := by
  cases hlive : liveById live node.o with
  | none =>
    rw [mixedUp_of_gone hpoint (hsub hmem) hlive] at hup
    exact (Option.some.inj (Option.ite_none_right_eq_some.mp hup).2).symm
  | some existing =>
    have hedit : MayEdit cover node existing :=
      ⟨(hcover.inScope node (hsub hmem)).mpr hinside, hmanaged node (hsub hmem) hinside existing hlive⟩
    rw [mixedUp_of_live hpoint (hsub hmem) hlive, if_pos ⟨hmem, hedit⟩] at hup
    exact (Option.some.inj hup).symm

/-- **A node can be moved** at its turn if the folder's place is outside. -/
theorem not_below_of_outside (hout : IsPlaceOutside isSyncableUrl cover nodes live folder)
    {earlier rest : List PointNode} (heq : nodes = earlier ++ node :: rest) (hmove : IsToMove cover live node) :
    ¬ Below (mixedUp isSyncableUrl cover nodes live earlier) node.o node.p := by
  intro hbelow
  have hsub : earlier ⊆ nodes := by rw [heq]; exact List.subset_append_left _ _
  have hmem : node ∈ nodes := by rw [heq]; exact List.mem_append_right _ List.mem_cons_self
  obtain ⟨existing, hexisting, hedit, -⟩ := hmove
  have hinside : IsInside nodes folder node := (hcover.inScope node hmem).mp hedit.1
  have hnode := hpoint earlier node rest heq
  -- The parent of a node inside comes before it.
  have hbefore : ∀ {written others : List PointNode} {q parent : PointNode},
      nodes = written ++ q :: others → parent ∈ nodes → q.p = parent.o → parent ∈ written := by
    intro written others q parent hsplit hparent hp
    rcases (hpoint written q others hsplit).parent with hroot | hin
    · exact absurd (hp ▸ hroot) (hpoint.notRoot hparent)
    · obtain ⟨other, hother, ho⟩ := List.mem_map.mp hin
      have hother' : other ∈ nodes := by rw [hsplit]; exact List.mem_append_left _ hother
      exact hpoint.eq_of_o hother' hparent (ho.trans hp) ▸ hother
  -- What is above is inside and had its turn, or is above the folder's parent.
  have hclosed : ∀ a b, ((∃ q ∈ earlier, IsInside nodes folder q ∧ q.o = a) ∨ a = folder.p ∨
        Below (mixedUp isSyncableUrl cover nodes live []) a folder.p) →
      mixedUp isSyncableUrl cover nodes live earlier a = some b →
      (∃ q ∈ earlier, IsInside nodes folder q ∧ q.o = b) ∨ b = folder.p ∨
        Below (mixedUp isSyncableUrl cover nodes live []) b folder.p := by
    rintro a b (⟨q, hq, hqin, rfl⟩ | habove) hup
    · rw [mixedUp_inside hpoint hcover hmanaged hsub hq hqin hup]
      cases hqin with
      | self => exact Or.inr (Or.inl rfl)
      | @child parent _ hparent _ _ hp =>
        obtain ⟨written, others, hsplit⟩ := List.append_of_mem hq
        have hsplit' : nodes = written ++ q :: (others ++ node :: rest) := by
          rw [heq, hsplit, List.append_assoc]
          rfl
        have hwritten := hbefore hsplit' (hparent.mem hfolder) hp
        exact Or.inl ⟨parent, hsplit ▸ List.mem_append_left _ hwritten, hparent, hp.symm⟩
    · have hgone : ∀ q ∈ nodes, IsInside nodes folder q → q.o = a → liveById live a = none := by
        rintro q hq hqin rfl
        by_contra hne
        rcases habove with ho | habove
        · exact hqin.ne_parent hpoint hfolder ho
        · exact hout q hq hqin (Option.isSome_iff_ne_none.mpr hne) habove
      rw [mixedUp_outside hpoint hcover hgone] at hup
      refine Or.inr (Or.inr ?_)
      have hstep : Below (mixedUp isSyncableUrl cover nodes live []) b a :=
        below_iff.mpr ⟨b, hup, Or.inl rfl⟩
      rcases habove with rfl | habove
      · exact hstep
      · exact habove.trans hstep
  have hstart : (∃ q ∈ earlier, IsInside nodes folder q ∧ q.o = node.p) ∨ node.p = folder.p ∨
      Below (mixedUp isSyncableUrl cover nodes live []) node.p folder.p := by
    cases hinside with
    | self => exact Or.inr (Or.inl rfl)
    | @child parent _ hparent _ _ hp =>
      exact Or.inl ⟨parent, hbefore heq (hparent.mem hfolder) hp, hparent, hp.symm⟩
  rcases Below.mem_of_closed hclosed hstart hbelow with ⟨q, hq, -, ho⟩ | ho | habove
  · exact hnode.fresh (ho ▸ List.mem_map_of_mem hq)
  · exact hinside.ne_parent hpoint hfolder ho
  · exact hout node hmem hinside (by rw [hexisting]; rfl) habove

/-- In the end what is inside is below the folder's parent. -/
theorem below_parent_of_inside (hinside : IsInside nodes folder node)
    (hpresent : (liveById live node.o).isSome ∨ node.k = .folder) :
    Below (mixedUp isSyncableUrl cover nodes live nodes) folder.p node.o := by
  have hup : ∀ q ∈ nodes, IsInside nodes folder q → (liveById live q.o).isSome ∨ q.k = .folder →
      mixedUp isSyncableUrl cover nodes live nodes q.o = some q.p := by
    intro q hq hqin hqpresent
    cases hlive : liveById live q.o with
    | none =>
      rw [hlive] at hqpresent
      have hk := hqpresent.resolve_left nofun
      have hwanted : IsWanted cover q := Or.inl ((hcover.inScope q hq).mpr hqin)
      rw [mixedUp_of_gone hpoint hq hlive, if_pos ⟨hwanted, by rw [isUnsyncable, hk]; rfl⟩]
    | some existing =>
      have hedit : MayEdit cover q existing :=
        ⟨(hcover.inScope q hq).mpr hqin, hmanaged q hq hqin existing hlive⟩
      rw [mixedUp_of_live hpoint hq hlive, if_pos ⟨hq, hedit⟩]
  induction hinside with
  | self => exact below_iff.mpr ⟨folder.p, hup folder hfolder .self hpresent, Or.inl rfl⟩
  | @child parent node hparent hmem hk hp ih =>
    refine below_iff.mpr ⟨node.p, hup node hmem (.child hparent hmem hk hp) hpresent, Or.inr ?_⟩
    rw [hp]
    exact ih (Or.inr hk)

/-- **If a plan can be carried out the folder's place is outside**: otherwise the way up from
the folder's parent comes to a node inside, and once that is in its place from there to the
folder and back to the folder's parent. -/
theorem isPlaceOutside_of_feasible (hlive : IsLiveForest live)
    (h : IsFeasible isSyncableUrl cover nodes live) :
    IsPlaceOutside isSyncableUrl cover nodes live folder := by
  intro node hmem hinside hsome hbelow
  obtain ⟨moved, -, hbefore⟩ := exists_before_deletes hpoint (hcover.isClosed hpoint hfolder) hlive h
  have hmeets : ∀ a, Below (mixedUp isSyncableUrl cover nodes live []) node.o a →
      (∀ q ∈ nodes, IsInside nodes folder q → q.o = a → liveById live a = none) →
      ∃ q ∈ nodes, IsInside nodes folder q ∧ (liveById live q.o).isSome ∧
        Below (mixedUp isSyncableUrl cover nodes live nodes) q.o a := by
    intro a ha
    induction ha using Relation.TransGen.head_induction_on with
    | single hstep =>
      intro hout
      refine ⟨node, hmem, hinside, hsome, below_iff.mpr ⟨node.o, ?_, Or.inl rfl⟩⟩
      exact (mixedUp_outside hpoint hcover hout nodes).trans hstep
    | @head a b hstep _ ih =>
      intro hout
      have hup : mixedUp isSyncableUrl cover nodes live nodes a = some b :=
        (mixedUp_outside hpoint hcover hout nodes).trans hstep
      by_cases hb : ∀ q ∈ nodes, IsInside nodes folder q → q.o = b → liveById live b = none
      · obtain ⟨q, hq, hqin, hqsome, hqbelow⟩ := ih hb
        exact ⟨q, hq, hqin, hqsome, below_iff.mpr ⟨b, hup, Or.inr hqbelow⟩⟩
      · push Not at hb
        obtain ⟨q, hq, hqin, rfl, hqsome⟩ := hb
        exact ⟨q, hq, hqin, Option.isSome_iff_ne_none.mpr hqsome, below_iff.mpr ⟨q.o, hup, Or.inl rfl⟩⟩
  have hparent : ∀ q ∈ nodes, IsInside nodes folder q → q.o = folder.p → liveById live folder.p = none :=
    fun q _ hqin ho => absurd ho (hqin.ne_parent hpoint hfolder)
  obtain ⟨q, -, hqin, hqsome, hqbelow⟩ := hmeets folder.p hbelow hparent
  have hcycle := hqbelow.trans
    (below_parent_of_inside hpoint hcover hfolder hmanaged hqin (Or.inl hqsome))
  rw [← hbefore.up] at hcycle
  exact hbefore.forest.not_below_self hcycle

/-- **Without managed nodes a plan can be carried out** exactly if parents are kept and the
folder's place is outside. -/
theorem isFeasible_iff (hlive : IsLiveForest live) : IsFeasible isSyncableUrl cover nodes live ↔
    KeepsParents isSyncableUrl cover nodes live ∧ IsPlaceOutside isSyncableUrl cover nodes live folder := by
  constructor
  · intro h
    refine ⟨fun node hmem hcase => ?_, isPlaceOutside_of_feasible hpoint hcover hfolder hmanaged hlive h⟩
    obtain ⟨earlier, rest, heq, -⟩ := hpoint.of_mem hmem
    exact hcase.elim (h.restored node hmem) fun hmove => (h.moved earlier node rest heq hmove).1
  · rintro ⟨hkeeps, hout⟩
    refine ⟨fun node hmem hrestore => hkeeps node hmem (Or.inl hrestore), ?_⟩
    intro earlier node rest heq hmove
    have hmem : node ∈ nodes := by rw [heq]; exact List.mem_append_right _ List.mem_cons_self
    exact ⟨hkeeps node hmem (Or.inr hmove),
      not_below_of_outside hpoint hcover hfolder hmanaged hout heq hmove⟩

end NoneManaged

end Executable

/-- **When a restore of one folder can be carried out.** The plan's cover is what the point has
in the folder, and what is above it. Where none of the folder's nodes is managed, two things
are needed: no node that is restored or moved has a parent that is left out for its URL, and
the place of the folder is not below something that the point has in the folder. -/
theorem planRestore_folder_iff {isDate : String → Bool} {value : Json} {point : PointPlaintext}
    (hvalid : validatePoint isDate value = .ok point) {live : List LiveBookmarkNode}
    (hlive : IsLiveForest live) {folder : PointNode} (hfolder : folder ∈ point.nodes)
    (hk : folder.k = .folder) (isSyncableUrl : String → Bool) (mode : RestoreMode) :
    ∃ cover plan, coverOf point.nodes (.folder folder.o) = some cover ∧
      IsFolderCover point.nodes folder cover ∧
      planRestore isSyncableUrl point.nodes live mode (.folder folder.o) = .ok plan ∧
      ((executeAll live plan.operations).isSome ↔ IsFeasible isSyncableUrl cover point.nodes live) ∧
      ((∀ node ∈ point.nodes, IsInside point.nodes folder node → ∀ existing,
          liveById live node.o = some existing → existing.unmodifiable = false) →
        (IsFeasible isSyncableUrl cover point.nodes live ↔
          KeepsParents isSyncableUrl cover point.nodes live ∧
            IsPlaceOutside isSyncableUrl cover point.nodes live folder)) := by
  have hpoint := isPoint_of_validatePoint hvalid
  obtain ⟨cover, hcoverOf, hcover⟩ := exists_coverOf hpoint hfolder hk
  obtain ⟨plan, hplan, hoperations, -⟩ := planRestore_eq isSyncableUrl point.nodes live mode hcoverOf
  refine ⟨cover, plan, hcoverOf, hcover, hplan, ?_,
    fun hmanaged => isFeasible_iff hpoint hcover hfolder hmanaged hlive⟩
  rw [hoperations]
  exact isSome_executeAll_iff hpoint (hcover.isClosed hpoint hfolder) hlive fun _ => deletes_change

/-! ### A folder whose parent is now inside it -/

/-- A point with a folder inside another. -/
def nestedPoint : PointPlaintext where
  createdAt := "2026-01-01T00:00:00.000Z"
  deviceId := "11111111-1111-7111-8111-111111111111"
  kind := "manual"
  nodes := [
    ⟨"22222222-2222-7222-8222-222222222222", .folder, "Outer", none,
      "00000000-0000-7000-8000-000000000001", "V"⟩,
    ⟨"33333333-3333-7333-8333-333333333333", .folder, "Inner", none,
      "22222222-2222-7222-8222-222222222222", "V"⟩]

/-- A browser in which the user has turned them round. -/
def turnedLive : List LiveBookmarkNode := [
  ⟨"33333333-3333-7333-8333-333333333333", .folder, "Inner", none,
    "00000000-0000-7000-8000-000000000001", some "V", false⟩,
  ⟨"22222222-2222-7222-8222-222222222222", .folder, "Outer", none,
    "33333333-3333-7333-8333-333333333333", some "V", false⟩]

theorem isLiveForest_turnedLive : IsLiveForest turnedLive where
  distinct := by decide
  notRoot := by decide
  rooted := by
    have hinner : Rooted (· ∈ rootIds) (liveUp turnedLive) "33333333-3333-7333-8333-333333333333" :=
      .step (y := "00000000-0000-7000-8000-000000000001") rfl (.root (by decide))
    intro node hnode
    rcases List.mem_cons.mp hnode with rfl | hnode
    · exact hinner
    · obtain rfl := List.mem_singleton.mp hnode
      exact .step rfl hinner

/-- **A restore of the inner folder cannot be carried out**: it would put the folder under the
outer one, which is in it. -/
theorem planRestore_folder_stuck :
    validatePoint (fun _ => true) nestedPoint.value = .ok nestedPoint ∧ IsLiveForest turnedLive ∧
      ∃ folder ∈ nestedPoint.nodes, folder.k = .folder ∧ ∀ mode, ∃ plan,
        planRestore (fun _ => true) nestedPoint.nodes turnedLive mode (.folder folder.o) = .ok plan ∧
          executeAll turnedLive plan.operations = none := by
  refine ⟨rfl, isLiveForest_turnedLive, _, List.mem_cons_of_mem _ List.mem_cons_self, rfl, ?_⟩
  rintro (_ | _)
  · exact ⟨_, rfl, rfl⟩
  · exact ⟨_, rfl, rfl⟩

/-- The theorem for the inner folder. -/
theorem planRestore_folder_iff_nested : ∃ cover plan,
    planRestore (fun _ => true) nestedPoint.nodes turnedLive .merge
      (.folder "33333333-3333-7333-8333-333333333333") = .ok plan ∧
      ((executeAll turnedLive plan.operations).isSome ↔
        IsFeasible (fun _ => true) cover nestedPoint.nodes turnedLive) := by
  have hvalid : validatePoint (fun _ => true) nestedPoint.value = .ok nestedPoint := rfl
  obtain ⟨cover, plan, -, -, hplan, hiff, -⟩ := planRestore_folder_iff hvalid isLiveForest_turnedLive
    (List.mem_cons_of_mem _ List.mem_cons_self) rfl (fun _ => true) .merge
  exact ⟨cover, plan, hplan, hiff⟩

end Client

end HelixSync
