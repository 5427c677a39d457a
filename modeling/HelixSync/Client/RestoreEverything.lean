import HelixSync.Client.RestoreSteps

/-!
# Restoring everything

A restore of a whole point brings the browser to it
(`HelixSync.Client.planRestore_reaches`). What it makes of a node depends on the node of the
point and on what the browser has for it, and not on what is planned in between
(`HelixSync.Client.target`): each operation leaves this as it is, so a plan made from any
state on the way leads to the same end.

All nodes of the point are put in their places, parents first. When the turn of a node
comes, the way up from its new parent is the one in the point, so it does not come to the
node; and once all moves are done nothing of the point is below what the point does not hold.
-/

namespace HelixSync

namespace Client

open ParentChains

/-- The cover of everything. -/
def fullCover (nodes : List PointNode) : RestoreCover := ⟨nodes.map PointNode.o, []⟩

/-- What a restore of everything is made for: a point in which only folders have children,
and bookmarks of which none is managed and that have the point's kinds. Folders of the
browser have no URL. -/
structure IsRestorable (nodes : List PointNode) (live : List LiveBookmarkNode) : Prop where
  point : IsPoint nodes
  folders : ∀ node ∈ nodes, ∀ parent ∈ nodes, parent.o = node.p → parent.k = .folder
  forest : IsLiveForest live
  sameKind : ∀ node ∈ nodes, ∀ existing, liveById live node.o = some existing → existing.kind = node.k
  notManaged : ∀ id existing, liveById live id = some existing → existing.unmodifiable = false
  folderUrl : ∀ id existing, liveById live id = some existing → existing.kind = .folder →
    existing.url = none

/-- Whether a node of the point is counted as skipped. -/
def isSkipped (isSyncableUrl : String → Bool) (live : List LiveBookmarkNode) (node : PointNode) : Bool :=
  isUnsyncable isSyncableUrl node && (liveById live node.o).all fun existing => existing.url ≠ node.u

section Target

variable (isSyncableUrl : String → Bool) (nodes : List PointNode) (mode : RestoreMode)
  (live : List LiveBookmarkNode)

/-- What a restore of everything makes of a node of the point. -/
def settled (node : PointNode) (current : Option LiveBookmarkNode) : Option LiveBookmarkNode :=
  afterMove (fullCover nodes) node (afterUpdate isSyncableUrl (fullCover nodes) node
    (afterRestore isSyncableUrl (fullCover nodes) node current))

/-- **What a restore of everything leads to.** -/
def target (id : String) : Option LiveBookmarkNode :=
  match pointById nodes id with
  | some node => settled isSyncableUrl nodes node (liveById live id)
  | none => if mode = .merge then liveById live id else none

end Target

section Settled

variable {isSyncableUrl : String → Bool} {nodes earlier : List PointNode} {node : PointNode}
  {mode : RestoreMode} {live mid : List LiveBookmarkNode} {current : Option LiveBookmarkNode}
  {existing : LiveBookmarkNode}

/-- What can be there for a node of the point. -/
structure Fits (node : PointNode) (existing : LiveBookmarkNode) : Prop where
  kind : existing.kind = node.k
  notManaged : existing.unmodifiable = false
  folderUrl : existing.kind = .folder → existing.url = none

theorem isWanted_fullCover (hmem : node ∈ nodes) : IsWanted (fullCover nodes) node :=
  Or.inl (List.mem_map_of_mem hmem)

theorem mayEdit_fullCover (hmem : node ∈ nodes) (hfits : Fits node existing) :
    MayEdit (fullCover nodes) node existing :=
  ⟨List.mem_map_of_mem hmem, hfits.notManaged⟩

/-! ### What a phase leaves as it is -/

theorem fits_restoredNode : Fits node (restoredNode node) := by
  refine ⟨rfl, rfl, fun hkind => ?_⟩
  rw [restoredNode, if_neg]
  rw [show node.k = .folder from hkind]
  decide

theorem afterUpdate_eq (hmem : node ∈ nodes) (hfits : Fits node existing) :
    afterUpdate isSyncableUrl (fullCover nodes) node (some existing) =
      some (existing.edited (changedTitle node existing) (changedUrl isSyncableUrl node existing)) :=
  congrArg some (if_pos (mayEdit_fullCover hmem hfits))

theorem afterMove_eq (hmem : node ∈ nodes) (hfits : Fits node existing) :
    afterMove (fullCover nodes) node (some existing) = some (existing.placed node.p node.x) :=
  congrArg some (if_pos (mayEdit_fullCover hmem hfits))

theorem Fits.edited (hfits : Fits node existing) :
    Fits node (existing.edited (changedTitle node existing) (changedUrl isSyncableUrl node existing)) := by
  refine ⟨hfits.kind, hfits.notManaged, fun hkind => ?_⟩
  have hurl : changedUrl isSyncableUrl node existing = none := by
    refine if_neg fun h => ?_
    rw [← hfits.kind, show existing.kind = .folder from hkind] at h
    exact absurd h.1 nofun
  rw [LiveBookmarkNode.edited, hurl]
  exact hfits.folderUrl hkind

theorem Fits.placed (hfits : Fits node existing) : Fits node (existing.placed node.p node.x) :=
  ⟨hfits.kind, hfits.notManaged, hfits.folderUrl⟩

theorem changedTitle_edited {url : Option String} :
    changedTitle node (existing.edited (changedTitle node existing) url) = none := by
  refine if_neg (not_not_intro ?_)
  rw [LiveBookmarkNode.edited, changedTitle]
  split
  · rfl
  · next hsame => exact of_not_not hsame

theorem changedUrl_edited {title : Option String} :
    changedUrl isSyncableUrl node (existing.edited title (changedUrl isSyncableUrl node existing)) =
      none := by
  by_cases hchanged : node.k = .bookmark ∧ existing.url ≠ node.u ∧ isSyncableUrl (node.u.getD "")
  · have hurl : changedUrl isSyncableUrl node existing = node.u := if_pos hchanged
    rw [hurl]
    cases hu : node.u with
    | none => rw [changedUrl, hu, ite_self]
    | some u =>
      refine if_neg fun h => h.2.1 ?_
      rw [hu]
      rfl
  · have hurl : changedUrl isSyncableUrl node existing = none := if_neg hchanged
    rw [hurl]
    exact hurl

theorem edited_none : existing.edited none none = existing := rfl

/-- **An edit leaves nothing to edit.** -/
theorem edited_edited :
    (existing.edited (changedTitle node existing) (changedUrl isSyncableUrl node existing)).edited
      (changedTitle node
        (existing.edited (changedTitle node existing) (changedUrl isSyncableUrl node existing)))
      (changedUrl isSyncableUrl node
        (existing.edited (changedTitle node existing) (changedUrl isSyncableUrl node existing))) =
      existing.edited (changedTitle node existing) (changedUrl isSyncableUrl node existing) := by
  rw [changedTitle_edited, changedUrl_edited, edited_none]

theorem settled_some (hmem : node ∈ nodes) (hfits : Fits node existing) :
    settled isSyncableUrl nodes node (some existing) =
      some ((existing.edited (changedTitle node existing)
        (changedUrl isSyncableUrl node existing)).placed node.p node.x) := by
  rw [settled, afterRestore, afterUpdate_eq hmem hfits, afterMove_eq hmem hfits.edited]

theorem settled_none (hmem : node ∈ nodes) : settled isSyncableUrl nodes node none =
    if isUnsyncable isSyncableUrl node = false then some (restoredNode node) else none := by
  rw [settled, afterRestore]
  by_cases hurl : isUnsyncable isSyncableUrl node = false
  · rw [if_pos ⟨isWanted_fullCover hmem, hurl⟩, if_pos hurl, afterUpdate_restoredNode,
      afterMove_restoredNode]
  · rw [if_neg fun h => hurl h.2, if_neg hurl]
    rfl

/-- A phase that keeps what a node has to become, and that it can become it. -/
def Gentle (isSyncableUrl : String → Bool) (nodes : List PointNode)
    (next : PointNode → Option LiveBookmarkNode → Option LiveBookmarkNode) : Prop :=
  ∀ node ∈ nodes, ∀ current, (∀ existing, current = some existing → Fits node existing) →
    (∀ existing, next node current = some existing → Fits node existing) ∧
      settled isSyncableUrl nodes node (next node current) = settled isSyncableUrl nodes node current

theorem gentle_afterRestore : Gentle isSyncableUrl nodes (afterRestore isSyncableUrl (fullCover nodes)) := by
  rintro node hmem (_ | existing) hfits
  · rw [afterRestore]
    by_cases hkept : IsWanted (fullCover nodes) node ∧ isUnsyncable isSyncableUrl node = false
    · rw [if_pos hkept]
      refine ⟨?_, ?_⟩
      · rintro existing heq
        obtain rfl := Option.some.inj heq
        exact fits_restoredNode
      · rw [settled_none hmem, if_pos hkept.2, settled, afterRestore, afterUpdate_restoredNode,
          afterMove_restoredNode]
    · rw [if_neg hkept]
      exact ⟨by rintro _ ⟨⟩, rfl⟩
  · exact ⟨hfits, rfl⟩

theorem gentle_afterUpdate : Gentle isSyncableUrl nodes (afterUpdate isSyncableUrl (fullCover nodes)) := by
  rintro node hmem (_ | existing) hfits
  · exact ⟨nofun, rfl⟩
  · have hfits := hfits existing rfl
    rw [afterUpdate_eq hmem hfits]
    refine ⟨?_, ?_⟩
    · rintro edited heq
      obtain rfl := Option.some.inj heq
      exact hfits.edited
    · rw [settled_some hmem hfits, settled_some hmem hfits.edited, edited_edited]

theorem gentle_afterMove : Gentle isSyncableUrl nodes (afterMove (fullCover nodes)) := by
  rintro node hmem (_ | existing) hfits
  · exact ⟨nofun, rfl⟩
  · have hfits := hfits existing rfl
    rw [afterMove_eq hmem hfits]
    refine ⟨?_, ?_⟩
    · rintro placed heq
      obtain rfl := Option.some.inj heq
      exact hfits.placed
    · rw [settled_some hmem hfits, settled_some hmem hfits.placed]
      rfl

/-! ### Any state on the way -/

theorem IsRestorable.fits (h : IsRestorable nodes live) (hmem : node ∈ nodes)
    (hexisting : liveById live node.o = some existing) : Fits node existing :=
  ⟨h.sameKind node hmem existing hexisting, h.notManaged _ existing hexisting,
    h.folderUrl _ existing hexisting⟩

/-- A restore of everything can be planned from any state on the way, and leads to the same
end. -/
structure LeadsTo (isSyncableUrl : String → Bool) (nodes : List PointNode) (mode : RestoreMode)
    (live mid : List LiveBookmarkNode) : Prop where
  restorable : IsRestorable nodes mid
  target : target isSyncableUrl nodes mode mid = target isSyncableUrl nodes mode live

theorem LeadsTo.trans {last : List LiveBookmarkNode} (h : LeadsTo isSyncableUrl nodes mode live mid)
    (h' : LeadsTo isSyncableUrl nodes mode mid last) : LeadsTo isSyncableUrl nodes mode live last :=
  ⟨h'.restorable, h'.target.trans h.target⟩

/-- A state in which each node of the point is as it was or has had a phase. -/
theorem leadsTo_of_nodes (h : IsRestorable nodes live) (hmid : IsLiveForest mid)
    (hnodes : ∀ node ∈ nodes,
      (∀ existing, liveById mid node.o = some existing → Fits node existing) ∧
        settled isSyncableUrl nodes node (liveById mid node.o) =
          settled isSyncableUrl nodes node (liveById live node.o))
    (hothers : ∀ id, id ∉ nodes.map PointNode.o →
      liveById mid id = liveById live id ∨ mode = .exactly ∧ liveById mid id = none) :
    LeadsTo isSyncableUrl nodes mode live mid := by
  have hall : ∀ id existing, liveById mid id = some existing →
      (∃ node ∈ nodes, Fits node existing) ∨ liveById live id = some existing := by
    intro id existing hexisting
    by_cases hid : id ∈ nodes.map PointNode.o
    · obtain ⟨node, hmem, rfl⟩ := List.mem_map.mp hid
      exact Or.inl ⟨node, hmem, (hnodes node hmem).1 existing hexisting⟩
    · rcases hothers id hid with heq | ⟨-, hnone⟩
      · exact Or.inr (heq ▸ hexisting)
      · rw [hnone] at hexisting
        exact absurd hexisting nofun
  refine ⟨⟨h.point, h.folders, hmid, ?_, ?_, ?_⟩, ?_⟩
  · exact fun node hmem existing hexisting => ((hnodes node hmem).1 existing hexisting).kind
  · intro id existing hexisting
    rcases hall id existing hexisting with ⟨_, _, hfits⟩ | hlive
    · exact hfits.notManaged
    · exact h.notManaged id existing hlive
  · intro id existing hexisting
    rcases hall id existing hexisting with ⟨_, _, hfits⟩ | hlive
    · exact hfits.folderUrl
    · exact h.folderUrl id existing hlive
  · funext id
    rw [target, target]
    cases hnode : pointById nodes id with
    | some node =>
      obtain ⟨hmem, rfl⟩ := mem_of_byId hnode
      exact (hnodes node hmem).2
    | none =>
      rcases hothers id (byId_eq_none_iff.mp hnode) with heq | ⟨rfl, -⟩
      · rw [heq]
      · rfl

theorem leadsTo_of_midPhase (h : IsRestorable nodes live)
    {next : PointNode → Option LiveBookmarkNode → Option LiveBookmarkNode}
    (hgentle : Gentle isSyncableUrl nodes next) (hmid : MidPhase next nodes live mid) :
    LeadsTo isSyncableUrl nodes mode live mid := by
  obtain ⟨hforest, earlier, hsub, hover⟩ := hmid
  refine leadsTo_of_nodes h hforest (fun node hmem => ?_) fun id hid => ?_
  · have hfits : ∀ existing, liveById live node.o = some existing → Fits node existing :=
      fun _ hexisting => h.fits hmem hexisting
    by_cases hearlier : node ∈ earlier
    · rw [hover.done node hearlier]
      exact hgentle node hmem _ hfits
    · rw [hover.rest]
      · exact ⟨hfits, rfl⟩
      · intro hid
        obtain ⟨other, hother, ho⟩ := List.mem_map.mp hid
        exact hearlier (List.inj_on_of_nodup_map h.point.distinct (hsub hother) hmem ho ▸ hother)
  · exact Or.inl (hover.rest id fun h => hid (List.map_subset _ hsub h))

/-! ### The run -/

theorem isClosedCover_full : IsClosedCover (fullCover nodes) nodes live :=
  fun _ _ _ _ hparent _ _ => isWanted_fullCover hparent

/-- A parent is a folder, so it is not left out. -/
theorem IsRestorable.isParentKept (h : IsRestorable nodes live) (hmem : node ∈ nodes) :
    IsParentKept isSyncableUrl nodes live node := by
  intro parent hparent ho _
  rw [isUnsyncable, h.folders node hmem parent hparent ho]
  rfl

/-- **The way up is the point's** for the nodes that had their turn. -/
theorem IsRestorable.mixedUp_eq (h : IsRestorable nodes live) (hsub : earlier ⊆ nodes)
    (hmem : node ∈ earlier) {parent : String}
    (hup : mixedUp isSyncableUrl (fullCover nodes) nodes live earlier node.o = some parent) :
    parent = node.p := by
  have hnode : pointById nodes node.o = some node :=
    (byId_eq_some_iff h.point.distinct).mpr ⟨hsub hmem, rfl⟩
  rw [mixedUp, hnode] at hup
  cases hlive : liveById live node.o with
  | none =>
    rw [hlive] at hup
    obtain ⟨-, hup⟩ := Option.ite_none_right_eq_some.mp hup
    exact (Option.some.inj hup).symm
  | some existing =>
    have hedit := mayEdit_fullCover (hsub hmem) (h.fits (hsub hmem) hlive)
    rw [hlive] at hup
    exact (Option.some.inj ((if_pos ⟨hmem, hedit⟩).symm.trans hup)).symm

theorem IsRestorable.mixedUp_root (h : IsRestorable nodes live) {id : String} (hid : id ∈ rootIds) :
    mixedUp isSyncableUrl (fullCover nodes) nodes live earlier id = none := by
  have hnode : pointById nodes id = none := by
    rw [pointById, byId_eq_none_iff, List.mem_map]
    rintro ⟨node, hmem, rfl⟩
    exact h.point.notRoot hmem hid
  rw [mixedUp, hnode, h.forest.liveById_root hid]
  rfl

/-- **What is above a node in its place** is a root or a node of the point that is in its
place. -/
theorem IsRestorable.above (h : IsRestorable nodes live) {written : List PointNode}
    (hsub : written ⊆ nodes)
    (hparents : ∀ node ∈ written, node.p ∈ rootIds ∨ node.p ∈ written.map PointNode.o) {top id : String}
    (hid : id ∈ rootIds ∨ id ∈ written.map PointNode.o)
    (hbelow : Below (mixedUp isSyncableUrl (fullCover nodes) nodes live written) top id) :
    top ∈ rootIds ∨ top ∈ written.map PointNode.o := by
  refine hbelow.mem_of_closed (s := fun a => a ∈ rootIds ∨ a ∈ written.map PointNode.o) ?_ hid
  rintro a b (hroot | ha) hup
  · rw [h.mixedUp_root hroot] at hup
    exact absurd hup nofun
  · obtain ⟨node, hmem, rfl⟩ := List.mem_map.mp ha
    rw [h.mixedUp_eq hsub hmem hup]
    exact hparents node hmem

/-- **Every node can be moved** at its turn. -/
theorem IsRestorable.isMovable (h : IsRestorable nodes live) {rest : List PointNode}
    (heq : nodes = earlier ++ node :: rest) :
    IsMovable isSyncableUrl (fullCover nodes) nodes live earlier node := by
  have hsub : earlier ⊆ nodes := by rw [heq]; exact List.subset_append_left _ _
  have hmem : node ∈ nodes := by rw [heq]; exact List.mem_append_right _ List.mem_cons_self
  have hnode := h.point earlier node rest heq
  refine ⟨h.isParentKept hmem, fun hbelow => ?_⟩
  have habove := h.above hsub (fun other hother => ?_) hnode.parent hbelow
  · exact habove.elim hnode.notRoot hnode.fresh
  · obtain ⟨before, after, hsplit⟩ := List.append_of_mem hother
    have hother' := h.point before other (after ++ node :: rest) (by rw [heq, hsplit, List.append_assoc]; rfl)
    refine hother'.parent.imp_right fun hp => ?_
    rw [hsplit, List.map_append]
    exact List.mem_append_left _ hp

/-- What the point does not hold is unwanted. -/
theorem IsRestorable.mem_unwanted_all (h : IsRestorable nodes live) {id : String}
    (hid : (liveById live id).isSome) (hnot : pointById nodes id = none) :
    id ∈ unwanted nodes live .all := by
  obtain ⟨existing, hexisting⟩ := Option.isSome_iff_exists.mp hid
  obtain ⟨hmem, rfl⟩ := h.forest.liveById_eq_some_iff.mp hexisting
  exact mem_unwanted.mpr ⟨existing, hmem, rfl, hnot, h.notManaged _ existing hexisting⟩

theorem deletes_outside {top : String}
    (htop : top ∈ (deletes nodes live .exactly .all).map PlannedOperation.objectId) :
    top ∉ rootIds ∧ top ∉ nodes.map PointNode.o := by
  obtain ⟨_, _, _, hunwanted, _, hroot⟩ := mem_deletes.mp htop
  obtain ⟨_, _, _, hnone, _⟩ := mem_unwanted.mp hunwanted
  exact ⟨hroot, byId_eq_none_iff.mp hnone⟩

/-- **Once the moves are done nothing of the point is deleted.** -/
theorem IsRestorable.not_deleted (h : IsRestorable nodes live) (hmem : node ∈ nodes) {top : String}
    (htop : top ∈ (deletes nodes live .exactly .all).map PlannedOperation.objectId) :
    node.o ≠ top ∧
      ¬ Below (mixedUp isSyncableUrl (fullCover nodes) nodes live nodes) top node.o := by
  obtain ⟨hroot, hnot⟩ := deletes_outside htop
  refine ⟨?_, fun hbelow => ?_⟩
  · rintro rfl
    exact hnot (List.mem_map_of_mem hmem)
  · have habove := h.above (List.Subset.refl nodes) (fun other hother => ?_)
      (Or.inr (List.mem_map_of_mem hmem)) hbelow
    · exact habove.elim hroot hnot
    · exact (h.point.parent_mem hother).imp_right fun ⟨parent, hparent, ho⟩ =>
        List.mem_map.mpr ⟨parent, hparent, ho⟩

/-- Where the browser stands when the moves are done. -/
structure IsMoved (isSyncableUrl : String → Bool) (nodes : List PointNode)
    (live moved : List LiveBookmarkNode) : Prop where
  up : liveUp moved = mixedUp isSyncableUrl (fullCover nodes) nodes live nodes
  inside : ∀ node ∈ nodes, liveById moved node.o = settled isSyncableUrl nodes node (liveById live node.o)
  outside : ∀ id, pointById nodes id = none → liveById moved id = liveById live id

/-- **Restores, updates and moves** can be carried out. -/
theorem IsRestorable.exists_moved (h : IsRestorable nodes live) (mode : RestoreMode) :
    ∃ moved, Passes (LeadsTo isSyncableUrl nodes mode live) live
      (nodes.filterMap (fun node => (planNode isSyncableUrl (fullCover nodes) live node).restore) ++
        nodes.filterMap (fun node => (planNode isSyncableUrl (fullCover nodes) live node).update) ++
        nodes.filterMap (fun node => (planNode isSyncableUrl (fullCover nodes) live node).move)) moved ∧
      LeadsTo isSyncableUrl nodes mode live moved ∧ IsMoved isSyncableUrl nodes live moved := by
  -- The restores.
  have hphase₁ : IsPhase (afterRestore isSyncableUrl (fullCover nodes)) _ _ nodes live :=
    isPhase_restore h.point isClosedCover_full
  obtain ⟨live₁, hrun₁, hforest₁, hover₁⟩ := hphase₁.passes h.point h.forest
    fun earlier node rest heq _ =>
      h.isParentKept (by rw [heq]; exact List.mem_append_right _ List.mem_cons_self)
  have hlead₁ : ∀ mid, MidPhase (afterRestore isSyncableUrl (fullCover nodes)) nodes live mid →
      LeadsTo isSyncableUrl nodes mode live mid :=
    fun mid => leadsTo_of_midPhase h gentle_afterRestore
  have hend₁ := hlead₁ live₁ ⟨hforest₁, nodes, List.Subset.refl _, hover₁⟩
  -- The updates.
  have hphase₂ : IsPhase (afterUpdate isSyncableUrl (fullCover nodes)) _ _ nodes live₁ :=
    isPhase_update h.point hover₁
  obtain ⟨live₂, hrun₂, hforest₂, hover₂⟩ :=
    hphase₂.passes h.point hforest₁ fun _ _ _ _ _ => trivial
  have hlead₂ : ∀ mid, MidPhase (afterUpdate isSyncableUrl (fullCover nodes)) nodes live₁ mid →
      LeadsTo isSyncableUrl nodes mode live mid :=
    fun mid hmid => hend₁.trans (leadsTo_of_midPhase hend₁.restorable gentle_afterUpdate hmid)
  have hend₂ := hlead₂ live₂ ⟨hforest₂, nodes, List.Subset.refl _, hover₂⟩
  -- The moves.
  have hphase₃ : IsPhase (afterMove (fullCover nodes)) _ (IsMovable isSyncableUrl _ nodes live) nodes live₂ :=
    isPhase_move h.point isClosedCover_full hover₁ hover₂
  obtain ⟨live₃, hrun₃, hforest₃, hover₃⟩ :=
    hphase₃.passes h.point hforest₂ fun _ _ _ heq _ => h.isMovable heq
  have hlead₃ : ∀ mid, MidPhase (afterMove (fullCover nodes)) nodes live₂ mid →
      LeadsTo isSyncableUrl nodes mode live mid :=
    fun mid hmid => hend₂.trans (leadsTo_of_midPhase hend₂.restorable gentle_afterMove hmid)
  refine ⟨live₃, ((hrun₁.mono hlead₁).append (hrun₂.mono hlead₂)).append (hrun₃.mono hlead₃),
    hlead₃ live₃ ⟨hforest₃, nodes, List.Subset.refl _, hover₃⟩,
    liveUp_eq_mixedUp h.point hover₁ hover₂ hover₃ (List.Subset.refl _), fun node hmem => ?_, fun id hid => ?_⟩
  · rw [hover₃.done node hmem, liveById_afterUpdate hover₁ hover₂ hmem]
    rfl
  · have hnot := byId_eq_none_iff.mp hid
    rw [hover₃.rest id hnot, hover₂.rest id hnot, hover₁.rest id hnot]

/-- **Deletions** leave what the point holds, and nothing else. -/
theorem IsRestorable.exists_deleted (h : IsRestorable nodes live) {moved : List LiveBookmarkNode}
    (hlead : LeadsTo isSyncableUrl nodes .exactly live moved)
    (hmoved : IsMoved isSyncableUrl nodes live moved) :
    ∃ last, Passes (LeadsTo isSyncableUrl nodes .exactly live) moved
        (deletes nodes live .exactly .all) last ∧
      liveById last = target isSyncableUrl nodes .exactly live := by
  have hkept : ∀ node ∈ nodes, ∀ top ∈ (deletes nodes live .exactly .all).map PlannedOperation.objectId,
      node.o ≠ top ∧ ¬ Below (liveUp moved) top node.o := by
    rw [hmoved.up]
    exact fun node hmem top htop => h.not_deleted hmem htop
  have hdeletes : ∀ operation ∈ deletes nodes live .exactly .all, operation.change = .delete :=
    fun _ => deletes_change
  obtain ⟨last, hrun, -, hpruned⟩ := passes_deletes hlead.restorable.forest hdeletes
  refine ⟨last, hrun.mono ?_, funext fun id => ?_⟩
  · rintro mid ⟨hmid, tops, hsub, hprune⟩
    refine hlead.trans (leadsTo_of_nodes hlead.restorable hmid (fun node hmem => ?_) fun id _ => ?_)
    · rw [hprune.kept node.o fun top htop => hkept node hmem top (hsub htop)]
      exact ⟨fun _ hexisting => hlead.restorable.fits hmem hexisting, rfl⟩
    · by_cases hgone : ∃ top ∈ tops, id = top ∨ Below (liveUp moved) top id
      · exact Or.inr ⟨rfl, hprune.gone id hgone⟩
      · exact Or.inl (hprune.kept id (by simpa using hgone))
  · rw [target]
    cases hid : pointById nodes id with
    | none =>
      by_cases hgone : ∃ top ∈ (deletes nodes live .exactly .all).map PlannedOperation.objectId,
          id = top ∨ Below (liveUp moved) top id
      · exact hpruned.gone id hgone
      · rw [hpruned.kept id (by simpa using hgone), hmoved.outside id hid]
        refine Option.not_isSome_iff_eq_none.mp fun hsome => ?_
        refine hgone (exists_delete h.forest (h.mem_unwanted_all hsome hid) fun a ha => ?_)
        rw [liveUp, hmoved.outside a ha]
        rfl
    | some node =>
      obtain ⟨hmem, rfl⟩ := mem_of_byId hid
      rw [hpruned.kept node.o (hkept node hmem), hmoved.inside node hmem]

/-- **A plan for everything can be carried out**, any state on the way leads to the same end,
and that end is reached. -/
theorem IsRestorable.exists_run (h : IsRestorable nodes live) (isSyncableUrl : String → Bool)
    (mode : RestoreMode) :
    ∃ plan last, planRestore isSyncableUrl nodes live mode .all = .ok plan ∧
      Passes (LeadsTo isSyncableUrl nodes mode live) live plan.operations last ∧
      liveById last = target isSyncableUrl nodes mode live := by
  have hcover : coverOf nodes .all = some (fullCover nodes) := rfl
  obtain ⟨plan, hplan, hoperations, -⟩ := planRestore_eq isSyncableUrl nodes live mode hcover
  obtain ⟨moved, hrun, hlead, hmoved⟩ := h.exists_moved mode
  cases mode with
  | merge =>
    refine ⟨plan, moved, hplan, ?_, funext fun id => ?_⟩
    · rw [hoperations, show deletes nodes live .merge .all = [] from rfl, List.append_nil]
      exact hrun
    · rw [target]
      cases hid : pointById nodes id with
      | none => exact hmoved.outside id hid
      | some node =>
        obtain ⟨hmem, rfl⟩ := mem_of_byId hid
        exact hmoved.inside node hmem
  | exactly =>
    obtain ⟨last, hdeletes, hlast⟩ := h.exists_deleted hlead hmoved
    refine ⟨plan, last, hplan, ?_, hlast⟩
    rw [hoperations]
    exact hrun.append hdeletes

/-! ### The end -/

theorem IsRestorable.perm (h : IsRestorable nodes live) {again : List LiveBookmarkNode}
    (hperm : again.Perm live) : IsRestorable nodes again := by
  have hlook := h.forest.liveById_perm hperm
  refine ⟨h.point, h.folders, .of_liveById ?_ ?_ ?_, ?_, ?_, ?_⟩
  · exact (hperm.map LiveBookmarkNode.objectId).nodup_iff.mpr h.forest.distinct
  · rw [hlook]
    exact fun id hid => h.forest.liveById_root hid
  · rw [show liveUp again = liveUp live from funext fun id => by rw [liveUp, hlook]; rfl, hlook]
    exact fun id hid => h.forest.rooted_of_isSome hid
  · rw [hlook]
    exact h.sameKind
  · rw [hlook]
    exact h.notManaged
  · rw [hlook]
    exact h.folderUrl

theorem target_perm (h : IsLiveForest live) {again : List LiveBookmarkNode} (hperm : again.Perm live) :
    target isSyncableUrl nodes mode again = target isSyncableUrl nodes mode live := by
  funext id
  rw [target, target, h.liveById_perm hperm]

theorem target_of_mem (h : IsPoint nodes) (hmem : node ∈ nodes) :
    target isSyncableUrl nodes mode live node.o =
      settled isSyncableUrl nodes node (liveById live node.o) := by
  have hnode : pointById nodes node.o = some node := (byId_eq_some_iff h.distinct).mpr ⟨hmem, rfl⟩
  rw [target, hnode]

/-- What a restore of everything makes of a node has nothing left to change. -/
theorem settled_spec (hmem : node ∈ nodes) (hfits : ∀ existing, current = some existing → Fits node existing)
    {last : LiveBookmarkNode} (hlast : settled isSyncableUrl nodes node current = some last) :
    changedTitle node last = none ∧ changedUrl isSyncableUrl node last = none ∧
      last.parentObjectId = node.p ∧ last.position = some node.x := by
  cases current with
  | none =>
    rw [settled_none hmem] at hlast
    obtain ⟨-, hlast⟩ := Option.ite_none_right_eq_some.mp hlast
    obtain rfl := Option.some.inj hlast
    refine ⟨if_neg (not_not_intro rfl), if_neg fun h => h.2.1 ?_, rfl, rfl⟩
    rw [restoredNode, if_pos h.1]
  | some existing =>
    rw [settled_some hmem (hfits existing rfl)] at hlast
    obtain rfl := Option.some.inj hlast
    have htitle : changedTitle node (existing.edited (changedTitle node existing)
        (changedUrl isSyncableUrl node existing)) = none := changedTitle_edited
    have hurl : changedUrl isSyncableUrl node (existing.edited (changedTitle node existing)
        (changedUrl isSyncableUrl node existing)) = none := changedUrl_edited
    exact ⟨htitle, hurl, rfl, rfl⟩

/-- **At the end there is nothing left to plan.** -/
theorem IsRestorable.operations_eq_nil (h : IsRestorable nodes live)
    (hend : liveById live = target isSyncableUrl nodes mode live) :
    ∃ plan, planRestore isSyncableUrl nodes live mode .all = .ok plan ∧ plan.operations = [] := by
  have hcover : coverOf nodes .all = some (fullCover nodes) := rfl
  obtain ⟨plan, hplan, hoperations, -⟩ := planRestore_eq isSyncableUrl nodes live mode hcover
  have hfixed : ∀ node ∈ nodes, liveById live node.o =
      settled isSyncableUrl nodes node (liveById live node.o) := fun node hmem =>
    (congrFun hend node.o).trans (target_of_mem h.point hmem)
  have hspec : ∀ node ∈ nodes, ∀ existing, liveById live node.o = some existing →
      changedTitle node existing = none ∧ changedUrl isSyncableUrl node existing = none ∧
        existing.parentObjectId = node.p ∧ existing.position = some node.x :=
    fun node hmem existing hexisting => settled_spec hmem (fun _ => h.fits hmem)
      ((hfixed node hmem).symm.trans hexisting)
  refine ⟨plan, hplan, ?_⟩
  rw [hoperations, List.append_eq_nil_iff]
  refine ⟨edits_eq_nil (fun node hmem hgone => ?_) hspec, ?_⟩
  · have hnode := hfixed node hmem
    rw [hgone, settled_none hmem] at hnode
    by_contra hurl
    rw [if_pos (Bool.eq_false_iff.mpr hurl)] at hnode
    exact absurd hnode nofun
  · cases mode with
    | merge => rfl
    | exactly =>
      have hnone : (deletes nodes live .exactly .all).map PlannedOperation.objectId = [] := by
        refine List.eq_nil_iff_forall_not_mem.mpr fun id hid => ?_
        obtain ⟨_, _, _, hunwanted, _⟩ := mem_deletes.mp hid
        obtain ⟨existing, hmem, rfl, hnone, -⟩ := mem_unwanted.mp hunwanted
        have hsome := congrFun hend existing.objectId
        rw [h.forest.liveById_eq_some_iff.mpr ⟨hmem, rfl⟩, target, hnone] at hsome
        exact absurd hsome nofun
      exact List.map_eq_nil_iff.mp hnone

theorem sum_map_ite {α : Type} (p : α → Bool) (items : List α) :
    (items.map fun item => if p item then 1 else 0).sum = items.countP p := by
  induction items with
  | nil => rfl
  | cons item items ih => rw [List.map_cons, List.sum_cons, ih, List.countP_cons, Nat.add_comm]

theorem sum_skipped (h : IsRestorable nodes live) :
    (nodes.map fun node => (planNode isSyncableUrl (fullCover nodes) live node).skipped).sum =
      nodes.countP (isSkipped isSyncableUrl live) := by
  have hskipped : ∀ node ∈ nodes, (planNode isSyncableUrl (fullCover nodes) live node).skipped =
      if isSkipped isSyncableUrl live node then 1 else 0 := by
    intro node hmem
    rw [isSkipped]
    cases hlive : liveById live node.o with
    | none =>
      rw [planNode_of_gone isSyncableUrl (fullCover nodes) live hlive, if_pos (isWanted_fullCover hmem)]
      cases isUnsyncable isSyncableUrl node <;> rfl
    | some existing =>
      rw [planNode_of_live isSyncableUrl (fullCover nodes) live hlive,
        if_pos (mayEdit_fullCover hmem (h.fits hmem hlive))]
      refine if_congr ?_ rfl rfl
      simp [and_comm]
  rw [List.map_congr_left hskipped]
  exact sum_map_ite _ nodes

theorem isSkipped_eq_false : isSkipped isSyncableUrl live node = false ↔
    (isUnsyncable isSyncableUrl node = true →
      ∃ existing, liveById live node.o = some existing ∧ existing.url = node.u) := by
  rw [isSkipped]
  cases isUnsyncable isSyncableUrl node <;> cases liveById live node.o <;> simp

theorem isSkipped_or_isSome :
    (isSkipped isSyncableUrl live node = false ∨ (liveById live node.o).isSome) ↔
      (isUnsyncable isSyncableUrl node = false ∨ (liveById live node.o).isSome) := by
  rw [isSkipped]
  cases isUnsyncable isSyncableUrl node <;> cases liveById live node.o <;> simp

/-- What a restore of everything brings about. -/
structure Reaches (isSyncableUrl : String → Bool) (nodes : List PointNode) (mode : RestoreMode)
    (live last : List LiveBookmarkNode) : Prop where
  point : ∀ node ∈ nodes, isSkipped isSyncableUrl live node = false →
    ∃ existing, liveById last node.o = some existing ∧ existing.title = node.t ∧ existing.url = node.u ∧
      existing.parentObjectId = node.p ∧ existing.position = some node.x
  merge_keeps : mode = .merge → ∀ id, (liveById live id).isSome → (liveById last id).isSome
  merge_outside : mode = .merge → ∀ id, id ∉ nodes.map PointNode.o → liveById last id = liveById live id
  exactly : mode = .exactly → ∀ id, (liveById last id).isSome ↔ ∃ node ∈ nodes, node.o = id ∧
    (isSkipped isSyncableUrl live node = false ∨ (liveById live id).isSome)

theorem settled_isSome (hmem : node ∈ nodes)
    (hfits : ∀ existing, current = some existing → Fits node existing) :
    (settled isSyncableUrl nodes node current).isSome ↔
      isUnsyncable isSyncableUrl node = false ∨ current.isSome := by
  cases current with
  | none =>
    rw [settled_none hmem]
    cases isUnsyncable isSyncableUrl node <;> simp
  | some existing => simp [settled_some hmem (hfits existing rfl)]

/-- A node that is not skipped has the point's URL. -/
theorem IsRestorable.url_eq (h : IsRestorable nodes live) (hmem : node ∈ nodes)
    (hskipped : isSkipped isSyncableUrl live node = false) {last : LiveBookmarkNode}
    (hfits : Fits node last) (hlast : settled isSyncableUrl nodes node (liveById live node.o) = some last) :
    last.url = node.u := by
  obtain ⟨_, _, _, hpoint⟩ := h.point.of_mem hmem
  obtain ⟨-, hurl, -⟩ := settled_spec hmem (fun _ => h.fits hmem) hlast
  cases hk : node.k with
  | folder =>
    rw [hfits.folderUrl (hfits.kind.trans hk), eq_comm, ← Option.not_isSome_iff_eq_none, hpoint.url, hk]
    exact nofun
  | bookmark =>
    have hu := hpoint.url.mpr hk
    by_contra hne
    cases hsync : isSyncableUrl (node.u.getD "") with
    | true =>
      rw [changedUrl, if_pos ⟨hk, hne, hsync⟩] at hurl
      rw [hurl] at hu
      exact absurd hu nofun
    | false =>
      obtain ⟨existing, hexisting, heq⟩ := isSkipped_eq_false.mp hskipped (by simp [isUnsyncable, hk, hsync])
      have hsame : changedUrl isSyncableUrl node existing = none := if_neg fun hchange => hchange.2.1 heq
      rw [hexisting, settled_some hmem (h.fits hmem hexisting), hsame] at hlast
      obtain rfl := Option.some.inj hlast
      exact hne heq

theorem IsRestorable.reaches (h : IsRestorable nodes live) {last : List LiveBookmarkNode}
    (hlast : IsRestorable nodes last) (hend : liveById last = target isSyncableUrl nodes mode live) :
    Reaches isSyncableUrl nodes mode live last := by
  have hinside : ∀ node ∈ nodes, liveById last node.o =
      settled isSyncableUrl nodes node (liveById live node.o) := fun node hmem => by
    rw [hend, target_of_mem h.point hmem]
  have hsome : ∀ node ∈ nodes, (liveById last node.o).isSome ↔
      isUnsyncable isSyncableUrl node = false ∨ (liveById live node.o).isSome := fun node hmem => by
    rw [hinside node hmem, settled_isSome hmem fun _ => h.fits hmem]
  have houtside : ∀ id, id ∉ nodes.map PointNode.o →
      liveById last id = if mode = .merge then liveById live id else none := fun id hid => by
    rw [hend, target, pointById, byId_eq_none_iff.mpr hid]
  refine ⟨fun node hmem hskipped => ?_, ?_, ?_, ?_⟩
  · have hnode := isSkipped_eq_false.mp hskipped
    have hpresent : (liveById last node.o).isSome := by
      rw [hsome node hmem]
      by_cases hurl : isUnsyncable isSyncableUrl node = true
      · obtain ⟨existing, hexisting, -⟩ := hnode hurl
        exact Or.inr (hexisting ▸ rfl)
      · exact Or.inl (Bool.eq_false_iff.mpr hurl)
    obtain ⟨existing, hexisting⟩ := Option.isSome_iff_exists.mp hpresent
    have hsettled := (hinside node hmem).symm.trans hexisting
    obtain ⟨htitle, hurl, hparent, hposition⟩ := settled_spec hmem (fun _ => h.fits hmem) hsettled
    refine ⟨existing, hexisting, ?_, ?_, hparent, hposition⟩
    · by_contra hne
      rw [changedTitle, if_pos hne] at htitle
      exact absurd htitle nofun
    · exact h.url_eq hmem hskipped (hlast.fits hmem hexisting) hsettled
  · rintro rfl id hid
    by_cases hin : id ∈ nodes.map PointNode.o
    · obtain ⟨node, hmem, rfl⟩ := List.mem_map.mp hin
      exact (hsome node hmem).mpr (Or.inr hid)
    · rw [houtside id hin, if_pos rfl]
      exact hid
  · rintro rfl id hid
    rw [houtside id hid, if_pos rfl]
  · rintro rfl id
    by_cases hin : id ∈ nodes.map PointNode.o
    · obtain ⟨node, hmem, rfl⟩ := List.mem_map.mp hin
      constructor
      · exact fun hpresent => ⟨node, hmem, rfl, isSkipped_or_isSome.mpr ((hsome node hmem).mp hpresent)⟩
      · rintro ⟨other, hother, ho, hpresent⟩
        rw [← ho] at hpresent ⊢
        exact (hsome other hother).mpr (isSkipped_or_isSome.mp hpresent)
    · rw [houtside id hin]
      refine iff_of_false nofun ?_
      rintro ⟨node, hmem, rfl, -⟩
      exact hin (List.mem_map_of_mem hmem)

end Settled

/-- **A restore of everything reaches the point.** Its operations can be carried out one
after another, what the browser then holds is what the mode asks for, and there is nothing
left to plan. From any state on the way, however the browser lists it, a new plan leads to
the same bookmarks. -/
theorem planRestore_reaches {isDate : String → Bool} {value : Json} {point : PointPlaintext}
    (hvalid : validatePoint isDate value = .ok point)
    (hfolders : ∀ node ∈ point.nodes, ∀ parent ∈ point.nodes, parent.o = node.p → parent.k = .folder)
    {live : List LiveBookmarkNode} (hforest : IsLiveForest live)
    (hkind : ∀ node ∈ point.nodes, ∀ existing ∈ live, existing.objectId = node.o → existing.kind = node.k)
    (hmanaged : ∀ existing ∈ live, existing.unmodifiable = false)
    (hurl : ∀ existing ∈ live, existing.kind = .folder → existing.url = none)
    (isSyncableUrl : String → Bool) (mode : RestoreMode) :
    ∃ plan last, planRestore isSyncableUrl point.nodes live mode .all = .ok plan ∧
      plan.counts.skipped = point.nodes.countP (isSkipped isSyncableUrl live) ∧
      executeAll live plan.operations = some last ∧
      Reaches isSyncableUrl point.nodes mode live last ∧
      (∀ again : List LiveBookmarkNode, again.Perm last →
        ∃ plan', planRestore isSyncableUrl point.nodes again mode .all = .ok plan' ∧
          plan'.operations = []) ∧
      ∀ n, ∃ mid, executeAll live (plan.operations.take n) = some mid ∧
        ∀ again : List LiveBookmarkNode, again.Perm mid → ∃ plan' last',
          planRestore isSyncableUrl point.nodes again mode .all = .ok plan' ∧
            executeAll again plan'.operations = some last' ∧ last'.Perm last := by
  have h : IsRestorable point.nodes live := by
    refine ⟨isPoint_of_validatePoint hvalid, hfolders, hforest, ?_, ?_, ?_⟩
    · intro node hmem existing hexisting
      obtain ⟨hlive, hid⟩ := mem_of_byId hexisting
      exact hkind node hmem existing hlive hid
    · exact fun id existing hexisting => hmanaged existing (mem_of_byId hexisting).1
    · exact fun id existing hexisting => hurl existing (mem_of_byId hexisting).1
  obtain ⟨plan, last, hplan, hrun, hend⟩ := h.exists_run isSyncableUrl mode
  have hlead := hrun.good_last
  refine ⟨plan, last, hplan, ?_, hrun.executeAll, h.reaches hlead.restorable hend, ?_, fun n => ?_⟩
  · obtain ⟨plan', hplan', -, hskipped⟩ := planRestore_eq isSyncableUrl point.nodes live mode
      (show coverOf point.nodes .all = some (fullCover point.nodes) from rfl)
    obtain rfl := Except.ok.inj (hplan.symm.trans hplan')
    exact hskipped.trans (sum_skipped h)
  · intro again hperm
    refine (hlead.restorable.perm hperm).operations_eq_nil ?_
    rw [hlead.restorable.forest.liveById_perm hperm, target_perm hlead.restorable.forest hperm, hend,
      hlead.target]
  · obtain ⟨mid, hmid, hmidlead⟩ := hrun.exists_take n
    refine ⟨mid, hmid, fun again hperm => ?_⟩
    obtain ⟨plan', last', hplan', hrun', hend'⟩ :=
      (hmidlead.restorable.perm hperm).exists_run isSyncableUrl mode
    refine ⟨plan', last', hplan', hrun'.executeAll, ?_⟩
    refine hlead.restorable.forest.perm_of_liveById hrun'.good_last.restorable.forest ?_
    rw [hend', target_perm hmidlead.restorable.forest hperm, hmidlead.target, hend]

/-- A point with a folder in the bookmarks bar and a bookmark in it. -/
def smallPoint : PointPlaintext where
  createdAt := "2026-01-01T00:00:00.000Z"
  deviceId := "11111111-1111-7111-8111-111111111111"
  kind := "manual"
  nodes := [
    ⟨"22222222-2222-7222-8222-222222222222", .folder, "Work", none,
      "00000000-0000-7000-8000-000000000001", "V"⟩,
    ⟨"33333333-3333-7333-8333-333333333333", .bookmark, "Mail", some "https://mail.test/",
      "22222222-2222-7222-8222-222222222222", "V"⟩]

/-- A browser in which the folder is inside a new one, and the bookmark is gone. -/
def smallLive : List LiveBookmarkNode := [
  ⟨"44444444-4444-7444-8444-444444444444", .folder, "New", none,
    "00000000-0000-7000-8000-000000000002", some "V", false⟩,
  ⟨"22222222-2222-7222-8222-222222222222", .folder, "Work", none,
    "44444444-4444-7444-8444-444444444444", some "V", false⟩]

theorem isLiveForest_smallLive : IsLiveForest smallLive where
  distinct := by decide
  notRoot := by decide
  rooted := by
    have hnew : Rooted (· ∈ rootIds) (liveUp smallLive) "44444444-4444-7444-8444-444444444444" :=
      .step (y := "00000000-0000-7000-8000-000000000002") rfl (.root (by decide))
    intro node hnode
    rcases List.mem_cons.mp hnode with rfl | hnode
    · exact hnew
    · obtain rfl := List.mem_singleton.mp hnode
      exact .step rfl hnew

/-- In a restore of everything in exact mode the folder leaves the new one. -/
theorem planRestore_reaches_smallPoint :
    ∃ plan last, planRestore (fun _ => true) smallPoint.nodes smallLive .exactly .all = .ok plan ∧
      executeAll smallLive plan.operations = some last ∧
      Reaches (fun _ => true) smallPoint.nodes .exactly smallLive last := by
  have hvalid : validatePoint (fun _ => true) smallPoint.value = .ok smallPoint := rfl
  obtain ⟨plan, last, hplan, -, hrun, hreaches, -⟩ := planRestore_reaches hvalid (by decide)
    isLiveForest_smallLive (by decide) (by decide) (by decide) (fun _ => true) .exactly
  exact ⟨plan, last, hplan, hrun, hreaches⟩

end Client

end HelixSync
