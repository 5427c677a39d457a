import HelixSync.Client.RestoreEverything

/-!
# A restore goes on where it stopped

A restore that was interrupted is not continued from a list of what is left to do: it is planned anew,
against the bookmarks as they are by then (`applyUnderLock`, `extension/src/restore-points/restore.ts`).
An operation that was carried out is not planned again, and each of the others is planned as before
(`HelixSync.Client.IsRestorable.operations_step`), so the new plan is what was left of the first
(`HelixSync.Client.restore_resumes`): nothing is done twice, nothing is left out, and the number of
operations left tells how many were carried out.
-/

namespace HelixSync

namespace Client

open ParentChains

variable {isSyncableUrl : String → Bool} {nodes : List PointNode} {node : PointNode} {mode : RestoreMode}
  {live live' : List LiveBookmarkNode} {operation : PlannedOperation} {rest : List PlannedOperation}

/-! ### The operations for everything -/

/-- The operations of a restore of everything. -/
def operationsFor (isSyncableUrl : String → Bool) (nodes : List PointNode) (live : List LiveBookmarkNode)
    (mode : RestoreMode) : List PlannedOperation :=
  nodes.filterMap (fun node => (planNode isSyncableUrl (fullCover nodes) live node).restore) ++
    nodes.filterMap (fun node => (planNode isSyncableUrl (fullCover nodes) live node).update) ++
    nodes.filterMap (fun node => (planNode isSyncableUrl (fullCover nodes) live node).move) ++
    deletes nodes live mode .all

theorem planRestore_all : ∃ plan, planRestore isSyncableUrl nodes live mode .all = .ok plan ∧
    plan.operations = operationsFor isSyncableUrl nodes live mode := by
  obtain ⟨plan, hplan, hoperations, -⟩ := planRestore_eq isSyncableUrl nodes live mode
    (show coverOf nodes .all = some (fullCover nodes) from rfl)
  exact ⟨plan, hplan, hoperations⟩

/-- What is planned for a node depends on that node only. -/
theorem planNode_congr {cover : RestoreCover} (h : liveById live' node.o = liveById live node.o) :
    planNode isSyncableUrl cover live' node = planNode isSyncableUrl cover live node := by
  rw [planNode, planNode, h]

/-- A phase loses its first operation if the node it is for has none any more, and the others keep
theirs. -/
theorem filterMap_eq_of_turn {α β : Type} {key : α → String} {items : List α} {f : α → Option β}
    {first : β} {later : List β} (hdistinct : (items.map key).Nodup)
    (hfirst : items.filterMap f = first :: later) : ∃ item ∈ items, f item = some first ∧
      ∀ f' : α → Option β, (∀ other ∈ items, key other ≠ key item → f' other = f other) →
        f' item = none → items.filterMap f' = later := by
  obtain ⟨before, item, after, rfl, hbefore, hitem, hafter⟩ := List.filterMap_eq_cons_iff.mp hfirst
  refine ⟨item, List.mem_append_right _ List.mem_cons_self, hitem, fun f' hothers hnone => ?_⟩
  have hne : ∀ other ∈ before ++ after, key other ≠ key item := by
    intro other hother heq
    rw [List.map_append, List.map_cons] at hdistinct
    refine (List.nodup_cons.mp (List.nodup_middle.mp hdistinct)).1 (heq ▸ ?_)
    rw [← List.map_append]
    exact List.mem_map_of_mem hother
  rw [List.filterMap_append, List.filterMap_cons_none hnone,
    List.filterMap_eq_nil_iff.mpr fun other hother => ?_, List.nil_append, ← hafter]
  · refine List.filterMap_congr fun other hother => ?_
    exact hothers other (List.mem_append_right _ (List.mem_cons_of_mem _ hother))
      (hne other (List.mem_append_right _ hother))
  · rw [hothers other (List.mem_append_left _ hother) (hne other (List.mem_append_left _ hother))]
    exact hbefore other hother

/-! ### Edits leave the deletions -/

/-- The nodes of the browser that the point does not hold. -/
def unheld (nodes : List PointNode) (live : List LiveBookmarkNode) : List LiveBookmarkNode :=
  live.filter fun node => (pointById nodes node.objectId).isNone

theorem unwanted_all : unwanted nodes live .all =
    ((unheld nodes live).filter fun node => !node.unmodifiable).map LiveBookmarkNode.objectId := by
  rw [unwanted, unheld, List.filter_filter]
  refine congrArg _ (List.filter_congr fun node _ => ?_)
  rw [Bool.decide_and, Bool.decide_eq_true, Bool.decide_eq_true, Bool.and_comm]

/-- What is deleted depends on what the point does not hold. -/
theorem deletes_eq_of_unheld (h : unheld nodes live' = unheld nodes live) :
    deletes nodes live' mode .all = deletes nodes live mode .all := by
  cases mode with
  | merge => rfl
  | exactly =>
    have hunwanted : unwanted nodes live' .all = unwanted nodes live .all := by
      rw [unwanted_all, unwanted_all, h]
    have hfilter : ∀ live : List LiveBookmarkNode, ∀ ids : List String, (∀ id ∈ ids, pointById nodes id = none) →
        (live.filter fun node => decide (node.objectId ∈ ids ∧ node.parentObjectId ∉ ids ∧
          node.objectId ∉ rootIds)) =
        (unheld nodes live).filter fun node => decide (node.objectId ∈ ids ∧ node.parentObjectId ∉ ids ∧
          node.objectId ∉ rootIds) := by
      intro live ids hids
      rw [unheld, List.filter_filter]
      refine List.filter_congr fun node _ => ?_
      by_cases hin : node.objectId ∈ ids
      · simp [hids _ hin]
      · simp [hin]
    have hnone : ∀ id ∈ unwanted nodes live .all, pointById nodes id = none := by
      intro id hid
      obtain ⟨_, -, -, hnone, -⟩ := mem_unwanted.mp hid
      exact hnone
    rw [deletes, deletes, hunwanted, hfilter live' _ hnone, hfilter live _ hnone, h]

theorem unheld_append {new : LiveBookmarkNode} (hnew : (pointById nodes new.objectId).isSome) :
    unheld nodes (live ++ [new]) = unheld nodes live := by
  have hdropped : (pointById nodes new.objectId).isNone = false := by
    rw [← Option.not_isSome, hnew]
    rfl
  rw [unheld, List.filter_append, List.filter_singleton, hdropped, cond_false, List.append_nil]
  rfl

theorem unheld_changeNode {id : String} {change : LiveBookmarkNode → LiveBookmarkNode}
    (hchange : ∀ node, (change node).objectId = node.objectId) (hid : (pointById nodes id).isSome) :
    unheld nodes (changeNode live id change) = unheld nodes live := by
  have hkey : ∀ node : LiveBookmarkNode,
      (if node.objectId = id then change node else node).objectId = node.objectId := by
    intro node
    split
    · exact hchange node
    · rfl
  rw [unheld, changeNode, List.filter_map]
  simp only [Function.comp_def, hkey]
  refine (List.map_congr_left fun node hnode => ?_).trans (List.map_id _)
  refine if_neg fun heq => ?_
  have hnone := (List.mem_filter.mp hnode).2
  rw [heq, Option.isNone_iff_eq_none] at hnone
  rw [hnone] at hid
  cases hid

/-! ### Edits -/

namespace IsRestorable

/-- An edit of one node of the point: if it has nothing left of its phase and as much of the others as
before, the plan is one operation shorter. -/
theorem planNode_of_update {new : LiveBookmarkNode} {id : String}
    (hlook : liveById live' = Function.update (liveById live) id (some new)) {other : PointNode}
    (hne : other.o ≠ id) : planNode isSyncableUrl (fullCover nodes) live' other =
      planNode isSyncableUrl (fullCover nodes) live other :=
  planNode_congr (by rw [hlook, Function.update_of_ne hne])

/-- What a phase has for the nodes of the point, when one of them is edited and has as much of the phase
as before. -/
theorem filterMap_of_update (h : IsRestorable nodes live) {new : LiveBookmarkNode} (hmem : node ∈ nodes)
    (hlook : liveById live' = Function.update (liveById live) node.o (some new))
    (part : NodePlan → Option PlannedOperation)
    (hsame : part (planNode isSyncableUrl (fullCover nodes) live' node) =
      part (planNode isSyncableUrl (fullCover nodes) live node)) :
    nodes.filterMap (fun other => part (planNode isSyncableUrl (fullCover nodes) live' other)) =
      nodes.filterMap fun other => part (planNode isSyncableUrl (fullCover nodes) live other) := by
  refine List.filterMap_congr fun other hother => ?_
  by_cases hid : other.o = node.o
  · rw [List.inj_on_of_nodup_map h.point.distinct hother hmem hid, hsame]
  · rw [planNode_of_update hlook hid]

/-- A node that was just restored has nothing left to be done. -/
theorem planNode_restored (isSyncableUrl : String → Bool) (hmem : node ∈ nodes)
    (hlook : liveById live' node.o = some (restoredNode node)) :
    (planNode isSyncableUrl (fullCover nodes) live' node).restore = none ∧
      (planNode isSyncableUrl (fullCover nodes) live' node).update = none ∧
      (planNode isSyncableUrl (fullCover nodes) live' node).move = none := by
  have htitle : changedTitle node (restoredNode node) = none := if_neg (not_not_intro rfl)
  have hurl : changedUrl isSyncableUrl node (restoredNode node) = none := by
    refine if_neg fun h => h.2.1 ?_
    rw [restoredNode, if_pos h.1]
  rw [planNode_of_live isSyncableUrl (fullCover nodes) live' hlook,
    if_pos (mayEdit_fullCover hmem fits_restoredNode), htitle, hurl]
  exact ⟨rfl, rfl, if_neg fun h => h.elim (fun hne => hne rfl) fun hne => hne rfl⟩

/-- **A restore** is planned no more once it is carried out. -/
theorem operations_restore (h : IsRestorable nodes live) (hexec : execute live operation = some live')
    {later : List PlannedOperation}
    (hfirst : nodes.filterMap (fun node => (planNode isSyncableUrl (fullCover nodes) live node).restore) =
      operation :: later) :
    operationsFor isSyncableUrl nodes live' mode = later ++
      nodes.filterMap (fun node => (planNode isSyncableUrl (fullCover nodes) live node).update) ++
      nodes.filterMap (fun node => (planNode isSyncableUrl (fullCover nodes) live node).move) ++
      deletes nodes live mode .all := by
  obtain ⟨node, hmem, hop, hturn⟩ := filterMap_eq_of_turn h.point.distinct hfirst
  rw [planNode_restore] at hop
  obtain ⟨⟨hgone, -⟩, hop⟩ := Option.ite_none_right_eq_some.mp hop
  obtain rfl := Option.some.inj hop
  have hnode : pointById nodes node.o = some node := (byId_eq_some_iff h.point.distinct).mpr ⟨hmem, rfl⟩
  obtain rfl : live ++ [restoredNode node] = live' := by
    rw [execute] at hexec
    simp only [hgone, Option.isSome_none, Bool.false_eq_true, if_false] at hexec
    obtain ⟨-, hexec⟩ := Option.ite_none_right_eq_some.mp hexec
    rw [← Option.some.inj hexec, kindOf_objectTypeOf]
    rfl
  have hlook : liveById (live ++ [restoredNode node]) =
      Function.update (liveById live) node.o (some (restoredNode node)) := liveById_append
  obtain ⟨hrestore, hupdate, hmove⟩ := planNode_restored isSyncableUrl hmem
    (show liveById (live ++ [restoredNode node]) node.o = _ by rw [hlook, Function.update_self])
  have hnothing : (planNode isSyncableUrl (fullCover nodes) live node).update = none ∧
      (planNode isSyncableUrl (fullCover nodes) live node).move = none := by
    rw [planNode_update, planNode_move, hgone]
    exact ⟨rfl, rfl⟩
  rw [operationsFor, hturn _ (fun other _ hne => by rw [planNode_of_update hlook hne]) hrestore,
    h.filterMap_of_update hmem hlook NodePlan.update (hupdate.trans hnothing.1.symm),
    h.filterMap_of_update hmem hlook NodePlan.move (hmove.trans hnothing.2.symm),
    deletes_eq_of_unheld (unheld_append (by rw [show (restoredNode node).objectId = node.o from rfl, hnode]; rfl))]

/-- **An update** is planned no more once it is carried out. -/
theorem operations_update (h : IsRestorable nodes live) (hexec : execute live operation = some live')
    {later : List PlannedOperation}
    (hfirst : nodes.filterMap (fun node => (planNode isSyncableUrl (fullCover nodes) live node).update) =
      operation :: later) :
    operationsFor isSyncableUrl nodes live' mode =
      nodes.filterMap (fun node => (planNode isSyncableUrl (fullCover nodes) live node).restore) ++ later ++
      nodes.filterMap (fun node => (planNode isSyncableUrl (fullCover nodes) live node).move) ++
      deletes nodes live mode .all := by
  obtain ⟨node, hmem, hop, hturn⟩ := filterMap_eq_of_turn h.point.distinct hfirst
  rw [planNode_update] at hop
  obtain ⟨existing, hexisting, hop⟩ := Option.bind_eq_some_iff.mp hop
  obtain ⟨-, hop⟩ := Option.ite_none_right_eq_some.mp hop
  obtain rfl := Option.some.inj hop
  have hfits := h.fits hmem hexisting
  have hnode : pointById nodes node.o = some node := (byId_eq_some_iff h.point.distinct).mpr ⟨hmem, rfl⟩
  have hlive' : changeNode live node.o
      (.edited (changedTitle node existing) (changedUrl isSyncableUrl node existing)) = live' :=
    Option.some.inj hexec
  have hlook : liveById live' = Function.update (liveById live) node.o
      (some (existing.edited (changedTitle node existing) (changedUrl isSyncableUrl node existing))) := by
    rw [← hlive', liveById_changeNode (.edited _ _) fun _ => rfl, hexisting, Option.map_some]
  have hnow := planNode_of_live isSyncableUrl (fullCover nodes) live'
    ((congrFun hlook node.o).trans (Function.update_self _ _ _))
  rw [if_pos (mayEdit_fullCover hmem hfits.edited)] at hnow
  have hbefore := planNode_of_live isSyncableUrl (fullCover nodes) live hexisting
  rw [if_pos (mayEdit_fullCover hmem hfits)] at hbefore
  have hlater : nodes.filterMap (fun other =>
      (planNode isSyncableUrl (fullCover nodes) live' other).update) = later := by
    refine hturn _ (fun other _ hne => by rw [planNode_of_update hlook hne]) ?_
    rw [hnow, changedTitle_edited, changedUrl_edited]
    rfl
  rw [operationsFor, hlater, h.filterMap_of_update hmem hlook NodePlan.restore (by rw [hnow, hbefore]),
    h.filterMap_of_update hmem hlook NodePlan.move (by rw [hnow, hbefore]; rfl), deletes_eq_of_unheld]
  rw [← hlive']
  exact unheld_changeNode (fun _ => rfl) (by rw [hnode]; rfl)

/-- **A move** is planned no more once it is carried out. -/
theorem operations_move (h : IsRestorable nodes live) (hexec : execute live operation = some live')
    {later : List PlannedOperation}
    (hfirst : nodes.filterMap (fun node => (planNode isSyncableUrl (fullCover nodes) live node).move) =
      operation :: later) :
    operationsFor isSyncableUrl nodes live' mode =
      nodes.filterMap (fun node => (planNode isSyncableUrl (fullCover nodes) live node).restore) ++
      nodes.filterMap (fun node => (planNode isSyncableUrl (fullCover nodes) live node).update) ++ later ++
      deletes nodes live mode .all := by
  obtain ⟨node, hmem, hop, hturn⟩ := filterMap_eq_of_turn h.point.distinct hfirst
  rw [planNode_move] at hop
  obtain ⟨existing, hexisting, hop⟩ := Option.bind_eq_some_iff.mp hop
  obtain ⟨-, hop⟩ := Option.ite_none_right_eq_some.mp hop
  obtain rfl := Option.some.inj hop
  have hfits := h.fits hmem hexisting
  have hnode : pointById nodes node.o = some node := (byId_eq_some_iff h.point.distinct).mpr ⟨hmem, rfl⟩
  have hlive' : changeNode live node.o (.placed node.p node.x) = live' := by
    rw [execute] at hexec
    simp only [relocate, hexisting, Option.isNone_some, Bool.false_eq_true, if_false] at hexec
    obtain ⟨-, hexec⟩ := Option.ite_none_right_eq_some.mp hexec
    exact Option.some.inj hexec
  have hlook : liveById live' = Function.update (liveById live) node.o
      (some (existing.placed node.p node.x)) := by
    rw [← hlive', liveById_changeNode (.placed _ _) fun _ => rfl, hexisting, Option.map_some]
  have hnow := planNode_of_live isSyncableUrl (fullCover nodes) live'
    ((congrFun hlook node.o).trans (Function.update_self _ _ _))
  rw [if_pos (mayEdit_fullCover hmem hfits.placed)] at hnow
  have hbefore := planNode_of_live isSyncableUrl (fullCover nodes) live hexisting
  rw [if_pos (mayEdit_fullCover hmem hfits)] at hbefore
  have hlater : nodes.filterMap (fun other =>
      (planNode isSyncableUrl (fullCover nodes) live' other).move) = later := by
    refine hturn _ (fun other _ hne => by rw [planNode_of_update hlook hne]) ?_
    rw [hnow]
    exact if_neg fun hchange => hchange.elim (fun hne => hne rfl) fun hne => hne rfl
  rw [operationsFor, hlater, h.filterMap_of_update hmem hlook NodePlan.restore (by rw [hnow, hbefore]),
    h.filterMap_of_update hmem hlook NodePlan.update (by rw [hnow, hbefore]; rfl), deletes_eq_of_unheld]
  rw [← hlive']
  exact unheld_changeNode (fun _ => rfl) (by rw [hnode]; rfl)

/-! ### Deletions -/

/-- Where no moves are left, what the point does not hold is above none of its nodes. -/
theorem not_below_of_placed (h : IsRestorable nodes live)
    (hmoves : nodes.filterMap (fun node => (planNode isSyncableUrl (fullCover nodes) live node).move) = [])
    {top id : String} (hroot : top ∉ rootIds) (hpoint : top ∉ nodes.map PointNode.o)
    (hid : id ∈ rootIds ∨ id ∈ nodes.map PointNode.o) : ¬ Below (liveUp live) top id := by
  intro hbelow
  have htop := hbelow.mem_of_closed (s := fun a => a ∈ rootIds ∨ a ∈ nodes.map PointNode.o) ?_ hid
  · exact htop.elim hroot hpoint
  · rintro a b (ha | ha) hup
    · rw [h.forest.liveUp_root a ha] at hup
      cases hup
    · obtain ⟨node, hmem, rfl⟩ := List.mem_map.mp ha
      obtain ⟨existing, hexisting, rfl⟩ := Option.map_eq_some_iff.mp hup
      have hmove := List.filterMap_eq_nil_iff.mp hmoves node hmem
      rw [planNode_move, hexisting, Option.bind_some] at hmove
      have hplace : existing.parentObjectId = node.p := by
        by_contra hne
        rw [if_pos ⟨mayEdit_fullCover hmem (h.fits hmem hexisting), Or.inl hne⟩] at hmove
        cases hmove
      rw [hplace]
      exact (h.point.parent_mem hmem).imp_right fun ⟨parent, hparent, ho⟩ =>
        List.mem_map.mpr ⟨parent, hparent, ho⟩

/-- What is above a node that is unwanted is unwanted, or holds it for good. -/
theorem parent_cases (h : IsRestorable nodes live) {existing : LiveBookmarkNode} (hmem : existing ∈ live)
    (hparent : existing.parentObjectId ∉ unwanted nodes live .all) :
    existing.parentObjectId ∈ rootIds ∨ existing.parentObjectId ∈ nodes.map PointNode.o := by
  have hup : liveUp live existing.objectId = some existing.parentObjectId := by
    rw [liveUp, h.forest.liveById_eq_some_iff.mpr ⟨hmem, rfl⟩]
    rfl
  refine (isPlace_iff.mp (h.forest.isPlace_parent hup)).imp_right fun hsome => ?_
  by_contra hnot
  exact hparent (h.mem_unwanted_all hsome (byId_eq_none_iff.mpr hnot))

/-- **A deletion** is planned no more once it is carried out, when nothing else is left. -/
theorem operations_delete (h : IsRestorable nodes live) (hexec : execute live operation = some live')
    (hedits : nodes.filterMap (fun node => (planNode isSyncableUrl (fullCover nodes) live node).restore) ++
      nodes.filterMap (fun node => (planNode isSyncableUrl (fullCover nodes) live node).update) ++
      nodes.filterMap (fun node => (planNode isSyncableUrl (fullCover nodes) live node).move) = [])
    (hfirst : deletes nodes live mode .all = operation :: rest) :
    operationsFor isSyncableUrl nodes live' mode = rest := by
  cases mode with
  | merge => cases hfirst
  | exactly =>
    have hmoves := (List.append_eq_nil_iff.mp hedits).2
    have hchange : operation.change = .delete := deletes_change (hfirst ▸ List.mem_cons_self)
    have hdeleted : operation.objectId ∈
        (deletes nodes live .exactly .all).map PlannedOperation.objectId :=
      hfirst ▸ List.mem_map_of_mem List.mem_cons_self
    obtain ⟨hroot, hpoint⟩ := deletes_outside hdeleted
    have hbelow : ∀ id, (id ∈ rootIds ∨ id ∈ nodes.map PointNode.o) →
        ¬ Below (liveUp live) operation.objectId id := fun _ => h.not_below_of_placed hmoves hroot hpoint
    obtain ⟨after, hexec', -, hkept, -⟩ := execute_delete h.forest operation hchange
    obtain rfl : live' = after := Option.some.inj (hexec.symm.trans hexec')
    -- The nodes of the point stay as they are.
    have hplans : ∀ node ∈ nodes, planNode isSyncableUrl (fullCover nodes) live' node =
        planNode isSyncableUrl (fullCover nodes) live node := fun node hmem =>
      planNode_congr (hkept node.o (fun heq => hpoint (heq ▸ List.mem_map_of_mem hmem))
        (hbelow node.o (Or.inr (List.mem_map_of_mem hmem))))
    have hsame : ∀ part : NodePlan → Option PlannedOperation,
        nodes.filterMap (fun node => part (planNode isSyncableUrl (fullCover nodes) live' node)) =
          nodes.filterMap fun node => part (planNode isSyncableUrl (fullCover nodes) live node) :=
      fun part => List.filterMap_congr fun node hmem => by rw [hplans node hmem]
    rw [operationsFor, hsame NodePlan.restore, hsame NodePlan.update, hsame NodePlan.move, hedits,
      List.nil_append]
    -- What is left of the unwanted nodes: those that are not below the one that was deleted.
    have hlive' : live' = live.filter fun node =>
        node.objectId ≠ operation.objectId ∧ !isBelow live operation.objectId node.objectId := by
      rw [execute, hchange] at hexec
      exact (Option.some.inj hexec).symm
    have hmem' : ∀ node, node ∈ live' ↔ node ∈ live ∧ node.objectId ≠ operation.objectId ∧
        ¬ Below (liveUp live) operation.objectId node.objectId := by
      intro node
      rw [hlive', List.mem_filter, decide_eq_true_eq, Bool.not_eq_true', ← Bool.not_eq_true, isBelow_iff]
    have hunwanted : ∀ id, id ∈ unwanted nodes live' .all ↔ id ∈ unwanted nodes live .all ∧
        id ≠ operation.objectId ∧ ¬ Below (liveUp live) operation.objectId id := by
      intro id
      rw [mem_unwanted, mem_unwanted]
      constructor
      · rintro ⟨existing, hexisting, rfl, hrest⟩
        obtain ⟨hlive, hleft⟩ := (hmem' existing).mp hexisting
        exact ⟨⟨existing, hlive, rfl, hrest⟩, hleft⟩
      · rintro ⟨⟨existing, hexisting, rfl, hrest⟩, hleft⟩
        exact ⟨existing, (hmem' existing).mpr ⟨hexisting, hleft⟩, rfl, hrest⟩
    have htop : operation.objectId ∈ unwanted nodes live .all := by
      obtain ⟨_, -, -, hid, -⟩ := mem_deletes.mp hdeleted
      exact hid
    have hkeep : ∀ node ∈ live, (node.objectId ≠ operation.objectId ∧
        ¬ Below (liveUp live) operation.objectId node.objectId) ∧ (node.objectId ∈ unwanted nodes live' .all ∧
          node.parentObjectId ∉ unwanted nodes live' .all ∧ node.objectId ∉ rootIds) ↔
        node.objectId ≠ operation.objectId ∧ node.objectId ∈ unwanted nodes live .all ∧
          node.parentObjectId ∉ unwanted nodes live .all ∧ node.objectId ∉ rootIds := by
      intro node hnode
      have hup : liveUp live node.objectId = some node.parentObjectId := by
        rw [liveUp, h.forest.liveById_eq_some_iff.mpr ⟨hnode, rfl⟩]
        rfl
      rw [hunwanted, hunwanted]
      constructor
      · rintro ⟨⟨hne, hnot⟩, ⟨hin, -⟩, hparent, hnoroot⟩
        refine ⟨hne, hin, fun hbad => hparent ⟨hbad, fun heq => ?_, fun hb => ?_⟩, hnoroot⟩
        · exact hnot (below_iff.mpr ⟨_, hup, Or.inl heq⟩)
        · exact hnot (below_iff.mpr ⟨_, hup, Or.inr hb⟩)
      · rintro ⟨hne, hin, hparent, hnoroot⟩
        have hnot : ¬ Below (liveUp live) operation.objectId node.objectId := by
          intro hb
          obtain ⟨parent, hparentUp, hcase⟩ := below_iff.mp hb
          obtain rfl := Option.some.inj (hup.symm.trans hparentUp)
          rcases hcase with heq | hb
          · exact hparent (heq ▸ htop)
          · exact hbelow _ (h.parent_cases hnode hparent) hb
        exact ⟨⟨hne, hnot⟩, ⟨hin, hne, hnot⟩, fun hbad => hparent hbad.1, hnoroot⟩
    rw [deletes] at hfirst ⊢
    obtain ⟨top, others, htops, hoperation, rfl⟩ := List.map_eq_cons_iff.mp hfirst
    have hid : operation.objectId = top.objectId := hoperation ▸ rfl
    refine congrArg _ ?_
    have hfilter : (live'.filter fun node => decide (node.objectId ∈ unwanted nodes live' .all ∧
        node.parentObjectId ∉ unwanted nodes live' .all ∧ node.objectId ∉ rootIds)) =
        (live.filter fun node => decide (node.objectId ∈ unwanted nodes live .all ∧
          node.parentObjectId ∉ unwanted nodes live .all ∧ node.objectId ∉ rootIds)).filter
            fun node => node.objectId ≠ top.objectId := by
      rw [hlive', List.filter_filter, List.filter_filter, ← hlive']
      refine List.filter_congr fun node hnode => ?_
      have hiff := hkeep node hnode
      rw [← isBelow_iff, Bool.not_eq_true] at hiff
      rw [← hid, Bool.eq_iff_iff]
      simp only [Bool.and_eq_true, decide_eq_true_eq, Bool.not_eq_true']
      tauto
    rw [hfilter, htops, List.filter_cons_of_neg (by simp), List.filter_eq_self.mpr fun node hnode => ?_]
    -- No two nodes have one id.
    have hdistinct : ((top :: others).map LiveBookmarkNode.objectId).Nodup := by
      rw [← htops]
      exact h.forest.distinct.sublist (List.filter_sublist.map _)
    rw [List.map_cons, List.nodup_cons] at hdistinct
    exact decide_eq_true fun heq => hdistinct.1 (heq ▸ List.mem_map_of_mem hnode)

/-- **An operation that was carried out is planned no more**, and the others are planned as before. -/
theorem operations_step (h : IsRestorable nodes live)
    (hplan : operationsFor isSyncableUrl nodes live mode = operation :: rest)
    (hexec : execute live operation = some live') :
    operationsFor isSyncableUrl nodes live' mode = rest := by
  rw [operationsFor] at hplan
  -- The first of the four lists that has an operation has this one.
  cases hrestores : nodes.filterMap (fun node =>
      (planNode isSyncableUrl (fullCover nodes) live node).restore) with
  | cons first later =>
    rw [hrestores] at hplan
    obtain ⟨rfl, rfl⟩ := List.cons.inj hplan
    exact h.operations_restore hexec hrestores
  | nil =>
  cases hupdates : nodes.filterMap (fun node =>
      (planNode isSyncableUrl (fullCover nodes) live node).update) with
  | cons first later =>
    rw [hrestores, hupdates] at hplan
    obtain ⟨rfl, rfl⟩ := List.cons.inj hplan
    rw [h.operations_update hexec hupdates, hrestores]
    rfl
  | nil =>
  cases hmoves : nodes.filterMap (fun node =>
      (planNode isSyncableUrl (fullCover nodes) live node).move) with
  | cons first later =>
    rw [hrestores, hupdates, hmoves] at hplan
    obtain ⟨rfl, rfl⟩ := List.cons.inj hplan
    rw [h.operations_move hexec hmoves, hrestores, hupdates]
    rfl
  | nil =>
    rw [hrestores, hupdates, hmoves] at hplan
    refine h.operations_delete hexec ?_ hplan
    rw [hrestores, hupdates, hmoves]
    rfl

end IsRestorable

/-! ### Runs -/

/-- **Wherever a restore stops**, what was left is what is planned there. -/
theorem Passes.exists_drop {start last : List LiveBookmarkNode} {operations : List PlannedOperation}
    (h : Passes (LeadsTo isSyncableUrl nodes mode start) live operations last)
    (hplan : operationsFor isSyncableUrl nodes live mode = operations) (n : ℕ) :
    ∃ mid, Client.executeAll live (operations.take n) = some mid ∧ LeadsTo isSyncableUrl nodes mode start mid ∧
      operationsFor isSyncableUrl nodes mid mode = operations.drop n := by
  induction h generalizing n with
  | nil hgood => exact ⟨_, by rw [List.take_nil]; rfl, hgood, by rw [hplan, List.drop_nil]⟩
  | @cons live live' last operation rest hgood hstep _ ih =>
    cases n with
    | zero => exact ⟨live, rfl, hgood, hplan⟩
    | succ n =>
      obtain ⟨mid, hmid, hlead, hleft⟩ := ih (hgood.restorable.operations_step hplan hstep) n
      refine ⟨mid, ?_, hlead, hleft⟩
      rw [List.take_succ_cons, Client.executeAll, hstep]
      exact hmid

theorem unwanted_perm {again : List LiveBookmarkNode} (hperm : again.Perm live) {id : String} :
    id ∈ unwanted nodes again .all ↔ id ∈ unwanted nodes live .all := by
  rw [mem_unwanted, mem_unwanted]
  exact exists_congr fun existing => and_congr_left fun _ => hperm.mem_iff

theorem deletes_perm {again : List LiveBookmarkNode} (hperm : again.Perm live) :
    (deletes nodes again mode .all).Perm (deletes nodes live mode .all) := by
  cases mode with
  | merge => exact List.Perm.refl _
  | exactly =>
    rw [deletes, deletes]
    simp only [unwanted_perm hperm]
    exact (hperm.filter _).map _

/-- The order in which the bookmarks are listed is at most that of the deletions. -/
theorem operationsFor_perm (hforest : IsLiveForest live) {again : List LiveBookmarkNode}
    (hperm : again.Perm live) : (operationsFor isSyncableUrl nodes again mode).Perm
      (operationsFor isSyncableUrl nodes live mode) := by
  have hplans : ∀ node, planNode isSyncableUrl (fullCover nodes) again node =
      planNode isSyncableUrl (fullCover nodes) live node := fun node =>
    planNode_congr (by rw [hforest.liveById_perm hperm])
  rw [operationsFor, operationsFor]
  simp only [hplans]
  exact (deletes_perm hperm).append_left _

/-- What a valid point is restored to. -/
theorem isRestorable_of_validatePoint {isDate : String → Bool} {value : Json} {point : PointPlaintext}
    (hvalid : validatePoint isDate value = .ok point)
    (hfolders : ∀ node ∈ point.nodes, ∀ parent ∈ point.nodes, parent.o = node.p → parent.k = .folder)
    (hforest : IsLiveForest live)
    (hkind : ∀ node ∈ point.nodes, ∀ existing ∈ live, existing.objectId = node.o → existing.kind = node.k)
    (hmanaged : ∀ existing ∈ live, existing.unmodifiable = false)
    (hurl : ∀ existing ∈ live, existing.kind = .folder → existing.url = none) :
    IsRestorable point.nodes live where
  point := isPoint_of_validatePoint hvalid
  folders := hfolders
  forest := hforest
  sameKind node hmem existing hexisting :=
    hkind node hmem existing (mem_of_byId hexisting).1 (mem_of_byId hexisting).2
  notManaged _ existing hexisting := hmanaged existing (mem_of_byId hexisting).1
  folderUrl _ existing hexisting := hurl existing (mem_of_byId hexisting).1

/-- **A restore of everything goes on where it stopped**: after any number of its operations the plan
that is made anew is what was left of the first one. If the browser lists its bookmarks in another
order, that is so up to the order of the deletions. -/
theorem restore_resumes {isDate : String → Bool} {value : Json} {point : PointPlaintext}
    (hvalid : validatePoint isDate value = .ok point)
    (hfolders : ∀ node ∈ point.nodes, ∀ parent ∈ point.nodes, parent.o = node.p → parent.k = .folder)
    (hforest : IsLiveForest live)
    (hkind : ∀ node ∈ point.nodes, ∀ existing ∈ live, existing.objectId = node.o → existing.kind = node.k)
    (hmanaged : ∀ existing ∈ live, existing.unmodifiable = false)
    (hurl : ∀ existing ∈ live, existing.kind = .folder → existing.url = none)
    (isSyncableUrl : String → Bool) (mode : RestoreMode) :
    ∃ plan, planRestore isSyncableUrl point.nodes live mode .all = .ok plan ∧
      ∀ n, ∃ mid plan', executeAll live (plan.operations.take n) = some mid ∧
        planRestore isSyncableUrl point.nodes mid mode .all = .ok plan' ∧
        plan'.operations = plan.operations.drop n ∧
        ∀ again : List LiveBookmarkNode, again.Perm mid → ∃ other,
          planRestore isSyncableUrl point.nodes again mode .all = .ok other ∧
            other.operations.Perm (plan.operations.drop n) := by
  have h := isRestorable_of_validatePoint hvalid hfolders hforest hkind hmanaged hurl
  obtain ⟨plan, last, hplan, hrun, -⟩ := h.exists_run isSyncableUrl mode
  obtain ⟨_, hplan', hoperations⟩ : ∃ plan, planRestore isSyncableUrl point.nodes live mode .all = .ok plan ∧
      plan.operations = operationsFor isSyncableUrl point.nodes live mode := planRestore_all
  obtain rfl := Except.ok.inj (hplan.symm.trans hplan')
  refine ⟨plan, hplan, fun n => ?_⟩
  obtain ⟨mid, hmid, hlead, hleft⟩ := hrun.exists_drop hoperations.symm n
  obtain ⟨plan', hplan', hoperations'⟩ := planRestore_all
  refine ⟨mid, plan', hmid, hplan', hoperations'.trans hleft, fun again hperm => ?_⟩
  obtain ⟨other, hother, hoperations''⟩ := planRestore_all
  refine ⟨other, hother, ?_⟩
  rw [hoperations'', ← hleft]
  exact operationsFor_perm hlead.restorable.forest hperm

/-- An exact restore that moves a folder out of a new one, restores a bookmark and deletes the new
folder, stopped after the first of these. -/
theorem restore_resumes_smallPoint :
    ∃ plan, planRestore (fun _ => true) smallPoint.nodes smallLive .exactly .all = .ok plan ∧
      plan.operations.length = 3 ∧ ∃ mid plan',
        executeAll smallLive (plan.operations.take 1) = some mid ∧
        planRestore (fun _ => true) smallPoint.nodes mid .exactly .all = .ok plan' ∧
        plan'.operations = plan.operations.drop 1 := by
  have hvalid : validatePoint (fun _ => true) smallPoint.value = .ok smallPoint := rfl
  obtain ⟨plan, hplan, hresume⟩ := restore_resumes hvalid (by decide) isLiveForest_smallLive (by decide)
    (by decide) (by decide) (fun _ => true) .exactly
  obtain ⟨mid, plan', hmid, hplan', hleft, -⟩ := hresume 1
  refine ⟨plan, hplan, ?_, mid, plan', hmid, hplan', hleft⟩
  obtain rfl := Except.ok.inj hplan
  decide

end Client

end HelixSync
