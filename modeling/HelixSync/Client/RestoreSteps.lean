import HelixSync.Client.RestorePlans

/-!
# Carrying out a plan

A plan is carried out in four phases: restores, updates, moves, deletions. The first three
go through the point in its order, and what one of them does to a node depends on that node
only (`HelixSync.Client.Overlaid`), so that a phase is described by what it does to a node
and by when the browser can do it (`HelixSync.Client.IsPhase`). The parents of a node come
before it in the point, so the places they are in are settled when its turn comes.

A deletion takes with it what is below, and it does not matter in which order nodes are
deleted (`HelixSync.Client.Pruned`).
-/

namespace HelixSync

namespace Client

open ParentChains

/-! ### Runs -/

/-- Operations carried out one after another, with a property of every state on the way. -/
inductive Passes (good : List LiveBookmarkNode → Prop) :
    List LiveBookmarkNode → List PlannedOperation → List LiveBookmarkNode → Prop
  | nil {live : List LiveBookmarkNode} (h : good live) : Passes good live [] live
  | cons {live live' last : List LiveBookmarkNode} {operation : PlannedOperation}
      {rest : List PlannedOperation} (h : good live) (hstep : execute live operation = some live')
      (hrest : Passes good live' rest last) : Passes good live (operation :: rest) last

namespace Passes

variable {good good' : List LiveBookmarkNode → Prop} {live mid last : List LiveBookmarkNode}
  {operations operations' : List PlannedOperation}

theorem executeAll (h : Passes good live operations last) :
    executeAll live operations = some last := by
  induction h with
  | nil => rfl
  | cons _ hstep _ ih => rw [Client.executeAll, hstep]; exact ih

theorem mono (hgood : ∀ live, good live → good' live) (h : Passes good live operations last) :
    Passes good' live operations last := by
  induction h with
  | nil h => exact .nil (hgood _ h)
  | cons h hstep _ ih => exact .cons (hgood _ h) hstep ih

theorem append (h : Passes good live operations mid) (h' : Passes good mid operations' last) :
    Passes good live (operations ++ operations') last := by
  induction h with
  | nil => exact h'
  | cons h hstep _ ih => exact .cons h hstep (ih h')

theorem good_last (h : Passes good live operations last) : good last := by
  induction h with
  | nil h => exact h
  | cons _ _ _ ih => exact ih

/-- **A run can be stopped anywhere**, and the property holds there. -/
theorem exists_take (h : Passes good live operations last) (n : ℕ) :
    ∃ mid, Client.executeAll live (operations.take n) = some mid ∧ good mid := by
  induction h generalizing n with
  | nil h => exact ⟨_, by rw [List.take_nil]; rfl, h⟩
  | cons h hstep _ ih =>
    cases n with
    | zero => exact ⟨_, rfl, h⟩
    | succ n =>
      obtain ⟨mid, hmid, hgood⟩ := ih n
      refine ⟨mid, ?_, hgood⟩
      rw [List.take_succ_cons, Client.executeAll, hstep]
      exact hmid

end Passes

theorem executeAll_append {live : List LiveBookmarkNode} {operations operations' : List PlannedOperation} :
    executeAll live (operations ++ operations') =
      (executeAll live operations).bind fun mid => executeAll mid operations' := by
  induction operations generalizing live with
  | nil => rfl
  | cons operation rest ih =>
    rw [List.cons_append, executeAll, executeAll]
    cases execute live operation with
    | none => rfl
    | some live' => exact ih

/-! ### Phases -/

/-- The bookmarks with what a phase does done to some nodes of the point. -/
structure Overlaid (next : PointNode → Option LiveBookmarkNode → Option LiveBookmarkNode)
    (written : List PointNode) (live live' : List LiveBookmarkNode) : Prop where
  done : ∀ node ∈ written, liveById live' node.o = next node (liveById live node.o)
  rest : ∀ id, id ∉ written.map PointNode.o → liveById live' id = liveById live id

/-- A phase: what it does to a node, the operation it has for it, and when this can be
carried out, given the nodes that had their turn. -/
structure IsPhase (next : PointNode → Option LiveBookmarkNode → Option LiveBookmarkNode)
    (operation? : PointNode → Option PlannedOperation) (possible : List PointNode → PointNode → Prop)
    (nodes : List PointNode) (live : List LiveBookmarkNode) : Prop where
  quiet : ∀ earlier node rest mid, nodes = earlier ++ node :: rest → IsLiveForest mid →
    Overlaid next earlier live mid → operation? node = none →
    next node (liveById mid node.o) = liveById mid node.o
  works : ∀ earlier node rest mid operation, nodes = earlier ++ node :: rest → IsLiveForest mid →
    Overlaid next earlier live mid → operation? node = some operation → possible earlier node →
    ∃ mid', execute mid operation = some mid' ∧ IsLiveForest mid' ∧
      liveById mid' = Function.update (liveById mid) node.o (next node (liveById mid node.o))
  fails : ∀ earlier node rest mid operation, nodes = earlier ++ node :: rest → IsLiveForest mid →
    Overlaid next earlier live mid → operation? node = some operation → ¬ possible earlier node →
    execute mid operation = none

section Phase

variable {next : PointNode → Option LiveBookmarkNode → Option LiveBookmarkNode}
  {operation? : PointNode → Option PlannedOperation} {possible : List PointNode → PointNode → Prop}
  {nodes earlier rest : List PointNode} {node : PointNode} {live mid mid' last : List LiveBookmarkNode}

theorem overlaid_nil : Overlaid next [] live live := ⟨nofun, fun _ _ => rfl⟩

/-- A node that had no turn is as it was. -/
theorem Overlaid.at_node (h : Overlaid next earlier live mid) (hpoint : IsPoint nodes)
    (heq : nodes = earlier ++ node :: rest) : liveById mid node.o = liveById live node.o :=
  h.rest _ (hpoint earlier node rest heq).fresh

theorem Overlaid.snoc (h : Overlaid next earlier live mid) (hpoint : IsPoint nodes)
    (heq : nodes = earlier ++ node :: rest)
    (hlook : liveById mid' = Function.update (liveById mid) node.o (next node (liveById mid node.o))) :
    Overlaid next (earlier ++ [node]) live mid' where
  done other hother := by
    have hfresh := (hpoint earlier node rest heq).fresh
    rw [hlook]
    rcases List.mem_append.mp hother with hmem | hlast
    · have hne : other.o ≠ node.o := fun hid => hfresh (hid ▸ List.mem_map_of_mem hmem)
      rw [Function.update_of_ne hne]
      exact h.done other hmem
    · obtain rfl := List.mem_singleton.mp hlast
      rw [Function.update_self, h.at_node hpoint heq]
  rest id hid := by
    rw [List.map_append, List.mem_append, not_or] at hid
    rw [hlook, Function.update_of_ne (fun heq => hid.2 (List.mem_singleton.mpr heq))]
    exact h.rest id hid.1

/-- What holds on the way through a phase. -/
def MidPhase (next : PointNode → Option LiveBookmarkNode → Option LiveBookmarkNode)
    (nodes : List PointNode) (live mid : List LiveBookmarkNode) : Prop :=
  IsLiveForest mid ∧ ∃ earlier, earlier ⊆ nodes ∧ Overlaid next earlier live mid

theorem IsPhase.passes_from (h : IsPhase next operation? possible nodes live) (hpoint : IsPoint nodes)
    (hpossible : ∀ earlier node rest, nodes = earlier ++ node :: rest → (operation? node).isSome →
      possible earlier node) (heq : nodes = earlier ++ rest) (hmid : IsLiveForest mid)
    (hover : Overlaid next earlier live mid) :
    ∃ last, Passes (MidPhase next nodes live) mid (rest.filterMap operation?) last ∧
      IsLiveForest last ∧ Overlaid next nodes live last := by
  have hgood : MidPhase next nodes live mid :=
    ⟨hmid, earlier, by rw [heq]; exact List.subset_append_left _ _, hover⟩
  induction rest generalizing earlier mid with
  | nil =>
    rw [List.append_nil] at heq
    exact ⟨mid, .nil hgood, hmid, heq ▸ hover⟩
  | cons node rest ih =>
    have heq' : nodes = earlier ++ [node] ++ rest := by rw [heq, List.append_assoc]; rfl
    have hstep : ∃ mid', IsLiveForest mid' ∧ Overlaid next (earlier ++ [node]) live mid' ∧
        ∀ last, Passes (MidPhase next nodes live) mid' (rest.filterMap operation?) last →
          Passes (MidPhase next nodes live) mid ((node :: rest).filterMap operation?) last := by
      cases hop : operation? node with
      | none =>
        refine ⟨mid, hmid, hover.snoc hpoint heq ?_, fun last hlast => ?_⟩
        · rw [h.quiet earlier node rest mid heq hmid hover hop, Function.update_eq_self]
        · rwa [List.filterMap_cons_none hop]
      | some operation =>
        obtain ⟨mid', hexec, hmid', hlook⟩ := h.works earlier node rest mid operation heq hmid hover hop
          (hpossible earlier node rest heq (by rw [hop]; rfl))
        refine ⟨mid', hmid', hover.snoc hpoint heq hlook, fun last hlast => ?_⟩
        rw [List.filterMap_cons_some hop]
        exact .cons hgood hexec hlast
    obtain ⟨mid', hmid', hover', hcons⟩ := hstep
    obtain ⟨last, hlast, hspec⟩ := ih heq' hmid' hover'
      ⟨hmid', earlier ++ [node], by rw [heq']; exact List.subset_append_left _ _, hover'⟩
    exact ⟨last, hcons last hlast, hspec⟩

/-- **A phase goes through** if each of its operations is possible at its turn. -/
theorem IsPhase.passes (h : IsPhase next operation? possible nodes live) (hpoint : IsPoint nodes)
    (hlive : IsLiveForest live)
    (hpossible : ∀ earlier node rest, nodes = earlier ++ node :: rest → (operation? node).isSome →
      possible earlier node) :
    ∃ last, Passes (MidPhase next nodes live) live (nodes.filterMap operation?) last ∧
      IsLiveForest last ∧ Overlaid next nodes live last :=
  h.passes_from hpoint hpossible rfl hlive overlaid_nil

theorem IsPhase.possible_from (h : IsPhase next operation? possible nodes live) (hpoint : IsPoint nodes)
    (heq : nodes = earlier ++ rest) (hmid : IsLiveForest mid) (hover : Overlaid next earlier live mid)
    (hrun : (executeAll mid (rest.filterMap operation?)).isSome) :
    ∀ written node others, rest = written ++ node :: others → (operation? node).isSome →
      possible (earlier ++ written) node := by
  induction rest generalizing earlier mid with
  | nil => exact fun written node others hnil => absurd hnil (by simp)
  | cons first rest ih =>
    have heq' : nodes = earlier ++ [first] ++ rest := by rw [heq, List.append_assoc]; rfl
    -- Where the run stands after the turn of the first node, which was possible.
    have hstep : ∃ mid', IsLiveForest mid' ∧ Overlaid next (earlier ++ [first]) live mid' ∧
        (executeAll mid' (rest.filterMap operation?)).isSome ∧
        ((operation? first).isSome → possible earlier first) := by
      cases hop : operation? first with
      | none =>
        rw [List.filterMap_cons_none hop] at hrun
        refine ⟨mid, hmid, hover.snoc hpoint heq ?_, hrun, nofun⟩
        rw [h.quiet earlier first rest mid heq hmid hover hop, Function.update_eq_self]
      | some operation =>
        rw [List.filterMap_cons_some hop, executeAll] at hrun
        have hpossible : possible earlier first := by
          by_contra hnot
          rw [h.fails earlier first rest mid operation heq hmid hover hop hnot] at hrun
          exact absurd hrun nofun
        obtain ⟨mid', hexec, hmid', hlook⟩ :=
          h.works earlier first rest mid operation heq hmid hover hop hpossible
        rw [hexec] at hrun
        exact ⟨mid', hmid', hover.snoc hpoint heq hlook, hrun, fun _ => hpossible⟩
    obtain ⟨mid', hmid', hover', hrun', hfirst⟩ := hstep
    rintro (_ | ⟨_, written⟩) node others hsplit hsome
    · obtain ⟨rfl, -⟩ := List.cons.inj hsplit
      rw [List.append_nil]
      exact hfirst hsome
    · obtain ⟨rfl, hothers⟩ := List.cons.inj hsplit
      have hnode := ih heq' hmid' hover' hrun' written node others hothers hsome
      rwa [List.append_assoc] at hnode

/-- **A phase that went through** was possible. -/
theorem IsPhase.possible_of_run (h : IsPhase next operation? possible nodes live) (hpoint : IsPoint nodes)
    (hlive : IsLiveForest live) (hrun : (executeAll live (nodes.filterMap operation?)).isSome) :
    ∀ earlier node rest, nodes = earlier ++ node :: rest → (operation? node).isSome →
      possible earlier node :=
  @IsPhase.possible_from next operation? possible nodes [] nodes live live h hpoint rfl hlive
    overlaid_nil hrun

end Phase

/-! ### What the phases do -/

section Phases

variable (isSyncableUrl : String → Bool) (cover : RestoreCover) (nodes : List PointNode)
  (live : List LiveBookmarkNode)

/-- Whether a restore covers a node or needs it to exist. -/
def IsWanted (node : PointNode) : Prop :=
  node.o ∈ cover.inScope ∨ node.o ∈ cover.ancestorsToRestore

instance : DecidablePred (IsWanted cover) := fun _ => inferInstanceAs (Decidable (_ ∨ _))

/-- Whether a restore may edit and move a node that exists. -/
def MayEdit (node : PointNode) (existing : LiveBookmarkNode) : Prop :=
  node.o ∈ cover.inScope ∧ existing.unmodifiable = false

instance (node : PointNode) (existing : LiveBookmarkNode) : Decidable (MayEdit cover node existing) :=
  inferInstanceAs (Decidable (_ ∧ _))

/-- A node as it is restored. -/
def restoredNode (node : PointNode) : LiveBookmarkNode :=
  ⟨node.o, node.k, node.t, if node.k = .bookmark then node.u else none, node.p, some node.x, false⟩

/-- What the restores do. -/
def afterRestore (node : PointNode) : Option LiveBookmarkNode → Option LiveBookmarkNode
  | some existing => some existing
  | none =>
    if IsWanted cover node ∧ isUnsyncable isSyncableUrl node = false then some (restoredNode node)
    else none

/-- What the updates do. -/
def afterUpdate (node : PointNode) (current : Option LiveBookmarkNode) : Option LiveBookmarkNode :=
  current.map fun existing =>
    if MayEdit cover node existing then
      existing.edited (changedTitle node existing) (changedUrl isSyncableUrl node existing)
    else existing

/-- What the moves do. -/
def afterMove (node : PointNode) (current : Option LiveBookmarkNode) : Option LiveBookmarkNode :=
  current.map fun existing =>
    if MayEdit cover node existing then existing.placed node.p node.x else existing

/-- The parent of a node is no bookmark that is left out for its URL. -/
def IsParentKept (node : PointNode) : Prop :=
  ∀ parent ∈ nodes, parent.o = node.p → liveById live parent.o = none →
    isUnsyncable isSyncableUrl parent = false

/-- The parents at the turn of a node in the moves: what is restored or had its turn is in its
place, everything else where it was. -/
def mixedUp (earlier : List PointNode) (id : String) : Option String :=
  match pointById nodes id, liveById live id with
  | none, existing => existing.map LiveBookmarkNode.parentObjectId
  | some node, none =>
    if IsWanted cover node ∧ isUnsyncable isSyncableUrl node = false then some node.p else none
  | some node, some existing =>
    if node ∈ earlier ∧ MayEdit cover node existing then some node.p
    else some existing.parentObjectId

/-! ### What is planned for a node -/

@[simp]
theorem kindOf_objectTypeOf (k : NodeKind) : kindOf (objectTypeOf k) = k := by cases k <;> rfl

theorem planNode_of_gone {node : PointNode} (hgone : liveById live node.o = none) :
    planNode isSyncableUrl cover live node =
      if IsWanted cover node then
        if isUnsyncable isSyncableUrl node then { NodePlan.nothing with skipped := 1 } else
        { NodePlan.nothing with
          restore := some ⟨objectTypeOf node.k, node.o,
            .restore node.t (if node.k = .bookmark then node.u else none) node.p node.x, node.t⟩ }
      else .nothing := by
  rw [planNode, hgone]
  by_cases hwanted : IsWanted cover node
  · rw [if_pos hwanted]
    exact if_neg (not_and_or.mpr (hwanted.imp not_not_intro not_not_intro))
  · rw [if_neg hwanted]
    exact if_pos (not_or.mp hwanted)

theorem planNode_of_live {node : PointNode} {existing : LiveBookmarkNode}
    (hlive : liveById live node.o = some existing) :
    planNode isSyncableUrl cover live node =
      if MayEdit cover node existing then
        { restore := none
          update := if (changedTitle node existing).isSome ∨
              (changedUrl isSyncableUrl node existing).isSome then
              some ⟨objectTypeOf node.k, node.o,
                .update (changedTitle node existing) (changedUrl isSyncableUrl node existing), node.t⟩
            else none
          move := if existing.parentObjectId ≠ node.p ∨ existing.position ≠ some node.x then
              some ⟨objectTypeOf node.k, node.o, .move node.p node.x, node.t⟩
            else none
          skipped := if existing.url ≠ node.u ∧ isUnsyncable isSyncableUrl node then 1 else 0 }
      else .nothing := by
  rw [planNode, hlive]
  by_cases hscope : node.o ∈ cover.inScope
  · rw [if_neg (fun h => h.1 hscope)]
    by_cases hmanaged : existing.unmodifiable = true
    · rw [if_neg (fun h : MayEdit cover node existing => absurd h.2 (by simp [hmanaged]))]
      exact if_pos (Or.inr hmanaged)
    · rw [if_pos (show MayEdit cover node existing from ⟨hscope, Bool.eq_false_iff.mpr hmanaged⟩)]
      exact if_neg (not_or.mpr ⟨not_not_intro hscope, hmanaged⟩)
  · rw [if_neg (fun h : MayEdit cover node existing => hscope h.1)]
    split
    · rfl
    · exact if_pos (Or.inl hscope)

theorem planNode_restore (node : PointNode) : (planNode isSyncableUrl cover live node).restore =
    if liveById live node.o = none ∧ IsWanted cover node ∧ isUnsyncable isSyncableUrl node = false then
      some ⟨objectTypeOf node.k, node.o,
        .restore node.t (if node.k = .bookmark then node.u else none) node.p node.x, node.t⟩
    else none := by
  cases hlive : liveById live node.o with
  | none =>
    rw [planNode_of_gone isSyncableUrl cover live hlive]
    by_cases hwanted : IsWanted cover node
    · cases hurl : isUnsyncable isSyncableUrl node <;> simp [hwanted, NodePlan.nothing]
    · simp [hwanted, NodePlan.nothing]
  | some existing =>
    rw [planNode_of_live isSyncableUrl cover live hlive]
    by_cases hedit : MayEdit cover node existing <;> simp [hedit, NodePlan.nothing]

theorem planNode_update (node : PointNode) : (planNode isSyncableUrl cover live node).update =
    (liveById live node.o).bind fun existing =>
      if MayEdit cover node existing ∧ ((changedTitle node existing).isSome ∨
          (changedUrl isSyncableUrl node existing).isSome) then
        some ⟨objectTypeOf node.k, node.o,
          .update (changedTitle node existing) (changedUrl isSyncableUrl node existing), node.t⟩
      else none := by
  cases hlive : liveById live node.o with
  | none =>
    rw [planNode_of_gone isSyncableUrl cover live hlive]
    split
    · split <;> rfl
    · rfl
  | some existing =>
    rw [planNode_of_live isSyncableUrl cover live hlive, Option.bind_some]
    by_cases hedit : MayEdit cover node existing
    · simp only [hedit, true_and, if_true]
    · rw [if_neg hedit, if_neg (fun h => hedit h.1)]
      rfl

theorem planNode_move (node : PointNode) : (planNode isSyncableUrl cover live node).move =
    (liveById live node.o).bind fun existing =>
      if MayEdit cover node existing ∧
          (existing.parentObjectId ≠ node.p ∨ existing.position ≠ some node.x) then
        some ⟨objectTypeOf node.k, node.o, .move node.p node.x, node.t⟩
      else none := by
  cases hlive : liveById live node.o with
  | none =>
    rw [planNode_of_gone isSyncableUrl cover live hlive]
    split
    · split <;> rfl
    · rfl
  | some existing =>
    rw [planNode_of_live isSyncableUrl cover live hlive, Option.bind_some]
    by_cases hedit : MayEdit cover node existing
    · simp only [hedit, true_and, if_true]
    · rw [if_neg hedit, if_neg (fun h => hedit h.1)]
      rfl

end Phases

section PhaseSpecs

variable {isSyncableUrl : String → Bool} {cover : RestoreCover} {nodes earlier rest : List PointNode}
  {node parent : PointNode} {existing : LiveBookmarkNode} {live live' mid : List LiveBookmarkNode}
  {restored updated : RestoreCover}

/-- The cover of a restore takes the parents along that are gone. -/
def IsClosedCover (cover : RestoreCover) (nodes : List PointNode) (live : List LiveBookmarkNode) : Prop :=
  ∀ node ∈ nodes, IsWanted cover node → ∀ parent ∈ nodes, parent.o = node.p →
    liveById live parent.o = none → IsWanted cover parent

theorem afterRestore_isSome {current : Option LiveBookmarkNode} :
    (afterRestore isSyncableUrl cover node current).isSome ↔
      (current = none → IsWanted cover node ∧ isUnsyncable isSyncableUrl node = false) := by
  cases current with
  | none =>
    by_cases h : IsWanted cover node ∧ isUnsyncable isSyncableUrl node = false
    · simp [afterRestore, h]
    · simp [afterRestore, h]
  | some existing => simp [afterRestore]

/-- What is restored needs no update. -/
theorem afterUpdate_restoredNode :
    afterUpdate isSyncableUrl cover node (some (restoredNode node)) = some (restoredNode node) := by
  have htitle : changedTitle node (restoredNode node) = none := if_neg (not_not_intro rfl)
  have hurl : changedUrl isSyncableUrl node (restoredNode node) = none := by
    refine if_neg fun h => h.2.1 ?_
    rw [restoredNode, if_pos h.1]
  rw [afterUpdate, Option.map_some, htitle, hurl]
  split <;> rfl

theorem afterMove_restoredNode :
    afterMove cover node (some (restoredNode node)) = some (restoredNode node) := by
  rw [afterMove, Option.map_some]
  split <;> rfl

/-- Whether the parent of a node is there when the restores have come to the node. -/
theorem isPlace_parent_iff (hpoint : IsPoint nodes) (hclosed : IsClosedCover cover nodes live)
    (heq : nodes = earlier ++ node :: rest) (hwanted : IsWanted cover node)
    (hdone : ∀ other ∈ earlier, (liveById mid other.o).isSome =
      (afterRestore isSyncableUrl cover other (liveById live other.o)).isSome) :
    isPlace mid node.p = true ↔ IsParentKept isSyncableUrl nodes live node := by
  have hmem : node ∈ nodes := by rw [heq]; exact List.mem_append_right _ List.mem_cons_self
  have hnode := hpoint earlier node rest heq
  rw [isPlace_iff]
  constructor
  · rintro hplace parent hparent ho hgone
    have hearlier : parent ∈ earlier := by
      rcases hnode.parent with hp | hp
      · exact absurd (ho ▸ hp) (hpoint.notRoot hparent)
      · obtain ⟨other, hother, heq'⟩ := List.mem_map.mp hp
        have hother' : other ∈ nodes := by rw [heq]; exact List.mem_append_left _ hother
        obtain rfl := List.inj_on_of_nodup_map hpoint.distinct hother' hparent (heq'.trans ho.symm)
        exact hother
    have hsome : (liveById mid parent.o).isSome :=
      hplace.elim (fun hr => absurd (ho ▸ hr) (hpoint.notRoot hparent)) fun h => ho ▸ h
    rw [hdone parent hearlier, afterRestore_isSome] at hsome
    exact (hsome hgone).2
  · intro hkept
    refine hnode.parent.imp_right fun hp => ?_
    obtain ⟨parent, hparent, ho⟩ := List.mem_map.mp hp
    have hpmem : parent ∈ nodes := by rw [heq]; exact List.mem_append_left _ hparent
    rw [← ho, hdone parent hparent, afterRestore_isSome]
    exact fun hgone => ⟨hclosed node hmem hwanted parent hpmem ho hgone, hkept parent hpmem ho hgone⟩

/-- **The restores.** -/
theorem isPhase_restore (hpoint : IsPoint nodes) (hclosed : IsClosedCover cover nodes live) :
    IsPhase (afterRestore isSyncableUrl cover)
      (fun node => (planNode isSyncableUrl cover live node).restore)
      (fun _ node => IsParentKept isSyncableUrl nodes live node) nodes live where
  quiet earlier node rest mid heq hmid hover hop := by
    rw [planNode_restore] at hop
    rw [hover.at_node hpoint heq]
    cases hcurrent : liveById live node.o with
    | none =>
      rw [hcurrent] at hop
      refine if_neg fun h => ?_
      rw [if_pos ⟨rfl, h⟩] at hop
      exact absurd hop nofun
    | some existing => rfl
  works earlier node rest mid operation heq hmid hover hop hkept := by
    rw [planNode_restore] at hop
    obtain ⟨⟨hgone, hwanted, hurl⟩, hop⟩ := Option.ite_none_right_eq_some.mp hop
    have hmem : node ∈ nodes := by rw [heq]; exact List.mem_append_right _ List.mem_cons_self
    have hplace : isPlace mid node.p = true :=
      (isPlace_parent_iff hpoint hclosed heq hwanted fun other hother => by
        rw [hover.done other hother]).mpr hkept
    obtain rfl := Option.some.inj hop
    obtain ⟨mid', hexec, hmid', hlook⟩ := execute_restore hmid ⟨objectTypeOf node.k, node.o,
      .restore node.t (if node.k = .bookmark then node.u else none) node.p node.x, node.t⟩ rfl
      ((hover.at_node hpoint heq).trans hgone) (hpoint.notRoot hmem) hplace
    have hnext : afterRestore isSyncableUrl cover node none = some (restoredNode node) :=
      if_pos ⟨hwanted, hurl⟩
    refine ⟨mid', hexec, hmid', ?_⟩
    rw [hlook, hover.at_node hpoint heq, hgone, hnext, kindOf_objectTypeOf]
    rfl
  fails earlier node rest mid operation heq hmid hover hop hkept := by
    rw [planNode_restore] at hop
    obtain ⟨⟨hgone, hwanted, hurl⟩, hop⟩ := Option.ite_none_right_eq_some.mp hop
    obtain rfl := Option.some.inj hop
    have hplace : ¬ isPlace mid node.p = true :=
      (isPlace_parent_iff hpoint hclosed heq hwanted fun other hother => by
        rw [hover.done other hother]).not.mpr hkept
    have hgone' : liveById mid node.o = none := (hover.at_node hpoint heq).trans hgone
    exact (if_neg (by simp [hgone'])).trans (if_neg hplace)

/-- **The updates**, once the restores are done. -/
theorem isPhase_update (hpoint : IsPoint nodes)
    (hover : Overlaid (afterRestore isSyncableUrl restored) nodes live live') :
    IsPhase (afterUpdate isSyncableUrl cover)
      (fun node => (planNode isSyncableUrl cover live node).update) (fun _ _ => True) nodes live' where
  quiet earlier node rest mid heq hmid hmidover hop := by
    have hmem : node ∈ nodes := by rw [heq]; exact List.mem_append_right _ List.mem_cons_self
    rw [hmidover.at_node hpoint heq, hover.done node hmem]
    rw [planNode_update] at hop
    cases hcurrent : liveById live node.o with
    | none =>
      rw [afterRestore]
      split
      · exact afterUpdate_restoredNode
      · rfl
    | some existing =>
      rw [hcurrent, Option.bind_some] at hop
      have hnot : ¬ (MayEdit cover node existing ∧ ((changedTitle node existing).isSome ∨
          (changedUrl isSyncableUrl node existing).isSome)) := by
        intro h
        rw [if_pos h] at hop
        exact absurd hop nofun
      rw [afterRestore, afterUpdate, Option.map_some]
      by_cases hedit : MayEdit cover node existing
      · obtain ⟨htitle, hurl⟩ := not_or.mp fun h => hnot ⟨hedit, h⟩
        rw [if_pos hedit, Option.not_isSome_iff_eq_none.mp htitle, Option.not_isSome_iff_eq_none.mp hurl]
        rfl
      · rw [if_neg hedit]
  works earlier node rest mid operation heq hmid hmidover hop _ := by
    have hmem : node ∈ nodes := by rw [heq]; exact List.mem_append_right _ List.mem_cons_self
    rw [planNode_update] at hop
    obtain ⟨existing, hexisting, hop⟩ := Option.bind_eq_some_iff.mp hop
    obtain ⟨⟨hedit, -⟩, hop⟩ := Option.ite_none_right_eq_some.mp hop
    obtain rfl := Option.some.inj hop
    obtain ⟨mid', hexec, hmid', hlook⟩ := execute_update hmid ⟨objectTypeOf node.k, node.o,
      .update (changedTitle node existing) (changedUrl isSyncableUrl node existing), node.t⟩ rfl
    refine ⟨mid', hexec, hmid', hlook.trans ?_⟩
    rw [hmidover.at_node hpoint heq, hover.done node hmem, hexisting, afterRestore, afterUpdate,
      Option.map_some, Option.map_some, if_pos hedit]
  fails earlier node rest mid operation _ _ _ _ hnot := absurd trivial hnot

/-- The nodes once restores and updates are done. -/
theorem liveById_afterUpdate (hover : Overlaid (afterRestore isSyncableUrl cover) nodes live live')
    (hover' : Overlaid (afterUpdate isSyncableUrl updated) nodes live' mid) (hmem : node ∈ nodes) :
    liveById mid node.o = afterUpdate isSyncableUrl updated node
      (afterRestore isSyncableUrl cover node (liveById live node.o)) := by
  rw [hover'.done node hmem, hover.done node hmem]

/-- What restores and updates do to a node that exists. -/
theorem afterUpdate_some : ∃ edited : LiveBookmarkNode,
    afterUpdate isSyncableUrl updated node (afterRestore isSyncableUrl cover node (some existing)) =
      some edited ∧ edited.parentObjectId = existing.parentObjectId ∧
      edited.position = existing.position ∧ edited.unmodifiable = existing.unmodifiable ∧
      edited.kind = existing.kind := by
  rw [afterRestore, afterUpdate, Option.map_some]
  by_cases hedit : MayEdit updated node existing
  · rw [if_pos hedit]
    exact ⟨_, rfl, rfl, rfl, rfl, rfl⟩
  · rw [if_neg hedit]
    exact ⟨_, rfl, rfl, rfl, rfl, rfl⟩

/-- **The parents at the turn of a node** in the moves. -/
theorem liveUp_eq_mixedUp (hpoint : IsPoint nodes)
    (hover : Overlaid (afterRestore isSyncableUrl cover) nodes live live')
    (hover' : Overlaid (afterUpdate isSyncableUrl updated) nodes live' mid)
    {last : List LiveBookmarkNode} (hmove : Overlaid (afterMove cover) earlier mid last)
    (hsub : earlier ⊆ nodes) :
    liveUp last = mixedUp isSyncableUrl cover nodes live earlier := by
  funext id
  rw [liveUp, mixedUp]
  cases hnode : pointById nodes id with
  | none =>
    have hid : id ∉ nodes.map PointNode.o := byId_eq_none_iff.mp hnode
    have hid' : id ∉ earlier.map PointNode.o := fun h => hid (List.map_subset _ hsub h)
    rw [hmove.rest id hid', hover'.rest id hid, hover.rest id hid]
  | some node =>
    obtain ⟨hmem, rfl⟩ := mem_of_byId hnode
    have hmid := liveById_afterUpdate hover hover' hmem
    have hlast : liveById last node.o =
        if node ∈ earlier then afterMove cover node (liveById mid node.o) else liveById mid node.o := by
      by_cases hearlier : node ∈ earlier
      · rw [if_pos hearlier, hmove.done node hearlier]
      · rw [if_neg hearlier, hmove.rest]
        rintro hid
        obtain ⟨other, hother, ho⟩ := List.mem_map.mp hid
        exact hearlier (List.inj_on_of_nodup_map hpoint.distinct (hsub hother) hmem ho ▸ hother)
    cases hlive : liveById live node.o with
    | none =>
      rw [hlive, afterRestore] at hmid
      dsimp only
      by_cases hwanted : IsWanted cover node ∧ isUnsyncable isSyncableUrl node = false
      · rw [if_pos hwanted, afterUpdate_restoredNode] at hmid
        rw [if_pos hwanted, hlast, hmid, afterMove_restoredNode, ite_self]
        rfl
      · rw [if_neg hwanted] at hmid
        rw [if_neg hwanted, hlast, hmid]
        split <;> rfl
    | some existing =>
      obtain ⟨edited, hedited, hparent, -, hmanaged, -⟩ :=
        @afterUpdate_some isSyncableUrl cover node existing updated
      rw [hlive, hedited] at hmid
      have hedit : MayEdit cover node edited ↔ MayEdit cover node existing := by
        rw [MayEdit, MayEdit, hmanaged]
      dsimp only
      rw [hlast, hmid, afterMove, Option.map_some]
      by_cases hearlier : node ∈ earlier
      · by_cases hmay : MayEdit cover node existing
        · rw [if_pos hearlier, if_pos (hedit.mpr hmay), if_pos ⟨hearlier, hmay⟩]
          rfl
        · rw [if_pos hearlier, if_neg (hedit.not.mpr hmay), if_neg fun h => hmay h.2]
          exact congrArg some hparent
      · rw [if_neg hearlier, if_neg fun h => hearlier h.1]
        exact congrArg some hparent

/-- When a node can be moved: its parent is there, and is not below it. -/
def IsMovable (isSyncableUrl : String → Bool) (cover : RestoreCover) (nodes : List PointNode)
    (live : List LiveBookmarkNode) (earlier : List PointNode) (node : PointNode) : Prop :=
  IsParentKept isSyncableUrl nodes live node ∧
    ¬ Below (mixedUp isSyncableUrl cover nodes live earlier) node.o node.p

/-- What a planned move is, and where the browser stands at its turn. -/
theorem move_spec (hpoint : IsPoint nodes) (hclosed : IsClosedCover cover nodes live)
    (hover : Overlaid (afterRestore isSyncableUrl cover) nodes live live')
    (hover' : Overlaid (afterUpdate isSyncableUrl updated) nodes live' mid)
    {last : List LiveBookmarkNode} {operation : PlannedOperation}
    (heq : nodes = earlier ++ node :: rest) (hmove : Overlaid (afterMove cover) earlier mid last)
    (hop : (planNode isSyncableUrl cover live node).move = some operation) :
    operation = ⟨objectTypeOf node.k, node.o, .move node.p node.x, node.t⟩ ∧
      (∃ edited, liveById last node.o = some edited ∧
        afterMove cover node (some edited) = some (edited.placed node.p node.x)) ∧
      (isPlace last node.p = true ↔ IsParentKept isSyncableUrl nodes live node) := by
  have hsub : earlier ⊆ nodes := by rw [heq]; exact List.subset_append_left _ _
  have hmem : node ∈ nodes := by rw [heq]; exact List.mem_append_right _ List.mem_cons_self
  rw [planNode_move] at hop
  obtain ⟨existing, hexisting, hop⟩ := Option.bind_eq_some_iff.mp hop
  obtain ⟨⟨hedit, -⟩, hop⟩ := Option.ite_none_right_eq_some.mp hop
  obtain ⟨edited, hedited, -, -, hmanaged, -⟩ :=
    @afterUpdate_some isSyncableUrl cover node existing updated
  refine ⟨(Option.some.inj hop).symm, ⟨edited, ?_, ?_⟩, ?_⟩
  · rw [hmove.at_node hpoint heq, liveById_afterUpdate hover hover' hmem, hexisting, hedited]
  · exact congrArg some (if_pos (by rw [MayEdit, hmanaged]; exact hedit))
  · refine isPlace_parent_iff hpoint hclosed heq (Or.inl hedit.1) fun other hother => ?_
    rw [hmove.done other hother, liveById_afterUpdate hover hover' (hsub hother), afterMove,
      Option.isSome_map, afterUpdate, Option.isSome_map]

/-- **The moves**, once the updates are done. -/
theorem isPhase_move (hpoint : IsPoint nodes) (hclosed : IsClosedCover cover nodes live)
    (hover : Overlaid (afterRestore isSyncableUrl cover) nodes live live')
    (hover' : Overlaid (afterUpdate isSyncableUrl updated) nodes live' mid) :
    IsPhase (afterMove cover) (fun node => (planNode isSyncableUrl cover live node).move)
      (IsMovable isSyncableUrl cover nodes live) nodes mid where
  quiet earlier node rest last heq hlast hmove hop := by
    have hmem : node ∈ nodes := by rw [heq]; exact List.mem_append_right _ List.mem_cons_self
    rw [hmove.at_node hpoint heq, liveById_afterUpdate hover hover' hmem]
    rw [planNode_move] at hop
    cases hcurrent : liveById live node.o with
    | none =>
      rw [afterRestore]
      split
      · rw [afterUpdate_restoredNode, afterMove_restoredNode]
      · rfl
    | some existing =>
      obtain ⟨edited, hedited, hparent, hposition, hmanaged, -⟩ :=
        @afterUpdate_some isSyncableUrl cover node existing updated
      rw [hcurrent, Option.bind_some] at hop
      rw [hedited, afterMove, Option.map_some]
      by_cases hedit : MayEdit cover node existing
      · have hsame : existing.parentObjectId = node.p ∧ existing.position = some node.x := by
          by_contra hnot
          rw [if_pos ⟨hedit, not_and_or.mp hnot⟩] at hop
          exact absurd hop nofun
        rw [if_pos (by rw [MayEdit, hmanaged]; exact hedit), LiveBookmarkNode.placed, ← hsame.1, ← hsame.2,
          ← hparent, ← hposition]
      · rw [if_neg (by rw [MayEdit, hmanaged]; exact hedit)]
  works earlier node rest last operation heq hlast hmove hop hmovable := by
    have hsub : earlier ⊆ nodes := by rw [heq]; exact List.subset_append_left _ _
    obtain ⟨rfl, ⟨edited, hedited, hplaced⟩, hplace⟩ :=
      move_spec hpoint hclosed hover hover' heq hmove hop
    have hnode := hpoint earlier node rest heq
    have hne : node.p ≠ node.o := by
      intro hself
      have hparent := hnode.parent
      rw [hself] at hparent
      exact hparent.elim hnode.notRoot hnode.fresh
    have hnot : ¬ Below (liveUp last) node.o node.p := by
      rw [liveUp_eq_mixedUp hpoint hover hover' hmove hsub]
      exact hmovable.2
    obtain ⟨last', hexec, hlast', hlook⟩ :=
      relocate_eq hlast hedited (hplace.mpr hmovable.1) hne hnot
    refine ⟨last', hexec, hlast', ?_⟩
    rw [hlook, hedited, hplaced]
  fails earlier node rest last operation heq hlast hmove hop hnot := by
    have hsub : earlier ⊆ nodes := by rw [heq]; exact List.subset_append_left _ _
    obtain ⟨rfl, ⟨edited, hedited, -⟩, hplace⟩ :=
      move_spec hpoint hclosed hover hover' heq hmove hop
    refine (if_neg (by simp [hedited])).trans (if_neg ?_)
    rintro ⟨hparent, -, hbelow⟩
    refine hnot ⟨hplace.mp hparent, ?_⟩
    rwa [Bool.not_eq_true', ← Bool.not_eq_true, isBelow_iff,
      liveUp_eq_mixedUp hpoint hover hover' hmove hsub] at hbelow

/-- A plan for a cover. -/
theorem planRestore_eq (isSyncableUrl : String → Bool) (nodes : List PointNode)
    (live : List LiveBookmarkNode) (mode : RestoreMode) {scope : RestoreScope}
    (hcover : coverOf nodes scope = some cover) :
    ∃ plan, planRestore isSyncableUrl nodes live mode scope = .ok plan ∧
      plan.operations =
        nodes.filterMap (fun node => (planNode isSyncableUrl cover live node).restore) ++
        nodes.filterMap (fun node => (planNode isSyncableUrl cover live node).update) ++
        nodes.filterMap (fun node => (planNode isSyncableUrl cover live node).move) ++
        deletes nodes live mode scope ∧
      plan.counts.skipped =
        (nodes.map fun node => (planNode isSyncableUrl cover live node).skipped).sum := by
  rw [planRestore, hcover]
  refine ⟨_, rfl, ?_, ?_⟩
  · simp only [List.filterMap_map]
    rfl
  · simp only [List.map_map]
    rfl

/-- **Nothing is to be done to the nodes of a point** where those that are there are as the point
has them, and those that are not have URLs that are not created. -/
theorem edits_eq_nil
    (hgone : ∀ node ∈ nodes, liveById live node.o = none → isUnsyncable isSyncableUrl node = true)
    (hsame : ∀ node ∈ nodes, ∀ existing, liveById live node.o = some existing →
      changedTitle node existing = none ∧ changedUrl isSyncableUrl node existing = none ∧
        existing.parentObjectId = node.p ∧ existing.position = some node.x) :
    nodes.filterMap (fun node => (planNode isSyncableUrl cover live node).restore) ++
      nodes.filterMap (fun node => (planNode isSyncableUrl cover live node).update) ++
      nodes.filterMap (fun node => (planNode isSyncableUrl cover live node).move) = [] := by
  rw [List.append_eq_nil_iff, List.append_eq_nil_iff]
  refine ⟨⟨?_, ?_⟩, ?_⟩
  · refine List.filterMap_eq_nil_iff.mpr fun node hmem => ?_
    rw [planNode_restore]
    refine if_neg ?_
    rintro ⟨hnone, -, hurl⟩
    exact absurd (hgone node hmem hnone) (Bool.eq_false_iff.mp hurl)
  · refine List.filterMap_eq_nil_iff.mpr fun node hmem => ?_
    rw [planNode_update, Option.bind_eq_none_iff]
    intro existing hexisting
    obtain ⟨htitle, hurl, -⟩ := hsame node hmem existing hexisting
    refine if_neg ?_
    rw [htitle, hurl]
    simp
  · refine List.filterMap_eq_nil_iff.mpr fun node hmem => ?_
    rw [planNode_move, Option.bind_eq_none_iff]
    intro existing hexisting
    obtain ⟨-, -, hparent, hposition⟩ := hsame node hmem existing hexisting
    exact if_neg fun hchange => hchange.2.elim (fun hne => hne hparent) fun hne => hne hposition

end PhaseSpecs

/-! ### Deletions -/

/-- The bookmarks without some nodes and what is below them. -/
structure Pruned (tops : List String) (live live' : List LiveBookmarkNode) : Prop where
  kept : ∀ a, (∀ top ∈ tops, a ≠ top ∧ ¬ Below (liveUp live) top a) → liveById live' a = liveById live a
  gone : ∀ a, (∃ top ∈ tops, a = top ∨ Below (liveUp live) top a) → liveById live' a = none

section Deletions

variable {live live' last : List LiveBookmarkNode} {tops : List String} {top a : String}
  {operations : List PlannedOperation}

theorem pruned_nil : Pruned [] live live := ⟨fun _ _ => rfl, fun _ ⟨_, h, _⟩ => absurd h List.not_mem_nil⟩

/-- What is below something after a deletion was so before. -/
theorem Pruned.below (h : Pruned tops live live') (hbelow : Below (liveUp live') top a) :
    Below (liveUp live) top a := by
  refine hbelow.of_kept (s := fun _ => True) ?_ trivial
  intro b c _ hbc
  obtain ⟨node, hnode, rfl⟩ := Option.map_eq_some_iff.mp hbc
  refine ⟨?_, trivial⟩
  by_cases hb : ∃ top ∈ tops, b = top ∨ Below (liveUp live) top b
  · rw [h.gone b hb] at hnode
    exact absurd hnode nofun
  · rw [liveUp, ← h.kept b (by simpa using hb), hnode]
    rfl

/-- What is below something and is not deleted is still below it. -/
theorem Pruned.below_of_kept (h : Pruned tops live live')
    (ha : ∀ top ∈ tops, a ≠ top ∧ ¬ Below (liveUp live) top a) (hbelow : Below (liveUp live) top a) :
    Below (liveUp live') top a := by
  refine hbelow.of_kept (s := fun b => ∀ top ∈ tops, b ≠ top ∧ ¬ Below (liveUp live) top b) ?_ ha
  intro b c hb hbc
  refine ⟨?_, fun top htop => ?_⟩
  · rw [liveUp, h.kept b hb]
    exact hbc
  · exact (@kept_of_not_below _ (liveUp live) (liveUp live) top (fun _ _ => rfl) b c (hb top htop) hbc).2

theorem Pruned.cons (h : Pruned [top] live live') (h' : Pruned tops live' last) :
    Pruned (top :: tops) live last where
  kept a ha := by
    have hfirst : ∀ t ∈ [top], a ≠ t ∧ ¬ Below (liveUp live) t a := fun t ht =>
      ha t (List.mem_cons.mpr (Or.inl (List.mem_singleton.mp ht)))
    rw [h'.kept a fun t ht => ⟨(ha t (List.mem_cons_of_mem _ ht)).1,
      fun hbelow => (ha t (List.mem_cons_of_mem _ ht)).2 (h.below hbelow)⟩, h.kept a hfirst]
  gone a ha := by
    by_cases hfirst : ∀ t ∈ [top], a ≠ t ∧ ¬ Below (liveUp live) t a
    · obtain ⟨t, ht, hcase⟩ := ha
      have hin : t ∈ tops := by
        rcases List.mem_cons.mp ht with rfl | ht
        · have hnot := hfirst t (List.mem_singleton_self t)
          exact (hcase.elim hnot.1 hnot.2).elim
        · exact ht
      exact h'.gone a ⟨t, hin, hcase.imp_right (h.below_of_kept hfirst)⟩
    · have hnone : liveById live' a = none := by
        refine h.gone a ?_
        push Not at hfirst
        obtain ⟨t, ht, hcase⟩ := hfirst
        exact ⟨t, ht, or_iff_not_imp_left.mpr hcase⟩
      by_cases hlater : ∃ t ∈ tops, a = t ∨ Below (liveUp live') t a
      · exact h'.gone a hlater
      · rw [h'.kept a (by simpa using hlater), hnone]

/-- **Deletions** can always be carried out. -/
theorem passes_deletes (hlive : IsLiveForest live)
    (hdelete : ∀ operation ∈ operations, operation.change = .delete) :
    ∃ last, Passes (fun mid => IsLiveForest mid ∧ ∃ tops, tops ⊆ operations.map PlannedOperation.objectId ∧
      Pruned tops live mid) live operations last ∧ IsLiveForest last ∧
      Pruned (operations.map PlannedOperation.objectId) live last := by
  induction operations generalizing live with
  | nil => exact ⟨live, .nil ⟨hlive, [], List.nil_subset _, pruned_nil⟩, hlive, pruned_nil⟩
  | cons operation rest ih =>
    obtain ⟨live', hexec, hlive', hkept, hgone⟩ :=
      execute_delete hlive operation (hdelete operation List.mem_cons_self)
    have hfirst : Pruned [operation.objectId] live live' := by
      refine ⟨fun a ha => ?_, fun a ha => ?_⟩
      · obtain ⟨hne, hnot⟩ := ha operation.objectId (List.mem_singleton_self _)
        exact hkept a hne hnot
      · obtain ⟨t, ht, hcase⟩ := ha
        obtain rfl := List.mem_singleton.mp ht
        exact hgone a hcase
    obtain ⟨last, hlast, hforest, hpruned⟩ :=
      ih hlive' fun other hother => hdelete other (List.mem_cons_of_mem _ hother)
    refine ⟨last, .cons ⟨hlive, [], List.nil_subset _, pruned_nil⟩ hexec (hlast.mono ?_), hforest,
      hfirst.cons hpruned⟩
    rintro mid ⟨hmid, tops, hsub, htops⟩
    exact ⟨hmid, operation.objectId :: tops, List.cons_subset_cons _ hsub, hfirst.cons htops⟩

/-- What is unwanted. -/
theorem mem_unwanted {nodes : List PointNode} {scope : RestoreScope} {id : String} :
    id ∈ unwanted nodes live scope ↔ ∃ existing ∈ considered live scope,
      existing.objectId = id ∧ pointById nodes id = none ∧ existing.unmodifiable = false := by
  rw [unwanted, List.mem_map]
  constructor
  · rintro ⟨existing, hmem, rfl⟩
    obtain ⟨hmem, hkeep⟩ := List.mem_filter.mp hmem
    obtain ⟨hnone, hmanaged⟩ := of_decide_eq_true hkeep
    exact ⟨existing, hmem, rfl, Option.isNone_iff_eq_none.mp hnone, by simpa using hmanaged⟩
  · rintro ⟨existing, hmem, rfl, hnone, hmanaged⟩
    exact ⟨existing, List.mem_filter.mpr ⟨hmem, by simp [hnone, hmanaged]⟩, rfl⟩

theorem deletes_change {nodes : List PointNode} {mode : RestoreMode} {scope : RestoreScope}
    {operation : PlannedOperation} (hmem : operation ∈ deletes nodes live mode scope) : operation.change = .delete := by
  cases mode with
  | merge => exact absurd hmem List.not_mem_nil
  | exactly =>
    obtain ⟨_, -, rfl⟩ := List.mem_map.mp hmem
    rfl

/-- What is deleted: the topmost nodes that are unwanted. -/
theorem mem_deletes {nodes : List PointNode} {scope : RestoreScope} {id : String} :
    id ∈ (deletes nodes live .exactly scope).map PlannedOperation.objectId ↔
      ∃ existing ∈ live, existing.objectId = id ∧ id ∈ unwanted nodes live scope ∧
        existing.parentObjectId ∉ unwanted nodes live scope ∧ id ∉ rootIds := by
  rw [deletes, List.map_map]
  constructor
  · intro h
    obtain ⟨existing, hmem, rfl⟩ := List.mem_map.mp h
    obtain ⟨hmem, hkeep⟩ := List.mem_filter.mp hmem
    obtain ⟨hunwanted, hparent, hroot⟩ := of_decide_eq_true hkeep
    exact ⟨existing, hmem, rfl, hunwanted, hparent, hroot⟩
  · rintro ⟨existing, hmem, rfl, hunwanted, hparent, hroot⟩
    exact List.mem_map.mpr ⟨existing, List.mem_filter.mpr
      ⟨hmem, decide_eq_true ⟨hunwanted, hparent, hroot⟩⟩, rfl⟩

theorem considered_subset {scope : RestoreScope} : considered live scope ⊆ live := by
  cases scope with
  | all => exact List.Subset.refl live
  | folder id =>
    intro existing hmem
    rw [considered] at hmem
    split at hmem
    · obtain ⟨_, -, hin⟩ := List.mem_flatMap.mp hmem
      exact List.mem_of_mem_filter hin
    · exact absurd hmem List.not_mem_nil

/-- **What is unwanted is deleted**, itself or with something above it. -/
theorem exists_delete (hlive : IsLiveForest live) {nodes : List PointNode} {scope : RestoreScope} {x : String}
    (hx : x ∈ unwanted nodes live scope) {up : String → Option String}
    (hup : ∀ id, pointById nodes id = none → up id = liveUp live id) :
    ∃ top ∈ (deletes nodes live .exactly scope).map PlannedOperation.objectId,
      x = top ∨ Below up top x := by
  have hsome : ∀ y ∈ unwanted nodes live scope, (liveById live y).isSome := by
    intro y hy
    obtain ⟨existing, hmem, rfl, -⟩ := mem_unwanted.mp hy
    exact liveById_isSome_iff.mpr (List.mem_map_of_mem (considered_subset hmem))
  have hrooted := hlive.rooted_of_isSome (hsome x hx)
  induction hrooted with
  | root hr =>
    have hlive' := hsome _ hx
    rw [hlive.liveById_root hr] at hlive'
    exact absurd hlive' nofun
  | @step a b hab _ ih =>
    obtain ⟨existing, hexisting, rfl⟩ := Option.map_eq_some_iff.mp hab
    obtain ⟨hmem, rfl⟩ := hlive.liveById_eq_some_iff.mp hexisting
    by_cases hparent : existing.parentObjectId ∈ unwanted nodes live scope
    · obtain ⟨_, -, -, hnone, -⟩ := mem_unwanted.mp hx
      obtain ⟨top, htop, hcase⟩ := ih hparent
      exact ⟨top, htop, Or.inr (below_iff.mpr ⟨existing.parentObjectId, (hup _ hnone).trans hab, hcase⟩)⟩
    · exact ⟨existing.objectId, mem_deletes.mpr
        ⟨existing, hmem, rfl, hx, hparent, hlive.notRoot existing hmem⟩, Or.inl rfl⟩

end Deletions

end Client

end HelixSync
