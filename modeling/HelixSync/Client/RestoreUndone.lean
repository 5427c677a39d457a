import HelixSync.Client.CapturedPoints
import HelixSync.Client.RestoreResumes

/-!
# A restore can be undone

Before a restore changes anything the bookmarks are saved as a restore point of their own
(`uploadPreRestorePoint`, `extension/src/restore-points/restore.ts`). That point is what undoes the
restore: whatever is restored, and wherever the restore stops, an exact restore of the saved point
gives the bookmarks back as they were (`HelixSync.Client.restore_undone`).

A point holds what is not managed by a policy, and only the URLs that the extension may create are
restored, so nothing may be managed, and all URLs have to be of that kind.
-/

namespace HelixSync

namespace Client

open ParentChains

variable {isSyncableUrl : String → Bool} {nodes : List PointNode} {node : PointNode} {mode : RestoreMode}
  {live live' mid : List LiveBookmarkNode} {id : String}

/-! ### What operations leave as it is -/

theorem liveById_relocate {other parent position : String} (hrelocate : relocate live other parent position = some live')
    (hne : id ≠ other) : liveById live' id = liveById live id := by
  rw [relocate] at hrelocate
  split at hrelocate
  · rw [Option.some.inj hrelocate]
  · obtain ⟨-, heq⟩ := Option.ite_none_right_eq_some.mp hrelocate
    rw [← Option.some.inj heq, liveById_changeNode (.placed parent position) fun _ => rfl,
      Function.update_of_ne hne]

/-- An operation leaves the nodes it is not for, or deletes them. -/
theorem liveById_execute {operation : PlannedOperation} (hexec : execute live operation = some live')
    (hne : operation.objectId = id → operation.change = .delete) :
    liveById live' id = liveById live id ∨ liveById live' id = none := by
  rw [execute] at hexec
  cases hchange : operation.change with
  | restore title url parent position =>
    have hid : id ≠ operation.objectId := by
      rintro rfl
      rw [hne rfl] at hchange
      cases hchange
    rw [hchange] at hexec
    simp only at hexec
    split at hexec
    · exact Or.inl (liveById_relocate hexec hid)
    · obtain ⟨-, heq⟩ := Option.ite_none_right_eq_some.mp hexec
      rw [← Option.some.inj heq, liveById_append, Function.update_of_ne hid]
      exact Or.inl rfl
  | update title url =>
    have hid : id ≠ operation.objectId := by
      rintro rfl
      rw [hne rfl] at hchange
      cases hchange
    rw [hchange] at hexec
    rw [← Option.some.inj hexec, liveById_changeNode (.edited title url) fun _ => rfl,
      Function.update_of_ne hid]
    exact Or.inl rfl
  | move parent position =>
    have hid : id ≠ operation.objectId := by
      rintro rfl
      rw [hne rfl] at hchange
      cases hchange
    rw [hchange] at hexec
    exact Or.inl (liveById_relocate hexec hid)
  | delete =>
    rw [hchange] at hexec
    have hlook : ∀ a, liveById (live.filter fun node => node.objectId ≠ operation.objectId ∧
        !isBelow live operation.objectId node.objectId) a =
        if decide (a ≠ operation.objectId ∧ (!isBelow live operation.objectId a) = true) = true
          then liveById live a else none :=
      byId_filter (fun id => id ≠ operation.objectId ∧ !isBelow live operation.objectId id) live
    rw [← Option.some.inj hexec, hlook]
    split
    · exact Or.inl rfl
    · exact Or.inr rfl

theorem liveById_executeAll {operations : List PlannedOperation}
    (hexec : executeAll live operations = some mid)
    (hne : ∀ operation ∈ operations, operation.objectId = id → operation.change = .delete) :
    liveById mid id = liveById live id ∨ liveById mid id = none := by
  induction operations generalizing live with
  | nil => exact Or.inl (by rw [Option.some.inj hexec])
  | cons operation rest ih =>
    rw [executeAll] at hexec
    cases hstep : execute live operation with
    | none =>
      rw [hstep] at hexec
      cases hexec
    | some next =>
      rw [hstep] at hexec
      have hrest := ih hexec fun other hother => hne other (List.mem_cons_of_mem _ hother)
      have hfirst := liveById_execute hstep (hne operation List.mem_cons_self)
      rcases hrest with hrest | hrest
      · rw [hrest]
        exact hfirst
      · exact Or.inr hrest

/-- What is not deleted is for a node of the point. -/
theorem mem_operationsFor {operation : PlannedOperation}
    (hmem : operation ∈ operationsFor isSyncableUrl nodes live mode) :
    operation.change = .delete ∨ operation.objectId ∈ nodes.map PointNode.o := by
  rw [operationsFor] at hmem
  rcases List.mem_append.mp hmem with hmem | hmem
  · refine Or.inr ?_
    rcases List.mem_append.mp hmem with hmem | hmem
    · rcases List.mem_append.mp hmem with hmem | hmem
      · obtain ⟨node, hnode, hop⟩ := List.mem_filterMap.mp hmem
        rw [planNode_restore] at hop
        obtain ⟨-, hop⟩ := Option.ite_none_right_eq_some.mp hop
        rw [← Option.some.inj hop]
        exact List.mem_map_of_mem hnode
      · obtain ⟨node, hnode, hop⟩ := List.mem_filterMap.mp hmem
        rw [planNode_update] at hop
        obtain ⟨existing, -, hop⟩ := Option.bind_eq_some_iff.mp hop
        obtain ⟨-, hop⟩ := Option.ite_none_right_eq_some.mp hop
        rw [← Option.some.inj hop]
        exact List.mem_map_of_mem hnode
    · obtain ⟨node, hnode, hop⟩ := List.mem_filterMap.mp hmem
      rw [planNode_move] at hop
      obtain ⟨existing, -, hop⟩ := Option.bind_eq_some_iff.mp hop
      obtain ⟨-, hop⟩ := Option.ite_none_right_eq_some.mp hop
      rw [← Option.some.inj hop]
      exact List.mem_map_of_mem hnode
  · exact Or.inl (deletes_change hmem)

/-! ### Bookmarks that can be given back -/

/-- **Bookmarks that a point holds in full**: none is managed, the positions of siblings are in order,
only folders have children, and the URLs of bookmarks may be created. -/
structure IsSaveable (isSyncableUrl : String → Bool) (live : List LiveBookmarkNode) : Prop where
  forest : IsLiveForest live
  keys : PositionsAreKeys live
  ascending : ∀ parent, IsAscending ((siblingsOf live [] parent).map LiveBookmarkNode.position)
  free : ∀ node ∈ live, node.unmodifiable = false
  uuid : ∀ node ∈ live, isUuid node.objectId = true
  folders : ∀ node ∈ live, ∀ parent ∈ live, parent.objectId = node.parentObjectId → parent.kind = .folder
  folderUrl : ∀ node ∈ live, node.kind = .folder → node.url = none
  bookmarkUrl : ∀ node ∈ live, node.kind = .bookmark → ∃ url, node.url = some url ∧ isSyncableUrl url = true

namespace IsSaveable

/-- All of them are held. -/
theorem shown (h : IsSaveable isSyncableUrl live) {existing : LiveBookmarkNode} (hmem : existing ∈ live) :
    Shown live existing := by
  have hrooted := h.forest.rooted existing hmem
  generalize hid : existing.objectId = id at hrooted
  induction hrooted generalizing existing with
  | root hroot => exact absurd (hid ▸ hroot) (h.forest.notRoot existing hmem)
  | @step id parent hup hparent ih =>
    subst hid
    rw [liveUp, h.forest.liveById_eq_some_iff.mpr ⟨hmem, rfl⟩] at hup
    obtain rfl : existing.parentObjectId = parent := Option.some.inj hup
    by_cases hroot : existing.parentObjectId ∈ rootIds
    · exact .root hmem (h.free existing hmem) hroot
    · cases hparent with
      | root hroot' => exact absurd hroot' hroot
      | step hup' _ =>
        obtain ⟨folder, hfolder, -⟩ := Option.map_eq_some_iff.mp hup'
        obtain ⟨hfolder, hid⟩ := h.forest.liveById_eq_some_iff.mp hfolder
        exact .inside hmem (h.free existing hmem) (ih hfolder hid) (h.folders existing hmem folder hfolder hid)
          hid.symm

variable {copy : List PointNode}

/-- The nodes of the saved point are the bookmarks. -/
theorem exists_live (h : IsSaveable isSyncableUrl live) (hc : IsCapture live [] copy) (hmem : node ∈ copy) :
    ∃ existing, liveById live node.o = some existing ∧ node = pointNode (existing, node.x) ∧
      existing.position = some node.x := by
  obtain ⟨existing, hshown, heq⟩ := hc.sound node hmem
  rw [captured_nil] at hshown
  obtain ⟨other, hother, -, -, -, hposition⟩ := hc.sameNode h.forest h.ascending isSyncableUrl hmem
  have hid : node.o = existing.objectId := congrArg PointNode.o heq
  have hexisting : liveById live node.o = some existing :=
    h.forest.liveById_eq_some_iff.mpr ⟨hshown.mem, hid.symm⟩
  obtain rfl := Option.some.inj (hother.symm.trans hexisting)
  exact ⟨_, hother, heq, hposition⟩

theorem pointById_isSome (h : IsSaveable isSyncableUrl live) (hc : IsCapture live [] copy)
    (hlive : (liveById live id).isSome) : (pointById copy id).isSome := by
  obtain ⟨existing, hexisting⟩ := Option.isSome_iff_exists.mp hlive
  obtain ⟨hmem, rfl⟩ := h.forest.liveById_eq_some_iff.mp hexisting
  refine Option.isSome_iff_ne_none.mpr fun hnone => byId_eq_none_iff.mp hnone ?_
  exact (hc.mem_map_o_iff h.forest hmem).mpr (h.shown hmem)

/-- **The saved point can be restored** wherever a restore has come. -/
theorem isRestorable (h : IsSaveable isSyncableUrl live) (hc : IsCapture live [] copy)
    (hrestorable : IsRestorable nodes live) (hmid : IsRestorable nodes mid)
    (hkept : ∀ id, id ∉ nodes.map PointNode.o → liveById mid id = liveById live id ∨ liveById mid id = none) :
    IsRestorable copy mid where
  point := by
    refine hc.isPoint (h.forest.isCapturable h.keys) ?_ ?_
    · rw [captured_nil]
      exact h.uuid
    · rw [captured_nil]
      intro node hmem hkind
      obtain ⟨url, hurl, -⟩ := h.bookmarkUrl node hmem hkind
      rw [hurl]
      rfl
  folders node hmem parent hparent ho := by
    obtain ⟨child, hchild, heq, -⟩ := h.exists_live hc hmem
    obtain ⟨folder, hfolder, heq', -⟩ := h.exists_live hc hparent
    obtain ⟨hchild, -⟩ := h.forest.liveById_eq_some_iff.mp hchild
    obtain ⟨hfolder, hid⟩ := h.forest.liveById_eq_some_iff.mp hfolder
    rw [heq']
    refine h.folders child hchild folder hfolder (hid.trans (ho.trans ?_))
    rw [heq]
    rfl
  forest := hmid.forest
  sameKind node hmem existing hexisting := by
    obtain ⟨before, hbefore, heq, -⟩ := h.exists_live hc hmem
    have hkind : node.k = before.kind := congrArg PointNode.k heq
    rw [hkind]
    by_cases hin : node.o ∈ nodes.map PointNode.o
    · obtain ⟨target, htarget, ho⟩ := List.mem_map.mp hin
      rw [← ho] at hexisting hbefore
      rw [hmid.sameKind target htarget existing hexisting, hrestorable.sameKind target htarget before hbefore]
    · rcases hkept node.o hin with hsame | hnone
      · rw [hsame, hbefore] at hexisting
        rw [Option.some.inj hexisting]
      · rw [hnone] at hexisting
        cases hexisting
  notManaged := hmid.notManaged
  folderUrl := hmid.folderUrl

/-- What is restored of the saved point is what was there. -/
theorem settled_eq (h : IsSaveable isSyncableUrl live) (hc : IsCapture live [] copy) (hmem : node ∈ copy)
    (hmid : IsRestorable copy mid) : settled isSyncableUrl copy node (liveById mid node.o) =
      liveById live node.o := by
  obtain ⟨before, hbefore, heq, hposition⟩ := h.exists_live hc hmem
  obtain ⟨hlive, hid⟩ := h.forest.liveById_eq_some_iff.mp hbefore
  have hfree := h.free before hlive
  have hkind : node.k = before.kind := congrArg PointNode.k heq
  have htitle : node.t = before.title := congrArg PointNode.t heq
  have hparent : node.p = before.parentObjectId := congrArg PointNode.p heq
  have hurl : node.u = before.url := by
    have hu : node.u = if before.kind = .bookmark then before.url else none := congrArg PointNode.u heq
    cases hk : before.kind with
    | bookmark => rw [hu, hk, if_pos rfl]
    | folder => rw [hu, hk, if_neg (by decide), h.folderUrl before hlive hk]
  have hsync : isUnsyncable isSyncableUrl node = false := by
    rw [isUnsyncable, hkind]
    cases hk : before.kind with
    | folder => rfl
    | bookmark =>
      obtain ⟨url, hsome, hok⟩ := h.bookmarkUrl before hlive hk
      simp [hurl, hsome, hok]
  rw [hbefore]
  cases hcurrent : liveById mid node.o with
  | none =>
    rw [settled_none hmem, if_pos hsync, restoredNode]
    congr 1
    obtain ⟨objectId, kind, title, url, parent, position, unmodifiable⟩ := before
    simp only at hid hkind htitle hparent hurl hposition hfree
    subst hid hkind htitle hparent hurl hposition hfree
    cases hk : node.k with
    | bookmark => simp
    | folder => simpa using (h.folderUrl _ hlive hk).symm
  | some existing =>
    have hfits := hmid.fits hmem hcurrent
    have hsame : existing.objectId = node.o := (hmid.forest.liveById_eq_some_iff.mp hcurrent).2
    rw [settled_some hmem hfits]
    congr 1
    have htitle' : (changedTitle node existing).getD existing.title = before.title := by
      rw [changedTitle, ← htitle]
      split
      · rfl
      · rename_i hsameTitle
        exact of_not_not hsameTitle
    have hurl' : (changedUrl isSyncableUrl node existing).or existing.url = before.url := by
      cases hk : before.kind with
      | folder =>
        have hnone : changedUrl isSyncableUrl node existing = none :=
          if_neg fun hchange => absurd (hchange.1.symm.trans (hkind.trans hk)) (by decide)
        rw [hnone, Option.none_or, hfits.folderUrl (hfits.kind.trans (hkind.trans hk)),
          h.folderUrl before hlive hk]
      | bookmark =>
        obtain ⟨url, hsome, hok⟩ := h.bookmarkUrl before hlive hk
        rw [changedUrl, hurl, hsome, hkind, hk]
        by_cases hne : existing.url = some url
        · simp [hne]
        · simp [hne, hok]
    obtain ⟨objectId, kind, title, url, parent, position, unmodifiable⟩ := before
    simp only [LiveBookmarkNode.placed, LiveBookmarkNode.edited, LiveBookmarkNode.mk.injEq]
    exact ⟨hsame.trans hid.symm, hfits.kind.trans hkind, htitle', hurl', hparent, hposition.symm,
      hfits.notManaged.trans hfree.symm⟩

/-- **The saved point gives the bookmarks back**, wherever a restore has come. -/
theorem exists_undo (h : IsSaveable isSyncableUrl live) (hcopy : buildPointNodes live [] = .ok copy)
    (hrestorable : IsRestorable nodes live) (hmid : IsRestorable nodes mid)
    (hkept : ∀ id, id ∉ nodes.map PointNode.o → liveById mid id = liveById live id ∨ liveById mid id = none)
    {again : List LiveBookmarkNode} (hperm : again.Perm mid) :
    ∃ undo last, planRestore isSyncableUrl copy again .exactly .all = .ok undo ∧
      executeAll again undo.operations = some last ∧ last.Perm live := by
  obtain ⟨_, hcopy', hc⟩ := (h.forest.isCapturable h.keys).exists_isCapture
  obtain rfl := Except.ok.inj (hcopy.symm.trans hcopy')
  have hagain : IsRestorable copy again := (h.isRestorable hc hrestorable hmid hkept).perm hperm
  obtain ⟨undo, last, hundo, hrun, hend⟩ := hagain.exists_run isSyncableUrl .exactly
  refine ⟨undo, last, hundo, hrun.executeAll, ?_⟩
  refine h.forest.perm_of_liveById hrun.good_last.restorable.forest (funext fun id => ?_)
  rw [hend, target]
  cases hid : pointById copy id with
  | some node =>
    obtain ⟨hmem, rfl⟩ := mem_of_byId hid
    exact h.settled_eq hc hmem hagain
  | none =>
    -- What the point does not hold was not there.
    rw [if_neg (by decide)]
    refine (Option.not_isSome_iff_eq_none.mp fun hsome => ?_).symm
    have hin := h.pointById_isSome hc hsome
    rw [hid] at hin
    cases hin

end IsSaveable

/-- **A restore can be undone.** The bookmarks are saved before a restore of everything begins; wherever
it stops, and in whatever order the browser then lists its bookmarks, an exact restore of the saved
point can be carried out and gives the bookmarks back as they were. -/
theorem restore_undone {isDate : String → Bool} {value : Json} {point : PointPlaintext}
    (hsave : IsSaveable isSyncableUrl live) (hvalid : validatePoint isDate value = .ok point)
    (hfolders : ∀ node ∈ point.nodes, ∀ parent ∈ point.nodes, parent.o = node.p → parent.k = .folder)
    (hkind : ∀ node ∈ point.nodes, ∀ existing ∈ live, existing.objectId = node.o → existing.kind = node.k)
    (mode : RestoreMode) :
    ∃ copy plan, buildPointNodes live [] = .ok copy ∧
      planRestore isSyncableUrl point.nodes live mode .all = .ok plan ∧
      ∀ n, ∃ mid, executeAll live (plan.operations.take n) = some mid ∧
        ∀ again : List LiveBookmarkNode, again.Perm mid → ∃ undo last,
          planRestore isSyncableUrl copy again .exactly .all = .ok undo ∧
            executeAll again undo.operations = some last ∧ last.Perm live := by
  have h := isRestorable_of_validatePoint hvalid hfolders hsave.forest hkind hsave.free hsave.folderUrl
  obtain ⟨copy, hcopy, -⟩ := (hsave.forest.isCapturable hsave.keys).exists_isCapture
  obtain ⟨plan, last, hplan, hrun, -⟩ := h.exists_run isSyncableUrl mode
  refine ⟨copy, plan, hcopy, hplan, fun n => ?_⟩
  obtain ⟨mid, hmid, hlead⟩ := hrun.exists_take n
  have hkept : ∀ id, id ∉ point.nodes.map PointNode.o →
      liveById mid id = liveById live id ∨ liveById mid id = none := by
    intro id hid
    obtain ⟨_, hplan', hoperations⟩ : ∃ plan, planRestore isSyncableUrl point.nodes live mode .all = .ok plan ∧
        plan.operations = operationsFor isSyncableUrl point.nodes live mode := planRestore_all
    obtain rfl := Except.ok.inj (hplan.symm.trans hplan')
    refine liveById_executeAll hmid fun operation hmem heq => ?_
    refine (mem_operationsFor (hoperations ▸ List.mem_of_mem_take hmem)).resolve_right fun hin => ?_
    exact hid (heq ▸ hin)
  exact ⟨mid, hmid, fun again hperm => hsave.exists_undo hcopy h hlead.restorable hkept hperm⟩

theorem isSaveable_smallLive : IsSaveable (fun _ => true) smallLive where
  forest := isLiveForest_smallLive
  keys := by decide
  ascending parent := by
    by_cases hroot : "00000000-0000-7000-8000-000000000002" = parent
    · subst hroot
      exact ⟨["V"], rfl, by decide, by decide⟩
    · by_cases hnew : "44444444-4444-7444-8444-444444444444" = parent
      · subst hnew
        exact ⟨["V"], rfl, by decide, by decide⟩
      · refine ⟨[], ?_, by decide, by decide⟩
        simp [siblingsOf, childrenOf, gone, smallLive, hroot, hnew]
  free := by decide
  uuid := by decide
  folders := by decide
  folderUrl := by decide
  bookmarkUrl node hmem hkind := by
    have hfolder : ∀ node ∈ smallLive, node.kind = .folder := by decide
    rw [hfolder node hmem] at hkind
    cases hkind

/-- The restore is stopped when the folder has moved and the bookmark is there again. -/
theorem restore_undone_smallPoint :
    ∃ copy plan mid undo last, buildPointNodes smallLive [] = .ok copy ∧
      planRestore (fun _ => true) smallPoint.nodes smallLive .exactly .all = .ok plan ∧
      executeAll smallLive (plan.operations.take 2) = some mid ∧
      planRestore (fun _ => true) copy mid .exactly .all = .ok undo ∧
      executeAll mid undo.operations = some last ∧ last.Perm smallLive := by
  have hvalid : validatePoint (fun _ => true) smallPoint.value = .ok smallPoint := rfl
  obtain ⟨copy, plan, hcopy, hplan, hundone⟩ :=
    restore_undone isSaveable_smallLive hvalid (by decide) (by decide) .exactly
  obtain ⟨mid, hmid, hundo⟩ := hundone 2
  obtain ⟨undo, last, hundo, hrun, hlast⟩ := hundo mid (List.Perm.refl mid)
  exact ⟨copy, plan, mid, undo, last, hcopy, hplan, hmid, hundo, hrun, hlast⟩

end Client

end HelixSync
