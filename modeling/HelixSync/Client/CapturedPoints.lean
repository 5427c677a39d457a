import HelixSync.Client.PointCapture
import HelixSync.Client.RestoreSteps

/-!
# Captured points

A captured point is accepted where it is read (`HelixSync.Client.IsCapture.isPoint`), and
restoring it to the bookmarks it was captured from changes no node it holds: titles, URLs and
parents are theirs, and so are positions if they were in order. What is left are deletions. In
exact mode a restore deletes what the point does not hold and is not managed itself. A point
does not hold what is below a managed node, so nothing is deleted if and only if whatever is
below a managed node is managed too (`HelixSync.Client.IsCapture.exists_plan`).
-/

namespace HelixSync

namespace Client

open CodeUnits ParentChains

/-! ### Reading a captured point -/

/-- Without removed nodes there are those of the browser. -/
theorem captured_nil (live : List LiveBookmarkNode) : captured live [] = live := List.append_nil live

namespace IsCapture

variable {live extra : List LiveBookmarkNode} {nodes : List PointNode}

/-- **A captured point is one.** -/
theorem isPoint (hc : IsCapture live extra nodes) (h : IsCapturable live extra)
    (huuid : ∀ node ∈ captured live extra, isUuid node.objectId = true)
    (hurl : ∀ node ∈ captured live extra, node.kind = .bookmark → node.url.isSome) : IsPoint nodes := by
  intro earlier point rest heq
  have hmem : point ∈ nodes := by
    rw [heq]
    exact List.mem_append_right _ List.mem_cons_self
  obtain ⟨node, hshown, hpoint⟩ := hc.sound point hmem
  have ho : point.o = node.objectId := congrArg PointNode.o hpoint
  refine ⟨ho ▸ huuid node hshown.mem, ho ▸ h.notRoot node hshown.mem, ?_, ?_,
    hc.parentFirst earlier point rest heq, ?_⟩
  · have honce := hc.once
    rw [heq, List.map_append] at honce
    exact fun hfresh => (List.nodup_append.mp honce).2.2 _ hfresh _ List.mem_cons_self rfl
  · refine ((hc.increasing point.p).isKey point.x (List.mem_map_of_mem ?_)).ne_empty
    exact List.mem_filter.mpr ⟨hmem, decide_eq_true rfl⟩
  · rw [hpoint]
    by_cases hkind : node.kind = .bookmark
    · simp [pointNode, hkind, hurl node hshown.mem hkind]
    · simp [pointNode, hkind]

/-! ### Restoring to the same bookmarks -/

/-- The nodes a point holds, among those of the browser. -/
theorem mem_map_o_iff (hc : IsCapture live [] nodes) (hlive : IsLiveForest live) {node : LiveBookmarkNode}
    (hnode : node ∈ live) : node.objectId ∈ nodes.map PointNode.o ↔ Shown live node := by
  constructor
  · intro hmem
    obtain ⟨point, hpoint, ho⟩ := List.mem_map.mp hmem
    obtain ⟨other, hshown, hother⟩ := hc.sound point hpoint
    rw [captured_nil] at hshown
    have hid : other.objectId = node.objectId := (congrArg PointNode.o hother).symm.trans ho
    exact List.inj_on_of_nodup_map hlive.distinct hshown.mem hnode hid ▸ hshown
  · intro hshown
    obtain ⟨x, hpoint⟩ := hc.complete node ((captured_nil live).symm ▸ hshown)
    exact List.mem_map.mpr ⟨_, hpoint, rfl⟩

/-- **Bookmarks whose positions are in order are as the point has them.** -/
theorem sameNode (hc : IsCapture live [] nodes) (hlive : IsLiveForest live)
    (hascending : ∀ parent,
      IsAscending ((siblingsOf live [] parent).map LiveBookmarkNode.position))
    (isSyncableUrl : String → Bool) {point : PointNode} (hpoint : point ∈ nodes) :
    ∃ existing, liveById live point.o = some existing ∧ changedTitle point existing = none ∧
      changedUrl isSyncableUrl point existing = none ∧ existing.parentObjectId = point.p ∧
      existing.position = some point.x := by
  obtain ⟨node, hshown, heq⟩ := hc.sound point hpoint
  obtain ⟨sibling, hsibling, hid, hposition⟩ := hc.kept point.p (hascending point.p) point hpoint rfl
  rw [captured_nil] at hshown
  have hmem : sibling ∈ live := captured_nil live ▸ (mem_siblingsOf.mp hsibling).1
  have ho : point.o = node.objectId := congrArg PointNode.o heq
  obtain rfl : sibling = node := List.inj_on_of_nodup_map hlive.distinct hmem hshown.mem (hid.trans ho)
  refine ⟨sibling, hlive.liveById_eq_some_iff.mpr ⟨hmem, hid⟩, ?_, ?_,
    (congrArg PointNode.p heq).symm, hposition⟩
  · rw [heq]
    exact if_neg (not_not_intro rfl)
  · rw [heq]
    refine if_neg ?_
    rintro ⟨hkind, hne, -⟩
    exact hne (if_pos (show sibling.kind = .bookmark from hkind)).symm

/-- **Nothing is deleted** if and only if the point holds what is not managed. -/
theorem deletes_eq_nil_iff (hc : IsCapture live [] nodes) (hlive : IsLiveForest live)
    (mode : RestoreMode) (scope : RestoreScope) :
    deletes nodes live mode scope = [] ↔
      (mode = .exactly → ∀ node ∈ considered live scope, node.unmodifiable = false → Shown live node) := by
  cases mode with
  | merge => exact iff_of_true rfl nofun
  | exactly =>
    have hunwanted : ∀ node ∈ considered live scope, node.unmodifiable = false → ¬ Shown live node →
        node.objectId ∈ unwanted nodes live scope := by
      intro node hnode hfree hshown
      refine mem_unwanted.mpr ⟨node, hnode, rfl, byId_eq_none_iff.mpr ?_, hfree⟩
      exact fun hmem => hshown ((hc.mem_map_o_iff hlive (considered_subset hnode)).mp hmem)
    constructor
    · intro hnone _ node hnode hfree
      by_contra hshown
      obtain ⟨top, htop, -⟩ := exists_delete hlive (hunwanted node hnode hfree hshown) fun _ _ => rfl
      rw [hnone] at htop
      exact absurd htop List.not_mem_nil
    · intro hall
      have hnone : (deletes nodes live .exactly scope).map PlannedOperation.objectId = [] := by
        refine List.eq_nil_iff_forall_not_mem.mpr fun id hid => ?_
        obtain ⟨_, -, -, hid, -⟩ := mem_deletes.mp hid
        obtain ⟨node, hnode, rfl, hgone, hfree⟩ := mem_unwanted.mp hid
        exact byId_eq_none_iff.mp hgone
          ((hc.mem_map_o_iff hlive (considered_subset hnode)).mpr (hall rfl node hnode hfree))
      exact List.map_eq_nil_iff.mp hnone

/-- **The plan for the same bookmarks** is empty if and only if nothing is to be deleted. -/
theorem exists_plan (hc : IsCapture live [] nodes) (hlive : IsLiveForest live)
    (hascending : ∀ parent,
      IsAscending ((siblingsOf live [] parent).map LiveBookmarkNode.position))
    (isSyncableUrl : String → Bool) (mode : RestoreMode) {scope : RestoreScope}
    (hscope : scope = .all ∨ ∃ folder ∈ nodes, folder.k = .folder ∧ scope = .folder folder.o) :
    ∃ plan, planRestore isSyncableUrl nodes live mode scope = .ok plan ∧
      (plan.operations = [] ↔ (mode = .exactly →
        ∀ node ∈ considered live scope, node.unmodifiable = false → Shown live node)) := by
  obtain ⟨cover, hcover⟩ : ∃ cover, coverOf nodes scope = some cover := by
    rcases hscope with rfl | ⟨folder, hfolder, hkind, rfl⟩
    · exact ⟨_, rfl⟩
    · have hfound : pointById nodes folder.o = some folder := (byId_eq_some_iff hc.once).mpr ⟨hfolder, rfl⟩
      exact ⟨_, by rw [coverOf, hfound]; exact if_pos hkind⟩
  obtain ⟨plan, hplan, hoperations, -⟩ := planRestore_eq isSyncableUrl nodes live mode hcover
  refine ⟨plan, hplan, ?_⟩
  rw [hoperations, edits_eq_nil, List.nil_append]
  · exact hc.deletes_eq_nil_iff hlive mode scope
  · intro point hpoint hnone
    obtain ⟨existing, hexisting, -⟩ := hc.sameNode hlive hascending isSyncableUrl hpoint
    exact absurd (hexisting.symm.trans hnone) nofun
  · intro point hpoint existing hexisting
    obtain ⟨other, hother, hsame⟩ := hc.sameNode hlive hascending isSyncableUrl hpoint
    obtain rfl := Option.some.inj (hother.symm.trans hexisting)
    exact hsame

end IsCapture

/-! ### Points are well formed -/

theorem IsLiveForest.isCapturable {live : List LiveBookmarkNode} (h : IsLiveForest live)
    (hkeys : PositionsAreKeys live) : IsCapturable live [] where
  distinct := by
    rw [captured_nil]
    exact h.distinct
  notRoot := by
    rw [captured_nil]
    exact h.notRoot
  isKey := by
    rw [captured_nil]
    exact hkeys

/-- **Captured points are well formed.** Whatever the recorded positions, a capture lists each
node that is not managed and comes to a built-in folder through folders that are not, once, after
its parent and in order among its siblings; what it lists is accepted when it is read; whatever
is accepted is a forest on the built-in folders; and a restore of the point to the bookmarks it
was captured from plans nothing, or if it is an exact one no more than the deletion of what is
below managed nodes without being managed. Siblings that are managed need no order here. -/
theorem captures_wellFormed (isDate isSyncableUrl : String → Bool) :
    (∀ live extra, IsCapturable live extra →
      ∃ nodes, buildPointNodes live extra = .ok nodes ∧ IsCapture live extra nodes ∧
        ((∀ node ∈ captured live extra, isUuid node.objectId = true) →
          (∀ node ∈ captured live extra, node.kind = .bookmark → node.url.isSome) →
          ∀ createdAt deviceId kind, isDate createdAt = true → kind ∈ pointKinds →
            validatePoint isDate (PointPlaintext.mk createdAt deviceId kind nodes).value =
              .ok ⟨createdAt, deviceId, kind, nodes⟩)) ∧
    (∀ value point, validatePoint isDate value = .ok point →
      (point.nodes.map PointNode.o).Nodup ∧ ∀ node ∈ point.nodes,
        node.o ∉ rootIds ∧ Rooted (· ∈ rootIds) (pointUp point.nodes) node.o) ∧
    ∀ live, IsLiveForest live → PositionsAreKeys live →
      (∀ parent, IsAscending ((siblingsOf live [] parent).map LiveBookmarkNode.position)) →
      ∃ nodes, buildPointNodes live [] = .ok nodes ∧ ∀ mode scope,
        (scope = .all ∨ ∃ folder ∈ nodes, folder.k = .folder ∧ scope = .folder folder.o) →
        ∃ plan, planRestore isSyncableUrl nodes live mode scope = .ok plan ∧
          (plan.operations = [] ↔ (mode = .exactly →
            ∀ node ∈ considered live scope, node.unmodifiable = false → Shown live node)) := by
  refine ⟨fun live extra h => ?_, fun value point hvalid => ?_, fun live hlive hkeys hascending => ?_⟩
  · obtain ⟨nodes, hnodes, hc⟩ := h.exists_isCapture
    refine ⟨nodes, hnodes, hc, fun huuid hurl createdAt deviceId kind hdate hkind => ?_⟩
    exact validatePoint_value hdate hkind (hc.isPoint h huuid hurl)
  · have hpoint := isPoint_of_validatePoint hvalid
    exact ⟨hpoint.distinct, fun node hnode => ⟨hpoint.notRoot hnode, hpoint.rooted hnode⟩⟩
  · obtain ⟨nodes, hnodes, hc⟩ := (hlive.isCapturable hkeys).exists_isCapture
    refine ⟨nodes, hnodes, fun mode scope hscope => ?_⟩
    exact hc.exists_plan hlive hascending isSyncableUrl mode hscope

/-- Bookmarks in the bookmarks bar, with their positions. -/
def barBookmarks (positions : List (String × Option String)) : List LiveBookmarkNode :=
  positions.map fun (objectId, position) =>
    ⟨objectId, .bookmark, "Mail", some "https://mail.test/", "00000000-0000-7000-8000-000000000001",
      position, false⟩

theorem isLiveForest_barBookmarks {positions : List (String × Option String)}
    (hdistinct : (positions.map Prod.fst).Nodup) (hroot : ∀ entry ∈ positions, entry.1 ∉ rootIds) :
    IsLiveForest (barBookmarks positions) where
  distinct := by
    rw [barBookmarks, List.map_map]
    exact hdistinct
  notRoot node hnode := by
    obtain ⟨entry, hentry, rfl⟩ := List.mem_map.mp hnode
    exact hroot entry hentry
  rooted node hnode := by
    have hdistinct' : ((barBookmarks positions).map LiveBookmarkNode.objectId).Nodup := by
      rw [barBookmarks, List.map_map]
      exact hdistinct
    have hup : liveUp (barBookmarks positions) node.objectId = some node.parentObjectId := by
      rw [liveUp, show liveById (barBookmarks positions) node.objectId = some node from
        (byId_eq_some_iff hdistinct').mpr ⟨hnode, rfl⟩]
      rfl
    have hbar : "00000000-0000-7000-8000-000000000001" ∈ rootIds := by decide
    obtain ⟨entry, -, rfl⟩ := List.mem_map.mp hnode
    exact .step hup (.root hbar)

/-- Two bookmarks out of order, and two in order. -/
def crossedLive : List LiveBookmarkNode :=
  barBookmarks [("22222222-2222-7222-8222-222222222222", some "W"),
    ("33333333-3333-7333-8333-333333333333", some "V")]

def orderedLive : List LiveBookmarkNode :=
  barBookmarks [("22222222-2222-7222-8222-222222222222", some "V"),
    ("33333333-3333-7333-8333-333333333333", some "W")]

/-- A bookmark that was removed, without a position. -/
def removedBookmark : List LiveBookmarkNode :=
  barBookmarks [("66666666-6666-7666-8666-666666666666", none)]

/-- Bookmarks out of order and a removed one are captured as a point that is accepted, and an exact
restore leaves bookmarks in order alone. -/
theorem captures_wellFormed_barBookmarks :
    (∃ nodes value point, buildPointNodes crossedLive removedBookmark = .ok nodes ∧
      IsCapture crossedLive removedBookmark nodes ∧
      validatePoint (fun _ => true) value = .ok point ∧ point.nodes = nodes ∧
      ∀ node ∈ point.nodes, Rooted (· ∈ rootIds) (pointUp point.nodes) node.o) ∧
    ∃ nodes plan, buildPointNodes orderedLive [] = .ok nodes ∧
      planRestore (fun _ => true) nodes orderedLive .exactly .all = .ok plan ∧ plan.operations = [] := by
  obtain ⟨hcapture, hforest, hplan⟩ := captures_wellFormed (fun _ => true) (fun _ => true)
  constructor
  · obtain ⟨nodes, hnodes, hc, haccepted⟩ :=
      hcapture crossedLive removedBookmark ⟨by decide, by decide, by decide⟩
    have hvalid := haccepted (by decide) (by decide) "2026-01-01T00:00:00.000Z"
      "11111111-1111-7111-8111-111111111111" "mass_delete" rfl (by decide)
    exact ⟨nodes, _, _, hnodes, hc, hvalid, rfl, fun node hnode => ((hforest _ _ hvalid).2 node hnode).2⟩
  · have hascending : ∀ parent,
        IsAscending ((siblingsOf orderedLive [] parent).map LiveBookmarkNode.position) := by
      intro parent
      by_cases hbar : "00000000-0000-7000-8000-000000000001" = parent
      · subst hbar
        exact ⟨["V", "W"], rfl, by decide, by decide⟩
      · refine ⟨[], ?_, by decide, by decide⟩
        simp [siblingsOf, childrenOf, gone, orderedLive, barBookmarks, hbar]
    obtain ⟨nodes, hnodes, hplans⟩ := hplan orderedLive
      (isLiveForest_barBookmarks (by decide) (by decide)) (by decide) hascending
    obtain ⟨plan, hplan, hempty⟩ := hplans .exactly .all (Or.inl rfl)
    have hbar : ∀ node ∈ orderedLive, node.parentObjectId ∈ rootIds := by decide
    exact ⟨nodes, plan, hnodes, hplan,
      hempty.mpr fun _ node hnode hfree => .root hnode hfree (hbar node hnode)⟩

/-- A managed folder in the bookmarks bar, and a bookmark in it that is not managed. -/
def managedLive : List LiveBookmarkNode := [
  ⟨"44444444-4444-7444-8444-444444444444", .folder, "Managed", none,
    "00000000-0000-7000-8000-000000000001", some "V", true⟩,
  ⟨"55555555-5555-7555-8555-555555555555", .bookmark, "Inside", some "https://inside.test/",
    "44444444-4444-7444-8444-444444444444", some "V", false⟩]

theorem isLiveForest_managedLive : IsLiveForest managedLive where
  distinct := by decide
  notRoot := by decide
  rooted := by
    have hfolder : Rooted (· ∈ rootIds) (liveUp managedLive) "44444444-4444-7444-8444-444444444444" :=
      .step rfl (.root (by decide))
    intro node hnode
    rcases List.mem_cons.mp hnode with rfl | hnode
    · exact hfolder
    · obtain rfl := List.mem_singleton.mp hnode
      exact .step rfl hfolder

/-- Where each folder has one child at most, siblings are in order. -/
theorem isAscending_managedLive (parent : String) : IsAscending
    ((managedLive.filter fun node => node.parentObjectId = parent).map LiveBookmarkNode.position) := by
  by_cases hbar : "00000000-0000-7000-8000-000000000001" = parent
  · subst hbar
    exact ⟨["V"], rfl, by decide, by decide⟩
  · by_cases hfolder : "44444444-4444-7444-8444-444444444444" = parent
    · subst hfolder
      exact ⟨["V"], rfl, by decide, by decide⟩
    · refine ⟨[], ?_, by decide, by decide⟩
      simp [managedLive, hbar, hfolder]

/-- A bookmark in a managed folder that is not managed itself is deleted by an exact restore of
the point just captured, a node that was removed twice is listed twice, and an empty position is
not kept although it is below the next. -/
theorem not_captures_wellFormed :
    (∃ live nodes plan, IsLiveForest live ∧ PositionsAreKeys live ∧
      (∀ parent, IsAscending
        ((live.filter fun node => node.parentObjectId = parent).map LiveBookmarkNode.position)) ∧
      buildPointNodes live [] = .ok nodes ∧
      planRestore (fun _ => true) nodes live .exactly .all = .ok plan ∧ plan.operations ≠ []) ∧
    (∃ extra nodes, PositionsAreKeys extra ∧ buildPointNodes [] extra = .ok nodes ∧
      ¬ (nodes.map PointNode.o).Nodup) ∧
    ∃ positions nodes, IsLiveForest (barBookmarks positions) ∧ PositionsAreKeys (barBookmarks positions) ∧
      (positions.map fun entry => codeUnits (entry.2.getD "")).Pairwise (· < ·) ∧
      buildPointNodes (barBookmarks positions) [] = .ok nodes ∧
      nodes.map (fun point => some point.x) ≠ positions.map Prod.snd := by
  refine ⟨⟨managedLive, _, _, isLiveForest_managedLive, by decide, isAscending_managedLive, rfl, rfl,
    by decide⟩, ⟨barBookmarks [("22222222-2222-7222-8222-222222222222", some "V"),
      ("22222222-2222-7222-8222-222222222222", some "V")], _, by decide, rfl, by decide⟩,
    [("22222222-2222-7222-8222-222222222222", some ""),
      ("33333333-3333-7333-8333-333333333333", some "V")], _,
    isLiveForest_barBookmarks (by decide) (by decide), by decide, by decide, rfl, by decide⟩

end Client

end HelixSync
