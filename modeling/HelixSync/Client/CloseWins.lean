import HelixSync.Client.TabsInStep

/-!
# Whether a close wins

Sections 8.4 and 8.5 of the protocol say that a close of a tab or a window always wins over a
concurrent update, and a delete of a tab group does. The resolver knows nothing of the kind: its
one exception is the delete of what was moved, and a close is not even a `delete`. So whether a
close wins is decided by the keys, and the key of an update is greater than that of a close it
never heard of as soon as the clock of its device is (`HelixSync.Client.not_closes`).

In every order of delivery the object ends up deleted exactly when the greatest key belongs to a
close, and, for a tab group, nothing but deletes is delivered: any other operation may come after
the delete, and then shows the group again (`HelixSync.Client.closes_iff`).
-/

namespace HelixSync

namespace Client

/-- Both stores say that the object is deleted. -/
def TabView.IsDeleted (view : TabView) : Prop :=
  view.liveness.map (fun r => isDeleted r.value) = some true ∧
    view.record.map RemoteObjectRecord.deleted = some true

/-- The operations on an object leave it deleted, in any order and in any batches, and whatever
is delivered of other objects. -/
def ClosesAlways (objectId : Uuid) (items : List RemoteItem) : Prop :=
  ∀ calls, WellTyped calls → (receivedFor objectId calls).Perm items →
    ((applyRemoteCalls .empty calls).view objectId).IsDeleted

/-- A close has the greatest key, but for activations; and if it is of a tab group, there are only
deletes. -/
def CloseOnTop (objectType : ObjectType) (items : List RemoteItem) : Prop :=
  (∃ c ∈ items, isClosing c = true ∧
    ∀ item ∈ items, isActivation item = false → item.1.key ≤ c.1.key) ∧
  (objectType = .tabGroup → ∀ item ∈ items, isClosing item = true)

section Closes

variable {objectType : ObjectType} {objectId : Uuid} {items : List RemoteItem}

/-- What a delivery leaves. -/
theorem view_of_delivery {calls : List RemoteCall} (hcalls : WellTyped calls) :
    (applyRemoteCalls .empty calls).view objectId =
      ((receivedFor objectId calls).filter fun item => !isActivation item).foldl TabView.step
        TabView.empty := by
  rw [← foldl_step_filter]
  exact view_applyRemoteCalls hcalls objectId .empty

/-- **A close with the greatest key wins** over whatever is delivered before and after it. -/
theorem isDeleted_of_closeOnTop (hsession : isSessionType objectType = true)
    (htypes : ∀ item ∈ items, item.1.objectType = objectType)
    (hids : (items.map fun item => item.1.operationId).Nodup)
    (hactive : ∀ item ∈ items, isActivation item = false) (h : CloseOnTop objectType items) :
    (items.foldl TabView.step TabView.empty).IsDeleted := by
  obtain ⟨⟨c, hc, hclosing, hgreatest⟩, hdeletes⟩ := h
  obtain ⟨before, after, rfl⟩ := List.append_of_mem hc
  have hbefore : ∀ item ∈ before, item.1.key < c.1.key := by
    intro item hitem
    refine lt_of_le_of_ne (hgreatest item (by simp [hitem]) (hactive item (by simp [hitem])))
      fun hkey => ?_
    have hid : item.1.operationId = c.1.operationId := congrArg OrderingKey.operationId hkey
    rw [List.map_append, List.nodup_append] at hids
    exact hids.2.2 _ (List.mem_map_of_mem hitem) _ (by simp) hid
  have hafter : ∀ item ∈ after, item.1.key ≤ c.1.key := fun item hitem =>
    hgreatest item (by simp [hitem]) (hactive item (by simp [hitem]))
  obtain ⟨hl, hrow, hgroup⟩ := deleted_of_closing hsession htypes hbefore hafter hclosing
  refine ⟨by rw [hl]; rfl, ?_⟩
  by_cases hg : objectType = .tabGroup
  · refine (hgroup hg).mpr fun u hu hopening => ?_
    rw [hdeletes hg u (by simp [hu])] at hopening
    exact absurd hopening (by simp)
  · exact hrow hg

/-- No object has both moves and deletes. -/
theorem ne_move_or_ne_delete (hsession : isSessionType objectType = true) {o o' : OperationType}
    (ho : o ∈ allowedOperationTypes objectType) (ho' : o' ∈ allowedOperationTypes objectType) :
    o ≠ .move ∨ o' ≠ .delete := by
  by_contra hboth
  push Not at hboth
  rw [hboth.1] at ho
  rw [hboth.2] at ho'
  simp only [isSessionType, Bool.or_eq_true, beq_iff_eq] at hsession
  rcases hsession with (rfl | rfl) | rfl
  · exact absurd ho (by decide)
  · exact absurd ho' (by decide)
  · exact absurd ho (by decide)

/-- **The operation with the greatest key, delivered first**, decides against all others. -/
theorem closing_of_isDeleted {m : RemoteItem} {rest : List RemoteItem}
    (hsession : isSessionType objectType = true)
    (hitems : ∀ item ∈ m :: rest, item.1.objectType = objectType ∧
      item.1.operationType ∈ allowedOperationTypes objectType)
    (hactive : isActivation m = false) (hgreatest : ∀ item ∈ rest, item.1.key ≤ m.1.key)
    (h : ((m :: rest).foldl TabView.step TabView.empty).IsDeleted) :
    isClosing m = true ∧ (objectType = .tabGroup → ∀ item ∈ rest, isClosing item = true) := by
  have hm := hitems m List.mem_cons_self
  have hclosing : isClosing m = true := by
    by_contra hopening
    rw [Bool.not_eq_true] at hopening
    have hstate : ∀ r ∈ TabView.empty.state, r.key < m.1.key := by simp [TabView.empty]
    have hliveness : ∀ r ∈ TabView.empty.liveness, r.key < m.1.key := by simp [TabView.empty]
    obtain ⟨row, hrow, -, hl, hrecord, hs⟩ := step_of_opening_above
      (by rw [hm.1]; exact hsession) hopening hactive (Or.inr rfl) hstate hliveness
    rw [List.foldl_cons, run_eq_self hl] at h
    · rw [TabView.IsDeleted, hrecord, Option.map_some, hrow] at h
      exact absurd h.2 (by simp)
    · intro item hitem
      obtain ⟨htype, hallowed⟩ := hitems item (List.mem_cons_of_mem _ hitem)
      exact ⟨by rw [htype]; exact hsession, hgreatest item hitem,
        ne_move_or_ne_delete hsession hm.2 hallowed, fun hwindow _ _ =>
          ⟨_, hs (by rw [hm.1, ← htype]; exact hwindow), hgreatest item hitem⟩⟩
  refine ⟨hclosing, fun hg item hitem => ?_⟩
  by_contra hopening
  rw [Bool.not_eq_true] at hopening
  have hnone : ∀ item ∈ ([] : List RemoteItem), item.1.key < m.1.key := by simp
  obtain ⟨-, -, hgroup⟩ := deleted_of_closing hsession
    (fun item hitem => (hitems item hitem).1) hnone hgreatest hclosing
  obtain ⟨u', hu', -⟩ := (hgroup hg).mp h.2 item hitem hopening
  exact absurd hu' List.not_mem_nil

/-- What always closes an object does so when it is delivered at once, in any order. -/
theorem isDeleted_of_perm (hsession : isSessionType objectType = true)
    (hitems : ∀ item ∈ items, item.1.objectId = objectId ∧ item.1.objectType = objectType)
    (h : ClosesAlways objectId items) {delivery : List RemoteItem} (hperm : delivery.Perm items) :
    (delivery.foldl TabView.step TabView.empty).IsDeleted := by
  have hmem : ∀ item ∈ delivery, item ∈ items := fun item => hperm.mem_iff.mp
  have hwell : WellTyped [(objectType, delivery)] := by
    refine List.forall_mem_singleton.mpr ⟨?_, fun item hitem => (hitems item (hmem item hitem)).2⟩
    simpa [isSessionType, or_assoc] using hsession
  have hreceived : receivedFor objectId [(objectType, delivery)] = delivery := by
    rw [receivedFor, received, List.flatMap_cons, List.flatMap_nil, List.append_nil]
    exact List.filter_eq_self.mpr fun item hitem => by simpa using (hitems item (hmem item hitem)).1
  have hview := h [(objectType, delivery)] hwell (by rw [hreceived]; exact hperm)
  rwa [view_of_delivery hwell, hreceived, ← foldl_step_filter] at hview

/-- The operations but the activations can be delivered with the greatest key first. -/
theorem exists_greatest_first (hne : (items.filter fun item => !isActivation item) ≠ []) :
    ∃ m rest, (m :: rest).Perm (items.filter fun item => !isActivation item) ∧
      ∀ item ∈ rest, item.1.key ≤ m.1.key := by
  obtain ⟨before, m, after, hwrites, hbefore, hafter⟩ :=
    MaxRegister.exists_first_greatest (fun item : RemoteItem => item.1.key) hne
  refine ⟨m, before ++ after, by rw [hwrites]; exact List.perm_middle.symm, fun item hitem => ?_⟩
  exact (List.mem_append.mp hitem).elim (fun h => (hbefore item h).le) (hafter item)

/-- Activations delivered last change nothing. -/
theorem foldl_step_append_activations {writes : List RemoteItem} (items : List RemoteItem)
    (hwrites : ∀ item ∈ writes, isActivation item = false) (view : TabView) :
    (writes ++ items.filter isActivation).foldl TabView.step view =
      writes.foldl TabView.step view := by
  have hself : (writes.filter fun item => !isActivation item) = writes :=
    List.filter_eq_self.mpr fun item hitem => by simp [hwrites item hitem]
  have hnone : ((items.filter isActivation).filter fun item => !isActivation item) = [] :=
    List.filter_eq_nil_iff.mpr fun item hitem => by simp [(List.mem_filter.mp hitem).2]
  rw [foldl_step_filter, List.filter_append, hself, hnone, List.append_nil]

/-- **What always closes an object has a close on top.** -/
theorem closeOnTop_of_closesAlways (hsession : isSessionType objectType = true)
    (hitems : ∀ item ∈ items, item.1.objectId = objectId ∧ item.1.objectType = objectType ∧
      item.1.operationType ∈ allowedOperationTypes objectType)
    (h : ClosesAlways objectId items) : CloseOnTop objectType items := by
  have hone := fun {delivery : List RemoteItem} (hperm : delivery.Perm items) =>
    isDeleted_of_perm hsession (fun item hitem => ⟨(hitems item hitem).1, (hitems item hitem).2.1⟩)
      h hperm
  rcases eq_or_ne (items.filter fun item => !isActivation item) [] with hnil | hne
  · have hempty := hone (List.Perm.refl items)
    rw [foldl_step_filter, hnil] at hempty
    exact absurd hempty.1 (by simp [TabView.empty])
  · obtain ⟨m, rest, hwrites, hgreatest⟩ := exists_greatest_first hne
    have hmem : ∀ item, item ∈ m :: rest ↔ item ∈ items ∧ isActivation item = false := by
      intro item
      rw [hwrites.mem_iff, List.mem_filter, Bool.not_eq_true']
    have hperm : (m :: rest ++ items.filter isActivation).Perm items := by
      have happend := List.filter_append_perm (fun item => !isActivation item) items
      simp only [Bool.not_not] at happend
      exact (hwrites.append_right _).trans happend
    have hdeleted := hone hperm
    rw [foldl_step_append_activations items fun item hitem => ((hmem item).mp hitem).2] at hdeleted
    obtain ⟨hm, hmactive⟩ := (hmem m).mp List.mem_cons_self
    obtain ⟨hclosing, hgroup⟩ := closing_of_isDeleted hsession
      (fun item hitem => (hitems item ((hmem item).mp hitem).1).2) hmactive hgreatest hdeleted
    refine ⟨⟨m, hm, hclosing, fun item hitem hactive => ?_⟩, fun hg item hitem => ?_⟩
    · rcases List.mem_cons.mp ((hmem item).mpr ⟨hitem, hactive⟩) with rfl | hrest
      · exact le_rfl
      · exact hgreatest item hrest
    · have hactive : isActivation item = false := by
        simp [isActivation, (hitems item hitem).2.1, hg]
      rcases List.mem_cons.mp ((hmem item).mpr ⟨hitem, hactive⟩) with rfl | hrest
      · exact hclosing
      · exact hgroup hg item hrest

/-- A close is not an activation. -/
theorem isActivation_of_isClosing {item : RemoteItem}
    (htype : isSessionType item.1.objectType = true) (h : isClosing item = true) :
    isActivation item = false := by
  have hclose := (isClosing_iff htype).mp h
  by_contra hactive
  rw [Bool.not_eq_false, isActivation, Bool.and_eq_true, beq_iff_eq, beq_iff_eq] at hactive
  rw [hactive.1, hactive.2] at hclose
  exact absurd hclose (by decide)

/-- **When a close wins.** The operations on a window, a tab or a tab group leave both stores
deleted, in every order of delivery and in any batches, if and only if the greatest key is that
of a close, and, for a tab group, all of them are deletes. -/
theorem closes_iff (hsession : isSessionType objectType = true)
    (hitems : ∀ item ∈ items, item.1.objectId = objectId ∧ item.1.objectType = objectType ∧
      item.1.operationType ∈ allowedOperationTypes objectType)
    (hids : (items.map fun item => item.1.operationId).Nodup) :
    ClosesAlways objectId items ↔ CloseOnTop objectType items := by
  refine ⟨closeOnTop_of_closesAlways hsession hitems, ?_⟩
  rintro ⟨⟨c, hc, hclosing, hgreatest⟩, hgroup⟩ calls hcalls hperm
  rw [view_of_delivery hcalls]
  have hmem : ∀ item, item ∈ (receivedFor objectId calls).filter (fun item => !isActivation item) ↔
      item ∈ items ∧ isActivation item = false := by
    intro item
    rw [List.mem_filter, hperm.mem_iff, Bool.not_eq_true']
  have hcactive := isActivation_of_isClosing (by rw [(hitems c hc).2.1]; exact hsession) hclosing
  refine isDeleted_of_closeOnTop hsession (fun item hitem => (hitems item ((hmem item).mp hitem).1).2.1)
    ?_ (fun item hitem => ((hmem item).mp hitem).2)
    ⟨⟨c, (hmem c).mpr ⟨hc, hcactive⟩, hclosing, fun item hitem hactive =>
      hgreatest item ((hmem item).mp hitem).1 hactive⟩,
      fun hg item hitem => hgroup hg item ((hmem item).mp hitem).1⟩
  have hsub := (List.filter_sublist (p := fun item => !isActivation item)
    (l := receivedFor objectId calls)).map fun item : RemoteItem => item.1.operationId
  exact hsub.nodup ((hperm.map _).nodup_iff.mpr hids)

end Closes

/-- Device 1 opens a tab and closes it; device 2, whose clock is ahead and which has received the
tab but not the close, has seen it navigate. -/
def navigatedTab : List RemoteItem :=
  [sessionOp .tab 7 1 1 .create (.object [("url", .string "a")]), sessionOp .tab 7 1 2 .close .null,
    sessionOp .tab 7 2 9 .update (.object [("url", .string "b")])]

/-- **A close does not win**: the sets of operations one of which is a close that the devices of
the others had not received when they made them. A device that has received an operation has
moved its clock past it. -/
theorem not_closes : ¬∀ (objectType : ObjectType) (objectId : Uuid) (items : List RemoteItem)
    (hadReceived : RemoteItem → RemoteItem → Prop), isSessionType objectType = true →
    (∀ item ∈ items, item.1.objectId = objectId ∧ item.1.objectType = objectType ∧
      item.1.operationType ∈ allowedOperationTypes objectType) →
    (items.map fun item => item.1.operationId).Nodup →
    (∀ a ∈ items, ∀ b ∈ items, hadReceived a b → a.1.lamportTimestamp < b.1.lamportTimestamp) →
    (∃ c ∈ items, isClosing c = true ∧ ∀ item ∈ items, ¬hadReceived c item) →
      ClosesAlways objectId items := by
  intro h
  have hcloses := h .tab 7 navigatedTab
    (fun a b => a.1.lamportTimestamp = 1 ∧ 1 < b.1.lamportTimestamp) (by decide) (by decide)
    (by decide) (fun a _ b _ hab => by rw [hab.1]; exact hab.2)
    ⟨_, List.mem_cons_of_mem _ List.mem_cons_self, by decide, by decide⟩
  have hdeleted := hcloses [(.tab, navigatedTab)] (by decide) (List.Perm.refl _)
  exact absurd hdeleted.1 (by decide +kernel)

/-- A tab navigates, and is closed by a device whose clock is ahead. -/
def closedTab : List RemoteItem :=
  [sessionOp .tab 7 1 1 .create (.object [("url", .string "a")]),
    sessionOp .tab 7 2 3 .update (.object [("url", .string "b")]),
    sessionOp .tab 7 2 8 .activate .null, sessionOp .tab 7 1 5 .close .null]

/-- Then the close wins, whatever the order of delivery. -/
theorem closes_closedTab : ClosesAlways 7 closedTab :=
  (@closes_iff .tab 7 closedTab (by decide) (by decide) (by decide)).mpr
    ⟨⟨_, List.mem_of_getElem? (i := 3) rfl, by decide, by decide⟩, fun hg => absurd hg (by decide)⟩

end Client

end HelixSync
