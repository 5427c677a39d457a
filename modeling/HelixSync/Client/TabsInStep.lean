import HelixSync.Client.RemoteTabs

/-!
# Whether the list of remote tabs agrees with liveness

The two stores of `HelixSync.Client.RemoteStores` answer the same question twice: the `liveness`
slot says whether an object is deleted, and so does its row in `remote_objects`. Of an object
that is delivered without moves, the first of the operations with the greatest key decides
(`MaxRegister.exists_first_greatest`):

* an update leaves the object live, with a row that has the value of the `state` slot, and what
  comes later changes neither;
* a close of a window or of a tab leaves both deleted, since an update that comes later and wins
  `state` writes its row with what `liveness` holds;
* a delete of a tab group leaves both deleted, but `applyGroupRemote` writes the row of an update
  that comes later and wins `state` as not deleted.

So the stores agree on windows and on tabs, and on a tab group exactly when no update that comes
after its delete wins `state` (`HelixSync.Client.listed_iff`).
-/

namespace HelixSync

namespace Client

/-! ### One slot -/

section Slot

variable {current : Option FieldStateRecord} {held incoming : IncomingField}

/-- A value above what the slot holds is applied, unless it is a move. -/
theorem arbitrate_of_above {field : Field}
    (hexception : field = .liveness → incoming.operationType ≠ .move ∨ current = none)
    (habove : ∀ r ∈ current, r.key < incoming.key) :
    arbitrateField current field incoming = (⟨true, incoming.value⟩, some incoming) := by
  cases current with
  | none => rfl
  | some held =>
    have hwins := compareOrderingKey_pos.mpr (habove held rfl)
    unfold arbitrateField
    dsimp only
    rw [if_neg fun h : field = .liveness ∧ incoming.operationType = .move ∧ _ =>
      (hexception h.1).elim (fun hmove => hmove h.2.1) (by simp), if_pos hwins]
    split <;> rfl

/-- A value that is not above what the slot holds is not applied, unless it is a delete of what
was moved. -/
theorem arbitrate_of_le {field : Field} (hexception : field = .liveness →
      held.operationType ≠ .move ∨ incoming.operationType ≠ .delete)
    (hle : incoming.key ≤ held.key) :
    arbitrateField (some held) field incoming = (⟨false, held.value⟩, none) := by
  have hloses : ¬0 < compareOrderingKey incoming.key held.key := fun h =>
    not_lt.mpr hle (compareOrderingKey_pos.mp h)
  unfold arbitrateField
  dsimp only
  rw [if_neg, if_neg hloses, ite_self]
  rintro ⟨hfield, hdelete, hmove⟩
  exact (hexception hfield).elim (fun h => h hmove) (fun h => h hdelete)

end Slot

/-! ### One operation -/

/-- The object types the three appliers are registered for. -/
def isSessionType (objectType : ObjectType) : Bool :=
  objectType == .window || objectType == .tab || objectType == .tabGroup

/-- An activation writes neither `state` nor `liveness`. -/
def isActivation (item : RemoteItem) : Bool :=
  item.1.objectType == .tab && item.1.operationType == .activate

/-- A close of a window or of a tab, or a delete of a group. -/
def isClosing (item : RemoteItem) : Bool :=
  isTerminalOperation item.1.objectType item.1.operationType

section Step

variable {item : RemoteItem} {view : TabView}

theorem isClosing_iff (htype : isSessionType item.1.objectType = true) :
    isClosing item = true ↔ item.1.operationType =
      if item.1.objectType = .tabGroup then .delete else .close := by
  unfold isClosing
  cases ht : item.1.objectType <;> simp [isSessionType, ht] at htype <;>
    cases item.1.operationType <;> simp [isTerminalOperation]

theorem step_of_isActivation (h : isActivation item = true) : view.step item = view := by
  simp only [isActivation, Bool.and_eq_true, beq_iff_eq] at h
  simp [TabView.step, h.1, h.2]

/-- What closes an object marks it deleted. -/
theorem step_of_isClosing (htype : isSessionType item.1.objectType = true)
    (h : isClosing item = true) :
    ∃ payload, view.step item = view.mark item deleted payload := by
  rw [isClosing_iff htype] at h
  simp only [isSessionType, Bool.or_eq_true, beq_iff_eq] at htype
  rcases htype with (htype | htype) | htype <;> rw [htype] at h <;> simp at h <;>
    exact ⟨_, by simp [TabView.step, htype, h]; rfl⟩

/-- Any other operation on a window marks it live. -/
theorem step_window (htype : item.1.objectType = .window) (h : isClosing item = false) :
    view.step item = view.mark item live (some item.2) := by
  have hclose : item.1.operationType ≠ .close := by
    intro hclose
    rw [isClosing, htype, hclose] at h
    exact absurd h (by decide)
  simp [TabView.step, htype, hclose]

/-- Any other operation on a tab or a group, but an activation, writes its state. -/
theorem step_write (htype : item.1.objectType = .tab ∨ item.1.objectType = .tabGroup)
    (h : isClosing item = false) (hactive : isActivation item = false) :
    view.step item = view.write item := by
  rcases htype with htype | htype
  · have hclose : item.1.operationType ≠ .close := by
      intro hclose
      rw [isClosing, htype, hclose] at h
      exact absurd h (by decide)
    have hactivate : item.1.operationType ≠ .activate := by
      intro hactivate
      rw [isActivation, htype, hactivate] at hactive
      exact absurd hactive (by decide)
    simp [TabView.step, htype, hclose, hactivate]
  · have hdelete : item.1.operationType ≠ .delete := by
      intro hdelete
      rw [isClosing, htype, hdelete] at h
      exact absurd h (by decide)
    simp [TabView.step, htype, hdelete]

/-! #### Above what the slots hold -/

theorem mark_of_above {value : Json} {payload : Option Json}
    (hmove : item.1.operationType ≠ .move ∨ view.liveness = none)
    (habove : ∀ r ∈ view.liveness, r.key < item.1.key) : view.mark item value payload =
      ⟨view.state, some (item.incoming value), some (remoteObjectRecord item.1 item.1.objectType
        payload (isDeleted (some value)))⟩ := by
  have harb := @arbitrate_of_above view.liveness (item.incoming value) .liveness (fun _ => hmove) habove
  rw [TabView.mark, resolveSlot, harb]
  rfl

theorem write_of_above (hmove : item.1.operationType ≠ .move ∨ view.liveness = none)
    (hstate : ∀ r ∈ view.state, r.key < item.1.key)
    (hliveness : ∀ r ∈ view.liveness, r.key < item.1.key) : view.write item =
      ⟨some (item.incoming item.2), some (item.incoming live),
        some (remoteObjectRecord item.1 item.1.objectType (some item.2) false)⟩ := by
  have hs := @arbitrate_of_above view.state (item.incoming item.2) (.other "state") (by simp) hstate
  have hl := @arbitrate_of_above view.liveness (item.incoming live) .liveness (fun _ => hmove) hliveness
  have hlive : isDeleted (item.incoming live).value = false := rfl
  simp only [TabView.write, resolveSlot, hs, hl, hlive, Bool.and_false]
  rfl

/-! #### Not above what the slots hold -/

theorem mark_of_le {value : Json} {payload : Option Json} {l : FieldStateRecord}
    (hl : view.liveness = some l)
    (hexception : l.operationType ≠ .move ∨ item.1.operationType ≠ .delete)
    (hle : item.1.key ≤ l.key) : view.mark item value payload = view := by
  have harb := @arbitrate_of_le l (item.incoming value) .liveness (fun _ => hexception) hle
  rw [TabView.mark, resolveSlot, hl, harb, ← hl]
  rfl

theorem write_of_le {s l : FieldStateRecord} (hs : view.state = some s)
    (hl : view.liveness = some l) (hexception : l.operationType ≠ .move ∨ item.1.operationType ≠ .delete)
    (hsle : item.1.key ≤ s.key) (hlle : item.1.key ≤ l.key) : view.write item = view := by
  have hsarb := @arbitrate_of_le s (item.incoming item.2) (.other "state") (by simp) hsle
  have hlarb := @arbitrate_of_le l (item.incoming live) .liveness (fun _ => hexception) hlle
  simp only [TabView.write, resolveSlot, hs, hl, hsarb, hlarb]
  rw [Option.orElse_none, Option.orElse_none, ← hs, ← hl]
  rfl

/-- Only `state` is taken. -/
theorem write_of_between {l : FieldStateRecord} (hl : view.liveness = some l)
    (hexception : l.operationType ≠ .move ∨ item.1.operationType ≠ .delete)
    (hstate : ∀ r ∈ view.state, r.key < item.1.key) (hle : item.1.key ≤ l.key) :
    view.write item = ⟨some (item.incoming item.2), some l,
      some (remoteObjectRecord item.1 item.1.objectType (some item.2)
        (item.1.objectType == .tab && isDeleted l.value))⟩ := by
  have hsarb := @arbitrate_of_above view.state (item.incoming item.2) (.other "state") (by simp) hstate
  have hlarb := @arbitrate_of_le l (item.incoming live) .liveness (fun _ => hexception) hle
  simp only [TabView.write, resolveSlot, hl, hsarb, hlarb]
  rfl

end Step

/-! ### The operation that decides -/

section Decide

variable {item : RemoteItem} {view : TabView}

/-- What closes an object is not a move. -/
theorem operationType_of_isClosing (htype : isSessionType item.1.objectType = true)
    (h : isClosing item = true) : item.1.operationType ≠ .move := by
  rw [isClosing_iff htype] at h
  rw [h]
  split <;> simp

/-- **A close above everything else** leaves both stores deleted. -/
theorem step_of_closing_above (htype : isSessionType item.1.objectType = true)
    (h : isClosing item = true) (habove : ∀ r ∈ view.liveness, r.key < item.1.key) :
    ∃ row, row.deleted = true ∧
      view.step item = ⟨view.state, some (item.incoming deleted), some row⟩ := by
  obtain ⟨payload, hstep⟩ := @step_of_isClosing item view htype h
  rw [hstep, mark_of_above (Or.inl (operationType_of_isClosing htype h)) habove]
  exact ⟨_, rfl, rfl⟩

/-- **Another operation above everything else** leaves both stores live. -/
theorem step_of_opening_above (htype : isSessionType item.1.objectType = true)
    (h : isClosing item = false) (hactive : isActivation item = false)
    (hmove : item.1.operationType ≠ .move ∨ view.liveness = none)
    (hstate : ∀ r ∈ view.state, r.key < item.1.key)
    (hliveness : ∀ r ∈ view.liveness, r.key < item.1.key) :
    ∃ row, row.deleted = false ∧ row.payload = some item.2 ∧
      (view.step item).liveness = some (item.incoming live) ∧
      (view.step item).record = some row ∧
      (item.1.objectType ≠ .window → (view.step item).state = some (item.incoming item.2)) := by
  simp only [isSessionType, Bool.or_eq_true, beq_iff_eq, or_assoc] at htype
  rcases htype with htype | htype
  · rw [step_window htype h, mark_of_above hmove hliveness]
    exact ⟨_, rfl, rfl, rfl, rfl, fun hne => absurd htype hne⟩
  · rw [step_write htype h hactive, write_of_above hmove hstate hliveness]
    exact ⟨_, rfl, rfl, rfl, rfl, fun _ => rfl⟩

/-- What comes after it, and is not above it, changes nothing. -/
theorem step_eq_self {l : FieldStateRecord} (htype : isSessionType item.1.objectType = true)
    (hl : view.liveness = some l)
    (hexception : l.operationType ≠ .move ∨ item.1.operationType ≠ .delete)
    (hle : item.1.key ≤ l.key)
    (hstate : item.1.objectType ≠ .window → isClosing item = false → isActivation item = false →
      ∃ s, view.state = some s ∧ item.1.key ≤ s.key) : view.step item = view := by
  cases hactive : isActivation item with
  | true => exact step_of_isActivation hactive
  | false =>
    cases hclosing : isClosing item with
    | true =>
      obtain ⟨payload, hstep⟩ := @step_of_isClosing item view htype hclosing
      rw [hstep, mark_of_le hl hexception hle]
    | false =>
      simp only [isSessionType, Bool.or_eq_true, beq_iff_eq, or_assoc] at htype
      rcases htype with htype | htype
      · rw [step_window htype hclosing, mark_of_le hl hexception hle]
      · have hwindow : item.1.objectType ≠ .window := by
          rcases htype with htype | htype <;> simp [htype]
        obtain ⟨s, hs, hsle⟩ := hstate hwindow hclosing hactive
        rw [step_write htype hclosing hactive, write_of_le hs hl hexception hsle hle]

/-- After a close, an operation changes nothing, unless it is an update that wins `state`; that
one writes the row: as deleted for a tab, as not deleted for a group. -/
theorem step_after_close {l : FieldStateRecord} (htype : isSessionType item.1.objectType = true)
    (hl : view.liveness = some l) (hmove : l.operationType ≠ .move)
    (hdeleted : isDeleted l.value = true) (hle : item.1.key ≤ l.key) :
    (view.step item = view ∧ (item.1.objectType = .tabGroup → isClosing item = false →
        ∃ s, view.state = some s ∧ item.1.key ≤ s.key)) ∨
      (isClosing item = false ∧ (∀ r ∈ view.state, r.key < item.1.key) ∧
        ∃ row, row.deleted = (item.1.objectType == .tab) ∧
          view.step item = ⟨some (item.incoming item.2), some l, some row⟩ ∧
          item.1.objectType ≠ .window) := by
  by_cases hstate : item.1.objectType ≠ .window → isClosing item = false →
      isActivation item = false → ∃ s, view.state = some s ∧ item.1.key ≤ s.key
  · refine Or.inl ⟨step_eq_self htype hl (Or.inl hmove) hle hstate, fun hgroup hclosing => ?_⟩
    exact hstate (by simp [hgroup]) hclosing (by simp [isActivation, hgroup])
  · push Not at hstate
    obtain ⟨hwindow, hclosing, hactive, hstate⟩ := hstate
    have htype' : item.1.objectType = .tab ∨ item.1.objectType = .tabGroup := by
      simp only [isSessionType, Bool.or_eq_true, beq_iff_eq, or_assoc] at htype
      exact htype.resolve_left hwindow
    refine Or.inr ⟨hclosing, fun r hr => hstate r hr, ?_⟩
    rw [step_write htype' hclosing hactive,
      write_of_between hl (Or.inl hmove) (fun r hr => hstate r hr) hle, hdeleted, Bool.and_true]
    exact ⟨_, rfl, rfl, hwindow⟩

end Decide

/-! ### Runs -/

/-- What the slots hold came with an operation. -/
theorem key_of_step {item : RemoteItem} {view : TabView} {r : FieldStateRecord} :
    ((view.step item).liveness = some r → r.key = item.1.key ∨ view.liveness = some r) ∧
      ((view.step item).state = some r → r.key = item.1.key ∨ view.state = some r) := by
  have hslot : ∀ {field : Field} {current : Option FieldStateRecord} {value : Json},
      resolveSlot field current (item.incoming value) = some r → r.key = item.1.key ∨ current = some r :=
    fun h => (resolveSlot_mem h).imp_left fun h => by rw [h]; rfl
  unfold TabView.step
  split
  · exact ⟨hslot, Or.inr⟩
  · split_ifs
    · exact ⟨hslot, Or.inr⟩
    · exact ⟨Or.inr, Or.inr⟩
    · exact ⟨hslot, hslot⟩
  · split_ifs
    · exact ⟨hslot, Or.inr⟩
    · exact ⟨hslot, hslot⟩
  · exact ⟨Or.inr, Or.inr⟩

/-- Slots that hold only keys below a bound do so after operations below it. -/
theorem below_of_run {bound : OrderingKey} {items : List RemoteItem}
    (hitems : ∀ item ∈ items, item.1.key < bound) : ∀ view : TabView,
    (∀ r ∈ view.liveness, r.key < bound) ∧ (∀ r ∈ view.state, r.key < bound) →
      (∀ r ∈ (items.foldl TabView.step view).liveness, r.key < bound) ∧
        ∀ r ∈ (items.foldl TabView.step view).state, r.key < bound := by
  induction items with
  | nil => exact fun _ h => h
  | cons item items ih =>
    rintro view ⟨hliveness, hstate⟩
    have hitem := hitems item List.mem_cons_self
    refine ih (fun i hi => hitems i (List.mem_cons_of_mem _ hi)) _ ⟨fun r hr => ?_, fun r hr => ?_⟩
    · rcases key_of_step.1 hr with hkey | hr
      · rwa [hkey]
      · exact hliveness r hr
    · rcases key_of_step.2 hr with hkey | hr
      · rwa [hkey]
      · exact hstate r hr

/-- Activations do not count. -/
theorem foldl_step_filter (items : List RemoteItem) : ∀ view : TabView,
    items.foldl TabView.step view =
      (items.filter fun item => !isActivation item).foldl TabView.step view := by
  induction items with
  | nil => exact fun _ => rfl
  | cons item items ih =>
    intro view
    cases hactive : isActivation item with
    | true =>
      rw [List.foldl_cons, step_of_isActivation hactive, List.filter_cons_of_neg (by simp [hactive])]
      exact ih view
    | false =>
      rw [List.filter_cons_of_pos (by simp [hactive]), List.foldl_cons, List.foldl_cons]
      exact ih _

/-- After an operation that decides for live, nothing changes. -/
theorem run_eq_self {l : FieldStateRecord} {items : List RemoteItem} {view : TabView}
    (hl : view.liveness = some l)
    (hitems : ∀ item ∈ items, isSessionType item.1.objectType = true ∧ item.1.key ≤ l.key ∧
      (l.operationType ≠ .move ∨ item.1.operationType ≠ .delete) ∧
      (item.1.objectType ≠ .window → isClosing item = false → isActivation item = false →
        ∃ s, view.state = some s ∧ item.1.key ≤ s.key)) :
    items.foldl TabView.step view = view := by
  induction items with
  | nil => rfl
  | cons item items ih =>
    obtain ⟨⟨htype, hle, hexception, hstate⟩, hrest⟩ := List.forall_mem_cons.mp hitems
    rw [List.foldl_cons, step_eq_self htype hl hexception hle hstate]
    exact ih hrest

section AfterClose

variable {l : FieldStateRecord} (hmove : l.operationType ≠ .move) (hdeleted : isDeleted l.value = true)

include hmove hdeleted

/-- After a close, `liveness` stays, and so does the row of a window or a tab. -/
theorem run_after_close {items : List RemoteItem}
    (hitems : ∀ item ∈ items, isSessionType item.1.objectType = true ∧ item.1.key ≤ l.key) :
    ∀ view : TabView, view.liveness = some l →
      (items.foldl TabView.step view).liveness = some l ∧
      ((∀ item ∈ items, item.1.objectType ≠ .tabGroup) →
        view.record.map RemoteObjectRecord.deleted = some true →
          (items.foldl TabView.step view).record.map RemoteObjectRecord.deleted = some true) := by
  induction items with
  | nil => exact fun view hl => ⟨hl, fun _ h => h⟩
  | cons item items ih =>
    intro view hl
    obtain ⟨⟨htype, hle⟩, hrest⟩ := List.forall_mem_cons.mp hitems
    have hgroups : (∀ i ∈ item :: items, i.1.objectType ≠ .tabGroup) →
        ∀ i ∈ items, i.1.objectType ≠ .tabGroup := fun h i hi => h i (List.mem_cons_of_mem _ hi)
    rw [List.foldl_cons]
    rcases step_after_close htype hl hmove hdeleted hle with
      ⟨hstep, -⟩ | ⟨-, -, row, hrow, hstep, hwindow⟩
    · rw [hstep]
      obtain ⟨hlive, hkept⟩ := ih hrest view hl
      exact ⟨hlive, fun hgroup => hkept (hgroups hgroup)⟩
    · rw [hstep]
      obtain ⟨hlive, hkept⟩ := ih hrest ⟨some (item.incoming item.2), some l, some row⟩ rfl
      refine ⟨hlive, fun hgroup _ => hkept (hgroups hgroup) ?_⟩
      have htab : item.1.objectType = .tab := by
        simp only [isSessionType, Bool.or_eq_true, beq_iff_eq, or_assoc] at htype
        exact (htype.resolve_left hwindow).resolve_right (hgroup item List.mem_cons_self)
      rw [Option.map_some, hrow, htab]
      rfl

/-- After a delete of a group, the row is left deleted exactly if no update wins `state`. -/
theorem run_after_delete {items : List RemoteItem}
    (hitems : ∀ item ∈ items, item.1.objectType = .tabGroup ∧ item.1.key ≤ l.key) :
    ∀ view : TabView, view.liveness = some l →
      ((items.foldl TabView.step view).record.map RemoteObjectRecord.deleted = some true ↔
        view.record.map RemoteObjectRecord.deleted = some true ∧
          ∀ u ∈ items, isClosing u = false → ∃ s, view.state = some s ∧ u.1.key ≤ s.key) := by
  induction items with
  | nil => exact fun view hl => by simp
  | cons item items ih =>
    intro view hl
    obtain ⟨⟨htype, hle⟩, hrest⟩ := List.forall_mem_cons.mp hitems
    rw [List.foldl_cons, List.forall_mem_cons]
    rcases step_after_close (by simp [isSessionType, htype]) hl hmove hdeleted hle with
      ⟨hstep, hstate⟩ | ⟨hclosing, hstate, row, hrow, hstep, -⟩
    · rw [hstep, ih hrest view hl]
      constructor
      · rintro ⟨hrecord, h⟩
        exact ⟨hrecord, hstate htype, h⟩
      · rintro ⟨hrecord, -, h⟩
        exact ⟨hrecord, h⟩
    · rw [hstep, ih hrest ⟨some (item.incoming item.2), some l, some row⟩ rfl]
      constructor
      · rintro ⟨hrecord, -⟩
        rw [Option.map_some, hrow, htype] at hrecord
        exact absurd hrecord (by decide)
      · rintro ⟨-, h, -⟩
        obtain ⟨s, hs, hle⟩ := h hclosing
        exact absurd (hstate s hs) (not_lt.mpr hle)

end AfterClose

/-- The `state` slot of a group reaches a bound if an update does. -/
theorem exists_le_state_iff {bound : OrderingKey} {items : List RemoteItem}
    (hitems : ∀ item ∈ items, item.1.objectType = .tabGroup) : ∀ view : TabView,
    (∃ s, (items.foldl TabView.step view).state = some s ∧ bound ≤ s.key) ↔
      (∃ s, view.state = some s ∧ bound ≤ s.key) ∨
        ∃ u ∈ items, isClosing u = false ∧ bound ≤ u.1.key := by
  induction items with
  | nil => exact fun view => by simp
  | cons item items ih =>
    intro view
    obtain ⟨htype, hrest⟩ := List.forall_mem_cons.mp hitems
    have hone : (∃ s, (view.step item).state = some s ∧ bound ≤ s.key) ↔
        (∃ s, view.state = some s ∧ bound ≤ s.key) ∨ isClosing item = false ∧ bound ≤ item.1.key := by
      cases hclosing : isClosing item with
      | true =>
        obtain ⟨payload, hstep⟩ := @step_of_isClosing item view (by simp [isSessionType, htype]) hclosing
        rw [hstep]
        simp [TabView.mark]
      | false =>
        have hwrite : (view.step item).state =
            MaxRegister.write IncomingField.key view.state (item.incoming item.2) := by
          rw [step_write (Or.inr htype) hclosing (by simp [isActivation, htype])]
          exact resolveSlot_eq_write (by simp) _ _
        rw [hwrite, MaxRegister.exists_le_write_iff]
        exact or_congr_right ⟨fun h => ⟨rfl, h⟩, fun h => h.2⟩
    rw [List.foldl_cons, ih hrest, hone, or_assoc]
    simp only [List.exists_mem_cons_iff]

/-! ### Whether the stores agree -/

/-- The row says that the object is deleted exactly when `liveness` does, and the row of a live
tab or group has the value of `state`. -/
structure InStep (objectType : ObjectType) (view : TabView) : Prop where
  deleted : view.record.map RemoteObjectRecord.deleted =
    view.liveness.map fun r => isDeleted r.value
  payload : objectType = .tab ∨ objectType = .tabGroup → ∀ l, view.liveness = some l →
    isDeleted l.value = false → ∃ row s, view.record = some row ∧ view.state = some s ∧
      row.payload = s.value

/-- If a delete decides, no update that comes after it exceeds all updates before it. -/
def KeepsDelete (items : List RemoteItem) : Prop :=
  ∀ before d after, items = before ++ d :: after → d.1.operationType = .delete →
    (∀ item ∈ before, item.1.key < d.1.key) → (∀ item ∈ after, item.1.key ≤ d.1.key) →
      ∀ u ∈ after, u.1.operationType ≠ .delete →
        ∃ u' ∈ before, u'.1.operationType ≠ .delete ∧ u.1.key ≤ u'.1.key

section Agreement

variable {objectType : ObjectType} {before after : List RemoteItem} {m : RemoteItem}

/-- The view that the operation with the greatest key finds. -/
theorem below_of_first (hbefore : ∀ item ∈ before, item.1.key < m.1.key) :
    (∀ r ∈ (before.foldl TabView.step TabView.empty).liveness, r.key < m.1.key) ∧
      ∀ r ∈ (before.foldl TabView.step TabView.empty).state, r.key < m.1.key :=
  below_of_run hbefore TabView.empty ⟨by simp [TabView.empty], by simp [TabView.empty]⟩

/-- **If an update decides, the stores agree.** -/
theorem inStep_of_opening (hsession : isSessionType objectType = true)
    (htypes : ∀ item ∈ before ++ m :: after, item.1.objectType = objectType)
    (hmoves : ∀ item ∈ before ++ m :: after, item.1.operationType ≠ .move)
    (hbefore : ∀ item ∈ before, item.1.key < m.1.key)
    (hafter : ∀ item ∈ after, item.1.key ≤ m.1.key)
    (hclosing : isClosing m = false) (hactive : isActivation m = false) :
    InStep objectType ((before ++ m :: after).foldl TabView.step TabView.empty) := by
  have hm : m ∈ before ++ m :: after := List.mem_append_right _ List.mem_cons_self
  obtain ⟨hliveness, hstate⟩ := below_of_first hbefore
  rw [List.foldl_append, List.foldl_cons]
  generalize before.foldl TabView.step TabView.empty = view at *
  have htype := htypes m hm
  obtain ⟨row, hrow, hpayload, hl, hrecord, hs⟩ := step_of_opening_above
    (by rw [htype]; exact hsession) hclosing hactive (Or.inl (hmoves m hm)) hstate hliveness
  rw [run_eq_self hl]
  · refine ⟨?_, fun ht l hl' _ => ?_⟩
    · rw [hrecord, hl, Option.map_some, hrow]
      rfl
    · refine ⟨row, m.incoming m.2, hrecord, hs ?_, hpayload⟩
      rintro hwindow
      rw [htype] at hwindow
      rcases ht with ht | ht <;> exact absurd (hwindow.symm.trans ht) (by decide)
  · intro item hitem
    have hmem : item ∈ before ++ m :: after :=
      List.mem_append_right _ (List.mem_cons_of_mem _ hitem)
    have hitype := htypes item hmem
    refine ⟨by rw [hitype]; exact hsession, hafter item hitem, Or.inl (hmoves m hm),
      fun hwindow _ _ => ⟨_, hs ?_, hafter item hitem⟩⟩
    rw [htype, ← hitype]
    exact hwindow

/-- **If a close decides**, the slot is deleted, and the row of a window or a tab is. The row of
a group is, exactly if no update after the close exceeds those before it. -/
theorem deleted_of_closing (hsession : isSessionType objectType = true)
    (htypes : ∀ item ∈ before ++ m :: after, item.1.objectType = objectType)
    (hbefore : ∀ item ∈ before, item.1.key < m.1.key)
    (hafter : ∀ item ∈ after, item.1.key ≤ m.1.key) (hclosing : isClosing m = true) :
    let view := (before ++ m :: after).foldl TabView.step TabView.empty
    view.liveness = some (m.incoming deleted) ∧
      (objectType ≠ .tabGroup → view.record.map RemoteObjectRecord.deleted = some true) ∧
      (objectType = .tabGroup → (view.record.map RemoteObjectRecord.deleted = some true ↔
        ∀ u ∈ after, isClosing u = false →
          ∃ u' ∈ before, isClosing u' = false ∧ u.1.key ≤ u'.1.key)) := by
  have hm : m ∈ before ++ m :: after := List.mem_append_right _ List.mem_cons_self
  have hmem : ∀ item ∈ after, item ∈ before ++ m :: after := fun item hitem =>
    List.mem_append_right _ (List.mem_cons_of_mem _ hitem)
  have hmtype : isSessionType m.1.objectType = true := by rw [htypes m hm]; exact hsession
  have hmove : (m.incoming deleted).operationType ≠ .move := operationType_of_isClosing hmtype hclosing
  have hdeleted : isDeleted (m.incoming deleted).value = true := rfl
  obtain ⟨row, hrow, hstep⟩ := step_of_closing_above hmtype hclosing (below_of_first hbefore).1
  have hrecord : (some row).map RemoteObjectRecord.deleted = some true := by rw [Option.map_some, hrow]
  obtain ⟨hl, hkept⟩ := run_after_close (l := m.incoming deleted) hmove hdeleted
    (fun item hitem => ⟨by rw [htypes item (hmem item hitem)]; exact hsession, hafter item hitem⟩)
    _ (congrArg TabView.liveness hstep)
  dsimp only
  rw [List.foldl_append, List.foldl_cons]
  refine ⟨hl, fun hgroup => ?_, fun hgroup => ?_⟩
  · refine hkept (fun item hitem => ?_) (by rw [hstep]; exact hrecord)
    rw [htypes item (hmem item hitem)]
    exact hgroup
  · rw [run_after_delete (l := m.incoming deleted) hmove hdeleted (fun item hitem =>
      ⟨(htypes item (hmem item hitem)).trans hgroup, hafter item hitem⟩) _
      (congrArg TabView.liveness hstep), hstep]
    refine (and_iff_right hrecord).trans (forall₃_congr fun u hu hopening => ?_)
    rw [exists_le_state_iff fun item hitem =>
      (htypes item (List.mem_append_left _ hitem)).trans hgroup]
    simp [TabView.empty]

/-- A group is closed by a delete, and by nothing else. -/
theorem isClosing_group {item : RemoteItem} (htype : item.1.objectType = .tabGroup) :
    isClosing item = true ↔ item.1.operationType = .delete := by
  rw [isClosing_iff (by simp [isSessionType, htype]), if_pos htype]

/-- **Whether the stores agree on an object.** -/
theorem inStep_run_iff {items : List RemoteItem} (hsession : isSessionType objectType = true)
    (htypes : ∀ item ∈ items, item.1.objectType = objectType)
    (hmoves : ∀ item ∈ items, item.1.operationType ≠ .move) :
    InStep objectType (items.foldl TabView.step TabView.empty) ↔
      (objectType = .tabGroup → KeepsDelete items) := by
  have hopening : ∀ {item : RemoteItem}, item.1.objectType = .tabGroup →
      (isClosing item = false ↔ item.1.operationType ≠ .delete) := by
    intro item htype
    rw [← Bool.not_eq_true, isClosing_group htype]
  constructor
  · rintro hinstep rfl before d after rfl hdelete hbefore hafter u hu hupdate
    have hgroup : ∀ item ∈ before ++ d :: after, item.1.objectType = .tabGroup := htypes
    obtain ⟨hl, -, hiff⟩ := deleted_of_closing hsession htypes hbefore hafter
      ((isClosing_group (htypes d (by simp))).mpr hdelete)
    have hrecord := hinstep.deleted
    rw [hl, Option.map_some] at hrecord
    obtain ⟨u', hu', hopen, hle⟩ := (hiff rfl).mp hrecord u hu
      ((hopening (htypes u (by simp [hu]))).mpr hupdate)
    exact ⟨u', hu', (hopening (htypes u' (by simp [hu']))).mp hopen, hle⟩
  · intro hkeeps
    rw [foldl_step_filter]
    -- on a group every operation counts
    have hall : objectType = .tabGroup → (items.filter fun item => !isActivation item) = items := by
      rintro rfl
      refine List.filter_eq_self.mpr fun item hitem => ?_
      simp [isActivation, htypes item hitem]
    have htypes' : ∀ item ∈ items.filter fun item => !isActivation item,
        item.1.objectType = objectType := fun item hitem => htypes item (List.mem_of_mem_filter hitem)
    have hmoves' : ∀ item ∈ items.filter fun item => !isActivation item,
        item.1.operationType ≠ .move := fun item hitem => hmoves item (List.mem_of_mem_filter hitem)
    have hactive : ∀ item ∈ items.filter fun item => !isActivation item,
        isActivation item = false := fun item hitem => by simpa using (List.mem_filter.mp hitem).2
    have hkeeps' : objectType = .tabGroup → KeepsDelete (items.filter fun item => !isActivation item) :=
      fun hgroup => by rw [hall hgroup]; exact hkeeps hgroup
    generalize items.filter (fun item => !isActivation item) = writes at *
    rcases eq_or_ne writes [] with rfl | hne
    · exact ⟨rfl, fun _ l hl => absurd hl (by simp [TabView.empty])⟩
    · obtain ⟨before, m, after, rfl, hbefore, hafter⟩ :=
        MaxRegister.exists_first_greatest (fun item : RemoteItem => item.1.key) hne
      have hm : m ∈ before ++ m :: after := by simp
      cases hclosing : isClosing m with
      | false => exact inStep_of_opening hsession htypes' hmoves' hbefore hafter hclosing (hactive m hm)
      | true =>
        obtain ⟨hl, hrow, hiff⟩ := deleted_of_closing hsession htypes' hbefore hafter hclosing
        refine ⟨?_, fun _ l hl' hlive => ?_⟩
        · rw [hl, Option.map_some]
          by_cases hgroup : objectType = .tabGroup
          · have hd := (isClosing_group ((htypes' m hm).trans hgroup)).mp hclosing
            refine (hiff hgroup).mpr fun u hu hopen => ?_
            obtain ⟨u', hu', hupdate, hle⟩ := hkeeps' hgroup before m after rfl hd hbefore hafter u hu
              ((hopening ((htypes' u (by simp [hu])).trans hgroup)).mp hopen)
            exact ⟨u', hu', (hopening ((htypes' u' (by simp [hu'])).trans hgroup)).mpr hupdate, hle⟩
          · exact hrow hgroup
        · rw [hl, Option.some.injEq] at hl'
          rw [← hl'] at hlive
          exact absurd hlive (by simp [RemoteItem.incoming, isDeleted, deleted])

end Agreement

/-- The operations on an object, in the order they are applied. -/
def receivedFor (objectId : Uuid) (calls : List RemoteCall) : List RemoteItem :=
  (received calls).filter fun item => item.1.objectId = objectId

/-- Nothing is received for an object whose type has none of the three appliers. -/
theorem receivedFor_eq_nil {calls : List RemoteCall} (hcalls : WellTyped calls)
    {typeOf : Uuid → ObjectType}
    (htypes : ∀ item ∈ received calls, item.1.objectType = typeOf item.1.objectId) {objectId : Uuid}
    (h : isSessionType (typeOf objectId) = false) : receivedFor objectId calls = [] := by
  refine List.filter_eq_nil_iff.mpr fun item hitem => ?_
  rw [decide_eq_true_eq]
  rintro rfl
  obtain ⟨call, hcall, hmem⟩ := List.mem_flatMap.mp hitem
  obtain ⟨hsession, hitems⟩ := hcalls call hcall
  rw [← htypes item hitem, hitems item hmem] at h
  rcases hsession with hsession | hsession | hsession <;> rw [hsession] at h <;> exact absurd h (by decide)

/-- **When the stores agree.** Operations on windows, tabs and tab groups, but no moves, come to
an empty profile in any order, with any keys and in any batches. At the end the two stores agree
on every object if and only if, for every tab group, no update that comes after a delete that
decides exceeds all updates before it. -/
theorem listed_iff {calls : List RemoteCall} (hcalls : WellTyped calls) {typeOf : Uuid → ObjectType}
    (htypes : ∀ item ∈ received calls, item.1.objectType = typeOf item.1.objectId)
    (hmoves : ∀ item ∈ received calls, item.1.operationType ≠ .move) :
    (∀ objectId, InStep (typeOf objectId)
        ((applyRemoteCalls .empty calls).view objectId)) ↔
      ∀ objectId, typeOf objectId = .tabGroup → KeepsDelete (receivedFor objectId calls) := by
  refine forall_congr' fun objectId => ?_
  have hview : (applyRemoteCalls .empty calls).view objectId =
      (receivedFor objectId calls).foldl TabView.step TabView.empty :=
    view_applyRemoteCalls hcalls objectId .empty
  rw [hview]
  cases hsession : isSessionType (typeOf objectId) with
  | true =>
    refine inStep_run_iff hsession (fun item hitem => ?_) fun item hitem => ?_
    · obtain ⟨hmem, hid⟩ := List.mem_filter.mp hitem
      rw [htypes item hmem, of_decide_eq_true hid]
    · exact hmoves item (List.mem_of_mem_filter hitem)
  | false =>
    rw [receivedFor_eq_nil hcalls htypes hsession]
    refine iff_of_true ⟨rfl, fun _ l hl => absurd hl (by simp [TabView.empty])⟩ fun hgroup => ?_
    rw [hgroup] at hsession
    exact absurd hsession (by decide)

/-- An operation on an object of a session, with the Lamport timestamp as its id. -/
def sessionOp (objectType : ObjectType) (objectId deviceId lamport : Uuid)
    (operationType : OperationType) (payload : Json) : RemoteItem :=
  (⟨lamport, deviceId, lamport.val, objectType, objectId, operationType⟩, payload)

/-- The object types of the runs below: window 6, tab 7 and tab group 8. -/
def sessionTypes (objectId : Uuid) : ObjectType :=
  if objectId = 6 then .window else if objectId = 7 then .tab else .tabGroup

/-- A tab group is created and deleted by device 1; device 2, which had not seen the delete, has
renamed it. -/
def renamedGroup : List RemoteCall :=
  [(.tabGroup, [sessionOp .tabGroup 8 1 1 .create (.object [("title", .string "a")])]),
    (.tabGroup, [sessionOp .tabGroup 8 1 5 .delete .null,
      sessionOp .tabGroup 8 2 3 .update (.object [("title", .string "b")])])]

/-- **A renamed group stays in the list**: its slot is deleted and its row is not. -/
theorem not_listed : ¬∀ (calls : List RemoteCall) (typeOf : Uuid → ObjectType), WellTyped calls →
    (∀ item ∈ received calls, item.1.objectType = typeOf item.1.objectId) →
    (∀ item ∈ received calls, item.1.operationType ≠ .move) →
      ∀ objectId, InStep (typeOf objectId)
        ((applyRemoteCalls .empty calls).view objectId) := by
  intro h
  have hgroup := h renamedGroup sessionTypes (by decide) (by decide) (by decide) 8
  exact absurd hgroup.deleted (by decide +kernel)

/-- A window and a tab are closed before an older update of theirs comes, a group is renamed
before its delete comes. -/
def closedSession : List RemoteCall :=
  [(.window, [sessionOp .window 6 1 9 .close .null, sessionOp .window 6 2 4 .update .null]),
    (.tab, [sessionOp .tab 7 1 8 .close .null,
      sessionOp .tab 7 2 3 .update (.object [("title", .string "b")])]),
    (.tabGroup, [sessionOp .tabGroup 8 2 3 .update (.object [("title", .string "b")]),
      sessionOp .tabGroup 8 1 5 .delete .null])]

/-- Then the stores agree, on the group among others. -/
theorem listed_closedSession :
    InStep (sessionTypes 8) ((applyRemoteCalls .empty closedSession).view 8) := by
  refine (@listed_iff closedSession (by decide) sessionTypes (by decide) (by decide)).mpr
    (fun objectId hgroup => ?_) 8
  have hreceived : receivedFor objectId closedSession = [] ∨
      receivedFor objectId closedSession = receivedFor 8 closedSession := by
    by_cases h8 : objectId = 8
    · exact Or.inr (by rw [h8])
    · refine Or.inl (List.filter_eq_nil_iff.mpr fun item hitem hid => ?_)
      rw [decide_eq_true_eq] at hid
      subst hid
      revert hgroup h8
      revert item
      decide
  rcases hreceived with hnil | hgroup8
  · rintro before d after hitems
    rw [hnil] at hitems
    exact absurd hitems (by simp)
  · -- the delete comes last
    rintro before d after hitems hdelete _ _ u hu
    rw [hgroup8] at hitems
    have hlist : receivedFor 8 closedSession =
        [sessionOp .tabGroup 8 2 3 .update (.object [("title", .string "b")]),
          sessionOp .tabGroup 8 1 5 .delete .null] := rfl
    rw [hlist] at hitems
    rcases before with _ | ⟨first, _ | ⟨second, before⟩⟩
    · cases hitems
      exact absurd hdelete (by decide)
    · cases hitems
      exact absurd hu List.not_mem_nil
    · simp at hitems

end Client

end HelixSync
