import HelixSync.Client.BookmarkFields
import HelixSync.Lib.LastWrites

/-!
# Coalescing tab events

The events of a flush of tab, window and group events (`extension/src/tabs/index.ts`) become
staged operations, and `coalesceStagedOps` drops those that later ones make superfluous: first
all activations of a window but the last, then, from the end, the updates and activations that
a later operation on the same object has overtaken.

An activation writes a slot of its own. An update is dropped for a later update of its object,
which writes the same slots, or for a close, which decides the liveness; so what is left writes
the same last, except for the state of an object that is closed afterwards
(`HelixSync.Client.coalesceStagedOps_correct`).
-/

namespace HelixSync

namespace Client

open LastWrites

/-! ### Staged operations -/

/-- The field of a tab or a group that holds its payload. -/
abbrev stateField : Field := .other "state"

/-- The field of a tab that holds whether it was activated. -/
abbrev activeField : Field := .other "active"

/-- `StagedTabOp`. -/
structure StagedTabOp where
  objectType : ObjectType
  objectId : Uuid
  operationType : OperationType
  payload : Json
  fields : List (Field × Json)
  titleOnly : Bool
  windowId : Option ℤ

/-- What `stageTabActivated` stages. -/
def activation (objectId : Uuid) (windowId : ℤ) : StagedTabOp where
  objectType := .tab
  objectId := objectId
  operationType := .activate
  payload := .object [("active", .bool true)]
  fields := [(activeField, .bool true)]
  titleOnly := false
  windowId := some windowId

/-- What `stageRemoval` stages. -/
def removal (objectType : ObjectType) (objectId : Uuid) (operationType : OperationType) :
    StagedTabOp where
  objectType := objectType
  objectId := objectId
  operationType := operationType
  payload := .object []
  fields := [(.liveness, deleted)]
  titleOnly := false
  windowId := none

/-- The operations the functions of `stageEvent` stage. -/
inductive Staged : StagedTabOp → Prop
  /-- `stageWindowCreated`. -/
  | windowCreated (objectId : Uuid) (payload : Json) :
      Staged ⟨.window, objectId, .create, payload, [(.liveness, live)], false, none⟩
  /-- `stageTabCreated`. -/
  | tabCreated (objectId : Uuid) (payload : Json) :
      Staged ⟨.tab, objectId, .create, payload, [(stateField, payload), (.liveness, live)], false,
        none⟩
  /-- `stageTabUpdated`, of a tab that has an object. -/
  | tabUpdated (objectId : Uuid) (payload : Json) (titleOnly : Bool) :
      Staged ⟨.tab, objectId, .update, payload, [(stateField, payload)], titleOnly, none⟩
  | tabActivated (objectId : Uuid) (windowId : ℤ) : Staged (activation objectId windowId)
  /-- `stageGroupUpdated`: a create if the group has no recorded state. -/
  | groupUpdated (objectId : Uuid) (payload : Json) (recorded : Bool) :
      Staged ⟨.tabGroup, objectId, if recorded then .update else .create, payload,
        [(stateField, payload), (.liveness, live)], false, none⟩
  | windowRemoved (objectId : Uuid) : Staged (removal .window objectId .close)
  | tabRemoved (objectId : Uuid) : Staged (removal .tab objectId .close)
  | groupRemoved (objectId : Uuid) : Staged (removal .tabGroup objectId .delete)

/-! ### Coalescing -/

/-- `lastActivateIdxByWindow`. -/
def lastActivateIdxByWindow (staged : List StagedTabOp) : ℤ → Option ℕ :=
  staged.zipIdx.foldl
    (fun last entry =>
      if entry.1.operationType = .activate then
        match entry.1.windowId with
        | some windowId => Function.update last windowId (some entry.2)
        | none => last
      else last)
    fun _ => none

/-- Whether the filter per window keeps an operation, at its index. -/
def keptForWindow (last : ℤ → Option ℕ) (entry : StagedTabOp × ℕ) : Bool :=
  entry.1.operationType != .activate ||
    match entry.1.windowId with
    | some windowId => last windowId == some entry.2
    | none => true

/-- `windowFiltered`. Without an activation of a window nothing is left out. -/
def windowFiltered (staged : List StagedTabOp) : List StagedTabOp :=
  (staged.zipIdx.filter (keptForWindow (lastActivateIdxByWindow staged))).map Prod.fst

/-- The variables of the pass from the end. What it pushes, to be reversed when it is done, is
put in front here. -/
structure CoalescePass where
  result : List StagedTabOp
  discardEarlierUpdate : List Uuid
  discardEarlierActivate : List Uuid

/-- One operation of the pass. -/
def coalesceStep (op : StagedTabOp) (pass : CoalescePass) : CoalescePass :=
  match op.operationType with
  | .close =>
    { result := op :: pass.result
      discardEarlierUpdate := op.objectId :: pass.discardEarlierUpdate
      discardEarlierActivate := op.objectId :: pass.discardEarlierActivate }
  | .update =>
    if op.objectId ∈ pass.discardEarlierUpdate then pass
    else { pass with
      result := op :: pass.result
      discardEarlierUpdate := op.objectId :: pass.discardEarlierUpdate }
  | .activate =>
    if op.objectId ∈ pass.discardEarlierActivate then pass
    else { pass with
      result := op :: pass.result
      discardEarlierActivate := op.objectId :: pass.discardEarlierActivate }
  | _ => { pass with result := op :: pass.result }

/-- The pass from the end. -/
def coalescePass (ops : List StagedTabOp) : CoalescePass := ops.foldr coalesceStep ⟨[], [], []⟩

/-- `coalesceStagedOps`. -/
def coalesceStagedOps (staged : List StagedTabOp) : List StagedTabOp :=
  (coalescePass (windowFiltered staged)).result

/-! ### Replaying -/

/-- The values of the slots of tabs, windows and groups. -/
abbrev TabSlots := SlotKey → Option Json

/-- What an operation writes to a slot. -/
def StagedTabOp.writes (op : StagedTabOp) (slot : SlotKey) : Option Json :=
  if op.objectId = slot.1 then (op.fields.filter fun f => f.1 = slot.2).getLast?.map Prod.snd
  else none

/-- An operation's fields are recorded. -/
def replayOp (slots : TabSlots) (op : StagedTabOp) : TabSlots :=
  op.fields.foldl (fun slots f => Function.update slots (op.objectId, f.1) (some f.2)) slots

/-- Operations are recorded one after the other. -/
def replay (slots : TabSlots) (ops : List StagedTabOp) : TabSlots := ops.foldl replayOp slots

/-- An object is closed after the last operation that writes its state. -/
def ClosedAfterLastState (objectId : Uuid) (ops : List StagedTabOp) : Prop :=
  ∃ before write after, ops = before ++ write :: after ∧
    (write.writes (objectId, stateField)).isSome = true ∧
    (∀ op ∈ after, op.writes (objectId, stateField) = none) ∧
    ∃ op ∈ after, op.operationType = .close ∧ op.objectId = objectId

variable {typeOf : Uuid → ObjectType} {staged ops rest before after : List StagedTabOp}
  {op : StagedTabOp} {objectId : Uuid} {slots : TabSlots} {slot : SlotKey} {windowId : ℤ}

theorem replayOp_apply (slots : TabSlots) (op : StagedTabOp) (slot : SlotKey) :
    replayOp slots op slot = (op.writes slot).or (slots slot) := by
  obtain ⟨objectId, field⟩ := slot
  have hfields : ∀ fields : List (Field × Json),
      fields.foldl (fun slots f => Function.update slots (op.objectId, f.1) (some f.2)) slots
          (objectId, field) =
        (if op.objectId = objectId then (fields.filter fun f => f.1 = field).getLast?.map Prod.snd
          else none).or (slots (objectId, field)) := by
    intro fields
    induction fields using List.reverseRecOn with
    | nil => simp
    | append_singleton fields f ih =>
      rw [List.foldl_append, List.foldl_cons, List.foldl_nil, Function.update_apply,
        List.filter_append]
      by_cases hslot : (objectId, field) = (op.objectId, f.1)
      · obtain ⟨rfl, rfl⟩ := Prod.mk.inj hslot
        simp
      · rw [if_neg hslot, ih]
        by_cases hid : op.objectId = objectId
        · have hne : ¬f.1 = field := fun hf => hslot (by rw [hid, hf])
          simp [hne]
        · simp [hid]
  exact hfields op.fields

/-- **What a replay leaves** in a slot is what was written to it last. -/
theorem replay_apply (slots : TabSlots) (ops : List StagedTabOp) (slot : SlotKey) :
    replay slots ops slot = (last StagedTabOp.writes slot ops).or (slots slot) :=
  foldl_apply fun slots op => replayOp_apply slots op slot

/-! ### What the operations write -/

theorem writes_eq_none (h : op.objectId ≠ slot.1) : op.writes slot = none := if_neg h

theorem fields_of_activate (hop : Staged op) (htype : op.operationType = .activate) :
    op.fields = [(activeField, .bool true)] := by
  cases hop with
  | tabActivated => rfl
  | groupUpdated id payload recorded => cases recorded <;> exact absurd htype (by simp)
  | windowCreated | tabCreated | tabUpdated => exact absurd htype (by simp)
  | windowRemoved | tabRemoved | groupRemoved => exact absurd htype (by simp [removal])

/-- An update is one of a tab, or one of a group. -/
theorem fields_of_update (hop : Staged op) (htype : op.operationType = .update) :
    op.objectType = .tab ∧ op.fields = [(stateField, op.payload)] ∨
      op.objectType = .tabGroup ∧ op.fields = [(stateField, op.payload), (.liveness, live)] := by
  cases hop with
  | tabUpdated => exact Or.inl ⟨rfl, rfl⟩
  | groupUpdated => exact Or.inr ⟨rfl, rfl⟩
  | tabActivated => exact absurd htype (by simp [activation])
  | windowCreated | tabCreated => exact absurd htype (by simp)
  | windowRemoved | tabRemoved | groupRemoved => exact absurd htype (by simp [removal])

/-- Groups are not closed. -/
theorem objectType_of_close (hop : Staged op) (htype : op.operationType = .close) :
    op.objectType ≠ .tabGroup := by
  cases hop with
  | windowRemoved | tabRemoved => simp [removal]
  | groupRemoved => exact absurd htype (by simp [removal])
  | tabActivated => exact absurd htype (by simp [activation])
  | groupUpdated id payload recorded => cases recorded <;> exact absurd htype (by simp)
  | windowCreated | tabCreated | tabUpdated => exact absurd htype (by simp)

/-- An activation writes neither the liveness nor the state. -/
theorem writes_of_activate (hop : Staged op) (htype : op.operationType = .activate) {field : Field}
    (hfield : field ≠ activeField) : op.writes (objectId, field) = none := by
  simp [StagedTabOp.writes, fields_of_activate hop htype, Ne.symm hfield]

theorem isSome_writes_state (hop : Staged op) (htype : op.operationType = .update) :
    (op.writes (op.objectId, stateField)).isSome = true := by
  rcases fields_of_update hop htype with ⟨-, hfields⟩ | ⟨-, hfields⟩
  · simp [StagedTabOp.writes, hfields]
  · simp [StagedTabOp.writes, hfields]

/-- An update writes the liveness if it is one of a group. -/
theorem isSome_writes_liveness_iff (hop : Staged op) (htype : op.operationType = .update) :
    (op.writes (op.objectId, .liveness)).isSome = true ↔ op.objectType = .tabGroup := by
  rcases fields_of_update hop htype with ⟨htab, hfields⟩ | ⟨hgroup, hfields⟩
  · simp [StagedTabOp.writes, hfields, htab]
  · simp [StagedTabOp.writes, hfields, hgroup]

/-! ### The pass from the end -/

/-- **One operation of the pass** is kept, or it is an update or an activation and its object is
to be discarded. -/
theorem coalesceStep_cases (op : StagedTabOp) (pass : CoalescePass) :
    (coalesceStep op pass).result = op :: pass.result ∨
      coalesceStep op pass = pass ∧
        (op.operationType = .update ∧ op.objectId ∈ pass.discardEarlierUpdate ∨
          op.operationType = .activate ∧ op.objectId ∈ pass.discardEarlierActivate) := by
  unfold coalesceStep
  split
  · exact Or.inl rfl
  · rename_i htype
    split_ifs with hmem
    · exact Or.inr ⟨rfl, Or.inl ⟨htype, hmem⟩⟩
    · exact Or.inl rfl
  · rename_i htype
    split_ifs with hmem
    · exact Or.inr ⟨rfl, Or.inr ⟨htype, hmem⟩⟩
    · exact Or.inl rfl
  · exact Or.inl rfl

/-- What is to be discarded has a later operation that overtakes it. -/
theorem exists_of_mem_discard (ops : List StagedTabOp) :
    (∀ objectId ∈ (coalescePass ops).discardEarlierUpdate, ∃ op ∈ ops, op.objectId = objectId ∧
        (op.operationType = .close ∨ op.operationType = .update)) ∧
      ∀ objectId ∈ (coalescePass ops).discardEarlierActivate, ∃ op ∈ ops, op.objectId = objectId ∧
        (op.operationType = .close ∨ op.operationType = .activate) := by
  induction ops with
  | nil => exact ⟨fun _ h => absurd h List.not_mem_nil, fun _ h => absurd h List.not_mem_nil⟩
  | cons op rest ih =>
    obtain ⟨hupdate, hactivate⟩ := ih
    -- An object was to be discarded before, or the operation adds it.
    have hlater : ∀ {p : StagedTabOp → Prop}, (∃ op ∈ rest, p op) → ∃ op' ∈ op :: rest, p op' :=
      fun ⟨op', hop', hp⟩ => ⟨op', List.mem_cons_of_mem _ hop', hp⟩
    have hnow : ∀ {p : StagedTabOp → Prop}, p op → ∃ op' ∈ op :: rest, p op' :=
      fun hp => ⟨op, List.mem_cons_self, hp⟩
    rw [coalescePass, List.foldr_cons, ← coalescePass, coalesceStep]
    split
    · rename_i htype
      constructor
      · rintro objectId hmem
        rcases List.mem_cons.mp hmem with rfl | hmem
        · exact hnow ⟨rfl, Or.inl htype⟩
        · exact hlater (hupdate objectId hmem)
      · rintro objectId hmem
        rcases List.mem_cons.mp hmem with rfl | hmem
        · exact hnow ⟨rfl, Or.inl htype⟩
        · exact hlater (hactivate objectId hmem)
    · rename_i htype
      refine ⟨fun objectId hmem => ?_, fun objectId hmem => hlater (hactivate objectId ?_)⟩
      · split_ifs at hmem with hdiscard
        · exact hlater (hupdate objectId hmem)
        · rcases List.mem_cons.mp hmem with rfl | hmem
          · exact hnow ⟨rfl, Or.inr htype⟩
          · exact hlater (hupdate objectId hmem)
      · split_ifs at hmem <;> exact hmem
    · rename_i htype
      refine ⟨fun objectId hmem => hlater (hupdate objectId ?_), fun objectId hmem => ?_⟩
      · split_ifs at hmem <;> exact hmem
      · split_ifs at hmem with hdiscard
        · exact hlater (hactivate objectId hmem)
        · rcases List.mem_cons.mp hmem with rfl | hmem
          · exact hnow ⟨rfl, Or.inr htype⟩
          · exact hlater (hactivate objectId hmem)
    · exact ⟨fun objectId hmem => hlater (hupdate objectId hmem),
        fun objectId hmem => hlater (hactivate objectId hmem)⟩

/-- A pass goes on from what is behind. -/
theorem coalescePass_cons (op : StagedTabOp) (rest : List StagedTabOp) :
    coalescePass (op :: rest) = coalesceStep op (coalescePass rest) := rfl

theorem coalescePass_sublist (ops : List StagedTabOp) : (coalescePass ops).result.Sublist ops := by
  induction ops with
  | nil => exact List.Sublist.refl _
  | cons op rest ih =>
    rw [coalescePass_cons]
    rcases coalesceStep_cases op (coalescePass rest) with hkeep | ⟨hdrop, -⟩
    · rw [hkeep]
      exact ih.cons_cons op
    · rw [hdrop]
      exact ih.cons op

/-- **Every slot** keeps what was written to it last, if a dropped update that writes it is
followed by another write. -/
theorem thins_coalescePass (hstaged : ∀ op ∈ ops, Staged op) {field : Field}
    (hfield : field ≠ activeField)
    (hupdate : ∀ before op after, ops = before ++ op :: after → op.operationType = .update →
      op.objectId = objectId → (op.writes (objectId, field)).isSome = true →
      (∃ later ∈ after, later.objectId = objectId ∧
        (later.operationType = .close ∨ later.operationType = .update)) →
      (last StagedTabOp.writes (objectId, field) after).isSome = true) :
    Thins StagedTabOp.writes (objectId, field) (coalescePass ops).result ops := by
  induction ops with
  | nil => exact .nil
  | cons op rest ih =>
    have hrest := ih (fun later hlater => hstaged later (List.mem_cons_of_mem _ hlater))
      fun before op' after hsplit => hupdate (op :: before) op' after (by rw [hsplit]; rfl)
    rw [coalescePass_cons]
    rcases coalesceStep_cases op (coalescePass rest) with hkeep | ⟨hdrop, hreason⟩
    · rw [hkeep]
      exact .keep op hrest
    · rw [hdrop]
      refine .drop hrest ?_
      rcases hreason with ⟨htype, hmem⟩ | ⟨htype, -⟩
      · rcases hwrites : op.writes (objectId, field) with _ | value
        · exact Or.inl rfl
        · have hid : op.objectId = objectId := by
            by_contra hne
            rw [writes_eq_none hne] at hwrites
            exact absurd hwrites nofun
          refine Or.inr (hupdate [] op rest rfl htype hid (by rw [hwrites]; rfl) ?_)
          exact (exists_of_mem_discard rest).1 objectId (hid ▸ hmem)
      · exact Or.inl (writes_of_activate (hstaged op List.mem_cons_self) htype hfield)

/-! ### The filter per window -/

/-- The last activation of a window is not changed by what follows, if none of it activates a
tab of the window. -/
theorem lastActivate_foldl {last : ℤ → Option ℕ}
    (hnone : ∀ op ∈ ops, ¬(op.operationType = .activate ∧ op.windowId = some windowId)) (n : ℕ) :
    (ops.zipIdx n).foldl
      (fun last entry =>
        if entry.1.operationType = .activate then
          match entry.1.windowId with
          | some windowId => Function.update last windowId (some entry.2)
          | none => last
        else last) last windowId = last windowId := by
  induction ops generalizing n last with
  | nil => rfl
  | cons op rest ih =>
    rw [List.zipIdx_cons, List.foldl_cons,
      ih fun later hlater => hnone later (List.mem_cons_of_mem _ hlater)]
    have hop := hnone op List.mem_cons_self
    split_ifs with hactivate
    · split
      · rename_i other hother
        refine Function.update_of_ne (fun heq => hop ⟨hactivate, ?_⟩) _ _
        rw [heq, hother]
      · rfl
    · rfl

theorem lastActivateIdxByWindow_eq (hactivate : op.operationType = .activate)
    (hwindow : op.windowId = some windowId)
    (hlast : ∀ later ∈ after, ¬(later.operationType = .activate ∧ later.windowId = some windowId)) :
    lastActivateIdxByWindow (before ++ op :: after) windowId = some before.length := by
  rw [lastActivateIdxByWindow, List.zipIdx_append, List.foldl_append, List.zipIdx_cons,
    List.foldl_cons, lastActivate_foldl hlast, if_pos hactivate]
  simp [hwindow]

theorem filter_zipIdx_sublist (p : StagedTabOp × ℕ → Bool) (ops : List StagedTabOp) (n : ℕ) :
    (((ops.zipIdx n).filter p).map Prod.fst).Sublist ops := by
  have hfilter : ((ops.zipIdx n).filter p).Sublist (ops.zipIdx n) := List.filter_sublist
  have hmap := hfilter.map Prod.fst
  rwa [List.zipIdx_map_fst] at hmap

theorem windowFiltered_sublist (staged : List StagedTabOp) :
    (windowFiltered staged).Sublist staged := filter_zipIdx_sublist _ staged 0

/-- **The last activation of a window** is kept in its place. -/
theorem windowFiltered_split (before : List StagedTabOp)
    (hactivate : op.operationType = .activate)
    (hwindow : op.windowId = some windowId)
    (hlast : ∀ later ∈ after, ¬(later.operationType = .activate ∧ later.windowId = some windowId)) :
    ∃ keptBefore keptAfter, windowFiltered (before ++ op :: after) = keptBefore ++ op :: keptAfter ∧
      keptBefore.Sublist before ∧ keptAfter.Sublist after := by
  have hkept : keptForWindow (lastActivateIdxByWindow (before ++ op :: after))
      (op, 0 + before.length) = true := by
    simp [keptForWindow, hwindow, lastActivateIdxByWindow_eq hactivate hwindow hlast]
  rw [windowFiltered, List.zipIdx_append, List.filter_append, List.zipIdx_cons,
    List.filter_cons_of_pos hkept, List.map_append, List.map_cons]
  exact ⟨_, _, rfl, filter_zipIdx_sublist _ _ _, filter_zipIdx_sublist _ _ _⟩

/-- The filter leaves out activations only. -/
theorem operationType_of_not_keptForWindow {last : ℤ → Option ℕ} {entry : StagedTabOp × ℕ}
    (h : keptForWindow last entry = false) : entry.1.operationType = .activate := by
  rw [keptForWindow, Bool.or_eq_false_iff] at h
  simpa using h.1

theorem thins_windowFiltered (hstaged : ∀ op ∈ staged, Staged op) {field : Field}
    (hfield : field ≠ activeField) :
    Thins StagedTabOp.writes (objectId, field) (windowFiltered staged) staged :=
  thins_filter_zipIdx (fun op hop _ hdrop =>
    writes_of_activate (hstaged op hop) (operationType_of_not_keptForWindow hdrop) hfield) 0

/-! ### What coalescing keeps -/

/-- An operation that is never dropped. -/
def isLasting (op : StagedTabOp) : Bool :=
  op.operationType != .update && op.operationType != .activate

theorem filter_isLasting_coalescePass (ops : List StagedTabOp) :
    (coalescePass ops).result.filter isLasting = ops.filter isLasting := by
  induction ops with
  | nil => rfl
  | cons op rest ih =>
    rw [coalescePass_cons]
    rcases coalesceStep_cases op (coalescePass rest) with hkeep | ⟨hdrop, hreason⟩
    · rw [hkeep, List.filter_cons, List.filter_cons, ih]
    · have hop : ¬isLasting op = true := by
        rcases hreason with ⟨htype, -⟩ | ⟨htype, -⟩ <;> simp [isLasting, htype]
      rw [hdrop, List.filter_cons_of_neg hop, ih]

theorem filter_isLasting_windowFiltered (staged : List StagedTabOp) :
    (windowFiltered staged).filter isLasting = staged.filter isLasting := by
  have hindexed : ∀ (last : ℤ → Option ℕ) (ops : List StagedTabOp) (n : ℕ),
      (((ops.zipIdx n).filter (keptForWindow last)).map Prod.fst).filter isLasting =
        ops.filter isLasting := by
    intro last ops
    induction ops with
    | nil => exact fun _ => rfl
    | cons op rest ih =>
      intro n
      rw [List.zipIdx_cons]
      rcases hkept : keptForWindow last (op, n) with _ | _
      · have hop : ¬isLasting op = true := by
          have htype : op.operationType = .activate := operationType_of_not_keptForWindow hkept
          simp [isLasting, htype]
        rw [List.filter_cons_of_neg (by simp [hkept]), ih, List.filter_cons_of_neg hop]
      · rw [List.filter_cons_of_pos hkept, List.map_cons, List.filter_cons, List.filter_cons, ih]
  exact hindexed _ staged 0

/-- An activation is kept unless its object is closed or activated again later. -/
theorem coalescePass_split (keptBefore : List StagedTabOp) {keptAfter : List StagedTabOp}
    (hactivate : op.operationType = .activate)
    (hlater : ∀ later ∈ keptAfter, later.objectId = op.objectId →
      later.operationType ≠ .close ∧ later.operationType ≠ .activate) :
    ∃ before after, (coalescePass (keptBefore ++ op :: keptAfter)).result = before ++ op :: after ∧
      before.Sublist keptBefore ∧ after.Sublist keptAfter := by
  induction keptBefore with
  | nil =>
    refine ⟨[], (coalescePass keptAfter).result, ?_, List.Sublist.refl _,
      coalescePass_sublist keptAfter⟩
    rw [List.nil_append, coalescePass_cons]
    rcases coalesceStep_cases op (coalescePass keptAfter) with hkeep | ⟨-, hreason⟩
    · exact hkeep
    · rcases hreason with ⟨htype, -⟩ | ⟨-, hmem⟩
      · exact absurd (hactivate.symm.trans htype) nofun
      · obtain ⟨later, hmem, hid, htype⟩ := (exists_of_mem_discard keptAfter).2 _ hmem
        rcases htype with htype | htype
        · exact absurd htype (hlater later hmem hid).1
        · exact absurd htype (hlater later hmem hid).2
  | cons first rest ih =>
    obtain ⟨before, after, hresult, hbefore, hafter⟩ := ih
    rw [List.cons_append, coalescePass_cons]
    rcases coalesceStep_cases first (coalescePass (rest ++ op :: keptAfter)) with hkeep | ⟨hdrop, -⟩
    · exact ⟨first :: before, after, by rw [hkeep, hresult]; rfl, hbefore.cons_cons first, hafter⟩
    · exact ⟨before, after, by rw [hdrop, hresult], hbefore.cons first, hafter⟩

/-- What is left writes the same last. -/
theorem last_coalesceStagedOps (hstaged : ∀ op ∈ staged, Staged op) {field : Field}
    (hfield : field ≠ activeField)
    (hupdate : ∀ before op after, windowFiltered staged = before ++ op :: after →
      op.operationType = .update → op.objectId = objectId →
      (op.writes (objectId, field)).isSome = true →
      (∃ later ∈ after, later.objectId = objectId ∧
        (later.operationType = .close ∨ later.operationType = .update)) →
      (last StagedTabOp.writes (objectId, field) after).isSome = true) :
    last StagedTabOp.writes (objectId, field) (coalesceStagedOps staged) =
      last StagedTabOp.writes (objectId, field) staged := by
  have hfiltered : ∀ op ∈ windowFiltered staged, Staged op :=
    fun op hop => hstaged op ((windowFiltered_sublist staged).subset hop)
  exact (thins_coalescePass hfiltered hfield hupdate).last_eq.trans
    (thins_windowFiltered hstaged hfield).last_eq

/-- The liveness of every object is the same: what a dropped update of a group writes, a later one
writes too. -/
theorem last_liveness_coalesceStagedOps (hstaged : ∀ op ∈ staged, Staged op)
    (htypes : ∀ op ∈ staged, op.objectType = typeOf op.objectId) (objectId : Uuid) :
    last StagedTabOp.writes (objectId, .liveness) (coalesceStagedOps staged) =
      last StagedTabOp.writes (objectId, .liveness) staged := by
  refine last_coalesceStagedOps hstaged nofun ?_
  rintro before op after hsplit htype rfl hwrites ⟨later, hlater, hid, hlaterType⟩
  have hsub : ∀ other ∈ op :: after, other ∈ staged := fun other hother =>
    (windowFiltered_sublist staged).subset (hsplit ▸ List.mem_append_right before hother)
  have hop := hsub op List.mem_cons_self
  have hmem := hsub later (List.mem_cons_of_mem _ hlater)
  have hgroup := (isSome_writes_liveness_iff (hstaged op hop) htype).mp hwrites
  have hlaterGroup : later.objectType = .tabGroup := by
    rw [htypes later hmem, hid, ← htypes op hop, hgroup]
  rcases hlaterType with hclose | hlaterUpdate
  · exact absurd hlaterGroup (objectType_of_close (hstaged later hmem) hclose)
  · refine isSome_last hlater ?_
    rw [← hid]
    exact (isSome_writes_liveness_iff (hstaged later hmem) hlaterUpdate).mpr hlaterGroup

/-- An object that is closed after its last state in a thinned-out list is so in the whole. -/
theorem ClosedAfterLastState.of_thins
    (hthins : Thins StagedTabOp.writes (objectId, stateField) ops staged)
    (h : ClosedAfterLastState objectId ops) : ClosedAfterLastState objectId staged := by
  have hlater : ∀ {op : StagedTabOp} {ops : List StagedTabOp}, ClosedAfterLastState objectId ops →
      ClosedAfterLastState objectId (op :: ops) := by
    rintro op ops ⟨before, write, after, rfl, hrest⟩
    exact ⟨op :: before, write, after, rfl, hrest⟩
  induction hthins with
  | nil => exact h
  | @keep kept rest op hthins ih =>
    obtain ⟨before, write, after, hsplit, hwrite, hnone, close, hclose, htype⟩ := h
    rcases before with _ | ⟨first, before⟩
    · obtain ⟨rfl, rfl⟩ := List.cons.inj hsplit
      refine ⟨[], op, rest, rfl, hwrite, ?_, close, hthins.sublist.subset hclose, htype⟩
      rw [← last_eq_none_iff, ← hthins.last_eq, last_eq_none_iff]
      exact hnone
    · obtain ⟨-, rfl⟩ := List.cons.inj hsplit
      exact hlater (ih ⟨before, write, after, rfl, hwrite, hnone, close, hclose, htype⟩)
  | drop _ _ ih => exact hlater (ih h)

/-- The state of an object is the same, unless it is closed after it was written. -/
theorem last_state_coalesceStagedOps (hstaged : ∀ op ∈ staged, Staged op)
    (hopen : ¬ClosedAfterLastState objectId staged) :
    last StagedTabOp.writes (objectId, stateField) (coalesceStagedOps staged) =
      last StagedTabOp.writes (objectId, stateField) staged := by
  refine last_coalesceStagedOps hstaged (by decide) ?_
  rintro before op after hsplit htype rfl hwrites ⟨later, hlater, hid, hlaterType⟩
  have hmem : later ∈ staged := (windowFiltered_sublist staged).subset
    (hsplit ▸ List.mem_append_right before (List.mem_cons_of_mem _ hlater))
  by_contra hnone
  rw [Option.not_isSome_iff_eq_none, last_eq_none_iff] at hnone
  rcases hlaterType with hclose | hupdate
  · refine hopen (ClosedAfterLastState.of_thins (thins_windowFiltered hstaged (by decide)) ?_)
    exact ⟨before, op, after, hsplit, hwrites, hnone, later, hlater, hclose, hid⟩
  · have hsome := isSome_writes_state (hstaged later hmem) hupdate
    rw [hid, hnone later hlater] at hsome
    exact absurd hsome nofun

/-- **Coalescing keeps the meaning** of the staged operations. What is left is a part of them in
their order, with every one that is neither an update nor an activation. A replay of it gives
every object the same liveness, and the same state unless the object is closed after its state
was last written. And the last activation staged for a window is kept, in its place, unless its
tab is closed or activated again later. -/
theorem coalesceStagedOps_correct (hstaged : ∀ op ∈ staged, Staged op)
    (htypes : ∀ op ∈ staged, op.objectType = typeOf op.objectId) :
    (coalesceStagedOps staged).Sublist staged ∧
      (coalesceStagedOps staged).filter isLasting = staged.filter isLasting ∧
      (∀ slots objectId, replay slots (coalesceStagedOps staged) (objectId, .liveness) =
        replay slots staged (objectId, .liveness)) ∧
      (∀ slots objectId, ¬ClosedAfterLastState objectId staged →
        replay slots (coalesceStagedOps staged) (objectId, stateField) =
          replay slots staged (objectId, stateField)) ∧
      ∀ before op after windowId, staged = before ++ op :: after →
        op.operationType = .activate → op.windowId = some windowId →
        (∀ later ∈ after, ¬(later.operationType = .activate ∧ later.windowId = some windowId)) →
        (∀ later ∈ after, later.objectId = op.objectId →
          later.operationType ≠ .close ∧ later.operationType ≠ .activate) →
        ∃ keptBefore keptAfter, coalesceStagedOps staged = keptBefore ++ op :: keptAfter ∧
          keptBefore.Sublist before ∧ keptAfter.Sublist after := by
  refine ⟨?_, ?_, ?_, ?_, ?_⟩
  · exact (coalescePass_sublist _).trans (windowFiltered_sublist staged)
  · rw [coalesceStagedOps, filter_isLasting_coalescePass, filter_isLasting_windowFiltered]
  · intro slots objectId
    rw [replay_apply, replay_apply, last_liveness_coalesceStagedOps hstaged htypes]
  · intro slots objectId hopen
    rw [replay_apply, replay_apply, last_state_coalesceStagedOps hstaged hopen]
  · rintro before op after windowId rfl hactivate hwindow hlast hlater
    obtain ⟨filteredBefore, filteredAfter, hfiltered, hsubBefore, hsubAfter⟩ :=
      windowFiltered_split before hactivate hwindow hlast
    obtain ⟨keptBefore, keptAfter, hkept, hkeptBefore, hkeptAfter⟩ :=
      coalescePass_split filteredBefore hactivate
        fun later hmem => hlater later (hsubAfter.subset hmem)
    exact ⟨keptBefore, keptAfter, by rw [coalesceStagedOps, hfiltered, hkept],
      hkeptBefore.trans hsubBefore, hkeptAfter.trans hsubAfter⟩

/-- Two tabs take turns in a window, and the first is closed. -/
def stagedTurns : List StagedTabOp :=
  [activation 7 1, ⟨.tab, 7, .update, .string "a", [(stateField, .string "a")], false, none⟩,
    activation 8 1, activation 7 1, removal .tab 7 .close]

/-- The closed tab is closed in the replay of what is left. -/
theorem coalesceStagedOps_correct_stagedTurns :
    replay (fun _ => none) (coalesceStagedOps stagedTurns) (7, .liveness) = some deleted := by
  have hstaged : ∀ op ∈ stagedTurns, Staged op := by
    simp only [stagedTurns, List.forall_mem_cons]
    exact ⟨.tabActivated 7 1, .tabUpdated 7 (.string "a") false, .tabActivated 8 1, .tabActivated 7 1,
      .tabRemoved 7, fun op hop => absurd hop List.not_mem_nil⟩
  have htypes : ∀ op ∈ stagedTurns, op.objectType = .tab := by
    simp [stagedTurns, activation, removal]
  exact ((@coalesceStagedOps_correct (fun _ => .tab) _ hstaged htypes).2.2.1 _ 7).trans rfl

end Client

end HelixSync
