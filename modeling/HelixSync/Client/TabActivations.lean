import HelixSync.Client.StagedTabOps
import HelixSync.Lib.Runs

/-!
# Reporting the active tab

The capture of activations (`extension/src/tabs/index.ts`). The listener of `onActivated` drops
an event for the tab it heard of last, and puts the others into the queue of the flush. A flush
creates an operation for a tab unless the `active` slot of its object is `true`, and then sets
that slot; of several new activations of a window in one flush the last is kept.

Nothing ever clears an `active` slot, so an object has at most one operation of its own in a
run: a tab that is activated again after another tab of its window is not reported again, and
the most recent operation of the window keeps naming the other one. What is reported is right
as long as the tab last activated in a window is one that the flush finds unrecorded, or the one
the last operation of the window named (`HelixSync.Client.Activations.reports_iff`).

Capture is switched on throughout; a flush ends before the next one begins.
-/

namespace HelixSync

namespace Client

open LastWrites

/-! ### The capture -/

/-- `TabActiveInfo`. -/
structure TabActiveInfo where
  tabId : ℕ
  windowId : ℤ
  deriving DecidableEq

/-- `current === true`. -/
def readsTrue : Option Json → Bool
  | some (.bool true) => true
  | _ => false

/-- What the capture of activations keeps: `lastActiveTabId`, the queue and the slots; the
activate operations created, each with its window; and the tab last activated in each window. -/
structure Activations where
  lastActiveTabId : Option ℕ
  queue : List TabActiveInfo
  slots : TabSlots
  created : List (ℤ × Uuid)
  lastActivated : ℤ → Option ℕ

namespace Activations

variable (objectOf : ℕ → Option Uuid) (s : Activations)

/-- A capture that has heard of nothing since the worker started, or since `lastActiveTabId` was
set. -/
def start (lastActiveTabId : Option ℕ) (slots : TabSlots) : Activations :=
  ⟨lastActiveTabId, [], slots, [], fun _ => none⟩

/-- The listener of `chrome.tabs.onActivated`. -/
def onActivated (info : TabActiveInfo) : Activations :=
  let s := { s with lastActivated := Function.update s.lastActivated info.windowId (some info.tabId) }
  if some info.tabId = s.lastActiveTabId then s
  else { s with lastActiveTabId := some info.tabId, queue := s.queue ++ [info] }

/-- `stageTabActivated`: the overlay of the flush, and what is staged. `objectOf` is
`cachedLookupObjectId`. -/
def stageTabActivated (overlay : TabSlots) (info : TabActiveInfo) : TabSlots × Option StagedTabOp :=
  match objectOf info.tabId with
  | none => (overlay, none)
  | some objectId =>
    if readsTrue (overlay (objectId, activeField)) then (overlay, none)
    else (Function.update overlay (objectId, activeField) (some (.bool true)),
      some (activation objectId info.windowId))

/-- The loop of `flushTabEvents` over the events. -/
def stageEvents : TabSlots → List TabActiveInfo → List StagedTabOp
  | _, [] => []
  | overlay, info :: infos =>
    let (overlay, op) := stageTabActivated objectOf overlay info
    op.toList ++ stageEvents overlay infos

/-- `flushLoneActivation`. -/
def flushLoneActivation (info : TabActiveInfo) : Activations :=
  match objectOf info.tabId with
  | none => s
  | some objectId =>
    if readsTrue (s.slots (objectId, activeField)) then s
    else { s with
      slots := Function.update s.slots (objectId, activeField) (some (.bool true))
      created := s.created ++ [(info.windowId, objectId)] }

/-- The activations among some operations, with their windows. -/
def activationsIn (ops : List StagedTabOp) : List (ℤ × Uuid) :=
  ops.filterMap fun op => op.windowId.map fun windowId => (windowId, op.objectId)

/-- `flushTabEvents`, for activations. The overlay starts with the stored slots. -/
def flushTabEvents : List TabActiveInfo → Activations
  | [info] => s.flushLoneActivation objectOf info
  | infos =>
    let coalesced := coalesceStagedOps (stageEvents objectOf s.slots infos)
    { s with
      slots := replay s.slots coalesced
      created := s.created ++ activationsIn coalesced }

/-- The queue is flushed. -/
def flush : Activations := { s.flushTabEvents objectOf s.queue with queue := [] }

/-- Some tabs are activated one after the other, and then the queue is flushed. -/
def step (infos : List TabActiveInfo) : Activations := (infos.foldl onActivated s).flush objectOf

/-- The object that the last of some operations names, among those of a window. -/
def lastOf (windowId : ℤ) (created : List (ℤ × Uuid)) : Option Uuid :=
  last (fun op windowId => if op.1 = windowId then some op.2 else none) windowId created

/-- The object the most recent operation of a window names. -/
def mostRecent (windowId : ℤ) : Option Uuid := lastOf windowId s.created

/-- **What is asked**: the most recent operation of each window names the tab last activated in
it, if that is mapped. -/
def Reports : Prop :=
  ∀ windowId tabId objectId, s.lastActivated windowId = some tabId → objectOf tabId = some objectId →
    s.mostRecent windowId = some objectId

/-! ### The condition on a flush -/

/-- The events the listener does not drop. -/
def heard : Option ℕ → List TabActiveInfo → List TabActiveInfo
  | _, [] => []
  | lastActiveTabId, info :: infos =>
    if some info.tabId = lastActiveTabId then heard lastActiveTabId infos
    else info :: heard (some info.tabId) infos

/-- The event at a place is the first of its tab's object, which is not recorded as active. -/
structure IsNew (slots : TabSlots) (infos : List TabActiveInfo) (i : ℕ) (info : TabActiveInfo)
    (objectId : Uuid) : Prop where
  get : infos[i]? = some info
  object : objectOf info.tabId = some objectId
  unrecorded : readsTrue (slots (objectId, activeField)) = false
  first : ∀ j < i, ∀ other ∈ infos[j]?, objectOf other.tabId ≠ some objectId

/-- No event of a window after a place is new. -/
def NoneNewFrom (slots : TabSlots) (infos : List TabActiveInfo) (windowId : ℤ) (i : ℕ) : Prop :=
  ∀ j info objectId, i ≤ j → IsNew objectOf slots infos j info objectId → info.windowId ≠ windowId

/-- The condition on a flush: for each window with an event, if the tab last activated in it is
mapped, then either the last new event of the window is one for its object, or the window has no
new event and its most recent operation names that object already. -/
def Tells (infos : List TabActiveInfo) : Prop :=
  ∀ windowId info objectId,
    (infos.filter fun info => info.windowId = windowId).getLast? = some info →
    objectOf info.tabId = some objectId →
      (∃ i first, IsNew objectOf s.slots (heard s.lastActiveTabId infos) i first objectId ∧
        first.windowId = windowId ∧
        NoneNewFrom objectOf s.slots (heard s.lastActiveTabId infos) windowId (i + 1)) ∨
      NoneNewFrom objectOf s.slots (heard s.lastActiveTabId infos) windowId 0 ∧
        s.mostRecent windowId = some objectId

variable {objectOf s} {slots overlay : TabSlots} {info : TabActiveInfo} {infos : List TabActiveInfo}
  {windowId : ℤ} {objectId : Uuid} {last? : Option ℕ} {i : ℕ}

/-! ### Listening -/

/-- **The listener** queues what it hears, and the tabs last activated are those of the events. -/
theorem foldl_onActivated (s : Activations) (infos : List TabActiveInfo) :
    (infos.foldl onActivated s).queue = s.queue ++ heard s.lastActiveTabId infos ∧
      (infos.foldl onActivated s).slots = s.slots ∧
      (infos.foldl onActivated s).created = s.created ∧
      ∀ windowId, (infos.foldl onActivated s).lastActivated windowId =
        ((infos.filter fun info => info.windowId = windowId).getLast?.map TabActiveInfo.tabId).or
          (s.lastActivated windowId) := by
  induction infos generalizing s with
  | nil => exact ⟨(List.append_nil _).symm, rfl, rfl, fun _ => rfl⟩
  | cons info infos ih =>
    obtain ⟨hqueue, hslots, hcreated, hlast⟩ := ih (s.onActivated info)
    have hlater : (s.onActivated info).lastActivated =
        Function.update s.lastActivated info.windowId (some info.tabId) := by
      rw [onActivated]
      split <;> rfl
    refine ⟨?_, ?_, ?_, fun windowId => ?_⟩
    · rw [List.foldl_cons, hqueue, heard, onActivated]
      dsimp only
      split_ifs with hrepeat
      · rfl
      · rw [List.append_assoc, List.singleton_append]
    · rw [List.foldl_cons, hslots, onActivated]
      dsimp only
      split <;> rfl
    · rw [List.foldl_cons, hcreated, onActivated]
      dsimp only
      split <;> rfl
    · rw [List.foldl_cons, hlast, hlater, List.filter_cons]
      by_cases hwindow : info.windowId = windowId
      · rw [if_pos (by simpa using hwindow), List.getLast?_cons, ← hwindow, Function.update_self]
        generalize (infos.filter fun other => decide (other.windowId = info.windowId)).getLast? = later
        cases later <;> rfl
      · rw [if_neg (by simpa using hwindow), Function.update_of_ne (Ne.symm hwindow)]

/-! ### Staging -/

theorem stageEvents_of_unmapped (h : objectOf info.tabId = none) :
    stageEvents objectOf overlay (info :: infos) = stageEvents objectOf overlay infos := by
  simp [stageEvents, stageTabActivated, h]

theorem stageEvents_of_recorded (h : objectOf info.tabId = some objectId)
    (hrecorded : readsTrue (overlay (objectId, activeField)) = true) :
    stageEvents objectOf overlay (info :: infos) = stageEvents objectOf overlay infos := by
  simp [stageEvents, stageTabActivated, h, hrecorded]

theorem stageEvents_of_unrecorded (h : objectOf info.tabId = some objectId)
    (hunrecorded : readsTrue (overlay (objectId, activeField)) = false) :
    stageEvents objectOf overlay (info :: infos) = activation objectId info.windowId ::
      stageEvents objectOf
        (Function.update overlay (objectId, activeField) (some (.bool true))) infos := by
  simp [stageEvents, stageTabActivated, h, hunrecorded]

/-- An object that is recorded stays so in the overlay. -/
theorem readsTrue_update {other : Uuid} (h : readsTrue (overlay (other, activeField)) = true) :
    readsTrue (Function.update overlay (objectId, activeField) (some (.bool true))
      (other, activeField)) = true := by
  rw [Function.update_apply]
  split
  · rfl
  · exact h

theorem readsTrue_update_of_ne {other : Uuid} (hne : other ≠ objectId) :
    readsTrue (Function.update overlay (objectId, activeField) (some (.bool true))
      (other, activeField)) = readsTrue (overlay (other, activeField)) := by
  rw [Function.update_of_ne]
  exact fun heq => hne (congrArg Prod.fst heq)

/-- **What is staged** are activations of unrecorded objects, one for each. -/
theorem stageEvents_spec (objectOf : ℕ → Option Uuid) (infos : List TabActiveInfo) :
    ∀ overlay : TabSlots, (∀ op ∈ stageEvents objectOf overlay infos,
        (∃ windowId, op = activation op.objectId windowId) ∧
          readsTrue (overlay (op.objectId, activeField)) = false) ∧
      ((stageEvents objectOf overlay infos).map StagedTabOp.objectId).Nodup := by
  induction infos with
  | nil => exact fun overlay => ⟨fun op hop => absurd hop List.not_mem_nil, List.nodup_nil⟩
  | cons info infos ih =>
    intro overlay
    rcases hobject : objectOf info.tabId with _ | objectId
    · rw [stageEvents_of_unmapped hobject]
      exact ih overlay
    rcases hrecorded : readsTrue (overlay (objectId, activeField)) with _ | _
    · rw [stageEvents_of_unrecorded hobject hrecorded]
      obtain ⟨hops, hnodup⟩ := ih (Function.update overlay (objectId, activeField) (some (.bool true)))
      constructor
      · rintro op hop
        rcases List.mem_cons.mp hop with rfl | hop
        · exact ⟨⟨info.windowId, rfl⟩, hrecorded⟩
        · obtain ⟨hform, hunrecorded⟩ := hops op hop
          refine ⟨hform, Bool.eq_false_iff.mpr fun htrue => ?_⟩
          rw [readsTrue_update htrue] at hunrecorded
          cases hunrecorded
      · rw [List.map_cons]
        refine List.nodup_cons.mpr ⟨fun hmem => ?_, hnodup⟩
        obtain ⟨op, hop, hid⟩ := List.mem_map.mp hmem
        obtain ⟨-, hunrecorded⟩ := hops op hop
        rw [hid, activation, Function.update_self] at hunrecorded
        cases hunrecorded
    · rw [stageEvents_of_recorded hobject hrecorded]
      exact ih overlay

/-! ### New events -/

theorem isNew_zero_iff {other : TabActiveInfo} :
    IsNew objectOf slots (info :: infos) 0 other objectId ↔ info = other ∧
      objectOf info.tabId = some objectId ∧ readsTrue (slots (objectId, activeField)) = false := by
  constructor
  · rintro ⟨hget, hobject, hunrecorded, -⟩
    obtain rfl : info = other := by simpa using hget
    exact ⟨rfl, hobject, hunrecorded⟩
  · rintro ⟨rfl, hobject, hunrecorded⟩
    exact ⟨rfl, hobject, hunrecorded, fun j hj => absurd hj (Nat.not_lt_zero j)⟩

/-- Behind an event that stages nothing the same events are new. -/
theorem isNew_succ_iff_of_idle {other : TabActiveInfo}
    (hidle : ∀ id, objectOf info.tabId = some id → readsTrue (slots (id, activeField)) = true) :
    IsNew objectOf slots (info :: infos) (i + 1) other objectId ↔
      IsNew objectOf slots infos i other objectId := by
  constructor
  · rintro ⟨hget, hobject, hunrecorded, hfirst⟩
    exact ⟨hget, hobject, hunrecorded, fun j hj => hfirst (j + 1) (Nat.succ_lt_succ hj)⟩
  · rintro ⟨hget, hobject, hunrecorded, hfirst⟩
    refine ⟨hget, hobject, hunrecorded, fun j hj => ?_⟩
    rcases j with _ | j
    · rintro _ ⟨⟩ hsame
      rw [hidle objectId hsame] at hunrecorded
      exact absurd hunrecorded nofun
    · exact hfirst j (Nat.lt_of_succ_lt_succ hj)

/-- Behind a new event those are new that are so once its object is recorded. -/
theorem isNew_succ_iff_of_new {other : TabActiveInfo} {id : Uuid}
    (hid : objectOf info.tabId = some id) :
    IsNew objectOf slots (info :: infos) (i + 1) other objectId ↔
      IsNew objectOf (Function.update slots (id, activeField) (some (.bool true))) infos i other
        objectId := by
  constructor
  · rintro ⟨hget, hobject, hunrecorded, hfirst⟩
    refine ⟨hget, hobject, ?_, fun j hj => hfirst (j + 1) (Nat.succ_lt_succ hj)⟩
    have hne : objectId ≠ id := by
      rintro rfl
      exact hfirst 0 (Nat.succ_pos i) info rfl hid
    rw [readsTrue_update_of_ne hne]
    exact hunrecorded
  · rintro ⟨hget, hobject, hunrecorded, hfirst⟩
    have hne : objectId ≠ id := by
      rintro rfl
      rw [Function.update_self] at hunrecorded
      exact absurd hunrecorded nofun
    rw [readsTrue_update_of_ne hne] at hunrecorded
    refine ⟨hget, hobject, hunrecorded, fun j hj => ?_⟩
    rcases j with _ | j
    · rintro _ ⟨⟩ hsame
      exact hne (Option.some.inj (hsame.symm.trans hid))
    · exact hfirst j (Nat.lt_of_succ_lt_succ hj)

/-- The last operation staged for a window, if there is one, is for its last new event. -/
def StagesLast (objectOf : ℕ → Option Uuid) (slots : TabSlots) (infos : List TabActiveInfo)
    (windowId : ℤ) : Option Uuid → Prop
  | none => NoneNewFrom objectOf slots infos windowId 0
  | some objectId => ∃ i first, IsNew objectOf slots infos i first objectId ∧
      first.windowId = windowId ∧ NoneNewFrom objectOf slots infos windowId (i + 1)

/-- The events behind the first decide, unless there is none of the window and the first is new. -/
theorem StagesLast.cons {slots' : TabSlots} {objectId? : Option Uuid}
    (hshift : ∀ i other id, IsNew objectOf slots (info :: infos) (i + 1) other id ↔
      IsNew objectOf slots' infos i other id)
    (hhead : objectId? = none → ∀ id, IsNew objectOf slots (info :: infos) 0 info id →
      info.windowId ≠ windowId)
    (h : StagesLast objectOf slots' infos windowId objectId?) :
    StagesLast objectOf slots (info :: infos) windowId objectId? := by
  have hnone : ∀ n, NoneNewFrom objectOf slots' infos windowId n →
      NoneNewFrom objectOf slots (info :: infos) windowId (n + 1) := by
    rintro n hnone (_ | j) other id hle hnew
    · exact absurd hle (by omega)
    · exact hnone j other id (by omega) ((hshift j other id).mp hnew)
  rcases objectId? with _ | objectId
  · rintro (_ | j) other id - hnew
    · obtain ⟨rfl, -⟩ := isNew_zero_iff.mp hnew
      exact hhead rfl id hnew
    · exact hnone 0 h (j + 1) other id (by omega) hnew
  · obtain ⟨i, first, hnew, hwindow, hlater⟩ := h
    exact ⟨i + 1, first, (hshift i first objectId).mpr hnew, hwindow, hnone (i + 1) hlater⟩

variable (objectOf) in
theorem stagesLast (windowId : ℤ) (infos : List TabActiveInfo) : ∀ slots : TabSlots,
    StagesLast objectOf slots infos windowId
      (lastOf windowId (activationsIn (stageEvents objectOf slots infos))) := by
  induction infos with
  | nil => exact fun slots j other id _ hnew => absurd hnew.get (by simp)
  | cons info infos ih =>
    intro slots
    rcases hobject : objectOf info.tabId with _ | id
    · rw [stageEvents_of_unmapped hobject]
      refine (ih slots).cons (fun i other o => isNew_succ_iff_of_idle fun o ho => ?_)
        fun _ o hnew => ?_
      · exact absurd (hobject.symm.trans ho) nofun
      · exact absurd (hobject.symm.trans hnew.object) nofun
    rcases hrecorded : readsTrue (slots (id, activeField)) with _ | _
    · rw [stageEvents_of_unrecorded hobject hrecorded]
      have hrest := ih (Function.update slots (id, activeField) (some (.bool true)))
      have hshift : ∀ i other o, IsNew objectOf slots (info :: infos) (i + 1) other o ↔
          IsNew objectOf (Function.update slots (id, activeField) (some (.bool true))) infos i
            other o := fun i other o => isNew_succ_iff_of_new hobject
      have hlast : ∀ rest : List StagedTabOp,
          lastOf windowId (activationsIn (activation id info.windowId :: rest)) =
            (lastOf windowId (activationsIn rest)).or
              (if info.windowId = windowId then some id else none) := fun _ => rfl
      rw [hlast]
      generalize lastOf windowId (activationsIn (stageEvents objectOf
        (Function.update slots (id, activeField) (some (.bool true))) infos)) = later at hrest ⊢
      rcases later with _ | objectId
      · by_cases hwindow : info.windowId = windowId
        · -- the first event is the last new one of the window
          rw [if_pos hwindow]
          refine ⟨0, info, isNew_zero_iff.mpr ⟨rfl, hobject, hrecorded⟩, hwindow, ?_⟩
          rintro (_ | j) other o hle hnew
          · exact absurd hle (by omega)
          · exact hrest j other o (by omega) ((hshift j other o).mp hnew)
        · rw [if_neg hwindow]
          exact hrest.cons hshift fun _ _ _ => hwindow
      · exact hrest.cons hshift nofun
    · rw [stageEvents_of_recorded hobject hrecorded]
      refine (ih slots).cons (fun i other o => isNew_succ_iff_of_idle fun o ho => ?_)
        fun _ o hnew => ?_
      · obtain rfl := Option.some.inj (hobject.symm.trans ho)
        exact hrecorded
      · obtain rfl := Option.some.inj (hobject.symm.trans hnew.object)
        rw [hnew.unrecorded] at hrecorded
        exact absurd hrecorded nofun

/-- The last new event of a window is one event. -/
theorem StagesLast.unique {objectId? : Option Uuid}
    (h : StagesLast objectOf slots infos windowId objectId?) {first : TabActiveInfo}
    (hnew : IsNew objectOf slots infos i first objectId) (hwindow : first.windowId = windowId)
    (hlater : NoneNewFrom objectOf slots infos windowId (i + 1)) : objectId? = some objectId := by
  rcases objectId? with _ | other
  · exact absurd hwindow (h i first objectId (Nat.zero_le i) hnew)
  · obtain ⟨j, second, hnew', hwindow', hlater'⟩ := h
    obtain hlt | rfl | hlt := Nat.lt_trichotomy i j
    · exact absurd hwindow' (hlater j second other hlt hnew')
    · obtain rfl := Option.some.inj (hnew.get.symm.trans hnew'.get)
      exact hnew'.object.symm.trans hnew.object
    · exact absurd hwindow (hlater' i first objectId hlt hnew)

/-! ### Flushing -/

/-- Where the last operation of a window stands, the operations behind it do not matter. -/
theorem lastOf_split {before after : List StagedTabOp} {op : StagedTabOp}
    (hop : op.windowId = some windowId) (hafter : ∀ later ∈ after, later.windowId ≠ some windowId) :
    lastOf windowId (activationsIn (before ++ op :: after)) = some op.objectId := by
  have hnone : lastOf windowId (activationsIn after) = none := by
    refine last_eq_none_iff.mpr fun pair hpair => if_neg ?_
    obtain ⟨later, hlater, hmap⟩ := List.mem_filterMap.mp hpair
    obtain ⟨other, hother, rfl⟩ := Option.map_eq_some_iff.mp hmap
    rintro rfl
    exact hafter later hlater hother
  have hhead : activationsIn (op :: after) = (windowId, op.objectId) :: activationsIn after := by
    simp [activationsIn, hop]
  rw [lastOf, activationsIn, List.filterMap_append, last_append, ← activationsIn, hhead, last]
  rw [lastOf] at hnone
  simp [hnone]

theorem lastOf_eq_none {ops : List StagedTabOp} (h : ∀ op ∈ ops, op.windowId ≠ some windowId) :
    lastOf windowId (activationsIn ops) = none := by
  refine last_eq_none_iff.mpr fun pair hpair => if_neg ?_
  obtain ⟨op, hop, hmap⟩ := List.mem_filterMap.mp hpair
  obtain ⟨other, hother, rfl⟩ := Option.map_eq_some_iff.mp hmap
  rintro rfl
  exact h op hop hother

/-- Of the operations of a window there is none, or one is the last. -/
theorem exists_last_of_window (ops : List StagedTabOp) (windowId : ℤ) :
    (∀ op ∈ ops, op.windowId ≠ some windowId) ∨
      ∃ before op after, ops = before ++ op :: after ∧ op.windowId = some windowId ∧
        ∀ later ∈ after, later.windowId ≠ some windowId := by
  induction ops with
  | nil => exact Or.inl fun op hop => absurd hop List.not_mem_nil
  | cons first rest ih =>
    rcases ih with hnone | ⟨before, op, after, rfl, hop, hafter⟩
    · by_cases hfirst : first.windowId = some windowId
      · exact Or.inr ⟨[], first, rest, rfl, hfirst, hnone⟩
      · exact Or.inl (List.forall_mem_cons.mpr ⟨hfirst, hnone⟩)
    · exact Or.inr ⟨first :: before, op, after, rfl, hop, hafter⟩

/-- **Coalescing keeps the last activation** of each window, where every object is activated
once. -/
theorem lastOf_coalesceStagedOps {ops : List StagedTabOp}
    (hforms : ∀ op ∈ ops, ∃ windowId, op = activation op.objectId windowId)
    (hnodup : (ops.map StagedTabOp.objectId).Nodup) (windowId : ℤ) :
    lastOf windowId (activationsIn (coalesceStagedOps ops)) = lastOf windowId (activationsIn ops) := by
  have hsub : (coalesceStagedOps ops).Sublist ops :=
    (coalescePass_sublist _).trans (windowFiltered_sublist ops)
  rcases exists_last_of_window ops windowId with hnone | ⟨before, op, after, rfl, hop, hafter⟩
  · rw [lastOf_eq_none hnone, lastOf_eq_none fun op hop => hnone op (hsub.subset hop)]
  have hactivate : op.operationType = .activate := by
    obtain ⟨_, hform⟩ := hforms op (by simp)
    rw [hform]
    rfl
  obtain ⟨filteredBefore, filteredAfter, hfiltered, -, hsubAfter⟩ :=
    windowFiltered_split before hactivate hop fun later hlater hboth =>
      hafter later hlater hboth.2
  -- no later operation is on the same object
  rw [List.map_append, List.map_cons, List.nodup_append] at hnodup
  have hfresh : ∀ later ∈ after, later.objectId ≠ op.objectId := fun later hlater heq =>
    (List.nodup_cons.mp hnodup.2.1).1 (heq ▸ List.mem_map_of_mem hlater)
  obtain ⟨keptBefore, keptAfter, hkept, -, hkeptAfter⟩ :=
    coalescePass_split filteredBefore hactivate fun later hlater heq =>
      absurd heq (hfresh later (hsubAfter.subset hlater))
  rw [lastOf_split hop hafter, coalesceStagedOps, hfiltered, hkept]
  exact lastOf_split hop fun later hlater =>
    hafter later (hsubAfter.subset (hkeptAfter.subset hlater))

/-- **A flush**: the most recent operation of a window is the last one staged for it, or the one
it was. -/
theorem mostRecent_flushTabEvents (s : Activations) (infos : List TabActiveInfo) (windowId : ℤ) :
    (s.flushTabEvents objectOf infos).mostRecent windowId =
      (lastOf windowId (activationsIn (stageEvents objectOf s.slots infos))).or
        (s.mostRecent windowId) := by
  unfold flushTabEvents
  split
  · rename_i info
    -- the lone activation
    unfold flushLoneActivation
    rcases hobject : objectOf info.tabId with _ | objectId
    · rw [stageEvents_of_unmapped hobject]
      rfl
    · dsimp only
      rcases hrecorded : readsTrue (s.slots (objectId, activeField)) with _ | _
      · rw [stageEvents_of_unrecorded hobject hrecorded, if_neg nofun, mostRecent, lastOf, last_append]
        rfl
      · rw [stageEvents_of_recorded hobject hrecorded, if_pos rfl]
        rfl
  · obtain ⟨hops, hnodup⟩ := stageEvents_spec objectOf infos s.slots
    rw [mostRecent, lastOf, last_append, ← lastOf,
      lastOf_coalesceStagedOps (fun op hop => (hops op hop).1) hnodup]
    rfl

theorem lastActivated_flushTabEvents (s : Activations) (infos : List TabActiveInfo) :
    (s.flushTabEvents objectOf infos).lastActivated = s.lastActivated := by
  unfold flushTabEvents
  split
  · rename_i info
    unfold flushLoneActivation
    split
    · rfl
    · split <;> rfl
  · rfl

theorem queue_step (s : Activations) (infos : List TabActiveInfo) :
    (s.step objectOf infos).queue = [] := rfl

variable (objectOf) in
/-- What a step leaves in a window. -/
theorem step_spec (hempty : s.queue = []) (infos : List TabActiveInfo) (windowId : ℤ) :
    (s.step objectOf infos).mostRecent windowId =
        (lastOf windowId (activationsIn
          (stageEvents objectOf s.slots (heard s.lastActiveTabId infos)))).or
          (s.mostRecent windowId) ∧
      (s.step objectOf infos).lastActivated windowId =
        ((infos.filter fun info => info.windowId = windowId).getLast?.map TabActiveInfo.tabId).or
          (s.lastActivated windowId) := by
  obtain ⟨hqueue, hslots, hcreated, hlast⟩ := foldl_onActivated s infos
  rw [hempty, List.nil_append] at hqueue
  constructor
  · show (flushTabEvents objectOf (infos.foldl onActivated s)
      (infos.foldl onActivated s).queue).mostRecent windowId = _
    rw [mostRecent_flushTabEvents, hqueue, hslots, mostRecent, hcreated]
    rfl
  · show (flushTabEvents objectOf (infos.foldl onActivated s)
      (infos.foldl onActivated s).queue).lastActivated windowId = _
    rw [lastActivated_flushTabEvents, hlast]

/-! ### Runs -/

/-- An event that is heard is one of the events. -/
theorem mem_of_mem_heard (h : info ∈ heard last? infos) : info ∈ infos := by
  induction infos generalizing last? with
  | nil => exact h
  | cons first infos ih =>
    rw [heard] at h
    split_ifs at h
    · exact List.mem_cons_of_mem _ (ih h)
    · rcases List.mem_cons.mp h with rfl | h
      · exact List.mem_cons_self
      · exact List.mem_cons_of_mem _ (ih h)

/-- Between flushes the queue is empty, and what is reported is right. -/
def Settled (objectOf : ℕ → Option Uuid) (s : Activations) : Prop :=
  s.queue = [] ∧ s.Reports objectOf

/-- **A flush that meets the condition** keeps the reports right. -/
theorem Settled.step (h : s.Settled objectOf) (htells : s.Tells objectOf infos) :
    (s.step objectOf infos).Settled objectOf := by
  refine ⟨queue_step s infos, fun windowId tabId objectId hlast hobject => ?_⟩
  obtain ⟨hrecent, hactivated⟩ := step_spec objectOf h.1 infos windowId
  have hstages := stagesLast objectOf windowId (heard s.lastActiveTabId infos) s.slots
  rw [hactivated] at hlast
  rw [hrecent]
  rcases hevent : (infos.filter fun info => info.windowId = windowId).getLast? with _ | info
  · -- the window has no event, so none that is new
    have hnone : ∀ info ∈ infos, info.windowId ≠ windowId := by
      rw [List.getLast?_eq_none_iff, List.filter_eq_nil_iff] at hevent
      exact fun info hinfo => by simpa using hevent info hinfo
    have hstaged : lastOf windowId (activationsIn (stageEvents objectOf s.slots
        (heard s.lastActiveTabId infos))) = none := by
      by_contra hsome
      obtain ⟨id, hid⟩ := Option.ne_none_iff_exists'.mp hsome
      rw [hid] at hstages
      obtain ⟨i, first, hnew, hwindow, -⟩ := hstages
      exact hnone first (mem_of_mem_heard (List.mem_of_getElem? hnew.get)) hwindow
    rw [hevent] at hlast
    rw [hstaged]
    exact h.2 windowId tabId objectId hlast hobject
  · rw [hevent] at hlast
    obtain rfl : info.tabId = tabId := Option.some.inj hlast
    rcases htells windowId info objectId hevent hobject with
      ⟨i, first, hnew, hwindow, hlater⟩ | ⟨hnone, hnamed⟩
    · rw [hstages.unique hnew hwindow hlater]
      rfl
    · have hstaged : lastOf windowId (activationsIn (stageEvents objectOf s.slots
          (heard s.lastActiveTabId infos))) = none := by
        by_contra hsome
        obtain ⟨id, hid⟩ := Option.ne_none_iff_exists'.mp hsome
        rw [hid] at hstages
        obtain ⟨i, first, hnew, hwindow, -⟩ := hstages
        exact hnone i first id (Nat.zero_le i) hnew hwindow
      rw [hstaged]
      exact hnamed

/-- **A flush that does not** breaks them. -/
theorem Settled.not_reports (h : s.Settled objectOf) (htells : ¬s.Tells objectOf infos) :
    ¬(s.step objectOf infos).Reports objectOf := by
  intro hreports
  refine htells fun windowId info objectId hevent hobject => ?_
  obtain ⟨hrecent, hactivated⟩ := step_spec objectOf h.1 infos windowId
  have hstages := stagesLast objectOf windowId (heard s.lastActiveTabId infos) s.slots
  rw [hevent] at hactivated
  have hright := hreports windowId info.tabId objectId hactivated hobject
  rw [hrecent] at hright
  generalize lastOf windowId (activationsIn (stageEvents objectOf s.slots
    (heard s.lastActiveTabId infos))) = staged at hstages hright
  rcases staged with _ | id
  · exact Or.inr ⟨hstages, hright⟩
  · obtain rfl : id = objectId := Option.some.inj hright
    exact Or.inl hstages

/-- **Which activations are reported right**: after every flush of a run the most recent
operation of each window names the tab last activated in it, exactly if every flush of the run
meets the condition. -/
theorem reports_iff (objectOf : ℕ → Option Uuid) (lastActiveTabId : Option ℕ) (slots : TabSlots)
    (flushes : List (List TabActiveInfo)) :
    Runs.Always (step objectOf) (Reports objectOf) (start lastActiveTabId slots) flushes ↔
      Runs.Meets (step objectOf) (Tells objectOf) (start lastActiveTabId slots) flushes :=
  Runs.always_iff_meets (I := Settled objectOf) (fun _ h => h.2)
    (fun _ _ h htells => h.step htells) (fun _ _ h htells => h.not_reports htells)
    ⟨rfl, fun _ _ _ hlast => nomatch (show none = some _ from hlast)⟩

/-- Two tabs and their objects. -/
def twoTabs : ℕ → Option Uuid
  | 101 => some 7
  | 102 => some 8
  | _ => none

/-- In one window the first tab is activated, then the second, then the first again, each in a
flush of its own. -/
def turns : List (List TabActiveInfo) := [[⟨101, 1⟩], [⟨102, 1⟩], [⟨101, 1⟩]]

/-- **A tab that is activated again is not reported**: its slot is `true` since the first time,
and the most recent operation of the window names the other tab. -/
theorem not_reports : ¬∀ (objectOf : ℕ → Option Uuid) (lastActiveTabId : Option ℕ)
    (slots : TabSlots) (flushes : List (List TabActiveInfo)),
    (∀ infos ∈ flushes, ∀ info ∈ infos, (objectOf info.tabId).isSome = true) →
      Reports objectOf (Runs.run (step objectOf) (start lastActiveTabId slots) flushes) := by
  intro h
  have hright := h twoTabs none (fun _ => none) turns (by decide) 1 101 7 rfl rfl
  exact absurd hright (by decide)

end Activations

end Client

end HelixSync
