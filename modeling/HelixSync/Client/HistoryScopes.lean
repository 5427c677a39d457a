import HelixSync.Client.DeviceRecord
import HelixSync.Lib.IntervalStack
import HelixSync.Lib.Runs
import Mathlib.Algebra.Order.Ring.Rat
import Mathlib.Data.List.Basic

/-!
# The scopes of the history imports

A device imports its older history in scopes (`extension/src/history/bulk.ts`): its initial
one takes the visits from a cutoff up to the boundary at which live capture begins, and
each time the retention is widened another import takes what lies before. A scope is put into
the device record before its first chunk is made, so that an interrupted import goes on with
the same scope and its chunks keep their ids.

The cutoff of the initial import is computed when the import gets there, which may be long
after the boundary was set: past the retention the scope is empty, its bounds the wrong way
round, and the next import that is to end where it begins runs into what live capture has
taken. The initial import is also started on the word of a record read some time before, and
started again it takes the cutoff an older import has left. And capture is registered when the
script loads: a visit that is flushed after the device is stored and before the boundary is
fixed is taken live, and the initial import takes it again.

* `HelixSync.Client.HistoryImports.Partitioned` – the scopes and live capture share out the
  time line;
* `HelixSync.Client.HistoryImports.partitioned_iff` – they do throughout exactly the runs in
  which these three things do not happen;
* `HelixSync.Client.HistoryImports.not_partitioned` – an initial import a week late, and a
  retention widened after it.
-/

namespace HelixSync

namespace Client

/-- What an import takes: the visits from the cutoff on and before the end. -/
structure ImportScope where
  cutoffMs : ℤ
  endMs : ℤ
  deriving DecidableEq

/-- The times of visits in it. The browser's times have fractions. -/
def ImportScope.times (scope : ImportScope) : Set ℚ := Set.Ico (scope.cutoffMs : ℚ) scope.endMs

/-- How far `runInitialImport` has come. -/
inductive InitialStage where
  /-- Before `backfillHistory`, -/
  | downloading
  /-- in `collectHistoryBulk`, -/
  | collecting
  /-- and after it. -/
  | imported
  deriving DecidableEq

/-- How far `importOlderHistoryBulk` has come, with the cutoff it is to reach and that of the
scope it is at. -/
inductive OlderStage where
  /-- Before a pass, -/
  | pass (cutoffMs : ℤ)
  /-- in `collectHistoryBulk`, -/
  | collecting (cutoffMs olderCutoff : ℤ)
  /-- and after it. -/
  | collected (cutoffMs olderCutoff : ℤ)
  deriving DecidableEq

/-- The stored record, the imports under way, and what was taken so far. -/
structure HistoryImports where
  device : DeviceRecord
  /-- How many calls of `initializeCaptureForSettings` have read a record with no import
  completed and are to start one. -/
  starting : ℕ
  /-- `initialImportInFlight`. -/
  initial : Option InitialStage
  /-- The one flight of `runOlderHistoryImport`. -/
  older : Option OlderStage
  /-- The scopes of the completed and pending imports, the newest first. -/
  scopes : List ImportScope
  /-- The times of the visits captured live. -/
  captured : List ℚ

/-- What may happen next. An import may be interrupted after each of these. -/
inductive ImportEvent where
  /-- `initializeCaptureForSettings`, up to its settings. -/
  | initializeCapture (now : ℤ)
  /-- It goes on to `runInitialImport`. -/
  | runInitialImport
  /-- `ensureHistoryBulkBoundary`, before visits of other devices are replayed. -/
  | replayBoundary (now : ℤ)
  /-- `backfillHistory` finds history sync disabled, -/
  | historyDisabled
  /-- or comes to `backfillHistoryBulk`, with the cutoff of the retention. -/
  | backfillHistory (cutoffMs now : ℤ)
  | initialCollected
  | initialCompleted (now : String)
  | initialFailed
  /-- The retention was widened, or the worker found a scope pending. -/
  | runOlderHistoryImport (cutoffMs : ℤ)
  /-- `importOlderHistoryPass`, up to its collection. -/
  | olderPass
  | olderCollected
  | olderCompleted
  | olderFailed
  /-- `flushVisitEvents`, for one visit. The listener is registered when the script loads. -/
  | visited (visitTime : ℚ)
  /-- The worker is restarted. -/
  | restart

/-- `finishConnect`: the record of a device just connected. -/
def finishConnect (deviceId accessToken accessTokenExpiresAt : String) (refreshToken : ℕ) :
    DeviceRecord where
  deviceId := deviceId
  accessToken := accessToken
  accessTokenExpiresAt := accessTokenExpiresAt
  refreshToken := refreshToken
  initialImportCompletedAt := none
  historyBulkCutoffMs := none
  historyBulkEndMs := none
  historyBulkOperationId := none
  historyBulkObjectId := none
  historyBulkUploadedChunks := none
  historyBulkUploadedVisits := none
  historyOlderCutoffMs := none
  historyOlderEndMs := none
  historyOlderUploadedChunks := none
  historyOlderUploadedVisits := none

/-- The test `flushVisitEvents` makes of a visit. -/
def DeviceRecord.takesLive (device : DeviceRecord) (visitTime : ℚ) : Bool :=
  match device.historyBulkEndMs with
  | some endMs => decide ((endMs : ℚ) ≤ visitTime)
  | none => true

namespace HistoryImports

/-- A device just connected, with nothing under way. -/
def start (deviceId accessToken accessTokenExpiresAt : String) (refreshToken : ℕ) :
    HistoryImports where
  device := finishConnect deviceId accessToken accessTokenExpiresAt refreshToken
  starting := 0
  initial := none
  older := none
  scopes := []
  captured := []

/-- An update of the record, with nothing in between. -/
def update (s : HistoryImports) (update : DeviceUpdate) : HistoryImports :=
  if update.wanted s.device then { s with device := update.apply s.device } else s

/-- A scope is taken up. -/
def take (s : HistoryImports) (scope : ImportScope) : HistoryImports :=
  if scope ∈ s.scopes then s else { s with scopes := scope :: s.scopes }

/-- `collectHistoryBulk`: a persisted scope wins. -/
def collectHistoryBulk (s : HistoryImports) (cutoffMs endMs : ℤ) (fields : BulkScopeFields) :
    HistoryImports :=
  s.take ⟨(s.device.cutoff fields).getD cutoffMs, (s.device.endMs fields).getD endMs⟩

/-- `initializeCaptureForSettings`. -/
def initializeCapture (s : HistoryImports) (now : ℤ) : HistoryImports :=
  let fixed :=
    if s.device.initialImportCompletedAt = none ∧ s.device.historyBulkEndMs = none then
      s.update (.captureBoundary now)
    else s
  { fixed with
    starting := if s.device.initialImportCompletedAt = none then s.starting + 1 else s.starting }

/-- The scope of the initial import. -/
def initialScope (s : HistoryImports) (cutoffMs now : ℤ) : ImportScope where
  cutoffMs := s.device.historyBulkCutoffMs.getD cutoffMs
  endMs := s.device.historyBulkEndMs.getD now

/-- `backfillHistoryBulk`, up to its collection. -/
def backfillHistoryBulk (s : HistoryImports) (cutoffMs now : ℤ) : HistoryImports :=
  let scope := s.initialScope cutoffMs now
  let persisted :=
    if s.device.historyBulkCutoffMs = none then
      s.update (.initialScope scope.cutoffMs scope.endMs)
    else s
  { persisted.collectHistoryBulk scope.cutoffMs scope.endMs .initial with
    initial := some .collecting }

/-- `importOlderHistoryPass`, up to its collection. -/
def importOlderHistoryPass (s : HistoryImports) (cutoffMs : ℤ) : HistoryImports :=
  if s.device.initialImportCompletedAt = none then { s with older := none }
  else
    let persisted := s.update (.olderScope cutoffMs)
    match persisted.device.historyOlderCutoffMs, persisted.device.historyOlderEndMs with
    | some olderCutoff, some olderEnd =>
        { persisted.collectHistoryBulk olderCutoff olderEnd .older with
          older := some (.collecting cutoffMs olderCutoff) }
    | _, _ => { persisted with older := none }

/-- One event. -/
def step (s : HistoryImports) : ImportEvent → HistoryImports
  | .initializeCapture now => s.initializeCapture now
  | .runInitialImport =>
      if s.starting = 0 then s
      else { s with starting := s.starting - 1, initial := s.initial <|> some .downloading }
  | .replayBoundary now => s.update (.replayBoundary now)
  | .historyDisabled =>
      if s.initial = some .downloading then { s with initial := some .imported } else s
  | .backfillHistory cutoffMs now =>
      if s.initial = some .downloading then s.backfillHistoryBulk cutoffMs now else s
  | .initialCollected =>
      if s.initial = some .collecting then
        { s.update (.clearCheckpoint .initial) with initial := some .imported }
      else s
  | .initialCompleted now =>
      if s.initial = some .imported then
        { s.update (.importCompleted s.device.deviceId now) with initial := none }
      else s
  | .initialFailed => { s with initial := none }
  | .runOlderHistoryImport cutoffMs =>
      if s.older = none ∧ s.initial = none then { s with older := some (.pass cutoffMs) } else s
  | .olderPass =>
      match s.older with
      | some (.pass cutoffMs) => s.importOlderHistoryPass cutoffMs
      | _ => s
  | .olderCollected =>
      match s.older with
      | some (.collecting cutoffMs olderCutoff) =>
          { s.update (.clearCheckpoint .older) with older := some (.collected cutoffMs olderCutoff) }
      | _ => s
  | .olderCompleted =>
      match s.older with
      | some (.collected cutoffMs olderCutoff) =>
          { s.update (.olderCompleted olderCutoff) with older := some (.pass cutoffMs) }
      | _ => s
  | .olderFailed => { s with older := none }
  | .visited visitTime =>
      if s.device.takesLive visitTime then { s with captured := s.captured ++ [visitTime] } else s
  | .restart => { s with starting := 0, initial := none, older := none }

/-- **The scopes and live capture share out the time line**, for an id of a chunk that is made
of the device, the cutoff and the index of the chunk. -/
structure Partitioned {Id : Type} (deterministicUuid : String → ℤ → ℕ → Id) (s : HistoryImports) :
    Prop where
  disjoint : s.scopes.Pairwise fun a b => Disjoint a.times b.times
  covers : s.scopes ≠ [] → ∃ endMs ∈ s.device.historyBulkEndMs, ∃ low : ℚ,
    ⋃ scope ∈ s.scopes, scope.times = Set.Ico low endMs
  ids_differ : s.scopes.Pairwise fun a b => ∀ i j,
    deterministicUuid s.device.deviceId a.cutoffMs i ≠
      deterministicUuid s.device.deviceId b.cutoffMs j
  live_exact : ∀ endMs ∈ s.device.historyBulkEndMs,
    (∀ visitTime, s.device.takesLive visitTime = true ↔ (endMs : ℚ) ≤ visitTime) ∧
      ∀ visitTime ∈ s.captured, (endMs : ℚ) ≤ visitTime
  sent_once : ∀ visitTime ∈ s.captured, ∀ scope ∈ s.scopes, visitTime ∉ scope.times

/-- **What keeps the scopes apart.** When the boundary is fixed, no visit before it was taken live.
An initial import takes the first scope or one that was taken before, and an older one is set
below a cutoff that is not past the boundary. -/
def KeepsApart (s : HistoryImports) : ImportEvent → Prop
  | .initializeCapture now | .replayBoundary now =>
      s.device.initialImportCompletedAt = none → s.device.historyBulkEndMs = none →
        ∀ visitTime ∈ s.captured, (now : ℚ) ≤ visitTime
  | .backfillHistory cutoffMs now => s.initial = some .downloading →
      s.scopes = [] ∨ s.initialScope cutoffMs now ∈ s.scopes
  | .olderPass =>
      match s.older with
      | some (.pass cutoffMs) => (DeviceUpdate.olderScope cutoffMs).wanted s.device = true →
          ∀ coveredFromMs ∈ s.device.historyBulkCutoffMs, ∀ endMs ∈ s.device.historyBulkEndMs,
            coveredFromMs ≤ endMs
      | _ => True
  | _ => True

instance (s : HistoryImports) : (event : ImportEvent) → Decidable (s.KeepsApart event)
  | .initializeCapture now | .replayBoundary now =>
      inferInstanceAs (Decidable (s.device.initialImportCompletedAt = none →
        s.device.historyBulkEndMs = none → ∀ visitTime ∈ s.captured, (now : ℚ) ≤ visitTime))
  | .backfillHistory cutoffMs now =>
      inferInstanceAs (Decidable (s.initial = some .downloading →
        s.scopes = [] ∨ s.initialScope cutoffMs now ∈ s.scopes))
  | .olderPass => by
      unfold KeepsApart
      dsimp only
      split <;> infer_instance
  | .runInitialImport | .historyDisabled | .initialCollected | .initialCompleted _
  | .initialFailed | .runOlderHistoryImport _ | .olderCollected | .olderCompleted | .olderFailed
  | .visited _ | .restart =>
      inferInstanceAs (Decidable True)

/-! ### How the record describes what was taken -/

/-- The scopes are stacked below the boundary, down to `low`. -/
abbrev Stacked (endMs : ℤ) (scopes : List ImportScope) (low : ℤ) : Prop :=
  IntervalStack.Stacked (fun scope : ImportScope => (scope.cutoffMs : ℚ))
    (fun scope => (scope.endMs : ℚ)) (endMs : ℚ) scopes (low : ℚ)

/-- **What the record says** of the scopes taken. -/
inductive Lays (device : DeviceRecord) (scopes : List ImportScope) : Prop where
  /-- None yet. -/
  | untouched (hcutoff : device.historyBulkCutoffMs = none)
      (holder : device.historyOlderCutoffMs = none) (hscopes : scopes = [])
  /-- The last one begins at `historyBulkCutoffMs`. -/
  | settled {cutoffMs endMs : ℤ} (hcutoff : device.historyBulkCutoffMs = some cutoffMs)
      (hend : device.historyBulkEndMs = some endMs) (holder : device.historyOlderCutoffMs = none)
      (hstack : Stacked endMs scopes cutoffMs)
  /-- The last one is pending, and ends there. -/
  | pending {cutoffMs endMs olderCutoff : ℤ}
      (hcutoff : device.historyBulkCutoffMs = some cutoffMs)
      (hend : device.historyBulkEndMs = some endMs)
      (holder : device.historyOlderCutoffMs = some olderCutoff)
      (holderEnd : device.historyOlderEndMs = some cutoffMs)
      (hstack : Stacked endMs scopes olderCutoff) (hmem : ⟨olderCutoff, cutoffMs⟩ ∈ scopes)
      (hbefore : ∃ scope ∈ scopes, scope.cutoffMs = cutoffMs)

/-- Only four fields matter. -/
theorem Lays.congr {device device' : DeviceRecord} {scopes : List ImportScope}
    (h : Lays device scopes) (hcutoff : device'.historyBulkCutoffMs = device.historyBulkCutoffMs)
    (hend : device'.historyBulkEndMs = device.historyBulkEndMs)
    (holder : device'.historyOlderCutoffMs = device.historyOlderCutoffMs)
    (holderEnd : device'.historyOlderEndMs = device.historyOlderEndMs) : Lays device' scopes := by
  cases h with
  | untouched hc ho hs => exact .untouched (hcutoff.trans hc) (holder.trans ho) hs
  | settled hc he ho hstack =>
    exact .settled (hcutoff.trans hc) (hend.trans he) (holder.trans ho) hstack
  | pending hc he ho hoe hstack hmem hbefore =>
    exact .pending (hcutoff.trans hc) (hend.trans he) (holder.trans ho) (holderEnd.trans hoe)
      hstack hmem hbefore

/-- As long as there is no boundary, nothing was taken. -/
theorem Lays.eq_nil {device : DeviceRecord} {scopes : List ImportScope} (h : Lays device scopes)
    (hend : device.historyBulkEndMs = none) :
    device.historyBulkCutoffMs = none ∧ device.historyOlderCutoffMs = none ∧ scopes = [] := by
  cases h with
  | untouched hc ho hs => exact ⟨hc, ho, hs⟩
  | settled _ he _ _ => rw [hend] at he; cases he
  | pending _ he _ _ _ _ _ => rw [hend] at he; cases he

/-- The cutoff of a record that has one is that of a scope taken. -/
theorem Lays.exists_scope {device : DeviceRecord} {scopes : List ImportScope} {cutoffMs : ℤ}
    (h : Lays device scopes) (hcutoff : device.historyBulkCutoffMs = some cutoffMs) :
    ∃ scope ∈ scopes, scope.cutoffMs = cutoffMs := by
  cases h with
  | untouched hc _ _ => rw [hcutoff] at hc; cases hc
  | settled hc _ _ hstack =>
    obtain rfl := Option.some.inj (hcutoff.symm.trans hc)
    obtain ⟨scope, hscope, hlow⟩ := hstack.exists_low_eq
    exact ⟨scope, hscope, by exact_mod_cast hlow⟩
  | pending hc _ _ _ _ _ hbefore =>
    obtain rfl := Option.some.inj (hcutoff.symm.trans hc)
    exact hbefore

/-! ### The invariant -/

/-- The record describes what was taken, and there is a boundary before an import needs it. -/
structure Laid (s : HistoryImports) : Prop where
  lays : Lays s.device s.scopes
  bounded : (0 < s.starting ∨ s.initial ≠ none ∨ s.device.initialImportCompletedAt ≠ none) →
    s.device.historyBulkEndMs ≠ none
  olderCutoff_eq : ∀ cutoffMs olderCutoff, s.older = some (.collecting cutoffMs olderCutoff) ∨
    s.older = some (.collected cutoffMs olderCutoff) →
    s.device.historyOlderCutoffMs = some olderCutoff
  captured_ge : ∀ endMs ∈ s.device.historyBulkEndMs, ∀ visitTime ∈ s.captured,
    (endMs : ℚ) ≤ visitTime

theorem Laid.start (deviceId accessToken accessTokenExpiresAt : String) (refreshToken : ℕ) :
    (start deviceId accessToken accessTokenExpiresAt refreshToken).Laid where
  lays := .untouched rfl rfl rfl
  bounded h := by
    rcases h with h | h | h
    · exact absurd h (lt_irrefl 0)
    · exact absurd rfl h
    · exact absurd rfl h
  olderCutoff_eq _ _ h := by rcases h with h | h <;> cases h
  captured_ge := by simp [HistoryImports.start]

section Partition

variable {Id : Type} {deterministicUuid : String → ℤ → ℕ → Id} {s : HistoryImports}

/-- What is stacked below the boundary is shared out. -/
theorem Laid.partitioned (hinjective : ∀ deviceId, Function.Injective2 (deterministicUuid deviceId))
    (h : s.Laid) : s.Partitioned deterministicUuid := by
  have hlive : ∀ endMs ∈ s.device.historyBulkEndMs,
      (∀ visitTime, s.device.takesLive visitTime = true ↔ (endMs : ℚ) ≤ visitTime) ∧
        ∀ visitTime ∈ s.captured, (endMs : ℚ) ≤ visitTime := by
    intro endMs hend
    refine ⟨fun visitTime => ?_, h.captured_ge endMs hend⟩
    rw [DeviceRecord.takesLive, Option.mem_def.mp hend]
    exact decide_eq_true_iff
  -- a stack of scopes is all that is needed
  have hstacked : ∀ {endMs low : ℤ}, s.device.historyBulkEndMs = some endMs →
      Stacked endMs s.scopes low → s.Partitioned deterministicUuid := by
    intro endMs low hend hstack
    refine ⟨hstack.pairwise_disjoint, fun _ => ⟨endMs, hend, low, hstack.iUnion_Ico⟩,
      hstack.pairwise_ne.imp fun {a b} hne i j hsame => ?_, hlive, ?_⟩
    · exact hne (congrArg Int.cast (hinjective _ hsame).1)
    · intro visitTime hcaptured scope hscope hmem
      have hle := h.captured_ge endMs hend visitTime hcaptured
      have hunion : visitTime ∈ ⋃ scope ∈ s.scopes, scope.times :=
        Set.mem_iUnion₂.mpr ⟨scope, hscope, hmem⟩
      have hin : visitTime ∈ Set.Ico (low : ℚ) endMs := hstack.iUnion_Ico ▸ hunion
      exact absurd hin.2 (not_lt.mpr hle)
  cases h.lays with
  | untouched _ _ hscopes =>
    refine ⟨?_, ?_, ?_, hlive, ?_⟩ <;> rw [hscopes]
    · exact List.Pairwise.nil
    · exact fun hne => absurd rfl hne
    · exact List.Pairwise.nil
    · simp
  | settled _ hend _ hstack => exact hstacked hend hstack
  | pending _ hend _ _ hstack _ _ => exact hstacked hend hstack

end Partition

section Steps

variable {s : HistoryImports}

theorem take_of_mem {scope : ImportScope} (hmem : scope ∈ s.scopes) : s.take scope = s :=
  if_pos hmem

theorem mem_take (s : HistoryImports) (scope : ImportScope) : scope ∈ (s.take scope).scopes := by
  rw [take]
  split
  · assumption
  · exact List.mem_cons_self

/-- **An update** that leaves the scopes and the stamp alone. -/
theorem Laid.setDevice (h : s.Laid) {device : DeviceRecord}
    (hcutoff : device.historyBulkCutoffMs = s.device.historyBulkCutoffMs)
    (hend : device.historyBulkEndMs = s.device.historyBulkEndMs)
    (holder : device.historyOlderCutoffMs = s.device.historyOlderCutoffMs)
    (holderEnd : device.historyOlderEndMs = s.device.historyOlderEndMs)
    (hcompleted : device.initialImportCompletedAt ≠ none → s.device.historyBulkEndMs ≠ none) :
    ({ s with device := device } : HistoryImports).Laid where
  lays := h.lays.congr hcutoff hend holder holderEnd
  bounded hneeded := by
    change device.historyBulkEndMs ≠ none
    rw [hend]
    rcases hneeded with hneeded | hneeded | hneeded
    · exact h.bounded (Or.inl hneeded)
    · exact h.bounded (Or.inr (Or.inl hneeded))
    · exact hcompleted hneeded
  olderCutoff_eq cutoffMs olderCutoff hstage :=
    holder.trans (h.olderCutoff_eq cutoffMs olderCutoff hstage)
  captured_ge endMs hendMs := h.captured_ge endMs (hend ▸ hendMs)

/-- **The boundary is fixed**, with no visit before it taken yet. -/
theorem Laid.setBoundary (h : s.Laid) (hend : s.device.historyBulkEndMs = none) {now : ℤ}
    (hcaptured : ∀ visitTime ∈ s.captured, (now : ℚ) ≤ visitTime) :
    ({ s with device := { s.device with historyBulkEndMs := some now } } : HistoryImports).Laid := by
  obtain ⟨hcutoff, holder, hscopes⟩ := h.lays.eq_nil hend
  refine ⟨.untouched hcutoff holder hscopes, fun _ => Option.some_ne_none _, h.olderCutoff_eq,
    fun endMs hendMs => ?_⟩
  obtain rfl := Option.some.inj hendMs
  exact hcaptured

theorem Laid.initializeCapture (h : s.Laid) {now : ℤ} (hok : s.KeepsApart (.initializeCapture now)) :
    (s.initializeCapture now).Laid := by
  have hwithout (hend : s.device.historyBulkEndMs ≠ none) (starting : ℕ) :
      ({ s with starting := starting } : HistoryImports).Laid :=
    { h with bounded := fun _ => hend }
  unfold HistoryImports.initializeCapture
  dsimp only
  by_cases hend : s.device.historyBulkEndMs = none
  · -- then the import is not complete either
    have hcompleted : s.device.initialImportCompletedAt = none := by
      by_contra hne
      exact h.bounded (Or.inr (Or.inr hne)) hend
    have hupdate : s.update (.captureBoundary now) =
        { s with device := { s.device with historyBulkEndMs := some now } } := by
      rw [HistoryImports.update, if_pos (by simp [DeviceUpdate.wanted, hend])]
      rfl
    rw [if_pos ⟨hcompleted, hend⟩, if_pos hcompleted, hupdate]
    exact { h.setBoundary hend (hok hcompleted hend) with bounded := fun _ => Option.some_ne_none _ }
  · rw [if_neg fun hboth => hend hboth.2]
    exact hwithout hend _

theorem Laid.replayBoundary (h : s.Laid) {now : ℤ} (hok : s.KeepsApart (.replayBoundary now)) :
    (s.update (.replayBoundary now)).Laid := by
  unfold HistoryImports.update
  split
  · rename_i hwanted
    simp only [DeviceUpdate.wanted, Bool.and_eq_true, Option.isNone_iff_eq_none] at hwanted
    exact h.setBoundary hwanted.2 (hok hwanted.1 hwanted.2)
  · exact h

/-- The stage of the initial import changes, while it is in flight. -/
theorem Laid.setInitial (h : s.Laid) (hinitial : s.initial ≠ none) (initial : Option InitialStage) :
    ({ s with initial := initial } : HistoryImports).Laid :=
  { h with bounded := fun _ => h.bounded (Or.inr (Or.inl hinitial)) }

/-- **The scope of the initial import** is the first, or one taken before. -/
theorem Laid.backfillHistoryBulk (h : s.Laid) (hinitial : s.initial = some .downloading)
    {cutoffMs now : ℤ} (hok : s.KeepsApart (.backfillHistory cutoffMs now)) :
    (s.backfillHistoryBulk cutoffMs now).Laid := by
  obtain ⟨endMs, hend⟩ :=
    Option.ne_none_iff_exists'.mp (h.bounded (Or.inr (Or.inl (by rw [hinitial]; simp))))
  unfold HistoryImports.backfillHistoryBulk
  dsimp only
  rcases hcutoff : s.device.historyBulkCutoffMs with _ | cutoff
  · have hscope : s.initialScope cutoffMs now = ⟨cutoffMs, endMs⟩ := by
      rw [initialScope, hcutoff, hend]
      rfl
    cases h.lays with
    | untouched _ holder hscopes =>
      have hupdate : s.update (.initialScope cutoffMs endMs) =
          { s with device := { s.device with
              historyBulkCutoffMs := some cutoffMs
              historyBulkEndMs := some endMs } } := if_pos rfl
      have htake : ({ s with device := { s.device with
            historyBulkCutoffMs := some cutoffMs
            historyBulkEndMs := some endMs } } : HistoryImports).collectHistoryBulk cutoffMs endMs
              .initial =
          { s with
            device := { s.device with
              historyBulkCutoffMs := some cutoffMs
              historyBulkEndMs := some endMs }
            scopes := [⟨cutoffMs, endMs⟩] } := by
        simp [collectHistoryBulk, take, DeviceRecord.cutoff, DeviceRecord.endMs, hscopes]
      rw [if_pos rfl, hscope, hupdate, htake]
      refine ⟨.settled rfl rfl holder (IntervalStack.Stacked.first rfl), fun _ => Option.some_ne_none _,
        h.olderCutoff_eq, fun boundary hboundary => ?_⟩
      obtain rfl := Option.some.inj hboundary
      exact h.captured_ge endMs hend
    | settled hc _ _ _ => rw [hcutoff] at hc; cases hc
    | pending hc _ _ _ _ _ _ => rw [hcutoff] at hc; cases hc
  · have hscope : s.initialScope cutoffMs now = ⟨cutoff, endMs⟩ := by
      rw [initialScope, hcutoff, hend]
      rfl
    have hmem : (⟨cutoff, endMs⟩ : ImportScope) ∈ s.scopes := by
      rw [← hscope]
      refine (hok hinitial).resolve_left fun hscopes => ?_
      obtain ⟨scope, hmem, -⟩ := h.lays.exists_scope hcutoff
      rw [hscopes] at hmem
      cases hmem
    have hcollect : s.collectHistoryBulk cutoff endMs .initial = s := by
      rw [collectHistoryBulk, DeviceRecord.cutoff, DeviceRecord.endMs, hcutoff, hend]
      exact take_of_mem hmem
    rw [if_neg (Option.some_ne_none _), hscope, hcollect]
    exact h.setInitial (by rw [hinitial]; simp) _

/-- **A scope below** the last one, or the one pending. -/
theorem Laid.importOlderHistoryPass (h : s.Laid) {cutoffMs : ℤ}
    (hok : (DeviceUpdate.olderScope cutoffMs).wanted s.device = true →
      ∀ coveredFromMs ∈ s.device.historyBulkCutoffMs, ∀ endMs ∈ s.device.historyBulkEndMs,
        coveredFromMs ≤ endMs) : (s.importOlderHistoryPass cutoffMs).Laid := by
  have hnone : ({ s with older := none } : HistoryImports).Laid :=
    { h with olderCutoff_eq := fun _ _ hstage => by rcases hstage with hstage | hstage <;> cases hstage }
  unfold HistoryImports.importOlderHistoryPass
  split
  · exact hnone
  rename_i hcompleted
  dsimp only
  by_cases hwanted : (DeviceUpdate.olderScope cutoffMs).wanted s.device = true
  · have hupdate : s.update (.olderScope cutoffMs) =
        { s with device := { s.device with
            historyOlderCutoffMs := some cutoffMs
            historyOlderEndMs := s.device.historyBulkCutoffMs } } := if_pos hwanted
    have hapart := hok hwanted
    cases h.lays with
    | untouched hc _ _ => simp [DeviceUpdate.wanted, hc] at hwanted
    | pending _ _ ho _ _ _ _ => simp [DeviceUpdate.wanted, ho] at hwanted
    | @settled cutoff endMs hc he ho hstack =>
      have hlt : cutoffMs < cutoff := by
        simp only [DeviceUpdate.wanted, hc, Bool.and_eq_true, decide_eq_true_eq] at hwanted
        exact hwanted.2
      have hle : cutoff ≤ endMs := hapart cutoff hc endMs he
      -- it lies below all that was taken
      have hnew : (⟨cutoffMs, cutoff⟩ : ImportScope) ∉ s.scopes := fun hmem => by
        have hbottom := hstack.bottom_le _ hmem
        exact absurd hlt (not_lt.mpr (by exact_mod_cast hbottom))
      rw [hupdate, hc]
      dsimp only
      have htake : ({ s with device := { s.device with
            historyOlderCutoffMs := some cutoffMs
            historyOlderEndMs := some cutoff } } : HistoryImports).collectHistoryBulk cutoffMs cutoff
              .older =
          { s with
            device := { s.device with
              historyOlderCutoffMs := some cutoffMs
              historyOlderEndMs := some cutoff }
            scopes := ⟨cutoffMs, cutoff⟩ :: s.scopes } := by
        simp [collectHistoryBulk, take, DeviceRecord.cutoff, DeviceRecord.endMs, hnew]
      rw [htake]
      obtain ⟨scope, hscope, hlow⟩ := h.lays.exists_scope hc
      refine ⟨.pending hc he rfl rfl ?_ List.mem_cons_self
        ⟨scope, List.mem_cons_of_mem _ hscope, hlow⟩, h.bounded, ?_, h.captured_ge⟩
      · exact IntervalStack.Stacked.under hstack (by exact_mod_cast hle) rfl (by exact_mod_cast hlt)
      · rintro _ _ (hstage | hstage) <;> cases hstage
        rfl
  · have hupdate : s.update (.olderScope cutoffMs) = s := if_neg hwanted
    rw [hupdate]
    cases h.lays with
    | untouched _ ho _ =>
      rw [ho]
      exact hnone
    | settled _ _ ho _ =>
      rw [ho]
      exact hnone
    | @pending cutoff _ olderCutoff _ _ ho hoe _ hmem _ =>
      rw [ho, hoe]
      dsimp only
      have hcollect : s.collectHistoryBulk olderCutoff cutoff .older = s := by
        rw [collectHistoryBulk, DeviceRecord.cutoff, DeviceRecord.endMs, ho, hoe]
        exact take_of_mem hmem
      rw [hcollect]
      refine { h with olderCutoff_eq := ?_ }
      rintro _ _ (hstage | hstage) <;> cases hstage
      exact ho

/-- **An older import completes**: the record's cutoff moves down to its own. -/
theorem Laid.completeOlder (h : s.Laid) {cutoffMs olderCutoff : ℤ}
    (holder : s.older = some (.collected cutoffMs olderCutoff)) :
    ({ s.update (.olderCompleted olderCutoff) with older := some (.pass cutoffMs) } :
      HistoryImports).Laid := by
  have hpending := h.olderCutoff_eq cutoffMs olderCutoff (Or.inr holder)
  cases h.lays with
  | untouched _ ho _ => rw [hpending] at ho; cases ho
  | settled _ _ ho _ => rw [hpending] at ho; cases ho
  | pending _ he ho _ hstack _ _ =>
    obtain rfl := Option.some.inj (hpending.symm.trans ho)
    refine ⟨.settled rfl he rfl hstack, h.bounded, ?_, h.captured_ge⟩
    rintro _ _ (hstage | hstage) <;> cases hstage

/-- The stage of the older import changes, to none or one before a pass. -/
theorem Laid.setOlder (h : s.Laid) {older : Option OlderStage}
    (hstage : older = none ∨ ∃ cutoffMs, older = some (.pass cutoffMs)) :
    ({ s with older := older } : HistoryImports).Laid := by
  refine { h with olderCutoff_eq := ?_ }
  rcases hstage with rfl | ⟨_, rfl⟩ <;> rintro _ _ (hstage | hstage) <;> cases hstage

end Steps

section Runs

variable {Id : Type} {deterministicUuid : String → ℤ → ℕ → Id} {s : HistoryImports}

/-- **One event** that keeps the scopes apart. -/
theorem Laid.step (h : s.Laid) {event : ImportEvent} (hok : s.KeepsApart event) :
    (s.step event).Laid := by
  cases event with
  | initializeCapture now => exact h.initializeCapture hok
  | runInitialImport =>
    change (if s.starting = 0 then s else _ : HistoryImports).Laid
    split
    · exact h
    · rename_i hstarting
      exact { h with
        bounded := fun _ => h.bounded (Or.inl (Nat.pos_of_ne_zero hstarting)) }
  | replayBoundary now => exact h.replayBoundary hok
  | historyDisabled =>
    change (if s.initial = some .downloading then _ else s : HistoryImports).Laid
    split
    · rename_i hinitial
      exact h.setInitial (by rw [hinitial]; simp) _
    · exact h
  | backfillHistory cutoffMs now =>
    change (if s.initial = some .downloading then _ else s : HistoryImports).Laid
    split
    · rename_i hinitial
      exact h.backfillHistoryBulk hinitial hok
    · exact h
  | initialCollected =>
    change (if s.initial = some .collecting then _ else s : HistoryImports).Laid
    split
    · rename_i hinitial
      have hcleared : (s.update (.clearCheckpoint .initial)).Laid :=
        h.setDevice rfl rfl rfl rfl fun hne => h.bounded (Or.inr (Or.inr hne))
      refine hcleared.setInitial ?_ _
      change s.initial ≠ none
      rw [hinitial]
      simp
    · exact h
  | initialCompleted now =>
    change (if s.initial = some .imported then _ else s : HistoryImports).Laid
    split
    · rename_i hinitial
      have hbounded := h.bounded (Or.inr (Or.inl (by rw [hinitial]; simp)))
      unfold HistoryImports.update
      split
      · have hstamped : ({ s with device :=
            { s.device with initialImportCompletedAt := some now } } : HistoryImports).Laid :=
          h.setDevice rfl rfl rfl rfl fun _ => hbounded
        exact { hstamped with bounded := fun _ => hbounded }
      · exact { h with bounded := fun _ => hbounded }
    · exact h
  | initialFailed =>
    exact { h with bounded := fun hneeded => h.bounded (hneeded.imp_right fun hneeded =>
      Or.inr (hneeded.resolve_left fun hne => hne rfl)) }
  | runOlderHistoryImport cutoffMs =>
    change (if _ then _ else s : HistoryImports).Laid
    split
    · exact h.setOlder (Or.inr ⟨cutoffMs, rfl⟩)
    · exact h
  | olderPass =>
    rcases holder : s.older with _ | stage
    · simpa only [HistoryImports.step, holder] using h
    · cases stage with
      | pass cutoffMs =>
        simp only [KeepsApart, holder] at hok
        simpa only [HistoryImports.step, holder] using h.importOlderHistoryPass hok
      | _ => simpa only [HistoryImports.step, holder] using h
  | olderCollected =>
    rcases holder : s.older with _ | stage
    · simpa only [HistoryImports.step, holder] using h
    · cases stage with
      | collecting cutoffMs olderCutoff =>
        simp only [HistoryImports.step, holder]
        have hcleared : (s.update (.clearCheckpoint .older)).Laid :=
          h.setDevice rfl rfl rfl rfl fun hne => h.bounded (Or.inr (Or.inr hne))
        refine { hcleared with olderCutoff_eq := ?_ }
        rintro _ _ (hstage | hstage) <;> cases hstage
        exact h.olderCutoff_eq cutoffMs olderCutoff (Or.inl holder)
      | _ => simpa only [HistoryImports.step, holder] using h
  | olderCompleted =>
    rcases holder : s.older with _ | stage
    · simpa only [HistoryImports.step, holder] using h
    · cases stage with
      | collected cutoffMs olderCutoff =>
        simpa only [HistoryImports.step, holder] using h.completeOlder holder
      | _ => simpa only [HistoryImports.step, holder] using h
  | olderFailed => exact h.setOlder (Or.inl rfl)
  | visited visitTime =>
    change (if _ then _ else s : HistoryImports).Laid
    split
    · rename_i htaken
      refine { h with captured_ge := fun endMs hend other hother => ?_ }
      rcases List.mem_append.mp hother with hother | hother
      · exact h.captured_ge endMs hend other hother
      · rw [List.mem_singleton.mp hother]
        rw [DeviceRecord.takesLive, Option.mem_def.mp hend] at htaken
        exact decide_eq_true_iff.mp htaken
    · exact h
  | restart =>
    have hquiet : ({ s with older := none } : HistoryImports).Laid := h.setOlder (Or.inl rfl)
    refine { hquiet with bounded := fun hneeded => h.bounded (Or.inr (Or.inr ?_)) }
    rcases hneeded with hneeded | hneeded | hneeded
    · exact absurd hneeded (lt_irrefl 0)
    · exact absurd rfl hneeded
    · exact hneeded

/-- **A visit before the boundary** that was taken live is taken on the wrong side of it. -/
theorem not_partitioned_boundary {s' : HistoryImports} {now : ℤ} {visitTime : ℚ}
    (hend : s'.device.historyBulkEndMs = some now) (hcaptured : visitTime ∈ s'.captured)
    (hbefore : visitTime < now) : ¬s'.Partitioned deterministicUuid := fun hpartitioned =>
  absurd ((hpartitioned.live_exact now hend).2 visitTime hcaptured) (not_le.mpr hbefore)

/-- **An initial import with another scope** makes chunks with the ids of the scope whose
cutoff it took. -/
theorem Laid.not_partitioned_backfill (h : s.Laid) (hinitial : s.initial = some .downloading)
    {cutoffMs now : ℤ} (hscopes : s.scopes ≠ [])
    (hnew : s.initialScope cutoffMs now ∉ s.scopes) :
    ¬(s.step (.backfillHistory cutoffMs now)).Partitioned deterministicUuid := by
  intro hpartitioned
  obtain ⟨endMs, hend⟩ :=
    Option.ne_none_iff_exists'.mp (h.bounded (Or.inr (Or.inl (by rw [hinitial]; simp))))
  obtain ⟨cutoff, hcutoff⟩ : ∃ cutoff, s.device.historyBulkCutoffMs = some cutoff := by
    cases h.lays with
    | untouched _ _ hnil => exact absurd hnil hscopes
    | settled hc _ _ _ => exact ⟨_, hc⟩
    | pending hc _ _ _ _ _ _ => exact ⟨_, hc⟩
  have hscope : s.initialScope cutoffMs now = ⟨cutoff, endMs⟩ := by
    rw [initialScope, hcutoff, hend]
    rfl
  rw [hscope] at hnew
  have htaken : (s.step (.backfillHistory cutoffMs now)).scopes = ⟨cutoff, endMs⟩ :: s.scopes := by
    simp [HistoryImports.step, hinitial, HistoryImports.backfillHistoryBulk, hscope, hcutoff, hend,
      collectHistoryBulk, take, DeviceRecord.cutoff, DeviceRecord.endMs, hnew]
  obtain ⟨scope, hmem, hlow⟩ := h.lays.exists_scope hcutoff
  have hdiffer := hpartitioned.ids_differ
  rw [htaken] at hdiffer
  refine (List.pairwise_cons.mp hdiffer).1 scope hmem 0 0 ?_
  rw [hlow]

/-- **An older import that ends past the boundary** takes times at or after it. -/
theorem not_partitioned_olderPass {cutoffMs coveredFromMs endMs : ℤ}
    (holder : s.older = some (.pass cutoffMs))
    (hwanted : (DeviceUpdate.olderScope cutoffMs).wanted s.device = true)
    (hcovered : s.device.historyBulkCutoffMs = some coveredFromMs)
    (hend : s.device.historyBulkEndMs = some endMs) (hpast : endMs < coveredFromMs) :
    ¬(s.step .olderPass).Partitioned deterministicUuid := by
  intro hpartitioned
  have hupdate : s.update (.olderScope cutoffMs) =
      { s with device := { s.device with
          historyOlderCutoffMs := some cutoffMs
          historyOlderEndMs := s.device.historyBulkCutoffMs } } := if_pos hwanted
  simp only [DeviceUpdate.wanted, hcovered, Bool.and_eq_true, decide_eq_true_eq] at hwanted
  obtain ⟨⟨hcompleted, -⟩, hlt⟩ := hwanted
  have hstep : s.step .olderPass =
      { ({ s with device := { s.device with
            historyOlderCutoffMs := some cutoffMs
            historyOlderEndMs := some coveredFromMs } } : HistoryImports).take
          ⟨cutoffMs, coveredFromMs⟩ with older := some (.collecting cutoffMs cutoffMs) } := by
    have hnone : s.device.initialImportCompletedAt ≠ none := Option.isSome_iff_ne_none.mp hcompleted
    simp only [HistoryImports.step, holder, HistoryImports.importOlderHistoryPass, if_neg hnone,
      hupdate, hcovered]
    rfl
  have hmem : (⟨cutoffMs, coveredFromMs⟩ : ImportScope) ∈ (s.step .olderPass).scopes := by
    rw [hstep]
    exact mem_take _ _
  have hsame : (s.step .olderPass).device.historyBulkEndMs = some endMs := by
    rw [hstep]
    change (take _ _).device.historyBulkEndMs = _
    rw [take]
    split <;> exact hend
  obtain ⟨boundary, hboundary, low, hunion⟩ := hpartitioned.covers (List.ne_nil_of_mem hmem)
  obtain rfl := Option.some.inj (hsame.symm.trans hboundary)
  -- the later of its cutoff and the boundary
  have htime : ((max cutoffMs endMs : ℤ) : ℚ) ∈ (⟨cutoffMs, coveredFromMs⟩ : ImportScope).times := by
    constructor
    · exact_mod_cast le_max_left cutoffMs endMs
    · exact_mod_cast max_lt hlt hpast
  have hin : ((max cutoffMs endMs : ℤ) : ℚ) ∈ Set.Ico low (endMs : ℚ) :=
    hunion ▸ Set.mem_iUnion₂.mpr ⟨_, hmem, htime⟩
  have hbefore : max cutoffMs endMs < endMs := by exact_mod_cast hin.2
  exact absurd (le_max_right cutoffMs endMs) (not_le.mpr hbefore)

theorem Laid.not_partitioned (h : s.Laid) {event : ImportEvent} (hbad : ¬s.KeepsApart event) :
    ¬(s.step event).Partitioned deterministicUuid := by
  cases event with
  | initializeCapture now =>
    simp only [KeepsApart, Classical.not_imp, not_forall, not_le] at hbad
    obtain ⟨hcompleted, hend, visitTime, hcaptured, hbefore⟩ := hbad
    have hstep : s.step (.initializeCapture now) = { s with
        device := { s.device with historyBulkEndMs := some now }, starting := s.starting + 1 } := by
      simp [HistoryImports.step, HistoryImports.initializeCapture, HistoryImports.update,
        DeviceUpdate.wanted, DeviceUpdate.apply, hcompleted, hend]
    rw [hstep]
    exact not_partitioned_boundary rfl hcaptured hbefore
  | replayBoundary now =>
    simp only [KeepsApart, Classical.not_imp, not_forall, not_le] at hbad
    obtain ⟨hcompleted, hend, visitTime, hcaptured, hbefore⟩ := hbad
    have hstep : s.step (.replayBoundary now) = { s with
        device := { s.device with historyBulkEndMs := some now } } := by
      simp [HistoryImports.step, HistoryImports.update, DeviceUpdate.wanted, DeviceUpdate.apply,
        hcompleted, hend]
    rw [hstep]
    exact not_partitioned_boundary rfl hcaptured hbefore
  | backfillHistory cutoffMs now =>
    simp only [KeepsApart, Classical.not_imp, not_or] at hbad
    obtain ⟨hinitial, hscopes, hnew⟩ := hbad
    exact h.not_partitioned_backfill hinitial hscopes hnew
  | olderPass =>
    rcases holder : s.older with _ | stage
    · simp [KeepsApart, holder] at hbad
    · cases stage with
      | pass cutoffMs =>
        simp only [KeepsApart, holder, Classical.not_imp, not_forall, not_le] at hbad
        obtain ⟨hwanted, coveredFromMs, hcovered, endMs, hend, hpast⟩ := hbad
        exact not_partitioned_olderPass holder hwanted hcovered hend hpast
      | _ => simp [KeepsApart, holder] at hbad
  | _ => exact absurd trivial hbad

/-- **The time line is shared out** in every state of a run exactly if no visit before the boundary
was taken live when it is fixed, no initial import takes another scope than the first, and no older
one is set below a cutoff past the boundary. -/
theorem partitioned_iff (deterministicUuid : String → ℤ → ℕ → Id)
    (hinjective : ∀ deviceId, Function.Injective2 (deterministicUuid deviceId))
    (deviceId accessToken accessTokenExpiresAt : String) (refreshToken : ℕ)
    (events : List ImportEvent) :
    Runs.Always step (Partitioned deterministicUuid)
        (start deviceId accessToken accessTokenExpiresAt refreshToken) events ↔
      Runs.Meets step KeepsApart
        (start deviceId accessToken accessTokenExpiresAt refreshToken) events :=
  Runs.always_iff_meets (I := Laid) (fun _ h => h.partitioned hinjective)
    (fun _ _ h hok => h.step hok) (fun _ _ h hbad => h.not_partitioned hbad)
    (Laid.start deviceId accessToken accessTokenExpiresAt refreshToken)

/-- An import with interruptions, and a retention widened twice. -/
def widenedTwice : List ImportEvent :=
  [.initializeCapture 1000, .runInitialImport, .visited 1001, .backfillHistory 900 1002, .restart,
    .initializeCapture 1003, .runInitialImport, .backfillHistory 950 1004, .initialCollected,
    .initialCompleted "done", .runOlderHistoryImport 500, .olderPass, .restart,
    .runOlderHistoryImport 100, .olderPass, .olderCollected, .olderCompleted, .olderPass,
    .olderCollected, .olderCompleted, .olderPass, .visited 1005]

theorem partitioned_widenedTwice :
    Runs.Always step (Partitioned fun deviceId cutoffMs chunkIndex =>
        (deviceId, cutoffMs, chunkIndex)) (start "laptop" "token" "later" 0) widenedTwice :=
  (partitioned_iff (fun deviceId cutoffMs chunkIndex => (deviceId, cutoffMs, chunkIndex))
    (fun _ _ _ _ _ hsame => by simpa using hsame) "laptop" "token" "later" 0 widenedTwice).mpr
    (by decide)

/-- A device connects and captures a visit. Its import gets to the history when the retention
has passed the boundary, and then the retention is widened. -/
def lateImport : List ImportEvent :=
  [.initializeCapture 1000, .visited 1001, .runInitialImport, .backfillHistory 1010 1700,
    .initialCollected, .initialCompleted "done", .runOlderHistoryImport 500, .olderPass]

/-- The visit captured live is taken by the older import again. -/
theorem not_partitioned :
    (Runs.run step (start "laptop" "token" "later" 0) lateImport).scopes =
        [⟨500, 1010⟩, ⟨1010, 1000⟩] ∧
      (Runs.run step (start "laptop" "token" "later" 0) lateImport).captured = [1001] ∧
      ¬Runs.Always step (Partitioned fun deviceId cutoffMs chunkIndex =>
        (deviceId, cutoffMs, chunkIndex)) (start "laptop" "token" "later" 0) lateImport := by
  have hscopes : (Runs.run step (start "laptop" "token" "later" 0) lateImport).scopes =
      [⟨500, 1010⟩, ⟨1010, 1000⟩] := by decide +kernel
  have hcaptured : (Runs.run step (start "laptop" "token" "later" 0) lateImport).captured =
      [1001] := by decide +kernel
  refine ⟨hscopes, hcaptured, fun hpartitioned => ?_⟩
  have hlast := (Runs.always_iff_take.mp hpartitioned 8).sent_once
  change ∀ visitTime ∈ (Runs.run step (start "laptop" "token" "later" 0) lateImport).captured,
    ∀ scope ∈ (Runs.run step (start "laptop" "token" "later" 0) lateImport).scopes,
      visitTime ∉ scope.times at hlast
  rw [hscopes, hcaptured] at hlast
  refine hlast 1001 List.mem_cons_self ⟨500, 1010⟩ List.mem_cons_self ?_
  constructor <;> decide +kernel

/-- A visit that is flushed before the boundary is fixed is taken live and by the import. -/
example : (Runs.run step (start "laptop" "token" "later" 0)
    [.visited 990, .initializeCapture 1000, .runInitialImport, .backfillHistory 900 1002]).captured =
      [990] ∧
    (Runs.run step (start "laptop" "token" "later" 0)
      [.visited 990, .initializeCapture 1000, .runInitialImport, .backfillHistory 900 1002]).scopes =
        [⟨900, 1000⟩] := by decide +kernel

end Runs

end HistoryImports

end Client

end HelixSync
