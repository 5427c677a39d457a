import HelixSync.Client.RestoreEverything
import HelixSync.Client.RestoreJob

/-!
# The safety copy of a restore

A restore must not start without a copy of the bookmarks on the server (`uploadPreRestorePoint`,
`extension/src/restore-points/restore.ts`). The id of the copy goes along with the job, through the
record in the storage, to the runs that resume it. Whatever happens meanwhile, every turn in which
operations are applied was preceded by the upload of the copy of its job, and this by the reading of the
bookmarks it holds (`HelixSync.Client.RestoreSystem.copied_before_applied`); and a restore changes the
bookmarks in these turns only (`HelixSync.Client.RestoreSystem.browser_step`).
-/

namespace HelixSync

namespace Client

namespace RestoreSystem

variable {bookmarks : BookmarksModule} {isManaged : ChromiumId → Bool} {s : RestoreSystem} {n : ℕ}
  {await : RestoreAwait} {id : String} {task : RestoreTask} {live : List LiveBookmarkNode}
  {copy : List PointNode} {log : List RestoreEntry}

/-! ### The parts of a step -/

@[simp] theorem log_suspend : (s.suspend n await).log = s.log := rfl

/-- The record of the job that is planned. -/
def plannedJob (task : RestoreTask) (plan : RestorePlan) (preRestorePointId : String) : RestoreJobRecord :=
  let total := (task.resumeJob.map RestoreJobRecord.total).getD plan.operations.length
  { request := task.request
    preRestorePointId := preRestorePointId
    applied := if task.resumeJob.isSome then total - plan.operations.length else 0
    total := total }

variable (bookmarks s n task live id) in
theorem plan_cases : s.plan bookmarks n task live id = s.fail n task.request .unknownScope ∨
    ∃ plan, planRestore bookmarks.isSyncableUrl task.nodes live task.request.mode task.request.scope = .ok plan ∧
      s.plan bookmarks n task live id = s.suspend n (.beginning task plan (plannedJob task plan id)) := by
  rw [RestoreSystem.plan]
  split
  · exact Or.inl rfl
  · rename_i plan hplan
    exact Or.inr ⟨plan, hplan, rfl⟩

/-! ### The log -/

/-- A copy was made, of the bookmarks in some order. -/
def IsCaptured (log : List RestoreEntry) (id : String) (copy : List PointNode) : Prop :=
  ∃ listing, .captured id listing copy ∈ log

/-- The server has taken a copy. -/
def IsSaved (log : List RestoreEntry) (id : String) : Prop :=
  ∃ copy, .saved id copy ∈ log

/-- A copy has an id of its own, it is made before the server has it, and the server has it before
operations are applied. -/
def InOrder : List RestoreEntry → Prop
  | [] => True
  | .created _ :: log | .removed _ :: log => InOrder log
  | .captured id _ _ :: log => (∀ copy, ¬ IsCaptured log id copy) ∧ InOrder log
  | .saved id copy :: log => IsCaptured log id copy ∧ InOrder log
  | .applied id _ :: log => IsSaved log id ∧ InOrder log

theorem InOrder.of_append {later : List RestoreEntry} (h : InOrder (later ++ log)) : InOrder log := by
  induction later with
  | nil => exact h
  | cons entry later ih =>
    cases entry with
    | created | removed => exact ih h
    | captured | saved | applied => exact ih h.2

theorem IsCaptured.mono {log' : List RestoreEntry} (h : IsCaptured log id copy) (hsub : log ⊆ log') :
    IsCaptured log' id copy :=
  h.imp fun _ hmem => hsub hmem

theorem IsSaved.mono {log' : List RestoreEntry} (h : IsSaved log id) (hsub : log ⊆ log') :
    IsSaved log' id :=
  h.imp fun _ hmem => hsub hmem

/-- What the server has was made. -/
theorem InOrder.isCaptured (h : InOrder log) (hsaved : .saved id copy ∈ log) :
    IsCaptured log id copy := by
  obtain ⟨later, earlier, rfl⟩ := List.append_of_mem hsaved
  exact IsCaptured.mono h.of_append.1
    (List.Subset.trans (List.subset_cons_self _ _) (List.subset_append_right _ _))

/-- **Nothing is applied before its copy is made.** -/
theorem InOrder.not_applied {listing : List LiveBookmarkNode}
    (h : InOrder (.captured id listing copy :: log)) (stage : BookmarksModule.BatchStage) :
    .applied id stage ∉ log := by
  intro happlied
  obtain ⟨later, earlier, rfl⟩ := List.append_of_mem happlied
  obtain ⟨other, hsaved⟩ := (h.2.of_append).1
  exact h.1 other ((h.2.of_append.2.isCaptured hsaved).mono
    (List.Subset.trans (List.subset_cons_self _ _) (List.subset_append_right _ _)))

/-- The log is in order and tells which copies the server has. -/
structure Recorded (log : List RestoreEntry) (points : List (String × List PointNode)) (ids : List String) :
    Prop where
  points : ∀ id copy later earlier, log = later ++ .saved id copy :: earlier →
    (id, copy) ∈ points ∨ .removed id ∈ later
  ids : ∀ id copy, IsCaptured log id copy → id ∈ ids
  inOrder : InOrder log

namespace Recorded

variable {points points' : List (String × List PointNode)} {ids : List String} {entry : RestoreEntry}
  {copy : List PointNode}

/-- Another entry, which says what becomes of the points. -/
theorem cons (h : Recorded log points ids)
    (hsaved : ∀ id copy, entry = .saved id copy → (id, copy) ∈ points')
    (hpoints : ∀ id copy, (id, copy) ∈ points → (id, copy) ∈ points' ∨ entry = .removed id)
    (hids : ∀ id copy, IsCaptured (entry :: log) id copy → id ∈ ids) (hinOrder : InOrder (entry :: log)) :
    Recorded (entry :: log) points' ids where
  points id copy later earlier heq := by
    rcases List.cons_eq_append_iff.mp heq with ⟨rfl, hcons⟩ | ⟨later', rfl, hlog⟩
    · exact Or.inl (hsaved id copy (List.cons.inj hcons).1.symm)
    · rcases h.points id copy later' earlier hlog with hmem | hremoved
      · rcases hpoints id copy hmem with hmem | rfl
        · exact Or.inl hmem
        · exact Or.inr List.mem_cons_self
      · exact Or.inr (List.mem_cons_of_mem _ hremoved)
  ids := hids
  inOrder := hinOrder

/-- An entry that is not about a copy. -/
theorem ids_cons (h : Recorded log points ids) (hentry : ∀ id listing copy, entry ≠ .captured id listing copy) :
    ∀ id copy, IsCaptured (entry :: log) id copy → id ∈ ids := by
  rintro id copy ⟨listing, hmem⟩
  exact h.ids id copy ⟨listing, (List.mem_cons.mp hmem).resolve_left fun heq => hentry id listing copy heq.symm⟩

theorem captured (h : Recorded log points ids) (hfresh : id ∉ ids) (listing : List LiveBookmarkNode) :
    Recorded (.captured id listing copy :: log) points (id :: ids) where
  points other copy later earlier heq := by
    rcases List.cons_eq_append_iff.mp heq with ⟨-, hcons⟩ | ⟨later', rfl, hlog⟩
    · cases hcons
    · exact (h.points other copy later' earlier hlog).imp_right (List.mem_cons_of_mem _)
  ids other copy := by
    rintro ⟨listing, hmem⟩
    rcases List.mem_cons.mp hmem with heq | hmem
    · rw [(RestoreEntry.captured.inj heq).1]
      exact List.mem_cons_self
    · exact List.mem_cons_of_mem _ (h.ids other copy ⟨listing, hmem⟩)
  inOrder := ⟨fun copy hcaptured => hfresh (h.ids id copy hcaptured), h.inOrder⟩

theorem saved (h : Recorded log points ids) (hcaptured : IsCaptured log id copy) :
    Recorded (.saved id copy :: log) ((id, copy) :: points) ids := by
  refine h.cons ?_ (fun _ _ hmem => Or.inl (List.mem_cons_of_mem _ hmem)) (h.ids_cons nofun)
    ⟨hcaptured, h.inOrder⟩
  rintro other copy' heq
  obtain ⟨rfl, rfl⟩ := RestoreEntry.saved.inj heq
  exact List.mem_cons_self

theorem removed (h : Recorded log points ids) (id : String) :
    Recorded (.removed id :: log) (points.filter fun point => point.1 ≠ id) ids := by
  refine h.cons nofun (fun other copy hmem => ?_) (h.ids_cons nofun) h.inOrder
  by_cases heq : other = id
  · exact Or.inr (heq ▸ rfl)
  · exact Or.inl (List.mem_filter.mpr ⟨hmem, decide_eq_true heq⟩)

theorem created (h : Recorded log points ids) (items : List RemoteItem) :
    Recorded (.created items :: log) points ids :=
  h.cons nofun (fun _ _ hmem => Or.inl hmem) (h.ids_cons nofun) h.inOrder

theorem applied (h : Recorded log points ids) (hsaved : IsSaved log id) (stage : BookmarksModule.BatchStage) :
    Recorded (.applied id stage :: log) points ids :=
  h.cons nofun (fun _ _ hmem => Or.inl hmem) (h.ids_cons nofun) ⟨hsaved, h.inOrder⟩

end Recorded

/-! ### The invariant -/

/-- The copy of the job a call works for has been taken. -/
def SafeCall (log : List RestoreEntry) : RestoreAwait → Prop
  | .loading _ resumeJob => ∀ job ∈ resumeJob, IsSaved log job.preRestorePointId
  | .waiting task | .syncing task => ∀ job ∈ task.resumeJob, IsSaved log job.preRestorePointId
  | .uploading _ _ _ id copy => IsCaptured log id copy
  | .beginning _ _ job | .creating _ _ job _ | .applying _ _ job _ _ _ | .recording _ _ job _ =>
    IsSaved log job.preRestorePointId
  | _ => True

theorem SafeCall.mono {log' : List RestoreEntry} (h : SafeCall log await) (hsub : log ⊆ log') :
    SafeCall log' await := by
  cases await with
  | loading | waiting | syncing => exact fun job hjob => (h job hjob).mono hsub
  | uploading => exact IsCaptured.mono h hsub
  | beginning | creating | applying | recording => exact IsSaved.mono h hsub
  | _ => trivial

/-- Everything that applies operations, now or later, has the id of a copy that the server has. -/
structure Safe (s : RestoreSystem) : Prop where
  job : ∀ job ∈ s.job, IsSaved s.log job.preRestorePointId
  calls : ∀ await ∈ s.calls, SafeCall s.log await
  recorded : Recorded s.log s.points s.ids

namespace Safe

/-- A call goes on, and nothing else changes that matters. -/
theorem next (h : Safe s) {s' : RestoreSystem} (hcalls : s'.calls = s.calls.set n await) (hlog : s'.log = s.log)
    (hrecorded : Recorded s.log s'.points s'.ids) (hjob : ∀ job ∈ s'.job, IsSaved s.log job.preRestorePointId)
    (hawait : SafeCall s.log await) : Safe s' where
  job := by rwa [hlog]
  calls other hother := by
    rw [hlog]
    rw [hcalls] at hother
    rcases List.mem_or_eq_of_mem_set hother with hmem | rfl
    · exact h.calls other hmem
    · exact hawait
  recorded := by rwa [hlog]

theorem suspend (h : Safe s) (hawait : SafeCall s.log await) : Safe (s.suspend n await) :=
  h.next rfl rfl h.recorded h.job hawait

theorem fail (h : Safe s) (request : RestoreRequest) (code : RestoreErrorCode) :
    Safe (s.fail n request code) :=
  h.next rfl rfl h.recorded h.job trivial

theorem plan (h : Safe s) (hsaved : IsSaved s.log id) : Safe (s.plan bookmarks n task live id) := by
  rcases plan_cases bookmarks s n id task live with heq | ⟨plan, -, heq⟩
  · rw [heq]
    exact h.fail _ _
  · rw [heq]
    exact h.suspend hsaved

/-- More is in the log. -/
theorem extend (h : Safe s) {points : List (String × List PointNode)} {ids : List String}
    (hsub : s.log ⊆ log) (hrecorded : Recorded log points ids) (profile : Profile) :
    Safe { s with log := log, points := points, ids := ids, profile := profile } where
  job job hjob := (h.job job hjob).mono hsub
  calls other hother := (h.calls other hother).mono hsub
  recorded := hrecorded

/-- The record of the job is put. -/
theorem record (h : Safe s) {job : RestoreJobRecord} (hsaved : IsSaved s.log job.preRestorePointId)
    (progress : RestoreProgress) : Safe { s with job := some job, progress := progress } :=
  ⟨fun _ hother => Option.some.inj hother ▸ hsaved, h.calls, h.recorded⟩

theorem stopped (h : Safe s) : Safe s.stopped :=
  ⟨h.job, fun _ hmem => absurd hmem List.not_mem_nil, h.recorded⟩

theorem goOn (h : Safe s) {plan : RestorePlan} {job : RestoreJobRecord} (hsaved : IsSaved s.log job.preRestorePointId)
    (rest : List PlannedOperation) : Safe (s.goOn n task plan job rest) := by
  cases rest with
  | nil => exact h.next rfl rfl h.recorded h.job trivial
  | cons => exact h.suspend hsaved

theorem read (h : Safe s) (hjob : ∀ job ∈ task.resumeJob, IsSaved s.log job.preRestorePointId) :
    Safe (s.read bookmarks isManaged n task) := by
  have hswept : Safe { s with profile := sweepStaleBookmarkMappings s.profile } := ⟨h.job, h.calls, h.recorded⟩
  rw [RestoreSystem.read]
  dsimp only
  split
  · exact hswept.fail _ _
  · split
    · exact hswept.suspend trivial
    · rename_i job hresume
      exact hswept.plan (hjob job hresume)

theorem capture (h : Safe s) (kind : CopyKind) (outcome : RestoreOutcome) :
    Safe (s.capture bookmarks isManaged n task live kind outcome) := by
  cases outcome with
  | captured id =>
    rw [RestoreSystem.capture]
    split
    · exact h.fail _ _
    · split
      · exact h
      · rename_i hfresh
        split
        · exact h.fail _ _
        · exact (h.extend (List.subset_cons_self _ _) (h.recorded.captured hfresh _) _).suspend
            ⟨_, List.mem_cons_self⟩
  | _ => exact h.fail _ _

theorem upload (h : Safe s) (hcaptured : IsCaptured s.log id copy) (kind : CopyKind)
    (outcome : RestoreOutcome) : Safe (s.upload bookmarks n task live kind id copy outcome) := by
  have hadded : Safe { s with points := (id, copy) :: s.points, log := .saved id copy :: s.log } :=
    h.extend (List.subset_cons_self _ _) (h.recorded.saved hcaptured) _
  cases outcome with
  | ok => exact hadded.plan ⟨copy, List.mem_cons_self⟩
  | lost => exact hadded.fail _ _
  | refused =>
    cases kind with
    | preRestore => exact h.suspend trivial
    | manual => exact h.fail _ _
  | _ => exact h.fail _ _

theorem applyTurn (h : Safe s) {plan : RestorePlan} {job : RestoreJobRecord}
    (hsaved : IsSaved s.log job.preRestorePointId) (batch : BookmarksModule.Batch)
    (stage : BookmarksModule.BatchStage) (rest : List PlannedOperation) :
    Safe (s.applyTurn bookmarks n task plan job batch stage rest) := by
  have hsub : s.log ⊆ .applied job.preRestorePointId stage :: s.log := List.subset_cons_self _ _
  have happlied : Safe { s with
      profile := (s.turn bookmarks batch stage).1.run.profile
      log := .applied job.preRestorePointId stage :: s.log } :=
    h.extend hsub (h.recorded.applied hsaved stage) _
  rw [RestoreSystem.applyTurn]
  dsimp only
  split
  · exact happlied.fail _ _
  · split
    · exact happlied.suspend (hsaved.mono hsub)
    · exact happlied.suspend (hsaved.mono hsub)

/-- **What a call does keeps to its copy.** -/
theorem proceed (h : Safe s) (hmem : await ∈ s.calls) (outcome : RestoreOutcome) :
    Safe (s.proceed bookmarks isManaged n await outcome) := by
  have hcall := h.calls await hmem
  cases await with
  | starting request =>
    cases outcome with
    | ok => exact h.next rfl rfl h.recorded h.job nofun
    | _ => exact h.suspend trivial
  | readingJob =>
    cases outcome with
    | ok =>
      rw [RestoreSystem.proceed]
      split
      · exact h.suspend trivial
      · rename_i job hjob
        exact h.next rfl rfl h.recorded h.job fun other hother => h.job other (hjob.trans hother)
    | _ => exact h.suspend trivial
  | loading request resumeJob =>
    cases outcome with
    | ok =>
      rw [RestoreSystem.proceed]
      split
      · exact h.fail _ _
      · exact h.next rfl rfl h.recorded h.job hcall
    | failed => exact h.fail _ _
    | _ => exact h
  | waiting task =>
    cases outcome with
    | ok =>
      rw [RestoreSystem.proceed]
      split
      · exact h.next rfl rfl h.recorded h.job hcall
      · exact h
    | _ => exact h
  | syncing task =>
    cases outcome with
    | ok => exact h.read hcall
    | failed => exact h.fail _ _
    | _ => exact h
  | capturing task live kind => exact h.capture kind outcome
  | uploading task live kind id copy => exact h.upload hcall kind outcome
  | beginning task plan job =>
    cases outcome with
    | ok => exact (h.record hcall _).goOn hcall _
    | failed => exact h.fail _ _
    | _ => exact h
  | creating task plan job rest =>
    cases outcome with
    | created stamp =>
      have hsub : s.log ⊆ .created (stamp.create (rest.take restoreChunkSize)) :: s.log :=
        List.subset_cons_self _ _
      exact (h.extend hsub (h.recorded.created _) _).suspend (IsSaved.mono hcall hsub)
    | failed => exact h.fail _ _
    | _ => exact h
  | applying task plan job batch stage rest =>
    cases outcome with
    | ok => exact h.applyTurn hcall batch stage rest
    | failed => exact h.fail _ _
    | _ => exact h
  | recording task plan job rest =>
    cases outcome with
    | ok => exact (h.record hcall _).goOn hcall _
    | failed => exact h.fail _ _
    | _ => exact h
  | reporting task plan => exact h.suspend trivial
  | deleting task plan =>
    cases outcome with
    | ok => exact h.next rfl rfl h.recorded nofun trivial
    | _ => exact h.fail _ _
  | failing request code =>
    refine h.next rfl rfl h.recorded ?_ trivial
    cases outcome with
    | ok => exact nofun
    | _ => exact h.job
  | ended => cases outcome <;> exact h

/-- A worker that is stopped in a turn was in a turn of a call that keeps to its copy. -/
theorem interrupted (h : Safe s) (hmem : await ∈ s.calls) (k : ℕ) : Safe (s.interrupted bookmarks k await) := by
  have hcall := h.calls await hmem
  cases await with
  | applying task plan job batch stage rest =>
    rw [RestoreSystem.interrupted]
    split
    · have happlied := h.extend (List.subset_cons_self _ _) (h.recorded.applied hcall stage) ‹Profile›
      exact happlied.stopped
    · exact h
  | _ => exact h

theorem step (h : Safe s) (event : RestoreEvent) : Safe (s.step bookmarks isManaged event) := by
  cases event with
  | startRestore request | resumeInterruptedRestore =>
    rw [RestoreSystem.step]
    split
    · exact h
    · refine ⟨h.job, fun other hother => ?_, h.recorded⟩
      rcases List.mem_append.mp hother with hmem | hmem
      · exact h.calls other hmem
      · obtain rfl := List.mem_singleton.mp hmem
        trivial
  | previewRestore pointId =>
    rw [RestoreSystem.step]
    split
    · exact h
    · exact ⟨h.job, h.calls, h.recorded⟩
  | proceed n outcome =>
    rw [RestoreSystem.step]
    split
    · exact h
    · rename_i await hawait
      exact h.proceed (List.mem_of_getElem? hawait) outcome
  | edit | clearLoadedRestorePoint => exact ⟨h.job, h.calls, h.recorded⟩
  | upload id nodes =>
    rw [RestoreSystem.step]
    split
    · exact h
    · exact ⟨h.job, h.calls, fun other copy later earlier heq =>
        (h.recorded.points other copy later earlier heq).imp_left (List.mem_cons_of_mem _),
        fun other copy hcaptured => List.mem_cons_of_mem _ (h.recorded.ids other copy hcaptured),
        h.recorded.inOrder⟩
  | remove id => exact h.extend (List.subset_cons_self _ _) (h.recorded.removed id) _
  | stop => exact h.stopped
  | interrupt n k =>
    rw [RestoreSystem.step]
    split
    · exact h
    · rename_i await hawait
      exact h.interrupted (List.mem_of_getElem? hawait) k

end Safe

theorem safe_start (profile : Profile) (points : List (String × List PointNode)) : Safe (start profile points) :=
  ⟨fun _ hmem => absurd hmem (Option.not_mem_none _), fun _ hmem => absurd hmem List.not_mem_nil,
    by simp [start], fun _ _ ⟨_, hmem⟩ => absurd hmem List.not_mem_nil, trivial⟩

theorem safe_run (profile : Profile) (points : List (String × List PointNode)) (es : List RestoreEvent) :
    Safe (run bookmarks isManaged profile points es) :=
  Runs.invariant (fun _ event h => h.step event) (safe_start profile points) es

/-! ### What a step writes down -/

/-- A step writes down at most one entry: a copy is made of the bookmarks as they are, and only a turn of
a batch changes the browser. -/
inductive Traced (bookmarks : BookmarksModule) (isManaged : ChromiumId → Bool) (s s' : RestoreSystem) : Prop
  | quiet (hlog : s'.log = s.log) (hbrowser : s'.profile.browser = s.profile.browser)
  | captured {id : String} {copy : List PointNode} (hbrowser : s'.profile.browser = s.profile.browser)
    (hlog : s'.log = .captured id (bookmarks.readLiveBookmarks isManaged s.profile).nodes copy :: s.log)
    (hmapped : (bookmarks.readLiveBookmarks isManaged s.profile).unmapped = 0)
    (hcopy : buildPointNodes (bookmarks.readLiveBookmarks isManaged s.profile).nodes [] = .ok copy)
  | other {entry : RestoreEntry} (hbrowser : s'.profile.browser = s.profile.browser)
    (hlog : s'.log = entry :: s.log) (hentry : ∀ id listing copy, entry ≠ .captured id listing copy)
  | applied {id : String} {stage : BookmarksModule.BatchStage} (hlog : s'.log = .applied id stage :: s.log)

theorem traced_plan {s₀ : RestoreSystem} (h : Traced bookmarks isManaged s₀ s) :
    Traced bookmarks isManaged s₀ (s.plan bookmarks n task live id) := by
  rcases plan_cases bookmarks s n id task live with heq | ⟨plan, -, heq⟩ <;>
    · rw [heq]
      cases h with
      | quiet hlog hbrowser => exact .quiet hlog hbrowser
      | captured hbrowser hlog hmapped hcopy => exact .captured hbrowser hlog hmapped hcopy
      | other hbrowser hlog hentry => exact .other hbrowser hlog hentry
      | applied hlog => exact .applied hlog

theorem traced_goOn {plan : RestorePlan} {job : RestoreJobRecord} {s₀ : RestoreSystem} (rest : List PlannedOperation)
    (hlog : s.log = s₀.log) (hbrowser : s.profile.browser = s₀.profile.browser) :
    Traced bookmarks isManaged s₀ (s.goOn n task plan job rest) := by
  cases rest <;> exact .quiet hlog hbrowser

theorem traced_read : Traced bookmarks isManaged s (s.read bookmarks isManaged n task) := by
  rw [read]
  dsimp only
  split
  · exact .quiet rfl rfl
  · split
    · exact .quiet rfl rfl
    · exact traced_plan (.quiet rfl rfl)

theorem traced_capture (kind : CopyKind) (outcome : RestoreOutcome) :
    Traced bookmarks isManaged s (s.capture bookmarks isManaged n task live kind outcome) := by
  cases outcome with
  | captured id =>
    rw [capture]
    split
    · exact .quiet rfl rfl
    · rename_i hmapped
      split
      · exact .quiet rfl rfl
      · split
        · exact .quiet rfl rfl
        · rename_i copy hcopy
          exact .captured rfl rfl (Nat.eq_zero_of_not_pos hmapped) hcopy
  | _ => exact .quiet rfl rfl

theorem traced_upload (kind : CopyKind) (outcome : RestoreOutcome) :
    Traced bookmarks isManaged s (s.upload bookmarks n task live kind id copy outcome) := by
  cases outcome with
  | ok => exact traced_plan (.other rfl rfl nofun)
  | lost => exact .other rfl rfl nofun
  | refused => cases kind <;> exact .quiet rfl rfl
  | _ => exact .quiet rfl rfl

theorem traced_applyTurn {plan : RestorePlan} {job : RestoreJobRecord} (batch : BookmarksModule.Batch)
    (stage : BookmarksModule.BatchStage) (rest : List PlannedOperation) :
    Traced bookmarks isManaged s (s.applyTurn bookmarks n task plan job batch stage rest) := by
  rw [applyTurn]
  dsimp only
  split
  · exact .applied rfl
  · split <;> exact .applied rfl

theorem traced_proceed {outcome : RestoreOutcome} :
    Traced bookmarks isManaged s (s.proceed bookmarks isManaged n await outcome) := by
  cases await with
  | readingJob | loading | waiting =>
    cases outcome with
    | ok =>
      rw [proceed]
      split <;> exact .quiet rfl rfl
    | _ => exact .quiet rfl rfl
  | syncing task =>
    cases outcome with
    | ok => exact traced_read
    | _ => exact .quiet rfl rfl
  | capturing task live kind => exact traced_capture kind outcome
  | uploading task live kind id copy => exact traced_upload kind outcome
  | beginning | recording =>
    cases outcome with
    | ok => exact traced_goOn _ rfl rfl
    | _ => exact .quiet rfl rfl
  | creating =>
    cases outcome with
    | created => exact .other rfl rfl nofun
    | _ => exact .quiet rfl rfl
  | applying task plan job batch stage rest =>
    cases outcome with
    | ok => exact traced_applyTurn batch stage rest
    | _ => exact .quiet rfl rfl
  | _ => cases outcome <;> exact .quiet rfl rfl

theorem traced_interrupted (k : ℕ) : Traced bookmarks isManaged s (s.interrupted bookmarks k await) := by
  cases await with
  | applying =>
    rw [interrupted]
    split
    · exact .applied rfl
    · exact .quiet rfl rfl
  | _ => exact .quiet rfl rfl

variable (bookmarks isManaged s) in
/-- **What a step writes down.** Only a change of the bookmarks by somebody else is not. -/
theorem traced_step (event : RestoreEvent) : Traced bookmarks isManaged s (s.step bookmarks isManaged event) ∨
    ∃ profile, event = .edit profile := by
  cases event with
  | edit profile => exact Or.inr ⟨profile, rfl⟩
  | proceed n outcome =>
    refine Or.inl ?_
    rw [step]
    split
    · exact .quiet rfl rfl
    · exact traced_proceed
  | interrupt n k =>
    refine Or.inl ?_
    rw [step]
    split
    · exact .quiet rfl rfl
    · exact traced_interrupted k
  | startRestore | resumeInterruptedRestore | previewRestore | upload =>
    refine Or.inl ?_
    rw [step]
    split <;> exact .quiet rfl rfl
  | remove =>
    refine Or.inl (.other rfl rfl ?_)
    rintro _ _ _ ⟨⟩
  | clearLoadedRestorePoint | stop => exact Or.inl (.quiet rfl rfl)

/-- **A restore changes the bookmarks in the turns of its batches only.** -/
theorem browser_step {event : RestoreEvent}
    (h : (s.step bookmarks isManaged event).profile.browser ≠ s.profile.browser) :
    (∃ id stage, (s.step bookmarks isManaged event).log = .applied id stage :: s.log) ∨
      ∃ profile, event = .edit profile := by
  refine (traced_step bookmarks isManaged s event).imp_left fun htraced => ?_
  cases htraced with
  | quiet _ hbrowser | captured hbrowser _ _ _ | other hbrowser _ _ => exact absurd hbrowser h
  | applied hlog => exact ⟨_, _, hlog⟩

/-! ### When a copy is made -/

section Captured

variable {listing : List LiveBookmarkNode} {before later : List RestoreEntry}

/-- A copy is of the bookmarks that are read for it. -/
theorem captured_step {event : RestoreEvent}
    (hlog : (s.step bookmarks isManaged event).log = later ++ .captured id listing copy :: before) :
    (∃ later', s.log = later' ++ .captured id listing copy :: before) ∨
      s.log = before ∧ (bookmarks.readLiveBookmarks isManaged s.profile).nodes = listing ∧
        (bookmarks.readLiveBookmarks isManaged s.profile).unmapped = 0 ∧ buildPointNodes listing [] = .ok copy := by
  rcases traced_step bookmarks isManaged s event with htraced | ⟨profile, rfl⟩
  · cases htraced with
    | quiet hsame => exact Or.inl ⟨later, hsame.symm.trans hlog⟩
    | captured _ hnew hmapped hcopy =>
      rcases List.cons_eq_append_iff.mp (hnew.symm.trans hlog) with ⟨-, hcons⟩ | ⟨later', -, hold⟩
      · obtain ⟨hentry, rfl⟩ := List.cons.inj hcons
        obtain ⟨-, rfl, rfl⟩ := RestoreEntry.captured.inj hentry
        exact Or.inr ⟨rfl, rfl, hmapped, hcopy⟩
      · exact Or.inl ⟨later', hold⟩
    | other _ hnew hentry =>
      rcases List.cons_eq_append_iff.mp (hnew.symm.trans hlog) with ⟨-, hcons⟩ | ⟨later', -, hold⟩
      · exact absurd (List.cons.inj hcons).1.symm (hentry _ _ _)
      · exact Or.inl ⟨later', hold⟩
    | applied hnew =>
      rcases List.cons_eq_append_iff.mp (hnew.symm.trans hlog) with ⟨-, hcons⟩ | ⟨later', -, hold⟩
      · cases (List.cons.inj hcons).1
      · exact Or.inl ⟨later', hold⟩
  · exact Or.inl ⟨later, hlog⟩

/-- A copy was made at some time, of the bookmarks as they were then. -/
theorem captured_run (profile : Profile) (points : List (String × List PointNode)) {es : List RestoreEvent}
    (hlog : (run bookmarks isManaged profile points es).log = later ++ .captured id listing copy :: before) :
    buildPointNodes listing [] = .ok copy ∧ ∃ first rest, es = first ++ rest ∧
      (run bookmarks isManaged profile points first).log = before ∧
      let read := bookmarks.readLiveBookmarks isManaged (run bookmarks isManaged profile points first).profile
      read.nodes = listing ∧ read.unmapped = 0 := by
  induction es using List.reverseRecOn generalizing later with
  | nil => exact absurd hlog (by simp [start])
  | append_singleton es event ih =>
    rw [run, Runs.run_append] at hlog
    rcases captured_step hlog with ⟨later', hold⟩ | ⟨hbefore, hlisting, hmapped, hcopy⟩
    · obtain ⟨hcopy, first, rest, rfl, hread⟩ := ih hold
      exact ⟨hcopy, first, rest ++ [event], List.append_assoc _ _ _, hread⟩
    · exact ⟨hcopy, es, [event], rfl, hbefore, hlisting, hmapped⟩

end Captured

/-- **No operation without a copy.** In every run, however the calls are interleaved, stopped and resumed
and whatever happens to the bookmarks meanwhile, operations are applied only when the server has taken a
copy for their job; it has it still unless it has removed it since. That copy was made before, of all the
bookmarks as they were then, and before anything that was applied for the same job. -/
theorem copied_before_applied (profile : Profile) (points : List (String × List PointNode))
    (es : List RestoreEvent) {id : String} {stage : BookmarksModule.BatchStage}
    {later earlier : List RestoreEntry}
    (h : (run bookmarks isManaged profile points es).log = later ++ .applied id stage :: earlier) :
    ∃ copy listing, ∃ saving capturing before, earlier = saving ++ .saved id copy :: (capturing ++
        .captured id listing copy :: before) ∧
      ((id, copy) ∈ (run bookmarks isManaged profile points es).points ∨
        .removed id ∈ later ++ .applied id stage :: saving) ∧
      (∀ other, .applied id other ∉ before) ∧ buildPointNodes listing [] = .ok copy ∧
      ∃ first rest, es = first ++ rest ∧ (run bookmarks isManaged profile points first).log = before ∧
        let read := bookmarks.readLiveBookmarks isManaged (run bookmarks isManaged profile points first).profile
        read.nodes = listing ∧ read.unmapped = 0 := by
  have hsafe : Recorded (run bookmarks isManaged profile points es).log _ _ := (safe_run profile points es).recorded
  have hinOrder := hsafe.inOrder
  rw [h] at hinOrder
  obtain ⟨⟨copy, hsaved⟩, hearlier⟩ := hinOrder.of_append
  obtain ⟨saving, made, rfl⟩ := List.append_of_mem hsaved
  obtain ⟨⟨listing, hcaptured⟩, hmade⟩ := hearlier.of_append
  obtain ⟨capturing, before, rfl⟩ := List.append_of_mem hcaptured
  have hstored := hsafe.points id copy (later ++ .applied id stage :: saving)
    (capturing ++ .captured id listing copy :: before) (by rw [h]; simp)
  have hmadeOf : (run bookmarks isManaged profile points es).log = (later ++ .applied id stage ::
      (saving ++ .saved id copy :: capturing)) ++ .captured id listing copy :: before := by rw [h]; simp
  obtain ⟨hcopy, hread⟩ := captured_run profile points hmadeOf
  exact ⟨copy, listing, saving, capturing, before, rfl, hstored, hmade.of_append.not_applied, hcopy, hread⟩

/-- A device with a folder inside a new one. -/
def smallModule : BookmarksModule where
  chromiumIdByObjectId := [(0x00000000000070008000000000000001, 1), (0x00000000000070008000000000000002, 2)]
  standInIds := []
  linkExistingBookmarks := false
  isSyncableUrl := fun _ => true

def smallProfile : Profile where
  browser := ⟨[⟨0, none, "", none⟩, ⟨1, some 0, "Bar", none⟩, ⟨2, some 0, "Other", none⟩,
    ⟨4, some 2, "New", none⟩, ⟨5, some 4, "Work", none⟩], 6⟩
  mappings := [(4, 0x44444444444474448444444444444444), (5, 0x22222222222272228222222222222222)]
  deferred := []
  fields := fun _ => none

/-- A restore of the small point is started, and goes as far as its first operation, which restores the
bookmark. -/
def smallStart : List RestoreEvent :=
  [.startRestore ⟨"point", .exactly, .all⟩, .proceed 0 .ok, .proceed 0 .ok, .proceed 0 .ok, .proceed 0 .ok,
    .proceed 0 (.captured "copy"), .proceed 0 .ok, .proceed 0 .ok,
    .proceed 0 (.created ⟨9, 0, fun i => Fin.ofNat _ i⟩), .proceed 0 .ok, .proceed 0 .ok]

theorem copied_before_applied_smallStart :
    ∃ copy first rest, smallStart = first ++ rest ∧
      buildPointNodes (smallModule.readLiveBookmarks (fun _ => false)
        (run smallModule (fun _ => false) smallProfile [("point", smallPoint.nodes)] first).profile).nodes [] =
          .ok copy := by
  obtain ⟨stage, earlier, hlog⟩ : ∃ stage earlier,
      (run smallModule (fun _ => false) smallProfile [("point", smallPoint.nodes)] smallStart).log =
        [] ++ .applied "copy" stage :: earlier := ⟨_, _, rfl⟩
  obtain ⟨copy, _, _, _, _, -, -, -, hcopy, first, rest, hsplit, -, rfl, -⟩ :=
    copied_before_applied smallProfile [("point", smallPoint.nodes)] smallStart hlog
  exact ⟨copy, first, rest, hsplit, hcopy⟩

end RestoreSystem

end Client

end HelixSync
