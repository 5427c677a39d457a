import HelixSync.Client.UploadLoop

/-!
# A call of `uploadPending`

`uploadPending` (`extension/src/sync/engine.ts`) takes batch after batch from the queue and
works the answers off in separate transactions: what was accepted or duplicate leaves the
queue, rejected restores of objects the server never saw are sent again as creates
(`reissueRestoresAsCreate`), the other operations whose object was not found are requeued
with one more attempt, and the rest is removed. Any of these steps may fail, and then one
`catch` requeues the *whole* batch, whatever has been done about it so far.

`HelixSync.Client.UploadCall.Sound` is what one expects of the queue after a batch, and
`HelixSync.Client.UploadCall.sound_iff` says when a call keeps it: a failure after the answer
is harmless only if nothing was accepted and every operation whose object was not found had
been counted by then.

The records of a batch are kept in memory and changed in place, so that an attempt counted
before a failure is still counted after it. A transaction takes effect as a whole or not at
all, and at most one step of a batch fails. The bookkeeping for the sync throttle and the
`field_state` store are left out.
-/

namespace HelixSync

namespace Client

/-- `MAX_BATCHES_PER_CYCLE`. -/
def maxBatchesPerCycle : ℕ := 50

/-- `IDB_BATCH_CHUNK`. -/
def idbBatchChunk : ℕ := 200

/-- Where a batch may fail. -/
inductive FailurePoint where
  | stuckRemoval
  | marking
  | request
  | resolvedRemoval
  /-- `reissueRestoresAsCreate`, before it has taken sequence numbers, -/
  | reissue
  /-- then before its transaction on the queue, -/
  | replacement
  /-- and after it, in `recordLocalFieldStatesBatch`. -/
  | fieldStates
  /-- The requeueing, after so many chunks of records have been updated. -/
  | requeue (chunks : ℕ)
  | removal
  deriving DecidableEq

/-- What the surroundings contribute to a batch. -/
structure BatchEnv where
  /-- Operations enqueued by captures before the batch is read. -/
  arrivals : List OperationIn
  response : BatchOutcome
  /-- Whether `getDevice` finds a device. -/
  device : Bool
  /-- The id and the wire payload of the create for a restore, if it can be decrypted. -/
  sealRestore : Uuid → Option Sealed
  failure : Option FailurePoint

/-! ### Working an answer off -/

/-- The queue, the records of the batch in memory, and the counters. -/
structure Work where
  pending : List PendingOperationRecord
  retryable : List PendingOperationRecord
  deviceSequence : ℤ
  lamportClock : ℤ

namespace Work

variable (env : BatchEnv)

/-- A step that may fail. -/
def attempt (point : FailurePoint) (w next : Work) : Except Work Work :=
  if env.failure = some point then .error w else .ok next

/-- Without what was accepted or duplicate. -/
def resolved (w : Work) : Work :=
  { w with pending := removeFromQueue w.pending (resolvedIds env.response) }

/-- What was accepted or duplicate leaves the queue. -/
def removeResolved (w : Work) : Except Work Work := attempt env .resolvedRemoval w (resolved env w)

/-- `decoded`: the restores that can be decrypted, as creates. -/
def decodedRestores (records : List PendingOperationRecord) :
    List (PendingLocalOperation × Sealed) :=
  records.filterMap fun r => (env.sealRestore r.id).map fun sealed => (reissueItem r.operation, sealed)

/-- `reissueRestoresAsCreate`. -/
def reissueRestoresAsCreate (records : List PendingOperationRecord) (w : Work) :
    Except Work Work :=
  if env.failure = some .reissue then .error w
  else if env.device = false then .ok w
  else
    let decoded := decodedRestores env records
    let ids := records.map PendingOperationRecord.id
    if decoded.isEmpty then .ok { w with pending := removeFromQueue w.pending ids }
    else
      let replacements := buildOperations decoded w.deviceSequence w.lamportClock
      let reserved : Work :=
        { w with
          deviceSequence := w.deviceSequence + decoded.length
          lamportClock := w.lamportClock + decoded.length }
      let replaced : Work :=
        { reserved with pending := replaceQueuedOperations w.pending ids replacements }
      if env.failure = some .replacement then .error reserved
      else attempt env .fieldStates replaced replaced

/-- The rejected restores are sent again. -/
def reissueUnknown (w : Work) : Except Work Work :=
  if (unknownRestores w.retryable env.response).isEmpty then .ok w
  else reissueRestoresAsCreate env (unknownRestores w.retryable env.response) w

/-- The records of the given ids as `requeueInFlightRecords` changes them in memory. -/
def countAttempts (ids : List Uuid) (records : List PendingOperationRecord) :
    List PendingOperationRecord :=
  records.map fun r =>
    if r.id ∈ ids then { r with state := .localQueued, attempts := r.attempts + 1 } else r

/-- The operations whose object was not found wait for another attempt. -/
def requeueWaiting (w : Work) : Except Work Work :=
  let waiting := waitingRecords w.retryable env.response
  if waiting.isEmpty then .ok w
  else
    match env.failure with
    | some (.requeue chunks) =>
      .error { w with
        retryable := countAttempts
          ((waiting.take (idbBatchChunk * chunks)).map PendingOperationRecord.id) w.retryable }
    | _ =>
      .ok { w with
        pending := requeueInFlightRecords w.pending waiting true
        retryable := countAttempts (waiting.map PendingOperationRecord.id) w.retryable }

/-- What was rejected for another reason is removed. -/
def removeRejected (w : Work) : Except Work Work :=
  if (toRemove env.response).isEmpty then .ok w
  else attempt env .removal w { w with pending := removeFromQueue w.pending (toRemove env.response) }

/-- The body of the `try`. -/
def settle (w : Work) : Except Work Work := do
  let w ← attempt env .request w w
  let w ← removeResolved env w
  let w ← reissueUnknown env w
  let w ← requeueWaiting env w
  removeRejected env w

/-! ### Where it fails -/

variable (records : List PendingOperationRecord)

/-- Whether the restores of a batch fail to be sent again. -/
def reissueFails : Bool :=
  match env.failure with
  | some .reissue => !(unknownRestores records env.response).isEmpty
  | some .replacement | some .fieldStates =>
    env.device && !(decodedRestores env (unknownRestores records env.response)).isEmpty
  | _ => false

/-- Whether the operations of a batch that wait fail to be requeued. -/
def requeueFails : Bool :=
  match env.failure with
  | some (.requeue _) => !(waitingRecords records env.response).isEmpty
  | _ => false

/-- Whether the operations of a batch rejected for another reason fail to be removed. -/
def removalFails : Bool := env.failure = some .removal && !(toRemove env.response).isEmpty

/-- Whether a step after the answer fails. -/
def breaks : Bool :=
  env.failure = some .resolvedRemoval || reissueFails env records || requeueFails env records ||
    removalFails env

/-- The operations whose attempt has been counted by then. -/
def countedIds : List Uuid :=
  match env.failure with
  | some (.requeue chunks) =>
    ((waitingRecords records env.response).take (idbBatchChunk * chunks)).map
      PendingOperationRecord.id
  | some .removal => (waitingRecords records env.response).map PendingOperationRecord.id
  | _ => []

end Work

/-! ### The call -/

/-- Whether a call goes on, and how it ended. -/
inductive CallStatus where
  | running (batch : ℕ) (lastBatchFull : Bool)
  | returned (more : Bool)
  | threw

/-- A call of `uploadPending` and what it works on. -/
structure UploadCall where
  pending : List PendingOperationRecord
  deviceSequence : ℤ
  lamportClock : ℤ
  requeuedThisCycle : List Uuid
  status : CallStatus

namespace UploadCall

variable (s : UploadCall) (env : BatchEnv)

/-- A call on a queue. -/
def start (pending : List PendingOperationRecord) (deviceSequence lamportClock : ℤ) :
    UploadCall where
  pending := pending
  deviceSequence := deviceSequence
  lamportClock := lamportClock
  requeuedThisCycle := []
  status := .running 0 false

/-- The queue when the batch is read. -/
def arrived : List PendingOperationRecord := enqueueOperationsBatch s.pending env.arrivals

/-- Whether the call reads another batch. -/
def reads : Bool :=
  match s.status with
  | .running batch _ => batch < maxBatchesPerCycle
  | _ => false

/-- The operations taken by a batch. -/
def taken : List PendingOperationRecord :=
  if s.reads then getPendingOperations (s.arrived env) maxUploadBatch s.requeuedThisCycle else []

/-- `stuck`. -/
def stuck : List PendingOperationRecord :=
  (s.taken env).filter fun r => maxUploadAttempts ≤ r.attempts

/-- `retryable`. -/
def retryable : List PendingOperationRecord :=
  (s.taken env).filter fun r => r.attempts < maxUploadAttempts ∧ r.id ∉ s.requeuedThisCycle

/-- The queue without the operations stuck after too many attempts. -/
def screened : List PendingOperationRecord :=
  removeFromQueue (s.arrived env) ((s.stuck env).map PendingOperationRecord.id)

/-- The batch in flight. -/
def marked : Work where
  pending := markUploadInFlightRecords (s.screened env) (s.retryable env)
  retryable := (s.retryable env).map fun r => { r with state := .uploadInFlight }
  deviceSequence := s.deviceSequence
  lamportClock := s.lamportClock

/-- `pending.length >= MAX_UPLOAD_BATCH`. -/
def batchFull : Bool := maxUploadBatch ≤ (s.taken env).length

/-- The restores of the batch that were rejected for an object the server never saw. -/
def restores : List PendingOperationRecord := unknownRestores (s.retryable env) env.response

/-- The status after a batch without a failure. -/
def nextStatus (batch : ℕ) : CallStatus :=
  let progressed := !(s.stuck env).isEmpty || !(resolvedIds env.response).isEmpty ||
    !env.response.rejected.isEmpty
  if !progressed then .returned false
  else if !s.batchFull env && (s.restores env).isEmpty then .returned false
  else .running (batch + 1) (s.batchFull env)

/-- The batch is sent, and its answer worked off; a failure requeues all of it. -/
def exchange (batch : ℕ) : UploadCall :=
  match Work.settle env (s.marked env) with
  | .ok w =>
    { pending := w.pending
      deviceSequence := w.deviceSequence
      lamportClock := w.lamportClock
      requeuedThisCycle := s.requeuedThisCycle ++ (toRequeue env.response).filter fun id =>
        id ∉ (s.restores env).map PendingOperationRecord.id
      status := s.nextStatus env batch }
  | .error w =>
    { pending := requeueInFlightRecords w.pending w.retryable false
      deviceSequence := w.deviceSequence
      lamportClock := w.lamportClock
      requeuedThisCycle := s.requeuedThisCycle
      status := .threw }

/-- One batch of the loop. -/
def step : UploadCall :=
  match s.status with
  | .running batch lastBatchFull =>
    if maxBatchesPerCycle ≤ batch then { s with status := .returned lastBatchFull }
    else if (s.taken env).isEmpty then
      { s with pending := s.arrived env, status := .returned false }
    else if !(s.stuck env).isEmpty && env.failure = some .stuckRemoval then
      { s with pending := s.arrived env, status := .threw }
    else if (s.retryable env).isEmpty then
      { s with
        pending := s.screened env
        status := if (s.stuck env).isEmpty || !s.batchFull env then .returned false
          else .running (batch + 1) (s.batchFull env) }
    else if env.failure = some .marking then
      { s with pending := s.screened env, status := .threw }
    else s.exchange env batch
  | _ => s

/-- Whether the batch is sent. -/
def sends : Bool :=
  s.reads && !(s.retryable env).isEmpty && env.failure ≠ some .marking &&
    ((s.stuck env).isEmpty || env.failure ≠ some .stuckRemoval)

/-- Whether it is answered. -/
def answered : Bool := s.sends env && env.failure ≠ some .request

/-! ### What is expected of a batch -/

/-- The surroundings play by the rules: a response has one verdict for each operation sent, and
the ids of creates are new. -/
structure Legal : Prop where
  verdicts : (resolvedIds env.response ++ env.response.rejected.map Prod.fst).Perm
    ((s.retryable env).map PendingOperationRecord.id)
  fresh : ∀ r ∈ s.retryable env, ∀ sealed ∈ env.sealRestore r.id,
    sealed.operationId ∉ (s.arrived env).map PendingOperationRecord.id

/-- **What is expected of the queue after a batch**: no operation taken is left in flight; none
that was accepted or duplicate is queued; of a rejected restore and its create exactly one is
queued, unless the restore cannot be decrypted; and the attempts of an operation grow by one
if its object was not found, and not at all if the request failed. -/
structure Sound : Prop where
  settled : ∀ r ∈ s.taken env, ∀ q ∈ getRecord (s.step env).pending r.id, q.state = .localQueued
  resolved_gone : s.answered env = true → ∀ id ∈ resolvedIds env.response,
    getRecord (s.step env).pending id = none
  not_both : s.answered env = true → ∀ r ∈ s.restores env, ∀ sealed ∈ env.sealRestore r.id,
    getRecord (s.step env).pending r.id = none ∨
      getRecord (s.step env).pending sealed.operationId = none
  not_neither : s.answered env = true → ∀ r ∈ s.restores env, ∀ sealed ∈ env.sealRestore r.id,
    getRecord (s.step env).pending r.id ≠ none ∨
      getRecord (s.step env).pending sealed.operationId ≠ none
  counted : s.answered env = true → ∀ r ∈ s.retryable env, r.id ∈ toRequeue env.response →
    ∀ q ∈ getRecord (s.step env).pending r.id, q.attempts = r.attempts + 1
  uncounted : s.sends env = true → env.failure = some .request → ∀ r ∈ s.retryable env,
    ∀ q ∈ getRecord (s.step env).pending r.id, q.attempts = r.attempts

/-- The batch is not answered; or no step after the answer fails, and the device is there if a
restore was rejected; or one fails, but nothing was accepted or duplicate, and every operation
whose object was not found had been counted. -/
def Clean : Prop :=
  s.answered env = true →
    if Work.breaks env (s.retryable env) then
      resolvedIds env.response = [] ∧
        ∀ id ∈ toRequeue env.response, id ∈ Work.countedIds env (s.retryable env)
    else env.device = true ∨ s.restores env = []

end UploadCall

/-! ### The records of a batch -/

section Records

variable {records : List PendingOperationRecord} {out : BatchOutcome} {ids : List Uuid}
  {r : PendingOperationRecord}

theorem mem_recordsWithIds (h : (records.map PendingOperationRecord.id).Nodup) :
    r ∈ recordsWithIds records ids ↔ r ∈ records ∧ r.id ∈ ids := by
  rw [recordsWithIds, List.mem_filterMap]
  constructor
  · rintro ⟨id, hid, hfind⟩
    have hr : r.id = id := by simpa using List.find?_some hfind
    exact ⟨List.mem_of_find?_eq_some hfind, hr ▸ hid⟩
  · rintro ⟨hr, hid⟩
    exact ⟨r.id, hid, getRecord_of_mem h hr⟩

theorem mem_unknownRestores (h : (records.map PendingOperationRecord.id).Nodup) :
    r ∈ unknownRestores records out ↔
      r ∈ records ∧ r.id ∈ toRequeue out ∧ isBookmarkRestore r.operation = true := by
  rw [unknownRestores, List.mem_filter, mem_recordsWithIds h, and_assoc]

theorem mem_waitingRecords (h : (records.map PendingOperationRecord.id).Nodup) :
    r ∈ waitingRecords records out ↔
      r ∈ records ∧ r.id ∈ toRequeue out ∧ isBookmarkRestore r.operation = false := by
  rw [waitingRecords, mem_recordsWithIds h, List.mem_filter]
  refine and_congr_right fun hr => and_congr_right fun hid => ?_
  simp only [decide_not, Bool.not_eq_true', decide_eq_false_iff_not]
  constructor
  · intro hnot
    by_contra hrestore
    rw [Bool.not_eq_false] at hrestore
    exact hnot (List.mem_map_of_mem ((mem_unknownRestores h).mpr ⟨hr, hid, hrestore⟩))
  · intro hrestore hmem
    obtain ⟨r', hr', heq⟩ := List.mem_map.mp hmem
    obtain ⟨hmem', -, hrestore'⟩ := (mem_unknownRestores h).mp hr'
    obtain rfl := List.inj_on_of_nodup_map h hmem' hr heq
    rw [hrestore] at hrestore'
    exact absurd hrestore' Bool.false_ne_true

/-- Ids without repetitions pick each record at most once. -/
theorem nodup_recordsWithIds (h : ids.Nodup) :
    ((recordsWithIds records ids).map PendingOperationRecord.id).Nodup := by
  have hsub : ((recordsWithIds records ids).map PendingOperationRecord.id).Sublist ids := by
    induction ids with
    | nil => exact List.Sublist.refl _
    | cons id ids ih =>
      have hrest := ih (List.nodup_cons.mp h).2
      rcases hfind : records.find? fun r => r.id = id with _ | r
      · simp only [recordsWithIds, List.filterMap_cons, hfind]
        exact hrest.trans (List.sublist_cons_self _ _)
      · have hr : r.id = id := by simpa using List.find?_some hfind
        simp only [recordsWithIds, List.filterMap_cons, hfind, List.map_cons, hr]
        exact hrest.cons_cons id
  exact h.sublist hsub

section Map

variable {f : PendingOperationRecord → PendingOperationRecord}
  (hf : ∀ r, (f r).operation = r.operation)

include hf

theorem recordsWithIds_map : recordsWithIds (records.map f) ids = (recordsWithIds records ids).map f := by
  rw [recordsWithIds, recordsWithIds, List.map_filterMap]
  congr 1
  funext id
  have hcomp : ((fun r : PendingOperationRecord => decide (r.id = id)) ∘ f) =
      fun r => decide (r.id = id) := by
    funext r
    exact decide_eq_decide.mpr (by simp only [PendingOperationRecord.id, hf])
  rw [List.find?_map, hcomp]

theorem unknownRestores_map : unknownRestores (records.map f) out = (unknownRestores records out).map f := by
  rw [unknownRestores, recordsWithIds_map hf, List.filter_map, unknownRestores]
  congr 2
  funext r
  simp [hf]

theorem map_id_map : (records.map f).map PendingOperationRecord.id =
    records.map PendingOperationRecord.id := by
  rw [List.map_map]
  congr 1
  funext r
  simp [PendingOperationRecord.id, hf]

theorem waitingRecords_map : waitingRecords (records.map f) out = (waitingRecords records out).map f := by
  rw [waitingRecords, unknownRestores_map hf, map_id_map hf, recordsWithIds_map hf, waitingRecords]

end Map

end Records

/-! ### How an answer is worked off -/

namespace Work

variable {env : BatchEnv} {w : Work}

/-- The queue after the restores of a batch have been sent again. -/
def reissuedPending (env : BatchEnv) (w : Work) : List PendingOperationRecord :=
  let records := unknownRestores w.retryable env.response
  let decoded := decodedRestores env records
  let ids := records.map PendingOperationRecord.id
  if records.isEmpty || !env.device then w.pending
  else if decoded.isEmpty then removeFromQueue w.pending ids
  else replaceQueuedOperations w.pending ids
    (buildOperations decoded w.deviceSequence w.lamportClock)

theorem reissueUnknown_ok (h : reissueFails env w.retryable = false) :
    ∃ w', reissueUnknown env w = .ok w' ∧ w'.pending = reissuedPending env w ∧
      w'.retryable = w.retryable := by
  unfold reissueUnknown reissuedPending
  dsimp only
  by_cases hempty : (unknownRestores w.retryable env.response).isEmpty = true
  · rw [if_pos hempty, hempty]
    exact ⟨w, rfl, rfl, rfl⟩
  rw [if_neg hempty, reissueRestoresAsCreate]
  have hreissue : env.failure ≠ some .reissue := by
    intro hf
    simp only [reissueFails, hf, Bool.not_eq_false'] at h
    exact hempty h
  rw [if_neg hreissue]
  rcases hdevice : env.device with _ | _
  · exact ⟨w, rfl, by simp, rfl⟩
  rw [if_neg (by simp)]
  dsimp only
  have hempty' : (unknownRestores w.retryable env.response).isEmpty = false := by
    simpa using hempty
  rw [hempty']
  by_cases hdecoded : (decodedRestores env (unknownRestores w.retryable env.response)).isEmpty = true
  · rw [if_pos hdecoded, hdecoded]
    exact ⟨_, rfl, rfl, rfl⟩
  have hreplacement : env.failure ≠ some .replacement := by
    intro hf
    simp only [reissueFails, hf, hdevice, Bool.true_and, Bool.not_eq_false'] at h
    exact hdecoded h
  have hfieldStates : env.failure ≠ some .fieldStates := by
    intro hf
    simp only [reissueFails, hf, hdevice, Bool.true_and, Bool.not_eq_false'] at h
    exact hdecoded h
  rw [if_neg hdecoded, if_neg hreplacement, attempt, if_neg hfieldStates]
  exact ⟨_, rfl, by simp [hdecoded], rfl⟩

theorem reissueUnknown_error (h : reissueFails env w.retryable = true) :
    ∃ w', reissueUnknown env w = .error w' ∧ w'.retryable = w.retryable := by
  unfold reissueFails at h
  unfold reissueUnknown
  split at h
  · rename_i hf
    rw [if_neg (by simpa using h), reissueRestoresAsCreate, if_pos hf]
    exact ⟨w, rfl, rfl⟩
  all_goals try exact absurd h Bool.false_ne_true
  all_goals
    rename_i hf
    rw [Bool.and_eq_true] at h
    have hdecoded : ¬(decodedRestores env (unknownRestores w.retryable env.response)).isEmpty = true := by
      simpa using h.2
    have hempty : ¬(unknownRestores w.retryable env.response).isEmpty = true := by
      intro hnil
      rw [List.isEmpty_iff.mp hnil] at hdecoded
      exact hdecoded rfl
    rw [if_neg hempty, reissueRestoresAsCreate, if_neg (by simp [hf]), if_neg (by simp [h.1])]
    dsimp only
    rw [if_neg hdecoded]
  · rw [if_pos hf]
    exact ⟨_, rfl, rfl⟩
  · rw [if_neg (by simp [hf]), attempt, if_pos hf]
    exact ⟨_, rfl, rfl⟩

theorem requeueWaiting_ok (h : requeueFails env w.retryable = false) :
    ∃ w', requeueWaiting env w = .ok w' ∧
      w'.pending = requeueInFlightRecords w.pending (waitingRecords w.retryable env.response) true ∧
      w'.retryable =
        countAttempts ((waitingRecords w.retryable env.response).map PendingOperationRecord.id)
          w.retryable := by
  unfold requeueWaiting
  dsimp only
  by_cases hempty : (waitingRecords w.retryable env.response).isEmpty = true
  · rw [if_pos hempty, List.isEmpty_iff.mp hempty]
    exact ⟨w, rfl, rfl, by simp [countAttempts]⟩
  rw [if_neg hempty]
  split
  · rename_i hf
    simp only [requeueFails, hf, Bool.not_eq_false'] at h
    exact absurd h hempty
  · exact ⟨_, rfl, rfl, rfl⟩

theorem requeueWaiting_error (h : requeueFails env w.retryable = true) :
    ∃ w', requeueWaiting env w = .error w' ∧
      w'.retryable = countAttempts (countedIds env w.retryable) w.retryable := by
  unfold requeueFails at h
  split at h
  · rename_i chunks hf
    unfold requeueWaiting
    dsimp only
    rw [if_neg (by simpa using h), hf]
    exact ⟨_, rfl, by simp only [countedIds, hf]⟩
  · exact absurd h Bool.false_ne_true

/-- The queue after the answer has been worked off. -/
def settledPending (env : BatchEnv) (w : Work) : List PendingOperationRecord :=
  removeFromQueue (requeueInFlightRecords (reissuedPending env (resolved env w))
    (waitingRecords w.retryable env.response) true) (toRemove env.response)

theorem removeRejected_ok (h : removalFails env = false) :
    ∃ w', removeRejected env w = .ok w' ∧
      w'.pending = removeFromQueue w.pending (toRemove env.response) := by
  unfold removeRejected
  by_cases hempty : (toRemove env.response).isEmpty = true
  · rw [if_pos hempty, List.isEmpty_iff.mp hempty]
    exact ⟨w, rfl, by simp [removeFromQueue]⟩
  · have hf : env.failure ≠ some .removal := by
      intro hf
      simp only [removalFails, hf, decide_true, Bool.true_and, Bool.not_eq_false'] at h
      exact hempty h
    rw [if_neg hempty, attempt, if_neg hf]
    exact ⟨_, rfl, rfl⟩

/-- **An answer worked off without a failure.** -/
theorem settle_ok (hrequest : env.failure ≠ some .request)
    (h : breaks env w.retryable = false) :
    ∃ w', settle env w = .ok w' ∧ w'.pending = settledPending env w := by
  simp only [breaks, Bool.or_eq_false_iff, decide_eq_false_iff_not] at h
  obtain ⟨⟨⟨hresolved, hreissue⟩, hrequeue⟩, hremoval⟩ := h
  obtain ⟨w₂, h₂, hpending₂, hretryable₂⟩ := @reissueUnknown_ok env (resolved env w) hreissue
  have hrequeue₂ : requeueFails env w₂.retryable = false := by
    rw [hretryable₂]
    exact hrequeue
  obtain ⟨w₃, h₃, hpending₃, -⟩ := requeueWaiting_ok hrequeue₂
  obtain ⟨w₄, h₄, hpending₄⟩ := @removeRejected_ok env w₃ hremoval
  refine ⟨w₄, ?_, ?_⟩
  · simp only [settle, attempt, removeResolved, if_neg hrequest, if_neg hresolved,
      bind, Except.bind, h₂, h₃, h₄]
  · rw [hpending₄, hpending₃, hpending₂, hretryable₂]
    rfl

/-- **A failure after the answer** leaves in memory the attempts counted before it. -/
theorem settle_error (h : breaks env w.retryable = true) :
    ∃ w', settle env w = .error w' ∧
      w'.retryable = countAttempts (countedIds env w.retryable) w.retryable := by
  have hsame : countAttempts [] w.retryable = w.retryable := by simp [countAttempts]
  have hrequest : env.failure ≠ some .request := by
    intro hf
    simp [breaks, reissueFails, requeueFails, removalFails, hf] at h
  by_cases hresolved : env.failure = some .resolvedRemoval
  · refine ⟨w, ?_, by simp only [countedIds, hresolved, hsame]⟩
    simp only [settle, attempt, removeResolved, if_neg hrequest, if_pos hresolved, bind, Except.bind]
  by_cases hreissue : reissueFails env w.retryable = true
  · obtain ⟨w₂, h₂, hretryable₂⟩ := @reissueUnknown_error env (resolved env w) hreissue
    refine ⟨w₂, ?_, ?_⟩
    · simp only [settle, attempt, removeResolved, if_neg hrequest, if_neg hresolved, bind,
        Except.bind, h₂]
    · have hnil : countedIds env w.retryable = [] := by
        unfold reissueFails at hreissue
        unfold countedIds
        split at hreissue <;> simp_all
      rw [hnil, hsame, hretryable₂]
      rfl
  rw [Bool.not_eq_true] at hreissue
  obtain ⟨w₂, h₂, -, hretryable₂⟩ := @reissueUnknown_ok env (resolved env w) hreissue
  have hretryable : w₂.retryable = w.retryable := hretryable₂
  by_cases hrequeue : requeueFails env w.retryable = true
  · obtain ⟨w₃, h₃, hretryable₃⟩ := @requeueWaiting_error env w₂ (hretryable ▸ hrequeue)
    refine ⟨w₃, ?_, ?_⟩
    · simp only [settle, attempt, removeResolved, if_neg hrequest, if_neg hresolved, bind,
        Except.bind, h₂, h₃]
    · rw [hretryable₃, hretryable]
  obtain ⟨w₃, h₃, -, hretryable₃⟩ :=
    @requeueWaiting_ok env w₂ (by rw [hretryable]; simpa using hrequeue)
  have hremoval : removalFails env = true := by
    simpa [breaks, hresolved, hreissue, hrequeue] using h
  rw [removalFails, Bool.and_eq_true, decide_eq_true_eq] at hremoval
  refine ⟨w₃, ?_, ?_⟩
  · have hrejected : removeRejected env w₃ = .error w₃ := by
      rw [removeRejected, if_neg (by simpa using hremoval.2), attempt, if_pos hremoval.1]
    simp only [settle, attempt, removeResolved, if_neg hrequest, if_neg hresolved, bind,
      Except.bind, h₂, h₃, hrejected]
  · rw [hretryable₃, hretryable]
    simp only [countedIds, hremoval.1]

/-! ### What is left in flight -/

/-- The second queue has no record in flight that the first does not have. -/
def Quiet (before after : List PendingOperationRecord) : Prop :=
  ∀ id, ∀ q ∈ getRecord after id, q.state = .localQueued ∨ getRecord before id = some q

theorem Quiet.refl (store : List PendingOperationRecord) : Quiet store store :=
  fun _ _ hq => Or.inr hq

theorem Quiet.trans {a b c : List PendingOperationRecord} (hab : Quiet a b) (hbc : Quiet b c) :
    Quiet a c := fun id q hq => (hbc id q hq).elim Or.inl fun hb => hab id q hb

theorem quiet_removeFromQueue (store : List PendingOperationRecord) (ids : List Uuid) :
    Quiet store (removeFromQueue store ids) := by
  intro id q hq
  rw [Option.mem_def, getRecord_removeFromQueue] at hq
  split at hq
  · exact absurd hq (by simp)
  · exact Or.inr hq

theorem quiet_putRecords (store : List PendingOperationRecord)
    {records : List PendingOperationRecord} (h : ∀ r ∈ records, r.state = .localQueued) :
    Quiet store (putRecords store records) := by
  induction records generalizing store with
  | nil => exact Quiet.refl store
  | cons record records ih =>
    refine Quiet.trans (b := putRecord store record) (fun id q hq => ?_)
      (ih _ fun r hr => h r (List.mem_cons_of_mem _ hr))
    rw [Option.mem_def, getRecord_putRecord] at hq
    split at hq
    · rw [← Option.some.inj hq]
      exact Or.inl (h record List.mem_cons_self)
    · exact Or.inr hq

theorem quiet_requeueInFlightRecords (store records : List PendingOperationRecord)
    (incrementAttempts : Bool) : Quiet store (requeueInFlightRecords store records incrementAttempts) := by
  refine quiet_putRecords store fun r hr => ?_
  obtain ⟨r', -, rfl⟩ := List.mem_map.mp hr
  rfl

theorem quiet_replaceQueuedOperations (store : List PendingOperationRecord) (ids : List Uuid)
    (added : List OperationIn) : Quiet store (replaceQueuedOperations store ids added) := by
  refine Quiet.trans (quiet_removeFromQueue store ids) (quiet_putRecords _ fun r hr => ?_)
  obtain ⟨op, -, rfl⟩ := List.mem_map.mp hr
  rfl

/-- The outcome of a step, failed or not, leaves a queue with the property. -/
def Leaves (P : List PendingOperationRecord → Prop) : Except Work Work → Prop
  | .ok w' => P w'.pending
  | .error w' => P w'.pending

theorem Leaves.bind {P : List PendingOperationRecord → Prop} {e : Except Work Work}
    {f : Work → Except Work Work} (h : Leaves P e) (hf : ∀ w', P w'.pending → Leaves P (f w')) :
    Leaves P (e >>= f) := by
  cases e with
  | ok w' => exact hf w' h
  | error w' => exact h

theorem leaves_attempt {P : List PendingOperationRecord → Prop} {point : FailurePoint} {next : Work}
    (h : P w.pending) (hnext : P next.pending) : Leaves P (attempt env point w next) := by
  unfold attempt
  split
  · exact h
  · exact hnext

/-- **What the transactions keep the settlement keeps**, wherever it fails. -/
theorem leaves_settle {P : List PendingOperationRecord → Prop}
    (hremove : ∀ store ids, P store → P (removeFromQueue store ids))
    (hreplace : ∀ store ids added, P store → P (replaceQueuedOperations store ids added))
    (hrequeue : ∀ store records, P store → P (requeueInFlightRecords store records true))
    (h : P w.pending) : Leaves P (settle env w) := by
  refine Leaves.bind (leaves_attempt h h) fun w h => ?_
  refine Leaves.bind (leaves_attempt h (hremove _ _ h)) fun w h => ?_
  refine Leaves.bind ?_ fun w h => Leaves.bind ?_ fun w h => ?_
  · unfold reissueUnknown reissueRestoresAsCreate
    dsimp only
    split
    · exact h
    split
    · exact h
    split
    · exact h
    split
    · exact hremove _ _ h
    split
    · exact h
    · exact leaves_attempt (hreplace _ _ _ h) (hreplace _ _ _ h)
  · unfold requeueWaiting
    dsimp only
    split
    · exact h
    split
    · exact h
    · exact hrequeue _ _ h
  · unfold removeRejected
    split
    · exact h
    · exact leaves_attempt h (hremove _ _ h)

/-- **No step of the settlement puts a record in flight.** -/
theorem quiet_settle (env : BatchEnv) (w : Work) : Leaves (Quiet w.pending) (settle env w) :=
  leaves_settle (fun _ _ h => h.trans (quiet_removeFromQueue _ _))
    (fun _ _ _ h => h.trans (quiet_replaceQueuedOperations _ _ _))
    (fun _ _ h => h.trans (quiet_requeueInFlightRecords _ _ _)) (Quiet.refl _)

theorem nodup_settle (env : BatchEnv) {w : Work} (h : (w.pending.map PendingOperationRecord.id).Nodup) :
    Leaves (fun store => (store.map PendingOperationRecord.id).Nodup) (settle env w) :=
  leaves_settle (fun _ _ h => h.sublist ((removeFromQueue_sublist _).map _))
    (fun _ _ _ h => nodup_putRecords (h.sublist ((removeFromQueue_sublist _).map _)))
    (fun _ _ h => nodup_putRecords h) h

end Work

namespace UploadCall

variable {s : UploadCall} {env : BatchEnv} {r : PendingOperationRecord}

/-! ### The batch -/

theorem nodup_arrived (h : (s.pending.map PendingOperationRecord.id).Nodup) :
    ((s.arrived env).map PendingOperationRecord.id).Nodup :=
  nodup_putRecords h

theorem mem_taken (h : r ∈ s.taken env) :
    s.reads = true ∧ r ∈ s.arrived env ∧ r.state = .localQueued := by
  unfold taken at h
  split at h
  · rename_i hreads
    exact ⟨hreads, mem_of_mem_getPendingOperations h, state_of_mem_getPendingOperations h⟩
  · exact absurd h List.not_mem_nil

theorem mem_taken_of_mem_retryable (h : r ∈ s.retryable env) : r ∈ s.taken env :=
  (List.mem_filter.mp h).1

theorem nodup_taken (h : (s.pending.map PendingOperationRecord.id).Nodup) :
    ((s.taken env).map PendingOperationRecord.id).Nodup := by
  unfold taken
  split
  · exact nodup_getPendingOperations (nodup_arrived h)
  · exact List.nodup_nil

theorem nodup_retryable (h : (s.pending.map PendingOperationRecord.id).Nodup) :
    ((s.retryable env).map PendingOperationRecord.id).Nodup :=
  (nodup_taken h).sublist (List.filter_sublist.map _)

/-- What is taken is stuck, or sent. -/
theorem mem_stuck_or_mem_retryable (h : r ∈ s.taken env) :
    r ∈ s.stuck env ∨ r ∈ s.retryable env := by
  by_cases hstuck : maxUploadAttempts ≤ r.attempts
  · exact Or.inl (List.mem_filter.mpr ⟨h, by simpa using hstuck⟩)
  · refine Or.inr (List.mem_filter.mpr ⟨h, ?_⟩)
    have hnot : r.id ∉ s.requeuedThisCycle := by
      unfold taken at h
      split at h
      · exact id_notMem_of_mem_getPendingOperations h
      · exact absurd h List.not_mem_nil
    simpa [hnot] using hstuck

theorem getRecord_screened (h : (s.pending.map PendingOperationRecord.id).Nodup)
    (hr : r ∈ s.taken env) : getRecord (s.screened env) r.id = none ∨
      getRecord (s.screened env) r.id = some r := by
  rw [screened, getRecord_removeFromQueue]
  split
  · exact Or.inl rfl
  · exact Or.inr (getRecord_of_mem (nodup_arrived h) (mem_taken hr).2.1)

/-- A batch that is not sent leaves what was taken queued, or drops it. -/
theorem settled_of_not_sends (h : (s.pending.map PendingOperationRecord.id).Nodup)
    (hsends : s.sends env = false) (hr : r ∈ s.taken env) {q : PendingOperationRecord}
    (hq : q ∈ getRecord (s.step env).pending r.id) : q.state = .localQueued := by
  obtain ⟨hreads, hmem, hstate⟩ := mem_taken hr
  have harrived : getRecord (s.arrived env) r.id = some r := getRecord_of_mem (nodup_arrived h) hmem
  have hcases : getRecord (s.step env).pending r.id = none ∨
      getRecord (s.step env).pending r.id = some r := by
    unfold step
    unfold reads at hreads
    split
    · rename_i batch full hstatus
      simp only [hstatus, decide_eq_true_eq] at hreads
      rw [if_neg (not_le.mpr hreads)]
      have htaken : ¬(s.taken env).isEmpty = true := by
        rw [List.isEmpty_iff]
        exact List.ne_nil_of_mem hr
      rw [if_neg htaken]
      split
      · exact Or.inr harrived
      split
      · exact getRecord_screened h hr
      split
      · exact getRecord_screened h hr
      · rename_i hstuck hretryable hmarking
        have hreads' : s.reads = true := by simp [reads, hstatus, hreads]
        simp only [sends, hreads', Bool.true_and, hmarking, ne_eq, not_false_eq_true, decide_true,
          Bool.and_true] at hsends
        simp_all
    · rename_i hstatus
      split at hreads
      · rename_i batch full hrunning
        exact absurd hrunning (hstatus batch full)
      · exact absurd hreads Bool.false_ne_true
  rcases hcases with hnone | hsome
  · rw [hnone] at hq
    exact absurd hq (by simp)
  · rw [hsome] at hq
    rw [← Option.some.inj hq]
    exact hstate

theorem step_of_sends (h : s.sends env = true) : ∃ batch, s.step env = s.exchange env batch := by
  simp only [sends, Bool.and_eq_true, Bool.or_eq_true, decide_eq_true_eq, Bool.not_eq_true'] at h
  obtain ⟨⟨⟨hreads, hretryable⟩, hmarking⟩, hstuck⟩ := h
  unfold reads at hreads
  split at hreads
  · rename_i batch full hstatus
    rw [decide_eq_true_eq] at hreads
    refine ⟨batch, ?_⟩
    have htaken : ¬(s.taken env).isEmpty = true := by
      intro hempty
      simp only [retryable, List.isEmpty_iff.mp hempty, List.filter_nil] at hretryable
      exact absurd hretryable (by simp)
    have hnot : ¬(!(s.stuck env).isEmpty && decide (env.failure = some .stuckRemoval)) = true := by
      rcases hstuck with hstuck | hstuck
      · simp [hstuck]
      · simp [hstuck]
    simp only [step, hstatus]
    rw [if_neg (not_le.mpr hreads), if_neg htaken, if_neg hnot, if_neg (by simp [hretryable]),
      if_neg hmarking]
  · exact absurd hreads Bool.false_ne_true

/-! ### Verdicts -/

/-- Nothing is both requeued and removed. -/
theorem not_toRequeue_and_toRemove {out : BatchOutcome} (h : (out.rejected.map Prod.fst).Nodup)
    {id : Uuid} (hrequeue : id ∈ toRequeue out) : id ∉ toRemove out := by
  intro hremove
  obtain ⟨a, ha, rfl⟩ := List.mem_map.mp hrequeue
  obtain ⟨b, hb, heq⟩ := List.mem_map.mp hremove
  obtain ⟨ha, hreasonA⟩ := List.mem_filter.mp ha
  obtain ⟨hb, hreasonB⟩ := List.mem_filter.mp hb
  obtain rfl := List.inj_on_of_nodup_map h hb ha heq
  rw [decide_eq_true_eq] at hreasonA hreasonB
  exact hreasonB hreasonA

theorem mem_rejected_of_mem_toRequeue {out : BatchOutcome} {id : Uuid} (h : id ∈ toRequeue out) :
    id ∈ out.rejected.map Prod.fst :=
  (List.filter_sublist.map _).subset h

theorem mem_rejected_of_mem_toRemove {out : BatchOutcome} {id : Uuid} (h : id ∈ toRemove out) :
    id ∈ out.rejected.map Prod.fst :=
  (List.filter_sublist.map _).subset h

theorem mem_toRequeue_or_mem_toRemove {out : BatchOutcome} {id : Uuid}
    (h : id ∈ out.rejected.map Prod.fst) : id ∈ toRequeue out ∨ id ∈ toRemove out := by
  obtain ⟨a, ha, rfl⟩ := List.mem_map.mp h
  by_cases hreason : a.2 = .objectNotFound
  · exact Or.inl (List.mem_map_of_mem (List.mem_filter.mpr ⟨ha, by simpa using hreason⟩))
  · exact Or.inr (List.mem_map_of_mem (List.mem_filter.mpr ⟨ha, by simpa using hreason⟩))

section Legal

variable (hnodup : (s.pending.map PendingOperationRecord.id).Nodup) (hlegal : s.Legal env)

include hnodup hlegal

theorem nodup_verdicts :
    (resolvedIds env.response ++ env.response.rejected.map Prod.fst).Nodup :=
  hlegal.verdicts.nodup_iff.mpr (nodup_retryable hnodup)

theorem nodup_rejected : (env.response.rejected.map Prod.fst).Nodup :=
  (List.nodup_append.mp (nodup_verdicts hnodup hlegal)).2.1

theorem notMem_rejected_of_mem_resolvedIds {id : Uuid} (h : id ∈ resolvedIds env.response) :
    id ∉ env.response.rejected.map Prod.fst := fun hrejected =>
  (List.nodup_append.mp (nodup_verdicts hnodup hlegal)).2.2 id h id hrejected rfl

omit hnodup in
/-- Every verdict is about an operation of the batch. -/
theorem exists_of_verdict {id : Uuid}
    (h : id ∈ resolvedIds env.response ∨ id ∈ env.response.rejected.map Prod.fst) :
    ∃ r ∈ s.retryable env, r.id = id :=
  List.mem_map.mp (hlegal.verdicts.mem_iff.mp (List.mem_append.mpr h))

omit hnodup in
/-- Every operation of the batch has a verdict. -/
theorem verdict_of_mem (h : r ∈ s.retryable env) : r.id ∈ resolvedIds env.response ∨
    r.id ∈ toRequeue env.response ∨ r.id ∈ toRemove env.response := by
  have hmem := hlegal.verdicts.mem_iff.mpr (List.mem_map_of_mem h)
  exact (List.mem_append.mp hmem).imp_right mem_toRequeue_or_mem_toRemove

omit hnodup in
theorem sealed_notMem_retryable (h : r ∈ s.retryable env) {sealed : Sealed}
    (hsealed : sealed ∈ env.sealRestore r.id) :
    sealed.operationId ∉ (s.retryable env).map PendingOperationRecord.id := by
  intro hmem
  obtain ⟨r', hr', heq⟩ := List.mem_map.mp hmem
  refine hlegal.fresh r h sealed hsealed ?_
  rw [← heq]
  exact List.mem_map_of_mem (mem_taken (mem_taken_of_mem_retryable hr')).2.1

end Legal

/-! ### After a failure -/

/-- The record of an operation of a batch that failed. -/
def caughtRecord (ids : List Uuid) (r : PendingOperationRecord) : PendingOperationRecord :=
  ⟨r.operation, .localQueued, if r.id ∈ ids then r.attempts + 1 else r.attempts⟩

/-- **The whole batch goes back to the queue**, with the attempts counted so far. -/
theorem getRecord_caught (hnodup : (s.pending.map PendingOperationRecord.id).Nodup) {w : Work}
    {ids : List Uuid} (hw : w.retryable = Work.countAttempts ids (s.marked env).retryable)
    (hr : r ∈ s.retryable env) :
    getRecord (requeueInFlightRecords w.pending w.retryable false) r.id =
      some (caughtRecord ids r) := by
  have hrecords : w.retryable.map (fun r => { r with
      state := .localQueued, attempts := if false = true then r.attempts + 1 else r.attempts }) =
      (s.retryable env).map (caughtRecord ids) := by
    rw [hw, Work.countAttempts, marked]
    simp only [List.map_map]
    refine List.map_congr_left fun r _ => ?_
    by_cases hid : r.operation.operationId ∈ ids <;>
      simp [Function.comp, caughtRecord, PendingOperationRecord.id, hid]
  have hnodup' : (((s.retryable env).map (caughtRecord ids)).map PendingOperationRecord.id).Nodup := by
    rw [List.map_map]
    exact nodup_retryable hnodup
  rw [requeueInFlightRecords, hrecords]
  exact getRecord_putRecords_of_mem hnodup' (List.mem_map_of_mem hr)

/-- A stuck operation is gone when the batch is marked. -/
theorem getRecord_marked_of_stuck (hnodup : (s.pending.map PendingOperationRecord.id).Nodup)
    (hr : r ∈ s.stuck env) : getRecord (s.marked env).pending r.id = none := by
  have hnot : r.id ∉ (s.retryable env).map PendingOperationRecord.id := by
    intro hmem
    obtain ⟨r', hr', heq⟩ := List.mem_map.mp hmem
    obtain rfl := List.inj_on_of_nodup_map (nodup_taken hnodup) (mem_taken_of_mem_retryable hr')
      (List.mem_filter.mp hr).1 heq
    have hge := (List.mem_filter.mp hr).2
    have hlt := (List.mem_filter.mp hr').2
    simp only [decide_eq_true_eq] at hge hlt
    omega
  have hnot' : r.id ∉ ((s.retryable env).map fun r =>
      { r with state := PendingState.uploadInFlight }).map PendingOperationRecord.id := by
    rw [List.map_map]
    exact hnot
  rw [marked, markUploadInFlightRecords, getRecord_putRecords_of_notMem hnot', screened,
    getRecord_removeFromQueue, if_pos (List.mem_map_of_mem hr)]

theorem getRecord_marked (hnodup : (s.pending.map PendingOperationRecord.id).Nodup)
    (hr : r ∈ s.retryable env) :
    getRecord (s.marked env).pending r.id = some { r with state := .uploadInFlight } := by
  have hnodup' : (((s.retryable env).map fun r =>
      { r with state := PendingState.uploadInFlight }).map PendingOperationRecord.id).Nodup := by
    rw [List.map_map]
    exact nodup_retryable hnodup
  exact getRecord_putRecords_of_mem hnodup' (List.mem_map_of_mem hr)

/-- What is taken is not left in flight, if what is sent is not. -/
theorem settled_of_quiet (hnodup : (s.pending.map PendingOperationRecord.id).Nodup)
    (hquiet : Work.Quiet (s.marked env).pending (s.step env).pending)
    (hsent : ∀ r ∈ s.retryable env, ∀ q ∈ getRecord (s.step env).pending r.id,
      q.state = .localQueued) (hr : r ∈ s.taken env) {q : PendingOperationRecord}
    (hq : q ∈ getRecord (s.step env).pending r.id) : q.state = .localQueued := by
  rcases mem_stuck_or_mem_retryable hr with hstuck | hretryable
  · rcases hquiet r.id q hq with hstate | hbefore
    · exact hstate
    · rw [getRecord_marked_of_stuck hnodup hstuck] at hbefore
      exact absurd hbefore (by simp)
  · exact hsent r hretryable q hq

/-- The queue after a batch whose settlement failed. -/
theorem step_of_error (hsends : s.sends env = true) {w : Work}
    (hw : Work.settle env (s.marked env) = .error w) :
    (s.step env).pending = requeueInFlightRecords w.pending w.retryable false ∧
      Work.Quiet (s.marked env).pending (s.step env).pending := by
  obtain ⟨batch, hstep⟩ := step_of_sends hsends
  have hpending : (s.step env).pending = requeueInFlightRecords w.pending w.retryable false := by
    rw [hstep, exchange, hw]
  refine ⟨hpending, ?_⟩
  have hquiets := Work.quiet_settle env (s.marked env)
  rw [hw] at hquiets
  rw [hpending]
  exact Work.Quiet.trans hquiets (Work.quiet_requeueInFlightRecords _ _ _)

/-- The queue after a batch whose settlement did not fail. -/
theorem step_of_ok (hsends : s.sends env = true) {w : Work}
    (hw : Work.settle env (s.marked env) = .ok w) :
    (s.step env).pending = w.pending ∧
      Work.Quiet (s.marked env).pending (s.step env).pending := by
  obtain ⟨batch, hstep⟩ := step_of_sends hsends
  have hpending : (s.step env).pending = w.pending := by
    rw [hstep, exchange, hw]
  have hquiets := Work.quiet_settle env (s.marked env)
  rw [hw] at hquiets
  exact ⟨hpending, hpending ▸ hquiets⟩

/-! ### The batch in memory -/

theorem unknownRestores_marked : unknownRestores (s.marked env).retryable env.response =
    (s.restores env).map fun r => { r with state := .uploadInFlight } :=
  unknownRestores_map fun _ => rfl

theorem waitingRecords_marked : waitingRecords (s.marked env).retryable env.response =
    (waitingRecords (s.retryable env) env.response).map fun r => { r with state := .uploadInFlight } :=
  waitingRecords_map fun _ => rfl

theorem decodedRestores_marked :
    Work.decodedRestores env (unknownRestores (s.marked env).retryable env.response) =
      Work.decodedRestores env (s.restores env) := by
  rw [unknownRestores_marked, Work.decodedRestores, List.filterMap_map]
  rfl

theorem breaks_marked :
    Work.breaks env (s.marked env).retryable = Work.breaks env (s.retryable env) := by
  have hreissue : Work.reissueFails env (s.marked env).retryable =
      Work.reissueFails env (s.retryable env) := by
    unfold Work.reissueFails
    rw [decodedRestores_marked, unknownRestores_marked, List.isEmpty_map]
    rfl
  have hrequeue : Work.requeueFails env (s.marked env).retryable =
      Work.requeueFails env (s.retryable env) := by
    unfold Work.requeueFails
    rw [waitingRecords_marked, List.isEmpty_map]
  rw [Work.breaks, hreissue, hrequeue, Work.breaks]

theorem countedIds_marked :
    Work.countedIds env (s.marked env).retryable = Work.countedIds env (s.retryable env) := by
  unfold Work.countedIds
  rw [waitingRecords_marked]
  simp only [← List.map_take, List.map_map]
  rfl

/-! ### When a batch is sound -/

section Iff

variable (hnodup : (s.pending.map PendingOperationRecord.id).Nodup) (hlegal : s.Legal env)

include hnodup

/-- A batch that is not sent is sound, -/
theorem sound_of_not_sends (h : s.sends env = false) : s.Sound env := by
  have hanswered : ¬s.answered env = true := by simp [answered, h]
  refine ⟨fun r hr q hq => settled_of_not_sends hnodup h hr hq, fun hans => absurd hans hanswered,
    fun hans => absurd hans hanswered, fun hans => absurd hans hanswered,
    fun hans => absurd hans hanswered, fun hsends => ?_⟩
  rw [h] at hsends
  exact absurd hsends Bool.false_ne_true

/-- and so is one whose request fails. -/
theorem sound_of_request (hsends : s.sends env = true) (h : env.failure = some .request) :
    s.Sound env := by
  have hanswered : ¬s.answered env = true := by simp [answered, h]
  have hsettle : Work.settle env (s.marked env) = .error (s.marked env) := by
    simp only [Work.settle, Work.attempt, h, if_true, bind, Except.bind]
  obtain ⟨hpending, hquiet⟩ := step_of_error hsends hsettle
  have hget : ∀ r ∈ s.retryable env,
      getRecord (s.step env).pending r.id = some (caughtRecord [] r) := by
    intro r hr
    rw [hpending]
    exact getRecord_caught hnodup (by simp [Work.countAttempts]) hr
  refine ⟨fun r hr q hq => ?_, fun hans => absurd hans hanswered,
    fun hans => absurd hans hanswered, fun hans => absurd hans hanswered,
    fun hans => absurd hans hanswered, fun _ _ r hr q hq => ?_⟩
  · refine settled_of_quiet hnodup hquiet (fun r hr q hq => ?_) hr hq
    rw [hget r hr] at hq
    rw [← Option.some.inj hq]
    rfl
  · rw [hget r hr] at hq
    rw [← Option.some.inj hq]
    rfl

include hlegal

/-- **A failure after the answer** is harmless exactly if nothing was accepted or duplicate and
every operation whose object was not found had been counted. -/
theorem sound_iff_of_breaks (hanswered : s.answered env = true)
    (hbreaks : Work.breaks env (s.retryable env) = true) :
    s.Sound env ↔ resolvedIds env.response = [] ∧
      ∀ id ∈ toRequeue env.response, id ∈ Work.countedIds env (s.retryable env) := by
  have hans := hanswered
  rw [answered, Bool.and_eq_true, decide_eq_true_eq] at hanswered
  obtain ⟨hsends, hrequest⟩ := hanswered
  obtain ⟨w, hsettle, hretryable⟩ :=
    @Work.settle_error env (s.marked env) (breaks_marked.trans hbreaks)
  rw [countedIds_marked] at hretryable
  obtain ⟨hpending, hquiet⟩ := step_of_error hsends hsettle
  have hget : ∀ r ∈ s.retryable env, getRecord (s.step env).pending r.id =
      some (caughtRecord (Work.countedIds env (s.retryable env)) r) := by
    intro r hr
    rw [hpending]
    exact getRecord_caught hnodup hretryable hr
  constructor
  · intro h
    refine ⟨List.eq_nil_iff_forall_not_mem.mpr fun id hid => ?_, fun id hid => ?_⟩
    · obtain ⟨r, hr, rfl⟩ := exists_of_verdict hlegal (Or.inl hid)
      have hgone := h.resolved_gone hans r.id hid
      rw [hget r hr] at hgone
      exact absurd hgone (by simp)
    · obtain ⟨r, hr, rfl⟩ :=
        exists_of_verdict hlegal (Or.inr (mem_rejected_of_mem_toRequeue hid))
      have hcounted := h.counted hans r hr hid _ (hget r hr)
      by_contra hnot
      rw [caughtRecord, if_neg hnot] at hcounted
      dsimp only at hcounted
      omega
  · rintro ⟨hresolved, hcounted⟩
    -- a restore is never counted, so that none has been rejected
    have hrestores : s.restores env = [] := by
      refine List.eq_nil_iff_forall_not_mem.mpr fun r hr => ?_
      obtain ⟨hmem, hid, hrestore⟩ := (mem_unknownRestores (nodup_retryable hnodup)).mp hr
      have hwaiting : r.id ∈
          (waitingRecords (s.retryable env) env.response).map PendingOperationRecord.id := by
        have hin := hcounted r.id hid
        unfold Work.countedIds at hin
        split at hin
        · rw [List.map_take] at hin
          exact List.mem_of_mem_take hin
        · exact hin
        · exact absurd hin List.not_mem_nil
      obtain ⟨r', hr', heq⟩ := List.mem_map.mp hwaiting
      obtain ⟨hmem', -, hnot⟩ := (mem_waitingRecords (nodup_retryable hnodup)).mp hr'
      obtain rfl := List.inj_on_of_nodup_map (nodup_retryable hnodup) hmem' hmem heq
      rw [hrestore] at hnot
      exact absurd hnot (by simp)
    refine ⟨fun r hr q hq => ?_, fun _ id hid => ?_, fun _ r hr => ?_, fun _ r hr => ?_,
      fun _ r hr hid q hq => ?_, fun _ hf => absurd hf hrequest⟩
    · refine settled_of_quiet hnodup hquiet (fun r hr q hq => ?_) hr hq
      rw [hget r hr] at hq
      rw [← Option.some.inj hq]
      rfl
    · rw [hresolved] at hid
      exact absurd hid List.not_mem_nil
    · rw [hrestores] at hr
      exact absurd hr List.not_mem_nil
    · rw [hrestores] at hr
      exact absurd hr List.not_mem_nil
    · rw [hget r hr] at hq
      rw [← Option.some.inj hq, caughtRecord, if_pos (hcounted r.id hid)]

/-! #### Without a failure -/

omit hnodup in
/-- The creates have ids of their own. -/
theorem notMem_replacements {seq lamport : ℤ} {id : Uuid}
    (hid : id ∈ (s.retryable env).map PendingOperationRecord.id) :
    id ∉ ((buildOperations (Work.decodedRestores env (s.restores env)) seq lamport).map
      queuedRecord).map PendingOperationRecord.id := by
  have hids : ((buildOperations (Work.decodedRestores env (s.restores env)) seq lamport).map
      queuedRecord).map PendingOperationRecord.id =
        (Work.decodedRestores env (s.restores env)).map fun e => e.2.operationId := by
    rw [List.map_map, ← map_operationId_buildOperations]
    rfl
  rw [hids]
  intro hmem
  obtain ⟨e, he, rfl⟩ := List.mem_map.mp hmem
  obtain ⟨r, hr, hdecoded⟩ := List.mem_filterMap.mp he
  obtain ⟨sealed, hsealed, rfl⟩ := Option.map_eq_some_iff.mp hdecoded
  exact sealed_notMem_retryable hlegal
    (mem_of_mem_recordsWithIds (List.mem_filter.mp hr).1) hsealed hid

omit hnodup in
/-- Sending restores again takes them out of the queue, if the device is there. -/
theorem getRecord_reissued (w : Work) (hw : w.retryable = (s.marked env).retryable) {id : Uuid}
    (hid : id ∈ (s.retryable env).map PendingOperationRecord.id) :
    getRecord (Work.reissuedPending env w) id =
      if env.device = true ∧ id ∈ (s.restores env).map PendingOperationRecord.id then none
      else getRecord w.pending id := by
  have hids : (unknownRestores w.retryable env.response).map PendingOperationRecord.id =
      (s.restores env).map PendingOperationRecord.id := by
    rw [hw, unknownRestores_marked, List.map_map]
    rfl
  have hdecoded : Work.decodedRestores env (unknownRestores w.retryable env.response) =
      Work.decodedRestores env (s.restores env) := by
    rw [hw, decodedRestores_marked]
  have hempty : (unknownRestores w.retryable env.response).isEmpty = (s.restores env).isEmpty := by
    rw [hw, unknownRestores_marked, List.isEmpty_map]
  unfold Work.reissuedPending
  dsimp only
  rw [hids, hdecoded, hempty]
  by_cases hskip : ((s.restores env).isEmpty || !env.device) = true
  · rw [if_pos hskip, if_neg]
    rintro ⟨hdevice, hmem⟩
    rw [Bool.or_eq_true, hdevice] at hskip
    rcases hskip with hskip | hskip
    · rw [List.isEmpty_iff.mp hskip] at hmem
      exact absurd hmem List.not_mem_nil
    · exact absurd hskip (by simp)
  have hdevice : env.device = true := by
    by_contra hdevice
    exact hskip (by simp [hdevice])
  rw [if_neg hskip]
  split
  · rw [getRecord_removeFromQueue]
    simp only [hdevice, true_and]
  · rw [replaceQueuedOperations, enqueueOperationsBatch,
      getRecord_putRecords_of_notMem (notMem_replacements hlegal hid), getRecord_removeFromQueue]
    simp only [hdevice, true_and]

omit hnodup hlegal in
/-- The create of a restore that can be decrypted is queued. -/
theorem getRecord_reissued_ne_none (w : Work) (hw : w.retryable = (s.marked env).retryable)
    (hdevice : env.device = true) (hr : r ∈ s.restores env) {sealed : Sealed}
    (hsealed : sealed ∈ env.sealRestore r.id) :
    getRecord (Work.reissuedPending env w) sealed.operationId ≠ none := by
  have hmem : (reissueItem r.operation, sealed) ∈ Work.decodedRestores env (s.restores env) :=
    List.mem_filterMap.mpr ⟨r, hr, by rw [Option.mem_def.mp hsealed]; rfl⟩
  have hdecoded : Work.decodedRestores env (unknownRestores w.retryable env.response) =
      Work.decodedRestores env (s.restores env) := by
    rw [hw, decodedRestores_marked]
  have hempty : (unknownRestores w.retryable env.response).isEmpty = false := by
    rw [hw, unknownRestores_marked, List.isEmpty_map, List.isEmpty_eq_false_iff]
    exact List.ne_nil_of_mem hr
  unfold Work.reissuedPending
  dsimp only
  rw [hdecoded, hempty, hdevice, if_neg (by simp), if_neg (by simpa using List.ne_nil_of_mem hmem)]
  refine getRecord_putRecords_ne_none (Or.inl ?_)
  have hids : ((buildOperations (Work.decodedRestores env (s.restores env)) w.deviceSequence
      w.lamportClock).map queuedRecord).map PendingOperationRecord.id =
        (Work.decodedRestores env (s.restores env)).map fun e => e.2.operationId := by
    rw [List.map_map, ← map_operationId_buildOperations]
    rfl
  rw [hids]
  exact List.mem_map.mpr ⟨_, hmem, rfl⟩

/-- The record of an operation whose object was not found. -/
def waitingRecord (r : PendingOperationRecord) : PendingOperationRecord :=
  ⟨r.operation, .localQueued, r.attempts + 1⟩

omit hnodup hlegal in
theorem requeued_marked : (waitingRecords (s.marked env).retryable env.response).map (fun r => { r with
    state := .localQueued, attempts := if true = true then r.attempts + 1 else r.attempts }) =
      (waitingRecords (s.retryable env) env.response).map waitingRecord := by
  rw [waitingRecords_marked, List.map_map]
  rfl

omit hnodup hlegal in
theorem map_id_waiting : ((waitingRecords (s.retryable env) env.response).map waitingRecord).map
    PendingOperationRecord.id =
      (waitingRecords (s.retryable env) env.response).map PendingOperationRecord.id := by
  rw [List.map_map]
  rfl

/-- **Each operation of a batch after its settlement.** -/
theorem getRecord_settled (hr : r ∈ s.retryable env) :
    getRecord (Work.settledPending env (s.marked env)) r.id =
      if r.id ∈ toRequeue env.response then
        if isBookmarkRestore r.operation then
          if env.device then none else some { r with state := .uploadInFlight }
        else some (waitingRecord r)
      else none := by
  have hR := @nodup_retryable s env hnodup
  have hid : r.id ∈ (s.retryable env).map PendingOperationRecord.id := List.mem_map_of_mem hr
  have hrestore : r.id ∈ (s.restores env).map PendingOperationRecord.id ↔
      r.id ∈ toRequeue env.response ∧ isBookmarkRestore r.operation = true := by
    constructor
    · intro hmem
      obtain ⟨r', hr', heq⟩ := List.mem_map.mp hmem
      obtain ⟨hmem', hrequeue, hrest⟩ := (mem_unknownRestores hR).mp hr'
      obtain rfl := List.inj_on_of_nodup_map hR hmem' hr heq
      exact ⟨hrequeue, hrest⟩
    · rintro ⟨hrequeue, hrest⟩
      exact List.mem_map_of_mem ((mem_unknownRestores hR).mpr ⟨hr, hrequeue, hrest⟩)
  have hwaiting : r.id ∈ (waitingRecords (s.retryable env) env.response).map
      PendingOperationRecord.id → r ∈ waitingRecords (s.retryable env) env.response := by
    intro hmem
    obtain ⟨r', hr', heq⟩ := List.mem_map.mp hmem
    obtain rfl := List.inj_on_of_nodup_map hR ((mem_waitingRecords hR).mp hr').1 hr heq
    exact hr'
  have hnodupWaiting : (((waitingRecords (s.retryable env) env.response).map waitingRecord).map
      PendingOperationRecord.id).Nodup := by
    rw [map_id_waiting]
    refine nodup_recordsWithIds (List.Nodup.filter _ ?_)
    exact (nodup_rejected hnodup hlegal).sublist (List.filter_sublist.map _)
  rw [Work.settledPending, getRecord_removeFromQueue, requeueInFlightRecords, requeued_marked]
  by_cases hrequeue : r.id ∈ toRequeue env.response
  · rw [if_neg (not_toRequeue_and_toRemove (nodup_rejected hnodup hlegal) hrequeue), if_pos hrequeue]
    by_cases hrest : isBookmarkRestore r.operation = true
    · have hnot : r.id ∉ ((waitingRecords (s.retryable env) env.response).map waitingRecord).map
          PendingOperationRecord.id := by
        rw [map_id_waiting]
        intro hmem
        have hfalse := ((mem_waitingRecords hR).mp (hwaiting hmem)).2.2
        rw [hrest] at hfalse
        exact absurd hfalse (by simp)
      have hresolved : r.id ∉ resolvedIds env.response := fun hmem =>
        notMem_rejected_of_mem_resolvedIds hnodup hlegal hmem (mem_rejected_of_mem_toRequeue hrequeue)
      rw [getRecord_putRecords_of_notMem hnot,
        getRecord_reissued hlegal (Work.resolved env (s.marked env)) rfl hid, if_pos hrest]
      by_cases hdevice : env.device = true
      · rw [if_pos ⟨hdevice, hrestore.mpr ⟨hrequeue, hrest⟩⟩, if_pos hdevice]
      · rw [if_neg fun h => hdevice h.1, if_neg hdevice, Work.resolved, getRecord_removeFromQueue,
          if_neg hresolved, getRecord_marked hnodup hr]
    · rw [if_neg hrest]
      have hmem : r ∈ waitingRecords (s.retryable env) env.response :=
        (mem_waitingRecords hR).mpr ⟨hr, hrequeue, by simpa using hrest⟩
      exact getRecord_putRecords_of_mem hnodupWaiting (List.mem_map_of_mem hmem)
  · rw [if_neg hrequeue]
    by_cases hremove : r.id ∈ toRemove env.response
    · rw [if_pos hremove]
    · have hresolved : r.id ∈ resolvedIds env.response :=
        (verdict_of_mem hlegal hr).resolve_right fun h => h.elim hrequeue hremove
      have hnot : r.id ∉ ((waitingRecords (s.retryable env) env.response).map waitingRecord).map
          PendingOperationRecord.id := by
        rw [map_id_waiting]
        exact fun hmem => hrequeue ((mem_waitingRecords hR).mp (hwaiting hmem)).2.1
      rw [if_neg hremove, getRecord_putRecords_of_notMem hnot,
        getRecord_reissued hlegal (Work.resolved env (s.marked env)) rfl hid,
        if_neg fun h => hrequeue (hrestore.mp h.2).1, Work.resolved, getRecord_removeFromQueue,
        if_pos hresolved]

/-- **Without a failure** a batch is sound exactly if the device is there whenever a restore
has to be sent again. -/
theorem sound_iff_of_settled (hanswered : s.answered env = true)
    (hbreaks : Work.breaks env (s.retryable env) = false) :
    s.Sound env ↔ env.device = true ∨ s.restores env = [] := by
  have hans := hanswered
  have hR := @nodup_retryable s env hnodup
  rw [answered, Bool.and_eq_true, decide_eq_true_eq] at hanswered
  obtain ⟨hsends, hrequest⟩ := hanswered
  obtain ⟨w, hsettle, hw⟩ :=
    @Work.settle_ok env (s.marked env) hrequest (breaks_marked.trans hbreaks)
  obtain ⟨hpending, hquiet⟩ := step_of_ok hsends hsettle
  rw [hw] at hpending
  have hget := fun r (hr : r ∈ s.retryable env) => hpending ▸ getRecord_settled hnodup hlegal hr
  constructor
  · intro h
    by_contra hnot
    rw [not_or] at hnot
    obtain ⟨r, hr⟩ := List.exists_mem_of_ne_nil _ hnot.2
    obtain ⟨hmem, hid, hrest⟩ := (mem_unknownRestores hR).mp hr
    have hflight := hget r hmem
    rw [if_pos hid, if_pos hrest, if_neg hnot.1] at hflight
    have hstate := h.settled r (mem_taken_of_mem_retryable hmem) _ hflight
    exact absurd hstate (by simp)
  · intro hdevice
    -- what is read back is an operation that waits
    have hcases : ∀ r ∈ s.retryable env, ∀ q ∈ getRecord (s.step env).pending r.id,
        q = waitingRecord r := by
      intro r hr q hq
      rw [hget r hr] at hq
      split_ifs at hq with hid hrest hthere
      · exact absurd hq (by simp)
      · refine absurd (hdevice.resolve_left hthere) ?_
        exact List.ne_nil_of_mem ((mem_unknownRestores hR).mpr ⟨hr, hid, hrest⟩)
      · exact (Option.some.inj hq).symm
      · exact absurd hq (by simp)
    have hthere : ∀ r ∈ s.restores env, env.device = true := fun r hr =>
      hdevice.resolve_right (List.ne_nil_of_mem hr)
    refine ⟨fun r hr q hq => ?_, fun _ id hid => ?_, fun _ r hr sealed hsealed => Or.inl ?_,
      fun _ r hr sealed hsealed => Or.inr ?_, fun _ r hr _ q hq => ?_, fun _ hf => absurd hf hrequest⟩
    · refine settled_of_quiet hnodup hquiet (fun r hr q hq => ?_) hr hq
      rw [hcases r hr q hq]
      rfl
    · obtain ⟨r, hr, rfl⟩ := exists_of_verdict hlegal (Or.inl hid)
      rw [hget r hr, if_neg]
      exact fun hrequeue => notMem_rejected_of_mem_resolvedIds hnodup hlegal hid
        (mem_rejected_of_mem_toRequeue hrequeue)
    · obtain ⟨hmem, hid, hrest⟩ := (mem_unknownRestores hR).mp hr
      rw [hget r hmem, if_pos hid, if_pos hrest, if_pos (hthere r hr)]
    · have hmem := ((mem_unknownRestores hR).mp hr).1
      have hnot : sealed.operationId ∉ toRemove env.response := by
        intro hremove
        obtain ⟨r', hr', heq⟩ :=
          exists_of_verdict hlegal (Or.inr (mem_rejected_of_mem_toRemove hremove))
        exact sealed_notMem_retryable hlegal hmem hsealed (heq ▸ List.mem_map_of_mem hr')
      rw [hpending, Work.settledPending, getRecord_removeFromQueue, if_neg hnot]
      refine getRecord_putRecords_ne_none (Or.inr ?_)
      exact getRecord_reissued_ne_none (Work.resolved env (s.marked env)) rfl (hthere r hr) hr hsealed
    · rw [hcases r hr q hq]
      rfl

/-- **One batch**: what is expected of it holds exactly if it is clean. -/
theorem sound_iff_clean : s.Sound env ↔ s.Clean env := by
  unfold Clean
  by_cases hanswered : s.answered env = true
  · simp only [hanswered, true_implies]
    by_cases hbreaks : Work.breaks env (s.retryable env) = true
    · rw [if_pos hbreaks]
      exact sound_iff_of_breaks hnodup hlegal hanswered hbreaks
    · rw [if_neg hbreaks]
      exact sound_iff_of_settled hnodup hlegal hanswered (by simpa using hbreaks)
  · refine iff_of_true ?_ fun h => absurd h hanswered
    by_cases hsends : s.sends env = true
    · refine sound_of_request hnodup hsends ?_
      by_contra hrequest
      exact hanswered (by simp [answered, hsends, hrequest])
    · exact sound_of_not_sends hnodup (by simpa using hsends)

end Iff

/-! ### The whole call -/

theorem nodup_step (h : (s.pending.map PendingOperationRecord.id).Nodup) (env : BatchEnv) :
    ((s.step env).pending.map PendingOperationRecord.id).Nodup := by
  have hscreened : ((s.screened env).map PendingOperationRecord.id).Nodup :=
    (nodup_arrived h).sublist ((removeFromQueue_sublist _).map _)
  have hexchange : ∀ batch, ((s.exchange env batch).pending.map PendingOperationRecord.id).Nodup := by
    intro batch
    have hsettle := @Work.nodup_settle env (s.marked env) (nodup_putRecords hscreened)
    rcases hw : Work.settle env (s.marked env) with w | w
    · rw [hw] at hsettle
      rw [exchange, hw]
      exact nodup_putRecords hsettle
    · rw [hw] at hsettle
      rw [exchange, hw]
      exact hsettle
  unfold step
  split
  · split
    · exact h
    split
    · exact nodup_arrived h
    split
    · exact nodup_arrived h
    split
    · exact hscreened
    split
    · exact hscreened
    · exact hexchange _
  · exact h

/-- **A call of `uploadPending`**, on any queue and with any answers and failures: what is
expected of its batches holds exactly if each of them is clean. -/
theorem sound_iff (pending : List PendingOperationRecord)
    (hnodup : (pending.map PendingOperationRecord.id).Nodup) (deviceSequence lamportClock : ℤ)
    (envs : List BatchEnv)
    (hlegal : Runs.Meets step Legal (start pending deviceSequence lamportClock) envs) :
    Runs.Meets step Sound (start pending deviceSequence lamportClock) envs ↔
      Runs.Meets step Clean (start pending deviceSequence lamportClock) envs :=
  Runs.Meets.congr_of_invariant
    (I := fun s => (s.pending.map PendingOperationRecord.id).Nodup)
    (fun _ env h => nodup_step h env) (fun _ _ h hl => sound_iff_clean h hl) hnodup hlegal

/-- A queue with a restored bookmark. -/
def restoreQueue : List PendingOperationRecord :=
  [queuedRecord (Server.smallOp 5 1 1 .bookmark 7 .restore)]

/-- The server does not know the bookmark. -/
def unknownObject (failure : Option FailurePoint) : BatchEnv where
  arrivals := []
  response := ⟨[], [], [(5, .objectNotFound)], 0⟩
  device := true
  sealRestore := fun id => if id = 5 then some ⟨6, Server.smallPayload⟩ else none
  failure := failure

theorem legal_unknownObject (failure : Option FailurePoint) :
    (start restoreQueue 1 1).Legal (unknownObject failure) := by
  have hnone : (start restoreQueue 1 1).Legal (unknownObject none) :=
    ⟨by decide +kernel, by decide +kernel⟩
  exact ⟨hnone.verdicts, hnone.fresh⟩

/-- The restore is sent again as a create. -/
theorem sound_unknownObject :
    Runs.Meets step Sound (start restoreQueue 1 1) [unknownObject none] :=
  (sound_iff restoreQueue (by decide) 1 1 [unknownObject none]
    ⟨legal_unknownObject none, trivial⟩).mpr ⟨fun _ => Or.inl rfl, trivial⟩

/-- The create is in the queue when recording its field states fails, and the restore goes
back to the queue. -/
theorem not_sound : ¬∀ (pending : List PendingOperationRecord) (deviceSequence lamportClock : ℤ)
    (envs : List BatchEnv), (pending.map PendingOperationRecord.id).Nodup →
      Runs.Meets step Legal (start pending deviceSequence lamportClock) envs →
        Runs.Meets step Sound (start pending deviceSequence lamportClock) envs := by
  intro h
  obtain ⟨hsound, -⟩ := h restoreQueue 1 1 [unknownObject (some .fieldStates)] (by decide)
    ⟨legal_unknownObject _, trivial⟩
  have hboth := hsound.not_both (by decide +kernel) _ List.mem_cons_self
    ⟨6, Server.smallPayload⟩ rfl
  simp only [getRecord_eq_none] at hboth
  revert hboth
  decide +kernel

end UploadCall

end Client

end HelixSync
