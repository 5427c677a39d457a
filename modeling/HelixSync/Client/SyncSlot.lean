import HelixSync.Lib.Runs
import Mathlib.Data.List.Perm.Basic
import Mathlib.Tactic.Common

/-!
# The sync slot

`runSyncCycle`, `downloadEverything` and `runExclusive` (`extension/src/sync/engine.ts`)
share one flag, `syncInFlight`. The worker is single-threaded: a call runs from one `await`
to the next without interruption, and between two of its segments any other call may run.
So the state of the engine is what its module variables hold, together with the `await` at
which each call is suspended, and one event resumes one call.

`runExclusive` tests the flag and sets it in one segment. The other two test it, wait for
the cooldown to be read from storage, and set it without another test: two calls that both
found the slot free both take it (`HelixSync.Client.Engine.not_slotExclusive`). The slot is
exclusive exactly in the runs where no call resumes from that wait while the slot is taken
(`HelixSync.Client.Engine.slotExclusive_iff`).
-/

namespace HelixSync

namespace Client

/-- The functions that use the slot. -/
inductive SlotUser where
  | runSyncCycle
  | downloadEverything
  | runExclusive
  deriving DecidableEq

/-- The `await` at which a call that has taken the slot is suspended. -/
inductive Activity where
  | uploadPending
  | countPendingOperations
  | downloadAndApply (moreUpload : Bool)
  | yieldToEventLoop
  | callback
  deriving DecidableEq

/-- How far a call has come. -/
inductive CallState where
  /-- Past its test of the flag, at `ensureSyncBlockedUntilHydrated`. -/
  | hydrating
  /-- On `syncSlotWaiters`. -/
  | waiting
  /-- Taken off `syncSlotWaiters`, not resumed yet. -/
  | woken
  /-- Between taking and releasing the slot. A cycle counts the cycles it chained. -/
  | holding (activity : Activity) (chainedCycles chainStartMs : ℕ)
  | finished
  deriving DecidableEq

/-- Whether a call is between taking and releasing the slot. -/
def CallState.isHolding : CallState → Bool
  | .holding _ _ _ => true
  | _ => false

/-- A call under way, or finished. -/
structure SlotCall where
  user : SlotUser
  state : CallState
  deriving DecidableEq

/-- Whether the call has the slot. -/
def SlotCall.isHolding (c : SlotCall) : Bool := c.state.isHolding

/-- `syncBlockedUntilHydration`: not started, reading, or settled. -/
inductive Hydration where
  | unstarted
  | reading
  | resolved
  | rejected
  deriving DecidableEq

/-- The module variables of the engine that the slot involves, the clock, and the calls. -/
structure Engine where
  now : ℕ
  syncInFlight : Bool
  rerunRequested : Bool
  syncBlockedUntil : ℕ
  hydration : Hydration
  calls : List SlotCall
  deriving DecidableEq

/-- What the promise a call waits for comes to: a value, which for `uploadPending` and
`downloadAndApply` says that more remains and after `countPendingOperations` that the
download is skipped, or an error, with the cooldown of a `429` in seconds. -/
inductive PromiseResult where
  | value (flag : Bool)
  | error (cooldownSeconds : Option ℕ)

/-- What may happen next. -/
inductive EngineEvent where
  | tick (time : ℕ)
  | call (user : SlotUser)
  /-- `chrome.storage.session.get` returns, -/
  | hydrated (stored : Option ℕ)
  /-- or fails. -/
  | hydrationFailed
  /-- `clearSyncBlockedState`. -/
  | unblock
  | resume (index : ℕ) (result : PromiseResult)

namespace Engine

/-- The worker has just started. -/
def start : Engine where
  now := 0
  syncInFlight := false
  rerunRequested := false
  syncBlockedUntil := 0
  hydration := .unstarted
  calls := []

/-- A call moves on. -/
def setCall (e : Engine) (index : ℕ) (user : SlotUser) (state : CallState) : Engine :=
  { e with calls := e.calls.set index ⟨user, state⟩ }

/-- A call is added. -/
def addCall (e : Engine) (user : SlotUser) (state : CallState) : Engine :=
  { e with calls := e.calls ++ [⟨user, state⟩] }

/-- `ensureSyncBlockedUntilHydrated`, up to its `await`. -/
def ensureHydration (e : Engine) : Engine :=
  { e with hydration := if e.hydration = .unstarted then .reading else e.hydration }

/-- The slot is taken. -/
def takeSlot (e : Engine) : Engine := { e with syncInFlight := true }

/-- `releaseSyncSlot`. -/
def releaseSyncSlot (e : Engine) : Engine :=
  { e with
    syncInFlight := false
    calls := e.calls.map fun c => if c.state = .waiting then { c with state := .woken } else c }

/-- `runSyncCycle`, up to its first `await`. -/
def runSyncCycle (e : Engine) : Engine :=
  if e.syncInFlight then { e with rerunRequested := true }
  else e.ensureHydration.addCall .runSyncCycle .hydrating

/-- `downloadEverything`, up to its first `await`. -/
def downloadEverything (e : Engine) : Engine :=
  if e.syncInFlight then e.addCall .downloadEverything .waiting
  else e.ensureHydration.addCall .downloadEverything .hydrating

/-- `runExclusive`, up to its first `await`. -/
def runExclusive (e : Engine) : Engine :=
  if e.syncInFlight then e.addCall .runExclusive .waiting
  else e.takeSlot.addCall .runExclusive (.holding .callback 0 0)

/-- The `finally` block of `runSyncCycle`. -/
def endCycle (e : Engine) (index : ℕ) : Engine :=
  (e.setCall index .runSyncCycle .finished).releaseSyncSlot

/-- The `finally` block of the other two: a trigger that arrived meanwhile gets its cycle. -/
def endCall (e : Engine) (index : ℕ) (user : SlotUser) : Engine :=
  let released := (e.setCall index user .finished).releaseSyncSlot
  if released.rerunRequested then { released with rerunRequested := false }.runSyncCycle
  else released

/-- A new round of the loop of `runSyncCycle`. -/
def beginRound (e : Engine) (index chainedCycles chainStartMs : ℕ) : Engine :=
  { e with rerunRequested := false }.setCall index .runSyncCycle
    (.holding .uploadPending chainedCycles chainStartMs)

/-- The end of a round: another one, or the end of the call. -/
def endRound (e : Engine) (index chainedCycles chainStartMs : ℕ) : Engine :=
  if e.rerunRequested then e.beginRound index chainedCycles chainStartMs else e.endCycle index

/-- `shouldChainAnotherCycle`. -/
def shouldChainAnotherCycle (chainedCycles chainStartMs nowMs : ℕ) : Bool :=
  decide (chainedCycles < 4) && decide (nowMs - chainStartMs < 60000)

/-- The end of a round whose upload and download are done. -/
def afterDownload (e : Engine) (index chainedCycles chainStartMs : ℕ) (more : Bool) : Engine :=
  if more then
    if shouldChainAnotherCycle (chainedCycles + 1) chainStartMs e.now then
      e.setCall index .runSyncCycle (.holding .yieldToEventLoop (chainedCycles + 1) chainStartMs)
    else e.endRound index (chainedCycles + 1) chainStartMs
  else e.endRound index chainedCycles chainStartMs

/-- The `catch` block of `runSyncCycle`. -/
def failRound (e : Engine) (index : ℕ) (cooldownSeconds : Option ℕ) : Engine :=
  { e with
    syncBlockedUntil := (cooldownSeconds.map fun c => e.now + c * 1000).getD e.syncBlockedUntil
    rerunRequested := false }.endCycle index

/-- A call resumes after its wait for the cooldown. -/
def resumeHydrated (e : Engine) (index : ℕ) : SlotUser → Engine
  | .runSyncCycle => e.takeSlot.beginRound index 0 e.now
  | user => e.takeSlot.setCall index user (.holding (.downloadAndApply false) 0 0)

/-- A call resumes after its wait for the slot, and tests the flag again. -/
def resumeWoken (e : Engine) (index : ℕ) (user : SlotUser) : Engine :=
  if e.syncInFlight then e.setCall index user .waiting
  else match user with
  | .runExclusive => e.takeSlot.setCall index .runExclusive (.holding .callback 0 0)
  | user => e.ensureHydration.setCall index user .hydrating

/-- A cycle that has the slot resumes. -/
def resumeCycle (e : Engine) (index chained chainStart : ℕ) : Activity → PromiseResult → Engine
  | .uploadPending, .value false =>
    e.setCall index .runSyncCycle (.holding .countPendingOperations chained chainStart)
  | .uploadPending, .value true =>
    e.setCall index .runSyncCycle (.holding (.downloadAndApply true) chained chainStart)
  | .countPendingOperations, .value true => e.endRound index chained chainStart
  | .countPendingOperations, .value false =>
    e.setCall index .runSyncCycle (.holding (.downloadAndApply false) chained chainStart)
  | .downloadAndApply moreUpload, .value moreDownload =>
    e.afterDownload index chained chainStart (moreUpload || moreDownload)
  | .yieldToEventLoop, _ => { e with rerunRequested := true }.endRound index chained chainStart
  | .callback, _ => e
  | _, .error cooldownSeconds => e.failRound index cooldownSeconds

/-- `downloadEverything` resumes with the slot. -/
def resumeDownload (e : Engine) (index : ℕ) : Activity → PromiseResult → Engine
  | .downloadAndApply _, .value true =>
    e.setCall index .downloadEverything (.holding .yieldToEventLoop 0 0)
  | .yieldToEventLoop, _ =>
    e.setCall index .downloadEverything (.holding (.downloadAndApply false) 0 0)
  | _, _ => e.endCall index .downloadEverything

/-- One call resumes. A call that is finished, on the list of waiters, or at a promise that
has not settled does not. -/
def resume (e : Engine) (index : ℕ) (result : PromiseResult) : Engine :=
  match e.calls[index]? with
  | none => e
  | some c =>
    match c.state with
    | .hydrating =>
      match e.hydration with
      | .unstarted | .reading => e
      | .rejected => e.setCall index c.user .finished
      | .resolved =>
        if e.now < e.syncBlockedUntil then e.setCall index c.user .finished
        else e.resumeHydrated index c.user
    | .woken => e.resumeWoken index c.user
    | .holding activity chained chainStart =>
      match c.user with
      | .runSyncCycle => e.resumeCycle index chained chainStart activity result
      | .downloadEverything => e.resumeDownload index activity result
      | .runExclusive => e.endCall index .runExclusive
    | .waiting | .finished => e

/-- One event. -/
def step (e : Engine) : EngineEvent → Engine
  | .tick time => { e with now := max e.now time }
  | .call .runSyncCycle => e.runSyncCycle
  | .call .downloadEverything => e.downloadEverything
  | .call .runExclusive => e.runExclusive
  | .hydrated stored =>
    if e.hydration = .reading then
      { e with hydration := .resolved, syncBlockedUntil := stored.getD e.syncBlockedUntil }
    else e
  | .hydrationFailed => if e.hydration = .reading then { e with hydration := .rejected } else e
  | .unblock => { e with syncBlockedUntil := 0 }
  | .resume index result => e.resume index result

/-! ### Who holds the slot -/

/-- The number of calls between taking and releasing the slot. -/
def holders (e : Engine) : ℕ := e.calls.countP SlotCall.isHolding

/-- At most one call has the slot. -/
def SlotExclusive (e : Engine) : Prop := e.holders ≤ 1

/-- While a callback of `runExclusive` runs, no other call uploads or downloads. -/
def CallbackAlone (e : Engine) : Prop :=
  ∀ (i j : ℕ) (c d : SlotCall), e.calls[i]? = some c → e.calls[j]? = some d → i ≠ j →
    (∃ chained start, c.state = .holding .callback chained start) →
      ∀ activity chained start, d.state ≠ .holding activity chained start

/-- A call that resumes from its wait for the cooldown finds the slot free. -/
def TakesFree (e : Engine) : EngineEvent → Prop
  | .resume index _ => ∀ c ∈ e.calls[index]?, c.state = .hydrating → e.hydration = .resolved →
      ¬e.now < e.syncBlockedUntil → e.syncInFlight = false
  | _ => True

/-- The flag tells whether there is a holder, and there is at most one. -/
def Guarded (e : Engine) : Prop := e.holders = if e.syncInFlight then 1 else 0

instance (e : Engine) : Decidable e.SlotExclusive := inferInstanceAs (Decidable (_ ≤ _))

instance decidableTakesFree (e : Engine) : ∀ event, Decidable (TakesFree e event)
  | .resume index _ => inferInstanceAs (Decidable (∀ c ∈ e.calls[index]?, c.state = .hydrating →
      e.hydration = .resolved → ¬e.now < e.syncBlockedUntil → e.syncInFlight = false))
  | .tick _ | .call _ | .hydrated _ | .hydrationFailed | .unblock => inferInstanceAs (Decidable True)

theorem callbackAlone_of_slotExclusive {e : Engine} (h : e.SlotExclusive) : e.CallbackAlone := by
  rintro i j c d hi hj hne ⟨chained, start, hc⟩ activity chained' start' hd
  -- two positions that both hold the slot
  have hcount : 2 ≤ e.calls.countP SlotCall.isHolding := by
    have hci : c.isHolding = true := by simp [SlotCall.isHolding, CallState.isHolding, hc]
    have hdj : d.isHolding = true := by simp [SlotCall.isHolding, CallState.isHolding, hd]
    obtain ⟨hlen, rfl⟩ := List.getElem?_eq_some_iff.mp hi
    have hpos : 0 < (e.calls.eraseIdx i).countP SlotCall.isHolding := by
      refine List.countP_pos_iff.mpr ⟨d, ?_, hdj⟩
      exact List.mem_eraseIdx_iff_getElem?.mpr ⟨j, Ne.symm hne, hj⟩
    have hsplit : e.calls.countP SlotCall.isHolding =
        (e.calls.eraseIdx i).countP SlotCall.isHolding + 1 := by
      have hperm := (List.getElem_cons_eraseIdx_perm hlen).countP_eq SlotCall.isHolding
      rw [List.countP_cons_of_pos hci] at hperm
      exact hperm.symm
    omega
  exact absurd h (by rw [SlotExclusive, holders]; omega)

section Holders

variable {e : Engine} {index : ℕ} {c : SlotCall} {user : SlotUser} {state : CallState}

/-- One for a state that has the slot. -/
def share (state : CallState) : ℕ := if state.isHolding then 1 else 0

theorem holders_setCall (h : e.calls[index]? = some c) :
    (e.setCall index user state).holders + share c.state = e.holders + share state := by
  obtain ⟨hlt, rfl⟩ := List.getElem?_eq_some_iff.mp h
  have hle : share e.calls[index].state ≤ e.holders := by
    rw [share]
    split
    · rename_i hold
      exact List.countP_pos_iff.mpr ⟨_, List.getElem_mem hlt, hold⟩
    · exact Nat.zero_le _
  have hset : (e.setCall index user state).holders =
      e.holders - share e.calls[index].state + share state :=
    List.countP_set hlt
  omega

theorem holders_addCall : (e.addCall user state).holders = e.holders + share state := by
  change (e.calls ++ [(⟨user, state⟩ : SlotCall)]).countP SlotCall.isHolding = _
  rw [List.countP_append, List.countP_singleton]
  rfl

@[simp] theorem holders_releaseSyncSlot : e.releaseSyncSlot.holders = e.holders := by
  change (e.calls.map _).countP SlotCall.isHolding = e.calls.countP SlotCall.isHolding
  rw [List.countP_map]
  refine List.countP_congr fun c _ => ?_
  by_cases hc : c.state = .waiting
  · simp [SlotCall.isHolding, hc, CallState.isHolding]
  · simp [hc]

@[simp] theorem share_holding (activity : Activity) (chained start : ℕ) :
    share (.holding activity chained start) = 1 := rfl

@[simp] theorem share_hydrating : share .hydrating = 0 := rfl

@[simp] theorem share_finished : share .finished = 0 := rfl

/-! ### What one event does to the holders -/

/-- A call moves on without taking or releasing the slot. -/
theorem Guarded.setCall (h : e.Guarded) (hc : e.calls[index]? = some c)
    (hshare : share c.state = share state) : (e.setCall index user state).Guarded := by
  have hset := @holders_setCall e index c user state hc
  rw [Guarded] at h ⊢
  change (e.setCall index user state).holders = if e.syncInFlight then 1 else 0
  omega

/-- A call takes the slot, and finds it free. -/
theorem Guarded.take (h : e.Guarded) (hfree : e.syncInFlight = false)
    (hc : e.calls[index]? = some c) (hold : share c.state = 0) (hnew : share state = 1) :
    (e.takeSlot.setCall index user state).Guarded := by
  have hset := @holders_setCall e index c user state hc
  rw [Guarded, hfree] at h
  change (e.setCall index user state).holders = 1
  simp only [Bool.false_eq_true, if_false] at h
  omega

/-- A holder releases the slot. -/
theorem Guarded.release (h : e.Guarded) (hc : e.calls[index]? = some c) (hold : share c.state = 1) :
    (e.setCall index user .finished).releaseSyncSlot.Guarded := by
  have hset := @holders_setCall e index c user .finished hc
  rw [share_finished] at hset
  rw [Guarded, holders_releaseSyncSlot]
  change (e.setCall index user .finished).holders = 0
  rw [Guarded] at h
  split at h <;> omega

theorem Guarded.runSyncCycle (h : e.Guarded) : e.runSyncCycle.Guarded := by
  unfold Engine.runSyncCycle
  split
  · exact h
  · rw [Guarded, holders_addCall]
    exact h

theorem Guarded.downloadEverything (h : e.Guarded) : e.downloadEverything.Guarded := by
  unfold Engine.downloadEverything
  split
  · rw [Guarded, holders_addCall]
    exact h
  · rw [Guarded, holders_addCall]
    exact h

theorem Guarded.runExclusive (h : e.Guarded) : e.runExclusive.Guarded := by
  unfold Engine.runExclusive
  split
  · rw [Guarded, holders_addCall]
    exact h
  · rename_i hfree
    rw [Guarded, holders_addCall, share_holding]
    rw [Guarded, if_neg hfree] at h
    change e.holders + 1 = 1
    rw [h]

theorem Guarded.endCall (h : e.Guarded) (hc : e.calls[index]? = some c) (hold : share c.state = 1) :
    (e.endCall index user).Guarded := by
  unfold Engine.endCall
  dsimp only
  have hreleased : (e.setCall index user .finished).releaseSyncSlot.Guarded := h.release hc hold
  split
  · exact Guarded.runSyncCycle hreleased
  · exact hreleased

theorem Guarded.endRound (h : e.Guarded) (hc : e.calls[index]? = some c) (hold : share c.state = 1)
    (chained start : ℕ) : (e.endRound index chained start).Guarded := by
  unfold Engine.endRound
  split
  · exact Guarded.setCall (e := { e with rerunRequested := false }) h hc (by rw [hold, share_holding])
  · exact h.release hc hold

/-- A cycle that has the slot keeps or releases it. -/
theorem Guarded.resumeCycle (h : e.Guarded) (hc : e.calls[index]? = some c)
    (hold : share c.state = 1) (chained start : ℕ) (activity : Activity) (result : PromiseResult) :
    (e.resumeCycle index chained start activity result).Guarded := by
  have hkeep : ∀ activity' chained' start', (e.setCall index .runSyncCycle
      (.holding activity' chained' start')).Guarded := fun _ _ _ =>
    h.setCall hc (by rw [hold, share_holding])
  have hfail : ∀ cooldownSeconds, (e.failRound index cooldownSeconds).Guarded := fun _ =>
    Guarded.release (e := { e with syncBlockedUntil := _, rerunRequested := false }) h hc hold
  have hend := h.endRound hc hold
  cases activity with
  | uploadPending =>
    cases result with
    | value flag => cases flag <;> exact hkeep _ _ _
    | error cooldownSeconds => exact hfail _
  | countPendingOperations =>
    cases result with
    | value flag =>
      cases flag
      · exact hkeep _ _ _
      · exact hend _ _
    | error cooldownSeconds => exact hfail _
  | downloadAndApply moreUpload =>
    cases result with
    | value flag =>
      change (e.afterDownload index chained start (moreUpload || flag)).Guarded
      unfold afterDownload
      split
      · split
        · exact hkeep _ _ _
        · exact hend _ _
      · exact hend _ _
    | error cooldownSeconds => exact hfail _
  | yieldToEventLoop =>
    cases result <;> exact Guarded.endRound (e := { e with rerunRequested := true }) h hc hold _ _
  | callback => cases result <;> exact h

theorem Guarded.resumeDownload (h : e.Guarded) (hc : e.calls[index]? = some c)
    (hold : share c.state = 1) (activity : Activity) (result : PromiseResult) :
    (e.resumeDownload index activity result).Guarded := by
  unfold Engine.resumeDownload
  split
  · exact h.setCall hc (by rw [hold, share_holding])
  · exact h.setCall hc (by rw [hold, share_holding])
  · exact h.endCall hc hold

/-- A call past its wait takes the slot, whatever the flag says. -/
theorem holders_resumeHydrated (hc : e.calls[index]? = some c) (hstate : c.state = .hydrating) :
    (e.resumeHydrated index user).holders = e.holders + 1 := by
  have hset : ∀ (user : SlotUser) (activity : Activity) (chained start : ℕ),
      (e.setCall index user (.holding activity chained start)).holders = e.holders + 1 := by
    intro user activity chained start
    have h := @holders_setCall e index c user (.holding activity chained start) hc
    rw [hstate, share_hydrating, share_holding] at h
    exact h
  cases user <;> exact hset _ _ _ _

theorem syncInFlight_resumeHydrated : (e.resumeHydrated index user).syncInFlight = true := by
  cases user <;> rfl

end Holders

/-- **One event** in which no call takes the slot while it is taken. -/
theorem Guarded.step {e : Engine} {event : EngineEvent} (h : e.Guarded) (hfree : e.TakesFree event) :
    (e.step event).Guarded := by
  cases event with
  | tick time => exact h
  | call user =>
    cases user with
    | runSyncCycle => exact h.runSyncCycle
    | downloadEverything => exact h.downloadEverything
    | runExclusive => exact h.runExclusive
  | hydrated stored =>
    change (if e.hydration = .reading then _ else e).Guarded
    split <;> exact h
  | hydrationFailed =>
    change (if e.hydration = .reading then _ else e).Guarded
    split <;> exact h
  | unblock => exact h
  | resume index result =>
    change (e.resume index result).Guarded
    unfold resume
    rcases hc : e.calls[index]? with _ | c
    · exact h
    · dsimp only
      rcases hstate : c.state with _ | _ | _ | ⟨activity, chained, start⟩ | _
      · -- past the wait for the cooldown
        dsimp only
        rcases hhydration : e.hydration with _ | _ | _ | _
        · exact h
        · exact h
        · dsimp only
          split
          · exact h.setCall hc (by rw [hstate]; rfl)
          · rename_i hblocked
            have hfalse := hfree c hc hstate hhydration hblocked
            rw [Guarded, holders_resumeHydrated hc hstate, syncInFlight_resumeHydrated]
            rw [Guarded, hfalse] at h
            simpa using h
        · exact h.setCall hc (by rw [hstate]; rfl)
      · exact h
      · -- woken: the flag is tested again
        dsimp only
        unfold resumeWoken
        split
        · exact h.setCall hc (by rw [hstate]; rfl)
        · rename_i hflag
          have hflag : e.syncInFlight = false := by simpa using hflag
          rcases huser : c.user with _ | _ | _
          · exact Guarded.setCall (e := e.ensureHydration) h hc (by rw [hstate]; rfl)
          · exact Guarded.setCall (e := e.ensureHydration) h hc (by rw [hstate]; rfl)
          · exact h.take hflag hc (by rw [hstate]; rfl) rfl
      · have hold : share c.state = 1 := by rw [hstate]; rfl
        dsimp only
        rcases huser : c.user with _ | _ | _
        · exact h.resumeCycle hc hold _ _ _ _
        · exact h.resumeDownload hc hold _ _
        · exact h.endCall hc hold
      · exact h

/-- A call that takes the slot while it is taken makes a second holder. -/
theorem Guarded.not_slotExclusive {e : Engine} {event : EngineEvent} (h : e.Guarded)
    (hbad : ¬e.TakesFree event) : ¬(e.step event).SlotExclusive := by
  cases event with
  | resume index result =>
    simp only [TakesFree, not_forall] at hbad
    obtain ⟨c, hc, hstate, hhydration, hblocked, htaken⟩ := hbad
    have hflag : e.syncInFlight = true := by simpa using htaken
    have hstep : e.step (.resume index result) = e.resumeHydrated index c.user := by
      change e.resume index result = _
      simp only [resume, Option.mem_def.mp hc, hstate, hhydration, if_neg hblocked]
    rw [hstep, SlotExclusive, holders_resumeHydrated hc hstate]
    rw [Guarded, hflag] at h
    simp only [if_true] at h
    omega
  | tick _ => exact absurd trivial hbad
  | call _ => exact absurd trivial hbad
  | hydrated _ => exact absurd trivial hbad
  | hydrationFailed => exact absurd trivial hbad
  | unblock => exact absurd trivial hbad

/-- **The slot is exclusive**, and a callback alone, in every state of a run exactly if no
call resumes from its wait for the cooldown, to take the slot, while it is taken. -/
theorem slotExclusive_iff (events : List EngineEvent) :
    Runs.Always step (fun e => e.SlotExclusive ∧ e.CallbackAlone) start events ↔
      Runs.Meets step TakesFree start events := by
  refine Runs.always_iff_meets (I := Guarded) (fun e h => ?_) (fun e event h hok => h.step hok)
    (fun e event h hbad hsafe => h.not_slotExclusive hbad hsafe.1) (show start.Guarded from rfl)
  have hexclusive : e.SlotExclusive := by
    rw [SlotExclusive, h]
    split <;> omega
  exact ⟨hexclusive, callbackAlone_of_slotExclusive hexclusive⟩

/-- A cycle passes its test of the flag, and a restore point takes the slot before the cycle
resumes. -/
def overlappingCalls : List EngineEvent :=
  [.call .runSyncCycle, .hydrated none, .call .runExclusive, .resume 0 (.value false)]

/-- The cycle uploads while the callback runs. -/
theorem not_slotExclusive :
    (Runs.run step start overlappingCalls).calls =
        [⟨.runSyncCycle, .holding .uploadPending 0 0⟩, ⟨.runExclusive, .holding .callback 0 0⟩] ∧
      ¬(Runs.run step start overlappingCalls).SlotExclusive ∧
      ¬Runs.Always step (fun e => e.SlotExclusive ∧ e.CallbackAlone) start overlappingCalls := by
  have hcalls : (Runs.run step start overlappingCalls).calls =
      [⟨.runSyncCycle, .holding .uploadPending 0 0⟩, ⟨.runExclusive, .holding .callback 0 0⟩] := by
    decide
  have hnot : ¬(Runs.run step start overlappingCalls).SlotExclusive := by decide
  refine ⟨hcalls, hnot, fun hsafe => hnot ?_⟩
  exact (Runs.always_iff_take.mp hsafe 4).1

end Engine

end Client

end HelixSync
