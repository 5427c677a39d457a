import Mathlib.Data.Fintype.Basic
import Mathlib.Logic.Function.Basic
import HelixSync.Lib.Runs

/-!
# Micro-batch queues

`extension/src/sync/micro-batch.ts`: a capture listener puts its events into a queue, and the
first of them starts a timer. When it fires, `flushNow` hands what has gathered to the flush of
the queue, which runs for a while. `flushAllMicroBatchQueuesAndWait` calls `flushNow` for every
queue and waits for what it returns.

What is handed over is what was put in, in the same order and once
(`HelixSync.Client.MicroBatchQueue.Ordered.flushNow` and its siblings). The rest depends on what a
call of `flushNow` finds: it does not look at a flush of the queue that is already running. It
starts a second one beside it if there are new items, and if there are none it returns at once,
although the running one has not finished with the items it took
(`HelixSync.Client.MicroBatchState.flushed_iff`).

A flush function is asynchronous up to its first step, so a call for all queues is one event.
A flush that throws ends as any other does: `flushNow` catches what it throws.
-/

namespace HelixSync

namespace Client

/-! ### A queue -/

/-- A call of the flush function: what it was given, and whether it still runs. -/
structure Flush (α : Type) where
  batch : List α
  running : Bool
  deriving DecidableEq

/-- `createMicroBatchQueue`: the variables of a queue, with the flushes it has started and the
items it was given so far. -/
structure MicroBatchQueue (α : Type) where
  queue : List α
  timer : Bool
  flushes : List (Flush α)
  enqueued : List α

namespace MicroBatchQueue

variable {α : Type}

/-- A queue as it is created. -/
def create : MicroBatchQueue α := ⟨[], false, [], []⟩

/-- `enqueue`: the timer is started if none is. -/
def enqueue (q : MicroBatchQueue α) (item : α) : MicroBatchQueue α :=
  { q with queue := q.queue ++ [item], timer := true, enqueued := q.enqueued ++ [item] }

/-- `flushNow`: the timer is cleared, and what has gathered is handed over. -/
def flushNow (q : MicroBatchQueue α) : MicroBatchQueue α :=
  if q.queue.isEmpty then { q with timer := false }
  else { q with queue := [], timer := false, flushes := q.flushes ++ [⟨q.queue, true⟩] }

/-- What a call of `flushNow` waits for: the flush it starts, if it starts one. -/
def awaited (q : MicroBatchQueue α) : Option ℕ :=
  if q.queue.isEmpty then none else some q.flushes.length

/-- A flush ends. -/
def endFlush (q : MicroBatchQueue α) (k : ℕ) : MicroBatchQueue α :=
  { q with flushes := q.flushes.modify k fun f => { f with running := false } }

/-- No flush of the queue is running. -/
def Idle (q : MicroBatchQueue α) : Prop := ∀ f ∈ q.flushes, f.running = false

instance (q : MicroBatchQueue α) : Decidable q.Idle :=
  inferInstanceAs (Decidable (∀ f ∈ q.flushes, f.running = false))

/-- What the flushes were given. -/
def batches (q : MicroBatchQueue α) : List (List α) := q.flushes.map Flush.batch

/-- How many items the first flushes were given. -/
def handed (q : MicroBatchQueue α) (k : ℕ) : ℕ := (q.batches.take k).flatten.length

/-- The first items put into the queue were given to flushes that have all ended. -/
def Completed (q : MicroBatchQueue α) (items : ℕ) : Prop :=
  ∃ k, items ≤ q.handed k ∧ ∀ f ∈ q.flushes.take k, f.running = false

/-- The flushes that run. -/
def runningFlushes (q : MicroBatchQueue α) : List (Flush α) := q.flushes.filter Flush.running

/-- What holds of a queue: what was handed over and what waits is what was put in, in the same
order; what waits has its timer; and no flush was given nothing. -/
structure Ordered (q : MicroBatchQueue α) : Prop where
  order : q.batches.flatten ++ q.queue = q.enqueued
  timer : q.timer = true ↔ q.queue ≠ []
  batch : [] ∉ q.batches

end MicroBatchQueue

/-! ### All queues -/

variable {ι α : Type}

/-- A call of `flushAllMicroBatchQueuesAndWait`: what it waits for in each queue, how many items
had been put into the queue before it and how many flushes the queue had started. -/
structure BarrierCall (ι : Type) where
  awaited : ι → Option ℕ
  enqueued : ι → ℕ
  started : ι → ℕ
  resolved : Bool

/-- The queues and the calls that wait for all of them. -/
structure MicroBatchState (ι α : Type) where
  queues : ι → MicroBatchQueue α
  calls : List (BarrierCall ι)

/-- What happens. -/
inductive MicroBatchEvent (ι α : Type) where
  /-- A listener puts an item into a queue. -/
  | enqueue (i : ι) (item : α)
  /-- The timer of a queue fires. -/
  | timer (i : ι)
  /-- A flush ends, or throws. -/
  | flushEnds (i : ι) (k : ℕ)
  /-- `flushAllMicroBatchQueues` is called. -/
  | suspend
  /-- `flushAllMicroBatchQueuesAndWait` is called. -/
  | wait
  /-- A call of it resolves. -/
  | resolve (c : ℕ)

namespace MicroBatchState

/-- The queues of a worker that has just started. -/
def initial : MicroBatchState ι α := ⟨fun _ => .create, []⟩

/-- What a call waits for has ended. -/
def CanResolve (s : MicroBatchState ι α) (call : BarrierCall ι) : Prop :=
  ∀ i, ∀ k ∈ call.awaited i, ∀ f ∈ (s.queues i).flushes[k]?, f.running = false

instance [Fintype ι] (s : MicroBatchState ι α) (call : BarrierCall ι) : Decidable (s.CanResolve call) :=
  inferInstanceAs (Decidable (∀ i, ∀ k ∈ call.awaited i, ∀ f ∈ (s.queues i).flushes[k]?,
    f.running = false))

/-- `flushAllMicroBatchQueues`. -/
def flushAllMicroBatchQueues (s : MicroBatchState ι α) : MicroBatchState ι α :=
  { s with queues := fun i => (s.queues i).flushNow }

/-- `flushAllMicroBatchQueuesAndWait`, up to where it waits. -/
def flushAllMicroBatchQueuesAndWait (s : MicroBatchState ι α) : MicroBatchState ι α where
  queues i := (s.queues i).flushNow
  calls := s.calls ++ [{
    awaited := fun i => (s.queues i).awaited
    enqueued := fun i => (s.queues i).enqueued.length
    started := fun i => (s.queues i).flushes.length
    resolved := false }]

/-- What an event leads to. One that cannot happen changes nothing. -/
def step [Fintype ι] [DecidableEq ι] (s : MicroBatchState ι α) :
    MicroBatchEvent ι α → MicroBatchState ι α
  | .enqueue i item => { s with queues := Function.update s.queues i ((s.queues i).enqueue item) }
  | .timer i =>
    if (s.queues i).timer then
      { s with queues := Function.update s.queues i (s.queues i).flushNow }
    else s
  | .flushEnds i k => { s with queues := Function.update s.queues i ((s.queues i).endFlush k) }
  | .suspend => s.flushAllMicroBatchQueues
  | .wait => s.flushAllMicroBatchQueuesAndWait
  | .resolve c =>
    match s.calls[c]? with
    | none => s
    | some call =>
      if s.CanResolve call then { s with calls := s.calls.set c { call with resolved := true } }
      else s

/-- **What is asked of the queues**: a call that has resolved finds the items put in before it
flushed, no two flushes of a queue run at a time, and what is handed over is what was put in, in
the same order and once. -/
structure Flushed (s : MicroBatchState ι α) : Prop where
  barrier : ∀ call ∈ s.calls, call.resolved = true →
    ∀ i, (s.queues i).Completed (call.enqueued i)
  overlap : ∀ i, (s.queues i).runningFlushes.length ≤ 1
  ordered : ∀ i, (s.queues i).Ordered

/-- The exact condition on a step. No items are taken from a queue while a flush of it is running;
and a call does not resolve while a flush is running that was when it was made. -/
def Undisturbed (s : MicroBatchState ι α) : MicroBatchEvent ι α → Prop
  | .enqueue _ _ => True
  | .timer i => (s.queues i).queue ≠ [] → (s.queues i).Idle
  | .flushEnds _ _ => True
  | .suspend => ∀ i, (s.queues i).queue ≠ [] → (s.queues i).Idle
  | .wait => ∀ i, (s.queues i).queue ≠ [] → (s.queues i).Idle
  | .resolve c => ∀ call ∈ s.calls[c]?, s.CanResolve call →
    ∀ i, ∀ f ∈ (s.queues i).flushes.take (call.started i), f.running = false

instance [Fintype ι] (s : MicroBatchState ι α) : ∀ e, Decidable (s.Undisturbed e)
  | .enqueue _ _ => inferInstanceAs (Decidable True)
  | .timer i => inferInstanceAs (Decidable ((s.queues i).queue ≠ [] → (s.queues i).Idle))
  | .flushEnds _ _ => inferInstanceAs (Decidable True)
  | .suspend => inferInstanceAs (Decidable (∀ i, (s.queues i).queue ≠ [] → (s.queues i).Idle))
  | .wait => inferInstanceAs (Decidable (∀ i, (s.queues i).queue ≠ [] → (s.queues i).Idle))
  | .resolve c => inferInstanceAs (Decidable (∀ call ∈ s.calls[c]?, s.CanResolve call →
      ∀ i, ∀ f ∈ (s.queues i).flushes.take (call.started i), f.running = false))

end MicroBatchState

/-! ### One queue -/

namespace MicroBatchQueue

variable {q : MicroBatchQueue α}

theorem batches_flushNow (h : q.queue ≠ []) : q.flushNow.batches = q.batches ++ [q.queue] := by
  rw [flushNow, if_neg (by simpa using h), batches, List.map_append]
  rfl

theorem flushes_flushNow (h : q.queue ≠ []) :
    q.flushNow.flushes = q.flushes ++ [⟨q.queue, true⟩] := by
  rw [flushNow, if_neg (by simpa using h)]

theorem flushes_flushNow_of_nil (h : q.queue = []) : q.flushNow.flushes = q.flushes := by
  rw [flushNow, if_pos (by simpa using h)]

/-- Ending a flush does not change what the flushes were given. -/
theorem batches_endFlush (q : MicroBatchQueue α) (k : ℕ) : (q.endFlush k).batches = q.batches := by
  refine List.ext_getElem? fun j => ?_
  rw [batches, batches, List.getElem?_map, List.getElem?_map, endFlush, List.getElem?_modify]
  cases q.flushes[j]? with
  | none => simp
  | some f => by_cases hk : k = j <;> simp [hk]

/-! #### The order -/

theorem ordered_create : (create : MicroBatchQueue α).Ordered :=
  ⟨rfl, by simp [create], by simp [create, batches]⟩

theorem Ordered.enqueue (h : q.Ordered) (item : α) : (q.enqueue item).Ordered where
  order := by
    show q.batches.flatten ++ (q.queue ++ [item]) = q.enqueued ++ [item]
    rw [← h.order, List.append_assoc]
  timer := by simp [MicroBatchQueue.enqueue]
  batch := h.batch

theorem Ordered.flushNow (h : q.Ordered) : q.flushNow.Ordered := by
  by_cases hne : q.queue = []
  · have hflush : q.flushNow = { q with timer := false } := by
      rw [MicroBatchQueue.flushNow, if_pos (by simpa using hne)]
    rw [hflush]
    exact ⟨h.order, by simpa using hne, h.batch⟩
  · have hqueue : q.flushNow.queue = [] ∧ q.flushNow.timer = false ∧
        q.flushNow.enqueued = q.enqueued := by
      rw [MicroBatchQueue.flushNow, if_neg (by simpa using hne)]
      exact ⟨rfl, rfl, rfl⟩
    refine ⟨?_, by simp [hqueue], ?_⟩
    · rw [batches_flushNow hne, hqueue.1, hqueue.2.2, ← h.order]
      simp
    · rw [batches_flushNow hne, List.mem_append, List.mem_singleton]
      rintro (hmem | hmem)
      · exact h.batch hmem
      · exact hne hmem.symm

theorem Ordered.endFlush (h : q.Ordered) (k : ℕ) : (q.endFlush k).Ordered where
  order := by
    rw [batches_endFlush]
    exact h.order
  timer := h.timer
  batch := by
    rw [batches_endFlush]
    exact h.batch

/-! #### What has been handed over -/

theorem handed_mono {j k : ℕ} (h : j ≤ k) : q.handed j ≤ q.handed k := by
  unfold handed
  rw [← Nat.add_sub_cancel' h, List.take_add, List.flatten_append, List.length_append]
  exact Nat.le_add_right _ _

theorem handed_lt (h : q.Ordered) {j : ℕ} (hj : j < q.flushes.length) :
    q.handed j < q.handed (j + 1) := by
  have hlt : j < q.batches.length := by simpa [batches] using hj
  have hne : q.batches[j] ≠ [] := fun hnil => h.batch (hnil ▸ List.getElem_mem hlt)
  unfold handed
  rw [List.take_add_one, List.getElem?_eq_getElem hlt, List.flatten_append, List.length_append]
  simpa using List.length_pos_of_ne_nil hne

/-- A queue goes on: the flushes it had were given what they were given, and those that had ended
have. -/
structure Goes (q q' : MicroBatchQueue α) : Prop where
  batches : ∃ more, q'.batches = q.batches ++ more
  ended : ∀ j f', q'.flushes[j]? = some f' → j < q.flushes.length →
    ∃ f, q.flushes[j]? = some f ∧ (f.running = false → f'.running = false)

theorem Goes.refl (q : MicroBatchQueue α) : Goes q q :=
  ⟨⟨[], (List.append_nil _).symm⟩, fun _ f' hf _ => ⟨f', hf, id⟩⟩

theorem goes_enqueue (q : MicroBatchQueue α) (item : α) : Goes q (q.enqueue item) :=
  ⟨⟨[], (List.append_nil _).symm⟩, fun _ f' hf _ => ⟨f', hf, id⟩⟩

theorem goes_flushNow (q : MicroBatchQueue α) : Goes q q.flushNow := by
  by_cases hne : q.queue = []
  · refine ⟨⟨[], ?_⟩, fun j f' hf _ => ⟨f', ?_, id⟩⟩
    · rw [batches, flushes_flushNow_of_nil hne, List.append_nil]
      rfl
    · rwa [flushes_flushNow_of_nil hne] at hf
  · refine ⟨⟨[q.queue], batches_flushNow hne⟩, fun j f' hf hj => ⟨f', ?_, id⟩⟩
    rwa [flushes_flushNow hne, List.getElem?_append_left hj] at hf

theorem goes_endFlush (q : MicroBatchQueue α) (k : ℕ) : Goes q (q.endFlush k) := by
  refine ⟨⟨[], by rw [batches_endFlush, List.append_nil]⟩, fun j f' hf hj => ?_⟩
  rw [endFlush, List.getElem?_modify] at hf
  obtain ⟨f, hf', hmodified⟩ := Option.map_eq_some_iff.mp hf
  refine ⟨f, hf', fun hended => ?_⟩
  by_cases hk : k = j <;> simp [hk] at hmodified <;> rw [← hmodified]
  exact hended

section Goes

variable {q' : MicroBatchQueue α} (hgoes : Goes q q')

include hgoes

theorem Goes.length_le : q.flushes.length ≤ q'.flushes.length := by
  obtain ⟨more, hmore⟩ := hgoes.batches
  have hlength := congrArg List.length hmore
  rw [List.length_append, MicroBatchQueue.batches, MicroBatchQueue.batches, List.length_map,
    List.length_map] at hlength
  omega

theorem Goes.handed {k : ℕ} (hk : k ≤ q.flushes.length) : q'.handed k = q.handed k := by
  obtain ⟨more, hmore⟩ := hgoes.batches
  unfold MicroBatchQueue.handed
  rw [hmore, List.take_append_of_le_length (by simpa [MicroBatchQueue.batches] using hk)]

/-- Flushes that had ended have. -/
theorem Goes.take {k : ℕ} (hk : k ≤ q.flushes.length)
    (h : ∀ f ∈ q.flushes.take k, f.running = false) : ∀ f ∈ q'.flushes.take k, f.running = false := by
  intro f' hf'
  obtain ⟨j, hj⟩ := List.mem_iff_getElem?.mp hf'
  rw [List.getElem?_take] at hj
  split at hj
  · rename_i hjk
    obtain ⟨f, hf, hended⟩ := hgoes.ended j f' hj (by omega)
    refine hended (h f (List.mem_iff_getElem?.mpr ⟨j, ?_⟩))
    rw [List.getElem?_take, if_pos hjk]
    exact hf
  · exact absurd hj (by simp)

/-- What was completed stays so. -/
theorem Goes.completed {items : ℕ} (h : q.Completed items) : q'.Completed items := by
  obtain ⟨k, hitems, hended⟩ := h
  -- a number of flushes that exceeds those there are counts as all of them
  have htake : ∀ (l : List (Flush α)), l.take (min k l.length) = l.take k := fun l => by
    rw [List.take_eq_take_iff]
    omega
  have hmin : min k q.flushes.length ≤ q.flushes.length := Nat.min_le_right _ _
  refine ⟨min k q.flushes.length, ?_, hgoes.take hmin (by rw [htake]; exact hended)⟩
  rw [hgoes.handed hmin]
  refine hitems.trans (le_of_eq ?_)
  unfold MicroBatchQueue.handed
  congr 2
  rw [List.take_eq_take_iff, MicroBatchQueue.batches, List.length_map]
  omega

end Goes

/-! #### What a call waits for -/

/-- What a call knows of a queue: the items put in before it were given to the flushes that had
been started, and to the one it waits for. -/
structure Awaits (q : MicroBatchQueue α) (awaited : Option ℕ) (enqueued started : ℕ) : Prop where
  had : started ≤ q.flushes.length
  before : q.handed started ≤ enqueued
  covered : ∃ k ≤ q.flushes.length, enqueued ≤ q.handed k ∧
    ∀ j, started ≤ j → j < k → j ∈ awaited

/-- A call that is made. -/
theorem awaits_flushNow (h : q.Ordered) :
    q.flushNow.Awaits q.awaited q.enqueued.length q.flushes.length := by
  have hall : ∀ {p : MicroBatchQueue α}, p.handed p.flushes.length = p.batches.flatten.length := by
    intro p
    have hlength : p.flushes.length = p.batches.length := by simp [batches]
    rw [handed, hlength, List.take_length]
  have hgoes := goes_flushNow q
  refine ⟨hgoes.length_le, ?_, ?_⟩
  · rw [hgoes.handed le_rfl, hall, ← h.order, List.length_append]
    exact Nat.le_add_right _ _
  · by_cases hne : q.queue = []
    · refine ⟨q.flushes.length, hgoes.length_le, ?_, fun j hj hlt => absurd hlt (by omega)⟩
      rw [hgoes.handed le_rfl, hall, ← h.order, hne, List.append_nil]
    · have hlength : q.flushNow.flushes.length = q.flushes.length + 1 := by
        rw [flushes_flushNow hne, List.length_append]
        rfl
      refine ⟨q.flushes.length + 1, hlength.ge, ?_, fun j hj hlt => ?_⟩
      · rw [← hlength, hall, batches_flushNow hne, ← h.order]
        simp
      · rw [awaited, if_neg (by simpa using hne), Option.mem_some_iff]
        omega

theorem Awaits.goes {q' : MicroBatchQueue α} {awaited : Option ℕ} {enqueued started : ℕ}
    (h : q.Awaits awaited enqueued started) (hgoes : Goes q q') :
    q'.Awaits awaited enqueued started := by
  obtain ⟨k, hk, hcovered, hafter⟩ := h.covered
  refine ⟨h.had.trans hgoes.length_le, ?_, k, hk.trans hgoes.length_le, ?_, hafter⟩
  · rw [hgoes.handed h.had]
    exact h.before
  · rw [hgoes.handed hk]
    exact hcovered

section Resolves

variable {awaited : Option ℕ} {enqueued started : ℕ} (hawaits : q.Awaits awaited enqueued started)

include hawaits

/-- When the flushes that had been started have ended and the one that is waited for has, the items
are flushed. -/
theorem Awaits.completed (hstarted : ∀ f ∈ q.flushes.take started, f.running = false)
    (hawaited : ∀ k ∈ awaited, ∀ f ∈ q.flushes[k]?, f.running = false) : q.Completed enqueued := by
  obtain ⟨k, -, hcovered, hafter⟩ := hawaits.covered
  refine ⟨k, hcovered, fun f hf => ?_⟩
  obtain ⟨j, hj⟩ := List.mem_iff_getElem?.mp hf
  rw [List.getElem?_take] at hj
  split at hj
  · rename_i hjk
    rcases Nat.lt_or_ge j started with hlt | hge
    · refine hstarted f (List.mem_iff_getElem?.mpr ⟨j, ?_⟩)
      rw [List.getElem?_take, if_pos hlt]
      exact hj
    · exact hawaited j (hafter j hge hjk) f hj
  · exact absurd hj (by simp)

/-- A flush that had been started and still runs leaves some of the items unflushed. -/
theorem Awaits.not_completed (h : q.Ordered) {f : Flush α} (hf : f ∈ q.flushes.take started)
    (hrunning : f.running = true) : ¬q.Completed enqueued := by
  rintro ⟨k, hitems, hended⟩
  obtain ⟨j, hj⟩ := List.mem_iff_getElem?.mp hf
  rw [List.getElem?_take] at hj
  split at hj
  · rename_i hlt
    have hjk : j < k := by
      by_contra hge
      have hjlt : j < q.flushes.length := hlt.trans_le hawaits.had
      have hlow : q.handed k ≤ q.handed j := handed_mono (by omega)
      have hnext := handed_lt h hjlt
      have hhigh : q.handed (j + 1) ≤ q.handed started := handed_mono hlt
      have := hawaits.before
      omega
    have hmem : f ∈ q.flushes.take k := by
      refine List.mem_iff_getElem?.mpr ⟨j, ?_⟩
      rw [List.getElem?_take, if_pos hjk]
      exact hj
    rw [hended f hmem] at hrunning
    exact absurd hrunning (by simp)
  · exact absurd hj (by simp)

end Resolves

/-! #### Overlap -/

/-- A flush that is started while none runs is the only one, and one that is started beside
another is not. -/
theorem overlap_flushNow (h : q.runningFlushes.length ≤ 1) :
    q.flushNow.runningFlushes.length ≤ 1 ↔ (q.queue ≠ [] → q.Idle) := by
  by_cases hne : q.queue = []
  · rw [runningFlushes, flushes_flushNow_of_nil hne]
    exact iff_of_true h fun hqueue => absurd hne hqueue
  · have hidle : q.Idle ↔ q.runningFlushes.length = 0 := by
      rw [Idle, runningFlushes, List.length_eq_zero_iff, List.filter_eq_nil_iff]
      simp
    rw [hidle, runningFlushes, flushes_flushNow hne, List.filter_append, List.length_append,
      ← runningFlushes]
    simp [hne]

theorem overlap_endFlush (k : ℕ) (h : q.runningFlushes.length ≤ 1) :
    (q.endFlush k).runningFlushes.length ≤ 1 := by
  refine le_trans ?_ h
  unfold runningFlushes endFlush
  induction q.flushes generalizing k with
  | nil => simp
  | cons f flushes ih =>
    cases k with
    | zero =>
      rw [List.modify_zero_cons, List.filter_cons_of_neg (by simp)]
      exact ((List.sublist_cons_self f flushes).filter Flush.running).length_le
    | succ k =>
      simp only [List.modify_succ_cons, List.filter_cons]
      split
      · exact Nat.succ_le_succ (ih k)
      · exact ih k

end MicroBatchQueue

/-! ### Runs -/

namespace MicroBatchState

variable {s : MicroBatchState ι α}

/-- What holds in every run whose steps are undisturbed: what is asked, and of each call that was
made, what it knows of the queues. -/
structure Invariant (s : MicroBatchState ι α) : Prop extends s.Flushed where
  awaits : ∀ call ∈ s.calls, ∀ i,
    (s.queues i).Awaits (call.awaited i) (call.enqueued i) (call.started i)

theorem invariant_initial : (initial : MicroBatchState ι α).Invariant where
  barrier := by simp [initial]
  overlap i := by simp [initial, MicroBatchQueue.create, MicroBatchQueue.runningFlushes]
  ordered i := MicroBatchQueue.ordered_create
  awaits := by simp [initial]

/-- Queues that go on keep what the calls know. -/
theorem Invariant.goes (h : s.Invariant) {queues : ι → MicroBatchQueue α}
    (hgoes : ∀ i, MicroBatchQueue.Goes (s.queues i) (queues i))
    (hordered : ∀ i, (queues i).Ordered) (hoverlap : ∀ i, (queues i).runningFlushes.length ≤ 1) :
    (⟨queues, s.calls⟩ : MicroBatchState ι α).Invariant where
  barrier call hcall hresolved i := (hgoes i).completed (h.barrier call hcall hresolved i)
  overlap := hoverlap
  ordered := hordered
  awaits call hcall i := (h.awaits call hcall i).goes (hgoes i)

variable [DecidableEq ι]

/-- One queue goes on. -/
theorem Invariant.update (h : s.Invariant) {i : ι} {q : MicroBatchQueue α}
    (hgoes : MicroBatchQueue.Goes (s.queues i) q) (hordered : q.Ordered)
    (hoverlap : q.runningFlushes.length ≤ 1) :
    (⟨Function.update s.queues i q, s.calls⟩ : MicroBatchState ι α).Invariant := by
  refine h.goes (fun j => ?_) (fun j => ?_) (fun j => ?_) <;>
    rcases eq_or_ne j i with rfl | hne
  · rwa [Function.update_self]
  · rw [Function.update_of_ne hne]
    exact MicroBatchQueue.Goes.refl _
  · rwa [Function.update_self]
  · rw [Function.update_of_ne hne]
    exact h.ordered j
  · rwa [Function.update_self]
  · rw [Function.update_of_ne hne]
    exact h.overlap j

variable [Fintype ι]

/-- **The step lemma**: an undisturbed step keeps the invariant. -/
theorem Invariant.step (h : s.Invariant) {e : MicroBatchEvent ι α} (hok : s.Undisturbed e) :
    (s.step e).Invariant := by
  cases e with
  | enqueue i item =>
    exact h.update (MicroBatchQueue.goes_enqueue _ item) ((h.ordered i).enqueue item) (h.overlap i)
  | timer i =>
    simp only [MicroBatchState.step]
    split
    · exact h.update (MicroBatchQueue.goes_flushNow _) (h.ordered i).flushNow
        ((MicroBatchQueue.overlap_flushNow (h.overlap i)).mpr hok)
    · exact h
  | flushEnds i k =>
    exact h.update (MicroBatchQueue.goes_endFlush _ k) ((h.ordered i).endFlush k)
      (MicroBatchQueue.overlap_endFlush k (h.overlap i))
  | suspend =>
    exact h.goes (fun i => MicroBatchQueue.goes_flushNow _) (fun i => (h.ordered i).flushNow)
      fun i => (MicroBatchQueue.overlap_flushNow (h.overlap i)).mpr (hok i)
  | wait =>
    have hflushed : s.flushAllMicroBatchQueues.Invariant :=
      h.goes (fun i => MicroBatchQueue.goes_flushNow _) (fun i => (h.ordered i).flushNow)
        fun i => (MicroBatchQueue.overlap_flushNow (h.overlap i)).mpr (hok i)
    refine ⟨⟨fun call hcall hresolved => ?_, hflushed.overlap, hflushed.ordered⟩, fun call hcall i => ?_⟩
    · rcases List.mem_append.mp hcall with hcall | hcall
      · exact hflushed.barrier call hcall hresolved
      · rw [List.mem_singleton.mp hcall] at hresolved
        exact absurd hresolved (by simp)
    · rcases List.mem_append.mp hcall with hcall | hcall
      · exact hflushed.awaits call hcall i
      · rw [List.mem_singleton.mp hcall]
        exact MicroBatchQueue.awaits_flushNow (h.ordered i)
  | resolve c =>
    simp only [MicroBatchState.step]
    split
    · exact h
    · rename_i call hcall
      split
      · rename_i hcan
        have hmem : call ∈ s.calls := List.mem_of_getElem? hcall
        refine ⟨⟨fun call' hcall' hresolved i => ?_, h.overlap, h.ordered⟩, fun call' hcall' i => ?_⟩
        · rcases List.mem_or_eq_of_mem_set hcall' with hcall' | rfl
          · exact h.barrier call' hcall' hresolved i
          · exact (h.awaits call hmem i).completed (hok call hcall hcan i) (hcan i)
        · rcases List.mem_or_eq_of_mem_set hcall' with hcall' | rfl
          · exact h.awaits call' hcall' i
          · exact h.awaits call hmem i
      · exact h

/-- **Any other step breaks what is asked.** -/
theorem not_flushed_step (h : s.Invariant) {e : MicroBatchEvent ι α} (hbad : ¬s.Undisturbed e) :
    ¬(s.step e).Flushed := by
  cases e with
  | enqueue i item => exact absurd trivial hbad
  | timer i =>
    intro hflushed
    have hoverlap := hflushed.overlap i
    have hqueue : (s.queues i).queue ≠ [] := by
      by_contra hnil
      exact hbad fun hne => absurd hnil hne
    rw [MicroBatchState.step, if_pos ((h.ordered i).timer.mpr hqueue)] at hoverlap
    dsimp only at hoverlap
    rw [Function.update_self] at hoverlap
    exact hbad ((MicroBatchQueue.overlap_flushNow (h.overlap i)).mp hoverlap)
  | flushEnds i k => exact absurd trivial hbad
  | suspend =>
    exact fun hflushed => hbad fun i =>
      (MicroBatchQueue.overlap_flushNow (h.overlap i)).mp (hflushed.overlap i)
  | wait =>
    exact fun hflushed => hbad fun i =>
      (MicroBatchQueue.overlap_flushNow (h.overlap i)).mp (hflushed.overlap i)
  | resolve c =>
    intro hflushed
    refine hbad fun call hcall hcan i f hf => ?_
    by_contra hrunning
    rw [Bool.not_eq_false] at hrunning
    have hcall' : s.calls[c]? = some call := hcall
    rw [MicroBatchState.step, hcall'] at hflushed
    dsimp only at hflushed
    rw [if_pos hcan] at hflushed
    have hmem : ({ call with resolved := true } : BarrierCall ι) ∈
        s.calls.set c { call with resolved := true } :=
      List.mem_set (List.getElem?_eq_some_iff.mp hcall').1 _
    exact (h.awaits call (List.mem_of_getElem? hcall') i).not_completed (h.ordered i) hf hrunning
      (hflushed.barrier _ hmem rfl i)

/-- **When the queues keep their promises.** In every state of a run calls that have resolved find
what was put in before them flushed, flushes of a queue do not overlap and items are handed over in
order and once, if and only if in every step of the run no items are taken from a queue while a
flush of it is running, and no call resolves while a flush is running that was when it was made. -/
theorem flushed_iff (events : List (MicroBatchEvent ι α)) :
    Runs.Always MicroBatchState.step Flushed initial events ↔
      Runs.Meets MicroBatchState.step Undisturbed (initial : MicroBatchState ι α) events :=
  @Runs.always_iff_meets _ _ MicroBatchState.step Invariant Flushed Undisturbed
    (fun _ h => h.toFlushed) (fun _ _ h hok => h.step hok)
    (fun _ _ h hbad => not_flushed_step h hbad) _ invariant_initial events

/-- The barrier is called while the flush that the timer has started is running. -/
def emptyQueueRun : List (MicroBatchEvent Bool ℕ) :=
  [.enqueue true 1, .timer true, .wait, .resolve 0]

/-- **A call does not wait for a flush that is already running**: it resolves, and the item put in
before it is not flushed. -/
theorem not_flushed : ¬∀ events : List (MicroBatchEvent Bool ℕ),
    Runs.Always MicroBatchState.step Flushed initial events := by
  intro h
  have hflushed := Runs.always_iff_take.mp (h emptyQueueRun) 4
  obtain ⟨k, hitems, hended⟩ := hflushed.barrier _ List.mem_cons_self rfl true
  cases k with
  | zero => exact absurd hitems (by decide)
  | succ k => exact absurd (hended ⟨[1], true⟩ List.mem_cons_self) (by decide)

/-- Two queues: the first is flushed by its timer, and by a call when that flush has ended; the
second by the same call. -/
def calmRun : List (MicroBatchEvent Bool ℕ) :=
  [.enqueue true 1, .enqueue true 2, .timer true, .enqueue true 3, .enqueue false 4, .flushEnds true 0,
    .wait, .flushEnds false 0, .resolve 0, .flushEnds true 1, .resolve 0]


/-- Then the call resolves with everything flushed. -/
theorem flushed_calmRun : (Runs.run MicroBatchState.step initial calmRun).Flushed := by
  have hall := (flushed_iff calmRun).mpr (by decide)
  exact Runs.always_iff_take.mp hall 11

end MicroBatchState

end Client

end HelixSync
