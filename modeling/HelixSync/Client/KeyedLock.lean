import HelixSync.Lib.FifoLock
import HelixSync.Lib.FinMap
import Mathlib.Algebra.GroupWithZero.Nat
import Mathlib.Data.List.Sort

/-!
# The keyed lock

`createKeyedLock` (`extension/src/util/keyed-lock.ts`) serializes asynchronous work by chaining
promises. A call of `run` chains the body it is given to the promise `queues` holds for its key, and
puts a promise of its own there, which is fulfilled once the body has settled. In its `finally` it
takes that promise out again, if it is still the one that is held.

A call is known by the number of its promise, and the promises are fulfilled one microtask at a time,
so that anything can happen in between. For each key the bodies then run as under a lock with a queue
(`HelixSync.Client.KeyedLock.view_run`), whatever becomes of them, and nothing is left in `queues` once
all calls of a key are over.
-/

namespace HelixSync

namespace Client

/-- How far a call of `run` has come. What its body came to, a value or an exception, goes along. -/
inductive LockPhase (ρ : Type) where
  /-- The body is chained to the promise before it. -/
  | chained
  | running
  /-- The body has settled. -/
  | settled (result : ρ)
  /-- `tracked` is fulfilled. -/
  | tracked (result : ρ)
  /-- Past the `finally`. -/
  | returned (result : ρ)

namespace LockPhase

variable {ρ : Type}

/-- Whether the body has started. -/
def started : LockPhase ρ → Bool
  | chained => false
  | _ => true

/-- Whether the promise that a later call is chained to is fulfilled. -/
def fulfilled : LockPhase ρ → Bool
  | tracked _ | returned _ => true
  | _ => false

/-- Whether the body is under way. -/
def isRunning : LockPhase ρ → Bool
  | running => true
  | _ => false

/-- How many steps a call is still away from its end. -/
def stepsLeft : LockPhase ρ → ℕ
  | chained => 4
  | running => 3
  | settled _ => 2
  | tracked _ => 1
  | returned _ => 0

theorem started_of_fulfilled {p : LockPhase ρ} (h : p.fulfilled = true) : p.started = true := by
  cases p <;> first | rfl | exact absurd h (by simp [fulfilled])

theorem started_of_isRunning {p : LockPhase ρ} (h : p.isRunning = true) : p.started = true := by
  cases p <;> first | rfl | exact absurd h (by simp [isRunning])

theorem not_fulfilled_of_isRunning {p : LockPhase ρ} (h : p.isRunning = true) :
    p.fulfilled = false := by
  cases p <;> first | rfl | exact absurd h (by simp [isRunning])

theorem exists_returned {p : LockPhase ρ} (h : p.stepsLeft = 0) : ∃ result, p = returned result := by
  cases p <;> first | exact ⟨_, rfl⟩ | exact absurd h (by simp [stepsLeft])

theorem fulfilled_of_stepsLeft_eq_zero {p : LockPhase ρ} (h : p.stepsLeft = 0) :
    p.fulfilled = true := by
  obtain ⟨result, rfl⟩ := exists_returned h
  rfl

end LockPhase

/-- A call of `run`: its key, the promise its body is chained to unless that is
`Promise.resolve()`, and how far it has come. -/
structure LockCall (κ ρ : Type) where
  key : κ
  prior : Option ℕ
  phase : LockPhase ρ

/-- A lock: its calls in order, and the promise held for each key. -/
structure KeyedLock (κ ρ : Type) where
  calls : List (LockCall κ ρ)
  queues : FinMap κ ℕ

/-- One event: a call, or the next microtask of one. -/
inductive LockEvent (κ ρ : Type) where
  | run (key : κ)
  /-- The body is started: the promise it is chained to is fulfilled. -/
  | start (n : ℕ)
  | settle (n : ℕ) (result : ρ)
  | track (n : ℕ)
  /-- The `finally`. -/
  | cleanUp (n : ℕ)

namespace KeyedLock

variable {κ ρ : Type}

/-- `createKeyedLock()`. -/
def create : KeyedLock κ ρ := ⟨[], FinMap.empty⟩

/-- A call goes on to its next phase. -/
def advance (s : KeyedLock κ ρ) (n : ℕ) (phase : LockPhase ρ) : KeyedLock κ ρ :=
  { s with calls := s.calls.modify n fun c => { c with phase := phase } }

/-- Whether a call has fulfilled its promise. -/
def fulfilled (s : KeyedLock κ ρ) (n : ℕ) : Bool :=
  (s.calls[n]?).any fun c => c.phase.fulfilled

variable [DecidableEq κ]

/-- One event. An event whose time has not come changes nothing. -/
def step (s : KeyedLock κ ρ) : LockEvent κ ρ → KeyedLock κ ρ
  | .run key =>
    { calls := s.calls ++ [⟨key, s.queues.get key, .chained⟩]
      queues := s.queues.insert key s.calls.length }
  | .start n => match s.calls[n]? with
    | some ⟨_, prior, .chained⟩ => if prior.all s.fulfilled then s.advance n .running else s
    | _ => s
  | .settle n result => match s.calls[n]? with
    | some ⟨_, _, .running⟩ => s.advance n (.settled result)
    | _ => s
  | .track n => match s.calls[n]? with
    | some ⟨_, _, .settled result⟩ => s.advance n (.tracked result)
    | _ => s
  | .cleanUp n => match s.calls[n]? with
    | some ⟨key, _, .tracked result⟩ =>
      { s.advance n (.returned result) with
        queues := if s.queues.get key = some n then s.queues.erase key else s.queues }
    | _ => s

/-- A lock after a list of events. -/
abbrev run (es : List (LockEvent κ ρ)) : KeyedLock κ ρ := Runs.run step create es

/-! ### What a step does -/

variable {s s' : KeyedLock κ ρ} {n : ℕ} {c : LockCall κ ρ} {phase : LockPhase ρ} {key : κ} {e : LockEvent κ ρ}

/-- That a call moves from one phase to the next. -/
inductive Moves : LockPhase ρ → LockPhase ρ → Prop where
  | start : Moves .chained .running
  | settle (result : ρ) : Moves .running (.settled result)
  | track (result : ρ) : Moves (.settled result) (.tracked result)
  | cleanUp (result : ρ) : Moves (.tracked result) (.returned result)

theorem Moves.stepsLeft {p p' : LockPhase ρ} (h : Moves p p') : p'.stepsLeft + 1 = p.stepsLeft := by
  cases h <;> rfl

theorem Moves.fulfilled {p p' : LockPhase ρ} (h : Moves p p') (hp : p.fulfilled = true) :
    p'.fulfilled = true := by
  cases h <;> first | rfl | exact absurd hp (by simp [LockPhase.fulfilled])

/-- What an event does that is not a call: nothing, or it moves one call on. A body is started once
the promise before it is fulfilled, and only the end of a call touches `queues`. -/
structure Advances (s : KeyedLock κ ρ) (n : ℕ) (c : LockCall κ ρ) (phase : LockPhase ρ)
    (s' : KeyedLock κ ρ) : Prop where
  call : s.calls[n]? = some c
  moves : Moves c.phase phase
  calls : s'.calls = (s.advance n phase).calls
  prior : c.phase.started = false → c.prior.all s.fulfilled = true
  queues : s'.queues = s.queues ∧ phase.stepsLeft ≠ 0 ∨
    s'.queues = (if s.queues.get c.key = some n then s.queues.erase c.key else s.queues) ∧
      phase.stepsLeft = 0

/-- The call an event is about. -/
def callOf : LockEvent κ ρ → Option ℕ
  | .run _ => none
  | .start n | .settle n _ | .track n | .cleanUp n => some n

/-- **What a step does.** -/
theorem step_cases (s : KeyedLock κ ρ) (e : LockEvent κ ρ) : (∃ key, e = .run key) ∨
    ∃ n, callOf e = some n ∧ (s.step e = s ∨ ∃ c phase, Advances s n c phase (s.step e)) := by
  cases e with
  | run key => exact Or.inl ⟨key, rfl⟩
  | start n =>
    refine Or.inr ⟨n, rfl, ?_⟩
    rw [step]
    split
    · rename_i key prior hcall
      split
      · rename_i hprior
        exact Or.inr ⟨_, _, hcall, .start, rfl, fun _ => hprior, Or.inl ⟨rfl, by simp [LockPhase.stepsLeft]⟩⟩
      · exact Or.inl rfl
    · exact Or.inl rfl
  | settle n result =>
    refine Or.inr ⟨n, rfl, ?_⟩
    rw [step]
    split
    · rename_i key prior hcall
      exact Or.inr ⟨_, _, hcall, .settle result, rfl, by simp [LockPhase.started],
        Or.inl ⟨rfl, by simp [LockPhase.stepsLeft]⟩⟩
    · exact Or.inl rfl
  | track n =>
    refine Or.inr ⟨n, rfl, ?_⟩
    rw [step]
    split
    · rename_i key prior result hcall
      exact Or.inr ⟨_, _, hcall, .track result, rfl, by simp [LockPhase.started],
        Or.inl ⟨rfl, by simp [LockPhase.stepsLeft]⟩⟩
    · exact Or.inl rfl
  | cleanUp n =>
    refine Or.inr ⟨n, rfl, ?_⟩
    rw [step]
    split
    · rename_i key prior result hcall
      exact Or.inr ⟨_, _, hcall, .cleanUp result, rfl, by simp [LockPhase.started], Or.inr ⟨rfl, rfl⟩⟩
    · exact Or.inl rfl

/-! ### The invariant -/

section

omit [DecidableEq κ]

theorem calls_advance (m : ℕ) :
    (s.advance n phase).calls[m]? =
      if m = n then (s.calls[n]?).map fun c => { c with phase := phase } else s.calls[m]? := by
  rw [advance, List.getElem?_modify]
  by_cases h : m = n
  · subst h
    simp
  · simp [h, Ne.symm h]

/-- The key of a call. -/
def keyAt (s : KeyedLock κ ρ) (n : ℕ) : Option κ := (s.calls[n]?).map LockCall.key

/-- Of the calls before a bound, the last one with a key. -/
def LastCall (s : KeyedLock κ ρ) (key : κ) (bound n : ℕ) : Prop :=
  n < bound ∧ s.keyAt n = some key ∧ ∀ i, n < i → i < bound → s.keyAt i ≠ some key

/-- The calls of each key are chained: a body is chained to the last call of its key before it, unless
all of those have fulfilled their promises, and `queues` holds the last call of a key until it is
over. -/
structure Chained (s : KeyedLock κ ρ) : Prop where
  inOrder : ∀ {i j : ℕ} {ci cj : LockCall κ ρ}, i < j → s.calls[i]? = some ci → s.calls[j]? = some cj →
    ci.key = cj.key → cj.phase.started = true → ci.phase.fulfilled = true
  toPrior : ∀ {j p : ℕ} {cj : LockCall κ ρ}, s.calls[j]? = some cj → cj.prior = some p → s.LastCall cj.key j p
  toNothing : ∀ {i j : ℕ} {ci cj : LockCall κ ρ}, i < j → s.calls[i]? = some ci → s.calls[j]? = some cj →
    ci.key = cj.key → cj.prior = none → ci.phase.fulfilled = true
  held : ∀ {key : κ} {n : ℕ}, s.queues.get key = some n ↔ s.LastCall key s.calls.length n ∧
    ∃ c, s.calls[n]? = some c ∧ c.phase.stepsLeft ≠ 0

theorem chained_create : Chained (create : KeyedLock κ ρ) where
  inOrder := by simp [create]
  toPrior := by simp [create]
  toNothing := by simp [create]
  held := by simp [create, LastCall]

theorem keyAt_eq_of_advance (h : s'.calls = (s.advance n phase).calls) (m : ℕ) :
    s'.keyAt m = s.keyAt m := by
  rw [keyAt, keyAt, h, calls_advance]
  split
  · rename_i hm
    rw [hm, Option.map_map]
    rfl
  · rfl

theorem length_eq_of_advance (h : s'.calls = (s.advance n phase).calls) :
    s'.calls.length = s.calls.length := by
  rw [h, advance, List.length_modify]

theorem lastCall_iff_of_advance (h : s'.calls = (s.advance n phase).calls) {bound m : ℕ} :
    s'.LastCall key bound m ↔ s.LastCall key bound m := by
  simp only [LastCall, keyAt_eq_of_advance h]

theorem LastCall.unique {bound n' : ℕ} (h : s.LastCall key bound n) (h' : s.LastCall key bound n') :
    n = n' := by
  rcases lt_trichotomy n n' with hlt | heq | hgt
  · exact absurd h'.2.1 (h.2.2 n' hlt h'.1)
  · exact heq
  · exact absurd h.2.1 (h'.2.2 n hgt h.1)

/-- There is a last call with a key, or none with it. -/
theorem exists_lastCall (s : KeyedLock κ ρ) (key : κ) (bound : ℕ) :
    (∃ n, s.LastCall key bound n) ∨ ∀ i < bound, s.keyAt i ≠ some key := by
  induction bound with
  | zero => exact Or.inr fun i hi => absurd hi (Nat.not_lt_zero i)
  | succ bound ih =>
    by_cases hkey : s.keyAt bound = some key
    · exact Or.inl ⟨bound, Nat.lt_succ_self bound, hkey, fun i hi hi' => by omega⟩
    · rcases ih with ⟨n, hn, hat, hlast⟩ | hnone
      · refine Or.inl ⟨n, by omega, hat, fun i hi hi' => ?_⟩
        rcases Nat.lt_succ_iff_lt_or_eq.mp hi' with hlt | rfl
        · exact hlast i hi hlt
        · exact hkey
      · refine Or.inr fun i hi => ?_
        rcases Nat.lt_succ_iff_lt_or_eq.mp hi with hlt | rfl
        · exact hnone i hlt
        · exact hkey

theorem keyAt_eq_some (h : s.calls[n]? = some c) :
    s.keyAt n = some c.key := by
  rw [keyAt, h]
  rfl

theorem exists_of_keyAt (h : s.keyAt n = some key) :
    ∃ c, s.calls[n]? = some c ∧ c.key = key :=
  Option.map_eq_some_iff.mp h

theorem lt_length (h : s.calls[n]? = some c) :
    n < s.calls.length :=
  (List.getElem?_eq_some_iff.mp h).1

/-- A body that may start has all the calls of its key before it behind it. -/
theorem Chained.fulfilled_of_prior (hs : s.Chained) {i j : ℕ} {ci cj : LockCall κ ρ} (hij : i < j)
    (hi : s.calls[i]? = some ci) (hj : s.calls[j]? = some cj) (hkey : ci.key = cj.key)
    (hprior : cj.prior.all s.fulfilled = true) :
    ci.phase.fulfilled = true := by
  cases hp : cj.prior with
  | none => exact hs.toNothing hij hi hj hkey hp
  | some p =>
    obtain ⟨hpj, hat, hlast⟩ := hs.toPrior hj hp
    obtain ⟨cp, hcp, hcpKey⟩ := exists_of_keyAt hat
    have hful : cp.phase.fulfilled = true := by
      simpa [hp, KeyedLock.fulfilled, hcp] using hprior
    rcases lt_trichotomy i p with hlt | rfl | hgt
    · exact hs.inOrder hlt hi hcp (hkey.trans hcpKey.symm) (LockPhase.started_of_fulfilled hful)
    · rw [hi] at hcp
      rwa [Option.some.inj hcp]
    · exact absurd ((keyAt_eq_some hi).trans (congrArg some hkey)) (hlast i hgt hij)

end

/-- The calls after a step: the one that moved has another phase, and the others are as they were. -/
theorem Advances.cases_call {m : ℕ} {c' : LockCall κ ρ} (h : Advances s n c phase s')
    (hm : s'.calls[m]? = some c') :
    m = n ∧ c' = { c with phase := phase } ∨ m ≠ n ∧ s.calls[m]? = some c' := by
  rw [h.calls, calls_advance] at hm
  split at hm
  · rename_i heq
    rw [h.call] at hm
    exact Or.inl ⟨heq, (Option.some.inj hm).symm⟩
  · rename_i hne
    exact Or.inr ⟨hne, hm⟩

theorem Advances.call_after (h : Advances s n c phase s') :
    s'.calls[n]? = some { c with phase := phase } := by
  rw [h.calls, calls_advance, if_pos rfl, h.call]
  rfl

theorem Advances.other_after {m : ℕ} (h : Advances s n c phase s') (hne : m ≠ n) :
    s'.calls[m]? = s.calls[m]? := by
  rw [h.calls, calls_advance, if_neg hne]

/-- The chains after a call has moved on. -/
theorem Chained.advances (hs : s.Chained) (h : Advances s n c phase s') : s'.Chained where
  inOrder := by
    intro i j ci cj hij hi hj hkey hstarted
    rcases h.cases_call hi with ⟨rfl, rfl⟩ | ⟨hin, hi⟩ <;>
      rcases h.cases_call hj with ⟨rfl, rfl⟩ | ⟨hjn, hj⟩
    · exact absurd hij (lt_irrefl _)
    · exact h.moves.fulfilled (hs.inOrder hij h.call hj hkey hstarted)
    · by_cases hc : c.phase.started = true
      · exact hs.inOrder hij hi h.call hkey hc
      · exact hs.fulfilled_of_prior hij hi h.call hkey (h.prior (by simpa using hc))
    · exact hs.inOrder hij hi hj hkey hstarted
  toPrior := by
    intro j p cj hj hp
    rw [lastCall_iff_of_advance h.calls]
    rcases h.cases_call hj with ⟨rfl, rfl⟩ | ⟨-, hj⟩
    · have hlast := hs.toPrior h.call (show c.prior = some p from hp)
      exact hlast
    · exact hs.toPrior hj hp
  toNothing := by
    intro i j ci cj hij hi hj hkey hp
    rcases h.cases_call hi with ⟨rfl, rfl⟩ | ⟨hin, hi⟩ <;>
      rcases h.cases_call hj with ⟨rfl, rfl⟩ | ⟨hjn, hj⟩
    · exact absurd hij (lt_irrefl _)
    · exact h.moves.fulfilled (hs.toNothing hij h.call hj hkey hp)
    · exact hs.toNothing hij hi h.call hkey hp
    · exact hs.toNothing hij hi hj hkey hp
  held := by
    intro key m
    rw [lastCall_iff_of_advance h.calls, length_eq_of_advance h.calls]
    have hleft := h.moves.stepsLeft
    by_cases hmn : m = n
    · subst hmn
      simp only [h.call_after, Option.some.injEq, exists_eq_left']
      have hiff : s.queues.get key = some m ↔ s.LastCall key s.calls.length m ∧
          ∃ c, s.calls[m]? = some c ∧ c.phase.stepsLeft ≠ 0 := hs.held
      simp only [h.call, Option.some.injEq, exists_eq_left'] at hiff
      rcases h.queues with ⟨hq, hne⟩ | ⟨hq, hzero⟩
      · rw [hq, hiff]
        exact and_congr_right fun _ => iff_of_true (by omega) hne
      · refine iff_of_false ?_ fun hright => hright.2 hzero
        rw [hq]
        intro hget
        split at hget
        · rw [FinMap.get_erase] at hget
          split at hget
          · simp at hget
          · rename_i hheld hkey
            have hat := ((hs.held).mp hget).1.2.1
            rw [keyAt_eq_some h.call] at hat
            exact hkey (Option.some.inj hat).symm
        · rename_i hheld
          have hat := ((hs.held).mp hget).1.2.1
          rw [keyAt_eq_some h.call] at hat
          exact hheld (Option.some.inj hat ▸ hget)
    · rw [h.other_after hmn, ← hs.held]
      rcases h.queues with ⟨hq, -⟩ | ⟨hq, -⟩
      · rw [hq]
      · rw [hq]
        split
        · rename_i hheld
          rw [FinMap.get_erase]
          split
          · rename_i hkey
            subst hkey
            rw [hheld]
            exact iff_of_false (by simp) fun heq => hmn (Option.some.inj heq).symm
          · exact Iff.rfl
        · exact Iff.rfl

theorem calls_run (s : KeyedLock κ ρ) (key : κ) (m : ℕ) :
    (s.step (.run key)).calls[m]? =
      if m = s.calls.length then some ⟨key, s.queues.get key, .chained⟩ else s.calls[m]? := by
  rw [step, List.getElem?_append]
  split
  · rename_i hlt
    rw [if_neg (Nat.ne_of_lt hlt)]
  · rename_i hge
    by_cases hm : m = s.calls.length
    · subst hm
      simp
    · rw [if_neg hm, List.getElem?_eq_none (l := s.calls) (by omega),
        List.getElem?_eq_none (by simp only [List.length_singleton]; omega)]

theorem keyAt_run (s : KeyedLock κ ρ) (key : κ) (m : ℕ) :
    (s.step (.run key)).keyAt m = if m = s.calls.length then some key else s.keyAt m := by
  rw [keyAt, calls_run]
  split <;> rfl

/-- The calls before a new one have the same last one. -/
theorem lastCall_run {key' : κ} {bound m : ℕ} (hbound : bound ≤ s.calls.length) :
    (s.step (.run key)).LastCall key' bound m ↔ s.LastCall key' bound m := by
  rw [LastCall, LastCall]
  refine and_congr_right fun hm => ?_
  rw [keyAt_run, if_neg (by omega)]
  refine and_congr_right fun _ => forall_congr' fun i => forall_congr' fun _ => forall_congr' fun hi => ?_
  rw [keyAt_run, if_neg (by omega)]

/-- The chains after a call has been added. -/
theorem Chained.run (hs : s.Chained) (key : κ) : (s.step (.run key)).Chained where
  inOrder := by
    intro i j ci cj hij hi hj hkey hstarted
    have hjlt := lt_length hj
    rw [calls_run] at hi hj
    split at hj
    · obtain rfl := Option.some.inj hj
      exact absurd hstarted (by simp [LockPhase.started])
    · have := lt_length hj
      rw [if_neg (by omega)] at hi
      exact hs.inOrder hij hi hj hkey hstarted
  toPrior := by
    intro j p cj hj hp
    rw [calls_run] at hj
    split at hj
    · rename_i heq
      subst heq
      obtain rfl := Option.some.inj hj
      rw [lastCall_run (le_refl _)]
      exact (hs.held.mp hp).1
    · rw [lastCall_run (lt_length hj).le]
      exact hs.toPrior hj hp
  toNothing := by
    intro i j ci cj hij hi hj hkey hp
    rw [calls_run] at hi hj
    split at hj
    · rename_i heq
      subst heq
      obtain rfl := Option.some.inj hj
      rw [if_neg (Nat.ne_of_lt hij)] at hi
      -- The last call of the key has been taken out, so it is over, and those before it are.
      rcases s.exists_lastCall key s.calls.length with ⟨n, hlast⟩ | hnone
      · obtain ⟨c, hc, hcKey⟩ := exists_of_keyAt hlast.2.1
        have hzero : c.phase.stepsLeft = 0 := by
          by_contra hne
          have hget := hs.held.mpr ⟨hlast, c, hc, hne⟩
          rw [show s.queues.get key = none from hp] at hget
          cases hget
        have hful := LockPhase.fulfilled_of_stepsLeft_eq_zero hzero
        rcases lt_trichotomy i n with hlt | rfl | hgt
        · exact hs.inOrder hlt hi hc (hkey.trans hcKey.symm) (LockPhase.started_of_fulfilled hful)
        · rw [hi] at hc
          rwa [Option.some.inj hc]
        · exact absurd ((keyAt_eq_some hi).trans (congrArg some hkey)) (hlast.2.2 i hgt hij)
      · exact absurd ((keyAt_eq_some hi).trans (congrArg some hkey)) (hnone i hij)
    · have := lt_length hj
      rw [if_neg (by omega)] at hi
      exact hs.toNothing hij hi hj hkey hp
  held := by
    intro key' n
    have hlen : (s.step (.run key)).calls.length = s.calls.length + 1 := by simp [step]
    rw [hlen, calls_run]
    rw [show (s.step (.run key)).queues = s.queues.insert key s.calls.length from rfl, FinMap.get_insert]
    split
    · rename_i hkey
      subst hkey
      have hnew : (s.step (.run key')).LastCall key' (s.calls.length + 1) s.calls.length :=
        ⟨Nat.lt_succ_self _, by rw [keyAt_run, if_pos rfl], fun i hi hi' => by omega⟩
      constructor
      · rintro heq
        obtain rfl := Option.some.inj heq
        exact ⟨hnew, _, by rw [if_pos rfl], by simp [LockPhase.stepsLeft]⟩
      · rintro ⟨hlast, -⟩
        exact congrArg some (hnew.unique hlast)
    · rename_i hkey
      rw [hs.held]
      constructor
      · rintro ⟨⟨hn, hat, hlast⟩, c, hc, hne⟩
        refine ⟨⟨by omega, by rw [keyAt_run, if_neg (by omega), hat], fun i hi hi' => ?_⟩, c,
          by rw [if_neg (by omega), hc], hne⟩
        rw [keyAt_run]
        split
        · exact fun heq => hkey (Option.some.inj heq).symm
        · exact hlast i hi (by omega)
      · rintro ⟨⟨hn, hat, hlast⟩, c, hc, hne⟩
        rw [keyAt_run] at hat
        split at hat
        · exact absurd (Option.some.inj hat).symm hkey
        · rename_i hn'
          rw [if_neg hn'] at hc
          refine ⟨⟨by omega, hat, fun i hi hi' => ?_⟩, c, hc, hne⟩
          have := hlast i hi (by omega)
          rwa [keyAt_run, if_neg (by omega)] at this

theorem Chained.step (hs : s.Chained) (e : LockEvent κ ρ) : (s.step e).Chained := by
  rcases step_cases s e with ⟨key, rfl⟩ | ⟨n, -, hsame | ⟨c, phase, hadv⟩⟩
  · exact hs.run key
  · rwa [hsame]
  · exact hs.advances hadv

/-! ### A lock with a queue for each key -/

/-- The calls with a key that are in a kind of phase. -/
def callsWith (s : KeyedLock κ ρ) (key : κ) (p : LockPhase ρ → Bool) : List ℕ :=
  (List.range s.calls.length).filter fun n => (s.calls[n]?).any fun c => c.key = key && p c.phase

/-- What can be seen of a key: whose bodies wait, whose is under way, and whose have started. -/
def view (s : KeyedLock κ ρ) (key : κ) : FifoLock ℕ where
  waiting := s.callsWith key fun p => !p.started
  inside := (s.callsWith key LockPhase.isRunning).head?
  entered := s.callsWith key LockPhase.started

/-- What is seen of a call that goes from one phase to another. -/
def seen : LockPhase ρ → LockPhase ρ → Option (FifoLock.Event ℕ)
  | .chained, .running => some .enter
  | .running, .settled _ => some .leave
  | _, _ => none

/-- What an event is for the lock of a key: a call, the start of a body, or its end. -/
def viewEvent (key : κ) (s : KeyedLock κ ρ) (e : LockEvent κ ρ) : Option (FifoLock.Event ℕ) :=
  match e with
  | .run key' => if key' = key then some (.call s.calls.length) else none
  | .start n | .settle n _ | .track n | .cleanUp n =>
    (s.calls[n]?).bind fun c => ((s.step e).calls[n]?).bind fun c' =>
      if c.key = key then seen c.phase c'.phase else none

theorem mem_callsWith {p : LockPhase ρ → Bool} :
    n ∈ s.callsWith key p ↔ ∃ c, s.calls[n]? = some c ∧ c.key = key ∧ p c.phase = true := by
  rw [callsWith, List.mem_filter, List.mem_range]
  constructor
  · rintro ⟨hn, hany⟩
    rw [List.getElem?_eq_getElem hn] at hany ⊢
    exact ⟨_, rfl, by simpa using hany⟩
  · rintro ⟨c, hc, hkey, hp⟩
    exact ⟨lt_length hc, by simp [hc, hkey, hp]⟩

theorem callsWith_sorted (s : KeyedLock κ ρ) (key : κ) (p : LockPhase ρ → Bool) :
    (s.callsWith key p).Pairwise (· < ·) :=
  List.pairwise_lt_range.filter _

/-- Two lists of calls are the same if they have the same members. -/
theorem callsWith_eq {p : LockPhase ρ → Bool} {l : List ℕ} (hl : l.Pairwise (· < ·))
    (h : ∀ n, n ∈ l ↔ ∃ c, s.calls[n]? = some c ∧ c.key = key ∧ p c.phase = true) :
    s.callsWith key p = l :=
  (s.callsWith_sorted key p).eq_of_mem_iff hl fun n => mem_callsWith.trans (h n).symm

/-- A new call stands at the end of those of its kind. -/
theorem callsWith_run (s : KeyedLock κ ρ) (key key' : κ) (p : LockPhase ρ → Bool) :
    (s.step (.run key')).callsWith key p =
      s.callsWith key p ++ if key' = key ∧ p .chained = true then [s.calls.length] else [] := by
  refine callsWith_eq ?_ fun n => ?_
  · refine List.pairwise_append.mpr ⟨s.callsWith_sorted key p, by split <;> simp, fun i hi j hj => ?_⟩
    obtain ⟨c, hc, -, -⟩ := mem_callsWith.mp hi
    split at hj
    · rw [List.mem_singleton.mp hj]
      exact lt_length hc
    · cases hj
  · rw [List.mem_append, mem_callsWith, calls_run]
    by_cases hn : n = s.calls.length
    · subst hn
      by_cases h : key' = key ∧ p .chained = true
      · simp [h]
      · simp [h]
    · rw [if_neg hn]
      refine or_iff_left fun hmem => ?_
      split at hmem
      · exact hn (List.mem_singleton.mp hmem)
      · cases hmem

/-- A call that has moved on is of a kind if its new phase is. -/
theorem Advances.mem_callsWith (h : Advances s n c phase s') {p : LockPhase ρ → Bool} {m : ℕ} :
    m ∈ s'.callsWith key p ↔
      m = n ∧ c.key = key ∧ p phase = true ∨ m ≠ n ∧ m ∈ s.callsWith key p := by
  rw [KeyedLock.mem_callsWith, KeyedLock.mem_callsWith]
  by_cases hm : m = n
  · subst hm
    simp [h.call_after]
  · simp [h.other_after hm, hm]

/-- Calls that move within a kind leave its list alone. -/
theorem Advances.callsWith_eq_of_same (h : Advances s n c phase s') {p : LockPhase ρ → Bool}
    (hsame : c.key = key → p phase = p c.phase) : s'.callsWith key p = s.callsWith key p := by
  refine (s'.callsWith_sorted key p).eq_of_mem_iff (s.callsWith_sorted key p) fun m => ?_
  rw [h.mem_callsWith]
  by_cases hm : m = n
  · subst hm
    rw [KeyedLock.mem_callsWith]
    simp only [h.call, Option.some.injEq, exists_eq_left', ne_eq, not_true_eq_false, false_and, or_false,
      true_and]
    exact and_congr_right fun hkey => by rw [hsame hkey]
  · simp [hm]

theorem viewEvent_eq (he : callOf e = some n) :
    viewEvent key s e = (s.calls[n]?).bind fun c => ((s.step e).calls[n]?).bind fun c' =>
      if c.key = key then seen c.phase c'.phase else none := by
  cases e with
  | run key' => cases he
  | start m | settle m result | track m | cleanUp m =>
    obtain rfl := Option.some.inj he
    rfl

theorem viewEvent_of_same (he : callOf e = some n) (hsame : s.step e = s) :
    viewEvent key s e = none := by
  rw [viewEvent_eq he, hsame]
  cases s.calls[n]? with
  | none => rfl
  | some c => cases hp : c.phase <;> simp [seen, hp]

theorem viewEvent_of_advances (he : callOf e = some n) (h : Advances s n c phase (s.step e)) :
    viewEvent key s e = if c.key = key then seen c.phase phase else none := by
  rw [viewEvent_eq he, h.call, h.call_after]
  rfl

omit [DecidableEq κ] in
/-- One body of a key is under way at most. -/
theorem Chained.eq_of_isRunning (hs : s.Chained) {i j : ℕ} {ci cj : LockCall κ ρ}
    (hi : s.calls[i]? = some ci) (hj : s.calls[j]? = some cj) (hkey : ci.key = cj.key)
    (hri : ci.phase.isRunning = true) (hrj : cj.phase.isRunning = true) : i = j := by
  rcases lt_trichotomy i j with hlt | heq | hgt
  · have := hs.inOrder hlt hi hj hkey (LockPhase.started_of_isRunning hrj)
    rw [LockPhase.not_fulfilled_of_isRunning hri] at this
    cases this
  · exact heq
  · have := hs.inOrder hgt hj hi hkey.symm (LockPhase.started_of_isRunning hri)
    rw [LockPhase.not_fulfilled_of_isRunning hrj] at this
    cases this

/-- The body that is under way is the only one. -/
theorem Chained.running_eq (hs : s.Chained) (hc : s.calls[n]? = some c)
    (hrun : c.phase.isRunning = true) :
    s.callsWith c.key LockPhase.isRunning = [n] := by
  refine callsWith_eq (List.pairwise_singleton _ n) fun m => ?_
  rw [List.mem_singleton]
  constructor
  · rintro rfl
    exact ⟨c, hc, rfl, hrun⟩
  · rintro ⟨c', hc', hkey, hrun'⟩
    exact hs.eq_of_isRunning hc' hc hkey hrun' hrun

/-- When a body starts, no other body of its key is under way, it has waited longest, and all that
have started were called before it. -/
theorem Chained.view_start (hs : s.Chained) (h : Advances s n c .running s') (hc : c.phase = .chained) :
    s.callsWith c.key LockPhase.isRunning = [] ∧
      s.callsWith c.key (fun p => !p.started) = n :: s'.callsWith c.key (fun p => !p.started) ∧
      s'.callsWith c.key LockPhase.started = s.callsWith c.key LockPhase.started ++ [n] := by
  have hbehind : ∀ i ci, i < n → s.calls[i]? = some ci → ci.key = c.key →
      ci.phase.fulfilled = true := fun i ci hi hci hkey =>
    hs.fulfilled_of_prior hi hci h.call hkey (h.prior (by rw [hc]; rfl))
  have hahead : ∀ i ci, n < i → s.calls[i]? = some ci → ci.key = c.key →
      ci.phase.started = false := by
    intro i ci hi hci hkey
    by_contra hstarted
    have := hs.inOrder hi h.call hci hkey.symm (by simpa using hstarted)
    rw [hc] at this
    cases this
  refine ⟨callsWith_eq List.Pairwise.nil fun i => ?_, callsWith_eq ?_ fun i => ?_,
    callsWith_eq ?_ fun i => ?_⟩
  · refine iff_of_false List.not_mem_nil ?_
    rintro ⟨ci, hci, hkey, hrun⟩
    rcases lt_trichotomy i n with hlt | rfl | hgt
    · have := hbehind i ci hlt hci hkey
      rw [LockPhase.not_fulfilled_of_isRunning hrun] at this
      cases this
    · rw [h.call] at hci
      obtain rfl := Option.some.inj hci
      rw [hc] at hrun
      cases hrun
    · have := hahead i ci hgt hci hkey
      rw [LockPhase.started_of_isRunning hrun] at this
      cases this
  · refine List.pairwise_cons.mpr ⟨fun i hi => ?_, s'.callsWith_sorted _ _⟩
    rcases h.mem_callsWith.mp hi with ⟨-, -, habs⟩ | ⟨hne, hmem⟩
    · simp [LockPhase.started] at habs
    · obtain ⟨ci, hci, hkey, hwait⟩ := KeyedLock.mem_callsWith.mp hmem
      by_contra hle
      have := LockPhase.started_of_fulfilled (hbehind i ci (by omega) hci hkey)
      simp [this] at hwait
  · rw [List.mem_cons, h.mem_callsWith, KeyedLock.mem_callsWith]
    by_cases hi : i = n
    · subst hi
      simp [h.call, hc, LockPhase.started]
    · simp [hi]
  · refine List.pairwise_append.mpr ⟨s.callsWith_sorted _ _, List.pairwise_singleton _ n, fun i hi j hj => ?_⟩
    rw [List.mem_singleton.mp hj]
    obtain ⟨ci, hci, hkey, hstarted⟩ := KeyedLock.mem_callsWith.mp hi
    by_contra hge
    rcases Nat.lt_or_ge n i with hlt | hle
    · rw [hahead i ci hlt hci hkey] at hstarted
      cases hstarted
    · obtain rfl : i = n := by omega
      rw [h.call] at hci
      obtain rfl := Option.some.inj hci
      rw [hc] at hstarted
      cases hstarted
  · rw [List.mem_append, List.mem_singleton, ← KeyedLock.mem_callsWith, h.mem_callsWith]
    by_cases hi : i = n
    · subst hi
      simp [LockPhase.started]
    · simp [hi]

theorem view_run_event (s : KeyedLock κ ρ) (key key' : κ) :
    (s.step (.run key')).view key =
      Runs.run FifoLock.step (s.view key) (viewEvent key s (.run key')).toList := by
  rw [view, callsWith_run, callsWith_run, callsWith_run]
  by_cases hkey : key' = key
  · simp [hkey, viewEvent, FifoLock.step, view, LockPhase.started, LockPhase.isRunning]
  · simp [hkey, viewEvent, view]

theorem Chained.view_advances (hs : s.Chained) (he : callOf e = some n)
    (h : Advances s n c phase (s.step e)) :
    (s.step e).view key = Runs.run FifoLock.step (s.view key) (viewEvent key s e).toList := by
  rw [viewEvent_of_advances he h]
  by_cases hkey : c.key = key
  · subst hkey
    rw [if_pos rfl]
    obtain ⟨ckey, prior, p⟩ := c
    cases h.moves with
    | start =>
      obtain ⟨hrun, hwait, hentered⟩ := hs.view_start h rfl
      have hinside : (s.step e).callsWith ckey LockPhase.isRunning = [n] :=
        (hs.advances h).running_eq h.call_after rfl
      simp only [view, hinside, hentered]
      simp only at hrun hwait
      simp [hrun, hwait, seen, FifoLock.step]
    | settle result =>
      have hinside : (s.step e).callsWith ckey LockPhase.isRunning = [] := by
        refine callsWith_eq List.Pairwise.nil fun m => ⟨fun hm => absurd hm List.not_mem_nil, ?_⟩
        rintro ⟨c', hc', hkey', hrun⟩
        rcases h.cases_call hc' with ⟨-, rfl⟩ | ⟨hne, hc'⟩
        · cases hrun
        · exact absurd (hs.eq_of_isRunning hc' h.call hkey' hrun rfl) hne
      rw [view, hinside, h.callsWith_eq_of_same fun _ => rfl, h.callsWith_eq_of_same fun _ => rfl]
      rfl
    | track result | cleanUp result =>
      rw [view, h.callsWith_eq_of_same fun _ => rfl, h.callsWith_eq_of_same fun _ => rfl,
        h.callsWith_eq_of_same fun _ => rfl]
      rfl
  · rw [if_neg hkey, view, h.callsWith_eq_of_same fun heq => absurd heq hkey,
      h.callsWith_eq_of_same fun heq => absurd heq hkey,
      h.callsWith_eq_of_same fun heq => absurd heq hkey]
    rfl

/-- **A step is a step of a lock with a queue, or none.** -/
theorem Chained.view_step (hs : s.Chained) (key : κ) (e : LockEvent κ ρ) :
    (s.step e).view key = Runs.run FifoLock.step (s.view key) (viewEvent key s e).toList := by
  rcases step_cases s e with ⟨key', rfl⟩ | ⟨n, he, hsame | ⟨c, phase, hadv⟩⟩
  · exact view_run_event s key key'
  · rw [viewEvent_of_same he hsame, hsame]
    rfl
  · exact hs.view_advances he hadv

/-- What is seen of a step is what the lock allows. -/
theorem Chained.allows (hs : s.Chained) {d : FifoLock.Event ℕ} (hd : viewEvent key s e = some d) :
    (s.view key).Allows d := by
  rcases step_cases s e with ⟨key', rfl⟩ | ⟨n, he, hsame | ⟨c, phase, hadv⟩⟩
  · rw [viewEvent] at hd
    split at hd
    · obtain rfl := Option.some.inj hd
      trivial
    · cases hd
  · rw [viewEvent_of_same he hsame] at hd
    cases hd
  · rw [viewEvent_of_advances he hadv] at hd
    split at hd
    · rename_i hkey
      subst hkey
      obtain ⟨ckey, prior, p⟩ := c
      cases hadv.moves with
      | start =>
        obtain rfl := Option.some.inj hd
        obtain ⟨hrun, hwait, -⟩ := hs.view_start hadv rfl
        exact ⟨by rw [view, hrun]; rfl, by rw [view, hwait]; simp⟩
      | settle result =>
        obtain rfl := Option.some.inj hd
        simp only [FifoLock.Allows, view, hs.running_eq hadv.call rfl]
        simp
      | track result | cleanUp result => cases hd
    · cases hd

theorem chained_run (es : List (LockEvent κ ρ)) : (run es).Chained :=
  Runs.invariant (I := Chained) (fun _ e hs => hs.step e) chained_create es

/-- **The bodies of a key run as under a lock with a queue**: whatever the bodies of this and of other
keys come to, what is seen of a key is a run of such a lock, in which each step is one it allows. -/
theorem view_run (key : κ) (es : List (LockEvent κ ρ)) :
    (run es).view key = Runs.run FifoLock.step FifoLock.idle
        (Runs.observed step (viewEvent key) create es) ∧
      Runs.Meets FifoLock.step FifoLock.Allows FifoLock.idle
        (Runs.observed step (viewEvent key) create es) := by
  have hidle : (create : KeyedLock κ ρ).view key = FifoLock.idle := rfl
  rw [← hidle]
  exact ⟨Runs.run_observed (I := Chained) (fun s => s.view key) (fun _ e hs => hs.step e) (fun _ e hs => hs.view_step key e)
      chained_create es,
    Runs.meets_observed (I := Chained) (fun s => s.view key) (fun _ e hs => hs.step e) (fun _ e hs => hs.view_step key e)
      (fun _ _ _ hs hd => hs.allows hd) chained_create es⟩

/-- **Bodies of one key never overlap and start in call order**: seen at one key, the lock is a lock
with a queue, and when a body has started, the bodies of all earlier calls with its key have settled. -/
theorem bodies_serialized (es : List (LockEvent κ ρ)) :
    (∀ key, (run es).view key = Runs.run FifoLock.step FifoLock.idle
          (Runs.observed step (viewEvent key) create es) ∧
        Runs.Meets FifoLock.step FifoLock.Allows FifoLock.idle
          (Runs.observed step (viewEvent key) create es)) ∧
      ∀ (i j : ℕ) (ci cj : LockCall κ ρ), i < j → (run es).calls[i]? = some ci → (run es).calls[j]? = some cj →
        ci.key = cj.key → cj.phase.started = true → ci.phase.fulfilled = true :=
  ⟨fun key => view_run key es, fun _ _ _ _ hij hi hj hkey hstarted =>
    (chained_run es).inOrder hij hi hj hkey hstarted⟩

/-! ### Nothing is left behind -/

/-- How many steps the calls with a key are still away from their ends. -/
def work (s : KeyedLock κ ρ) (key : κ) : ℕ :=
  (s.calls.map fun c => if c.key = key then c.phase.stepsLeft else 0).sum

theorem work_eq_zero :
    s.work key = 0 ↔ ∀ (n : ℕ) (c : LockCall κ ρ), s.calls[n]? = some c → c.key = key →
      c.phase.stepsLeft = 0 := by
  rw [work, List.sum_eq_zero_iff_forall_eq_nat]
  constructor
  · intro h n c hc hkey
    have := h _ (List.mem_map.mpr ⟨c, List.mem_of_getElem? hc, rfl⟩)
    rwa [if_pos hkey] at this
  · intro h x hx
    obtain ⟨c, hc, rfl⟩ := List.mem_map.mp hx
    obtain ⟨n, hn⟩ := List.mem_iff_getElem?.mp hc
    split
    · exact h n c hn ‹_›
    · rfl

/-- A call that moves on leaves one step less to its key. -/
theorem Advances.work_eq (h : Advances s n c phase s') (key : κ) :
    s'.work key + (if c.key = key then 1 else 0) = s.work key := by
  obtain ⟨hn, hget⟩ := List.getElem?_eq_some_iff.mp h.call
  have hsplit : s.calls = s.calls.take n ++ c :: s.calls.drop (n + 1) := by
    rw [← hget, List.getElem_cons_drop, List.take_append_drop]
  have hcalls : s'.calls = s.calls.take n ++ { c with phase := phase } :: s.calls.drop (n + 1) := by
    rw [h.calls, advance, List.modify_eq_take_cons_drop hn, hget]
  have hmoves := h.moves.stepsLeft
  rw [work, work, hcalls]
  conv_rhs => rw [hsplit]
  simp only [List.map_append, List.map_cons, List.sum_append, List.sum_cons]
  by_cases hkey : c.key = key
  · simp only [hkey, if_true]
    omega
  · simp only [hkey, if_false]
    omega

/-- As long as a call is not over, the first such call of its key can go on. -/
theorem Chained.exists_advances (hs : s.Chained) (result : ρ) (hwork : s.work key ≠ 0) :
    ∃ e n c phase, callOf e = some n ∧ c.key = key ∧ Advances s n c phase (s.step e) := by
  have hleft : ∃ (n : ℕ) (c : LockCall κ ρ), s.calls[n]? = some c ∧ c.key = key ∧ c.phase.stepsLeft ≠ 0 := by
    by_contra hnone
    push Not at hnone
    exact hwork (work_eq_zero.mpr hnone)
  classical
  obtain ⟨c, hc, hkey, hne⟩ := Nat.find_spec hleft
  generalize hn : Nat.find hleft = n at hc
  have hbehind : ∀ (i : ℕ) (ci : LockCall κ ρ), i < n → s.calls[i]? = some ci → ci.key = key →
      ci.phase.stepsLeft = 0 := by
    intro i ci hi hci hcikey
    by_contra hcine
    exact Nat.find_min hleft (hn ▸ hi) ⟨ci, hci, hcikey, hcine⟩
  obtain ⟨ckey, prior, phase⟩ := c
  cases phase with
  | chained =>
    -- The call before it is over, so the promise is fulfilled that the body waits for.
    have hprior : prior.all s.fulfilled = true := by
      cases prior with
      | none => rfl
      | some p =>
        obtain ⟨hp, hat, -⟩ := hs.toPrior hc rfl
        obtain ⟨cp, hcp, hcpKey⟩ := exists_of_keyAt hat
        have hful := LockPhase.fulfilled_of_stepsLeft_eq_zero
          (hbehind p cp hp hcp (hcpKey.trans hkey))
        simp [KeyedLock.fulfilled, hcp, hful]
    refine ⟨.start n, n, _, .running, rfl, hkey, hc, .start, ?_, fun _ => hprior, Or.inl ⟨?_, ?_⟩⟩
    · simp only [KeyedLock.step, hc, hprior, if_true]
    · simp only [KeyedLock.step, hc, hprior, if_true]
      rfl
    · simp [LockPhase.stepsLeft]
  | running =>
    refine ⟨.settle n result, n, _, .settled result, rfl, hkey, hc, .settle result, ?_,
      by simp [LockPhase.started], Or.inl ⟨?_, by simp [LockPhase.stepsLeft]⟩⟩
    · simp only [KeyedLock.step, hc]
    · simp only [KeyedLock.step, hc]
      rfl
  | settled r =>
    refine ⟨.track n, n, _, .tracked r, rfl, hkey, hc, .track r, ?_, by simp [LockPhase.started],
      Or.inl ⟨?_, by simp [LockPhase.stepsLeft]⟩⟩
    · simp only [KeyedLock.step, hc]
    · simp only [KeyedLock.step, hc]
      rfl
  | tracked r =>
    refine ⟨.cleanUp n, n, _, .returned r, rfl, hkey, hc, .cleanUp r, ?_, by simp [LockPhase.started],
      Or.inr ⟨?_, rfl⟩⟩
    · simp only [KeyedLock.step, hc]
    · simp only [KeyedLock.step, hc]
  | returned r => exact absurd rfl hne

/-- Once all calls of a key are over, nothing is held for it. -/
theorem Chained.queues_eq_none (hs : s.Chained) (hwork : s.work key = 0) :
    s.queues.get key = none := by
  rw [Option.eq_none_iff_forall_ne_some]
  intro n hget
  obtain ⟨⟨-, hat, -⟩, c, hc, hne⟩ := hs.held.mp hget
  rw [keyAt_eq_some hc] at hat
  exact hne (work_eq_zero.mp hwork n c hc (Option.some.inj hat))

/-- **No body is skipped, none blocks for good, and the entry is dropped**: any step after a call takes
one step off the work of one key, or changes nothing. While there is work at a key one of its own calls
can take a step, whatever the bodies before it came to and whatever other keys do. When there is none
left, all its calls have returned and its entry is gone. -/
theorem work_runs_out (es : List (LockEvent κ ρ)) (key : κ) (result : ρ) :
    (∀ e n, callOf e = some n → (run es).step e = run es ∨
        ∃ own, (run es).keyAt n = some own ∧ ∀ key', ((run es).step e).work key' +
          (if own = key' then 1 else 0) = (run es).work key') ∧
      ((run es).work key ≠ 0 → ∃ e n, callOf e = some n ∧ (run es).keyAt n = some key ∧
        ((run es).step e).work key + 1 = (run es).work key) ∧
      ((run es).work key = 0 → (run es).queues.get key = none ∧
        ∀ (n : ℕ) (c : LockCall κ ρ), (run es).calls[n]? = some c → c.key = key → ∃ r, c.phase = .returned r) := by
  have hs := chained_run es
  refine ⟨fun e n he => ?_, fun hwork => ?_, fun hwork => ⟨hs.queues_eq_none hwork, fun n c hc hkey =>
    LockPhase.exists_returned (work_eq_zero.mp hwork n c hc hkey)⟩⟩
  · rcases step_cases (run es) e with ⟨key', rfl⟩ | ⟨m, hm, hsame | ⟨c, phase, hadv⟩⟩
    · cases he
    · exact Or.inl hsame
    · rw [he] at hm
      obtain rfl := Option.some.inj hm
      exact Or.inr ⟨c.key, keyAt_eq_some hadv.call, hadv.work_eq⟩
  · obtain ⟨e, n, c, phase, he, hkey, hadv⟩ := hs.exists_advances result hwork
    have hlower := hadv.work_eq key
    rw [if_pos hkey] at hlower
    exact ⟨e, n, he, hkey ▸ keyAt_eq_some hadv.call, hlower⟩

end KeyedLock

end Client

end HelixSync
