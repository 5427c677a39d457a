import Mathlib.Logic.Function.Basic
import HelixSync.Lib.Runs

/-!
# Threads over a shared state

A thread is a program that goes from call to call: a call is executed at once on the shared state,
and what it answers decides how the thread goes on. A thread may start others and wait for them.
Any thread may be the next to act, so the runs of a pool of threads are all its interleavings.

To show that the runs keep a property of the shared state there are two things to arrange. The
*contract* of the pool (`Threads.Contract`) says what is kept, what each thread relies on the others
to do to the state between two of its calls, and what a thread has to have shown before a call. A call
of which that was shown keeps what is to be kept, and is something that the others can rely on
(`Threads.Contract.Lawful`). And each body is shown to *respect* the contract (`Threads.Respects`), by
the rules `Threads.Respects.bind`, `Threads.Respects.foldlM` and `Threads.Respects.frame`. Then the
pool keeps it (`Threads.Contract.Holds.step`), as long as its calls meet the condition on which they
do so.
-/

/-- A program over the calls `ι`, which are answered by values of `α`, and the bodies `π` that it
may start. A started body is known by the number of its thread. -/
inductive Thread (ι π : Type) (α : ι → Type) (β : Type) : Type where
  | done (result : β)
  | call (i : ι) (next : α i → Thread ι π α β)
  | start (p : π) (next : ℕ → Thread ι π α β)
  | await (threads : List ℕ) (next : Thread ι π α β)

namespace Thread

variable {ι π : Type} {α : ι → Type} {β δ : Type}

/-- One program after the other. -/
def bind : Thread ι π α β → (β → Thread ι π α δ) → Thread ι π α δ
  | .done result, f => f result
  | .call i next, f => .call i fun answer => (next answer).bind f
  | .start p next, f => .start p fun thread => (next thread).bind f
  | .await threads next, f => .await threads (next.bind f)

instance : Monad (Thread ι π α) where
  pure := .done
  bind := bind

/-- The program that makes one call. -/
def ask (i : ι) : Thread ι π α (α i) := .call i .done

/-- The program that starts a body. -/
def fork (p : π) : Thread ι π α ℕ := .start p .done

/-- The program that waits for threads. -/
def join (threads : List ℕ) : Thread ι π α Unit := .await threads (.done ())

/-- The program that starts bodies, one after the other. -/
def forkAll : List π → Thread ι π α (List ℕ)
  | [] => pure []
  | p :: ps => do
    let thread ← fork p
    let threads ← forkAll ps
    pure (thread :: threads)

/-- Bodies are started and waited for. -/
def all (ps : List π) : Thread ι π α Unit := do
  let threads ← forkAll ps
  join threads

/-- Whether a program is over. -/
def finished : Thread ι π α β → Bool
  | .done _ => true
  | _ => false

end Thread

namespace Threads

/-- The calls on a shared state, and the bodies. A call is executed with what the outside answers,
and may have to wait (`none`). Bodies are started from outside if they are admitted. When all threads
are stopped, what they alone had is lost. -/
structure System (σ γ ε ι π : Type) (α : ι → Type) where
  exec : (i : ι) → γ → σ → Option (α i × σ)
  body : π → Thread ι π α Unit
  admits : π → σ → Bool
  outside : ε → σ → σ
  stopped : σ → σ

/-- A shared state with its threads, of which the first so many have been started. -/
structure Pool (σ ι π : Type) (α : ι → Type) where
  shared : σ
  threads : ℕ → Thread ι π α Unit
  started : ℕ

/-- What happens to a pool: a body is started from outside; a thread acts; the outside acts; or all
threads are stopped. -/
inductive Event (γ ε π : Type) where
  | enter (p : π)
  | advance (thread : ℕ) (answer : γ)
  | outside (e : ε)
  | stop

section Pool

variable {σ γ ε ι π : Type} {α : ι → Type} (sys : System σ γ ε ι π α)

namespace Pool

/-- No thread has been started. -/
def idle (shared : σ) : Pool σ ι π α := ⟨shared, fun _ => .done (), 0⟩

variable (pool : Pool σ ι π α)

/-- A thread goes on as a program. -/
def goto (thread : ℕ) (program : Thread ι π α Unit) : Pool σ ι π α :=
  { pool with threads := Function.update pool.threads thread program }

/-- A body gets the next thread. -/
def start (p : π) : Pool σ ι π α :=
  { pool.goto pool.started (sys.body p) with started := pool.started + 1 }

/-- A thread acts. -/
def advance (thread : ℕ) (answer : γ) : Pool σ ι π α :=
  match pool.threads thread with
  | .done _ => pool
  | .call i next =>
    match sys.exec i answer pool.shared with
    | none => pool
    | some (result, shared) => { pool with shared := shared }.goto thread (next result)
  | .start p next => (pool.start sys p).goto thread (next pool.started)
  | .await threads next =>
    if threads.all fun other => (pool.threads other).finished then pool.goto thread next else pool

/-- **One event.** -/
def step : Event γ ε π → Pool σ ι π α
  | .enter p => if sys.admits p pool.shared then pool.start sys p else pool
  | .advance thread answer => pool.advance sys thread answer
  | .outside e => { pool with shared := sys.outside e pool.shared }
  | .stop => { pool with shared := sys.stopped pool.shared, threads := fun _ => .done () }

end Pool

/-! ### What is kept -/

/-- What a pool keeps, what a thread relies on between two of its calls, what it has to have shown
before a call, on what condition the call then keeps it, and what has to be shown before a body is
started. -/
structure Contract (σ γ ι π : Type) where
  keeps : σ → Prop
  rely : σ → σ → Prop
  needs : ι → σ → Prop
  ok : ι → γ → σ → Prop
  pre : π → σ → Prop

variable (c : Contract σ γ ι π) {β δ : Type}

/-- **A program respects a contract** from a state on, and is over in states with a property `Q` of
its result. Between two calls the state becomes any that the thread relies on. -/
def Respects : Thread ι π α β → (β → σ → Prop) → σ → Prop
  | .done result, Q, s => Q result s
  | .call i next, Q, s => ∀ s', c.rely s s' → c.keeps s' → c.needs i s' ∧
      ∀ answer result t, sys.exec i answer s' = some (result, t) → c.keeps t → c.rely s' t →
        Respects (next result) Q t
  | .start p next, Q, s => ∀ s' thread, c.rely s s' → c.keeps s' →
      c.pre p s' ∧ Respects (next thread) Q s'
  | .await _ next, Q, s => ∀ s', c.rely s s' → c.keeps s' → Respects next Q s'

/-- A property that what a thread relies on does not end. -/
def Contract.Stable (P : σ → Prop) : Prop := ∀ s s', P s → c.rely s s' → P s'

namespace Respects

variable {sys c} {program : Thread ι π α β} {Q R : β → σ → Prop} {s s' : σ}

/-- What is kept of the result may be weakened. -/
theorem mono (h : Respects sys c program Q s) (himp : ∀ result s, Q result s → R result s) :
    Respects sys c program R s := by
  induction program generalizing s with
  | done result => exact himp result s h
  | call i next ih =>
    intro s' hrely hkeeps
    obtain ⟨hneeds, hnext⟩ := h s' hrely hkeeps
    exact ⟨hneeds, fun answer result t hexec ht hguarantee =>
      ih result (hnext answer result t hexec ht hguarantee)⟩
  | start p next ih =>
    intro s' thread hrely hkeeps
    obtain ⟨hpre, hnext⟩ := h s' thread hrely hkeeps
    exact ⟨hpre, ih thread hnext⟩
  | await threads next ih => exact fun s' hrely hkeeps => ih (h s' hrely hkeeps)

/-- **One program after the other.** -/
theorem bind {f : β → Thread ι π α δ} {R : δ → σ → Prop} (h : Respects sys c program Q s)
    (hf : ∀ result s, Q result s → Respects sys c (f result) R s) :
    Respects sys c (program >>= f) R s := by
  show Respects sys c (program.bind f) R s
  induction program generalizing s with
  | done result => exact hf result s h
  | call i next ih =>
    intro s' hrely hkeeps
    obtain ⟨hneeds, hnext⟩ := h s' hrely hkeeps
    exact ⟨hneeds, fun answer result t hexec ht hguarantee =>
      ih result (hnext answer result t hexec ht hguarantee)⟩
  | start p next ih =>
    intro s' thread hrely hkeeps
    obtain ⟨hpre, hnext⟩ := h s' thread hrely hkeeps
    exact ⟨hpre, ih thread hnext⟩
  | await threads next ih => exact fun s' hrely hkeeps => ih (h s' hrely hkeeps)

/-- A loop, by an invariant of what it has gathered. -/
theorem foldlM {ζ : Type} {f : β → ζ → Thread ι π α β} (xs : List ζ) :
    ∀ {b : β} {s : σ}, Q b s →
      (∀ x ∈ xs, ∀ b s, Q b s → Respects sys c (f b x) Q s) → Respects sys c (xs.foldlM f b) Q s := by
  induction xs with
  | nil => exact fun h _ => h
  | cons x xs ih =>
    intro b s h hf
    rw [List.foldlM_cons]
    exact (hf x List.mem_cons_self b s h).bind fun b s hb =>
      ih hb fun y hy => hf y (List.mem_cons_of_mem x hy)

section Rely

variable (htrans : ∀ s s' s'', c.rely s s' → c.rely s' s'' → c.rely s s'')
include htrans

/-- A program that has to go on may be interrupted before it does. -/
theorem stable (h : Respects sys c program Q s) (hQ : ∀ result, c.Stable (Q result))
    (hrely : c.rely s s') : Respects sys c program Q s' := by
  cases program with
  | done result => exact hQ result s s' h hrely
  | call i next => exact fun s'' h' => h s'' (htrans _ _ _ hrely h')
  | start p next => exact fun s'' thread h' => h s'' thread (htrans _ _ _ hrely h')
  | await threads next => exact fun s'' h' => h s'' (htrans _ _ _ hrely h')

/-- What the others do not end is kept beside the rest. -/
theorem frame (h : Respects sys c program Q s) {P : σ → Prop} (hP : c.Stable P) (hs : P s) :
    Respects sys c program (fun result s => Q result s ∧ P s) s := by
  induction program generalizing s with
  | done result => exact ⟨h, hs⟩
  | call i next ih =>
    intro s' hrely hkeeps
    obtain ⟨hneeds, hnext⟩ := h s' hrely hkeeps
    exact ⟨hneeds, fun answer result t hexec ht hguarantee =>
      ih result (hnext answer result t hexec ht hguarantee)
        (hP s t hs (htrans s s' t hrely hguarantee))⟩
  | start p next ih =>
    intro s' thread hrely hkeeps
    obtain ⟨hpre, hnext⟩ := h s' thread hrely hkeeps
    exact ⟨hpre, ih thread hnext (hP s s' hs hrely)⟩
  | await threads next ih =>
    exact fun s' hrely hkeeps => ih (h s' hrely hkeeps) (hP s s' hs hrely)

/-- Bodies that may be started, whatever the others do. -/
theorem forkAll (ps : List π) : ∀ {s : σ}, (∀ p ∈ ps, ∀ s', c.rely s s' → c.pre p s') →
    ∀ {P : σ → Prop}, c.Stable P → P s →
      Respects sys c (Thread.forkAll ps) (fun _ => P) s := by
  induction ps with
  | nil => exact fun _ _ _ h => h
  | cons p ps ih =>
    intro s hpre P hP h s' thread hrely hkeeps
    refine ⟨hpre p List.mem_cons_self s' hrely, ?_⟩
    have hrest : Respects sys c (Thread.forkAll ps) (fun _ => P) s' :=
      ih (fun q hq s'' hrely' => hpre q (List.mem_cons_of_mem p hq) s'' (htrans _ _ _ hrely hrely'))
        hP (hP s s' h hrely)
    exact hrest.bind fun _ _ hdone => hdone

/-- The same, when they are waited for. -/
theorem all {ps : List π} (hpre : ∀ p ∈ ps, ∀ s', c.rely s s' → c.pre p s') {P : σ → Prop}
    (hP : c.Stable P) (h : P s) : Respects sys c (Thread.all ps) (fun _ => P) s := by
  refine (forkAll htrans ps hpre hP h).bind fun _ s h s' hrely _ => hP s s' h hrely

end Rely

end Respects

/-! ### The pool -/

/-- What a pool has: its state is as it should be, and every thread respects the contract. -/
structure Contract.Holds (pool : Pool σ ι π α) : Prop where
  keeps : c.keeps pool.shared
  respects : ∀ thread, Respects sys c (pool.threads thread) (fun _ _ => True) pool.shared

/-- **The laws of a contract**: a call of which was shown what it needs keeps what is to be kept, on its
condition, and so does what happens outside; others can rely on both; and the bodies respect it. -/
structure Contract.Lawful : Prop where
  rely_refl : ∀ s, c.rely s s
  rely_trans : ∀ s s' s'', c.rely s s' → c.rely s' s'' → c.rely s s''
  exec : ∀ i answer s result t, c.keeps s → c.needs i s → c.ok i answer s →
    sys.exec i answer s = some (result, t) → c.keeps t ∧ c.rely s t
  body : ∀ p s, c.keeps s → c.pre p s → Respects sys c (sys.body p) (fun _ _ => True) s
  admits : ∀ p s, sys.admits p s = true → c.pre p s
  outside : ∀ e s, c.keeps s → c.keeps (sys.outside e s) ∧ c.rely s (sys.outside e s)
  stopped : ∀ s, c.keeps s → c.keeps (sys.stopped s)

variable {sys c}

/-- The call that a thread executes when it acts meets a condition. -/
def Pool.CallMeets (ok : ι → γ → σ → Prop) (pool : Pool σ ι π α) : Event γ ε π → Prop
  | .advance thread answer =>
    match pool.threads thread with
    | .call i _ => ok i answer pool.shared
    | _ => True
  | _ => True

namespace Contract.Holds

variable {pool : Pool σ ι π α}

theorem idle {shared : σ} (h : c.keeps shared) : c.Holds sys (Pool.idle shared) :=
  ⟨h, fun _ => trivial⟩

/-- A thread goes on as a program that respects the contract. -/
theorem goto (h : c.Holds sys pool) {thread : ℕ} {program : Thread ι π α Unit}
    (hprogram : Respects sys c program (fun _ _ => True) pool.shared) :
    c.Holds sys (pool.goto thread program) := by
  refine ⟨h.keeps, fun other => ?_⟩
  show Respects sys c (Function.update pool.threads thread program other) _ _
  by_cases heq : other = thread
  · rw [heq, Function.update_self]
    exact hprogram
  · rw [Function.update_of_ne heq]
    exact h.respects other

theorem start (h : c.Holds sys pool) {p : π}
    (hbody : Respects sys c (sys.body p) (fun _ _ => True) pool.shared) :
    c.Holds sys (pool.start sys p) := by
  have hgoto : c.Holds sys (pool.goto pool.started (sys.body p)) := h.goto hbody
  exact ⟨hgoto.keeps, hgoto.respects⟩

section Lawful

variable (hlaws : c.Lawful sys)
include hlaws

/-- The state changes as the threads rely on. -/
theorem shared (h : c.Holds sys pool) {shared : σ} (hkeeps : c.keeps shared)
    (hrely : c.rely pool.shared shared) : c.Holds sys { pool with shared := shared } :=
  ⟨hkeeps, fun thread => (h.respects thread).stable hlaws.rely_trans (fun _ _ _ _ _ => trivial) hrely⟩

/-- What a thread has to have shown before the call that it executes when it acts. -/
theorem needs (h : c.Holds sys pool) {thread : ℕ} {i : ι} {next : α i → Thread ι π α Unit}
    (hprogram : pool.threads thread = .call i next) : c.needs i pool.shared := by
  have hthread := h.respects thread
  rw [hprogram] at hthread
  exact (hthread pool.shared (hlaws.rely_refl _) h.keeps).1

/-- **One event**: a pool whose bodies respect the contract keeps it, if the call that is executed
meets the condition. -/
theorem step (h : c.Holds sys pool) (e : Event γ ε π) (hok : pool.CallMeets c.ok e) :
    c.Holds sys (pool.step sys e) := by
  cases e with
  | enter p =>
    rw [Pool.step]
    split
    · rename_i hadmitted
      exact h.start (hlaws.body p _ h.keeps (hlaws.admits p _ hadmitted))
    · exact h
  | outside e =>
    obtain ⟨hkeeps, hrely⟩ := hlaws.outside e _ h.keeps
    exact h.shared hlaws hkeeps hrely
  | stop => exact ⟨hlaws.stopped _ h.keeps, fun _ => trivial⟩
  | advance thread answer =>
    have hthread := h.respects thread
    show c.Holds sys (pool.advance sys thread answer)
    rw [Pool.advance]
    rw [Pool.CallMeets] at hok
    cases hprogram : pool.threads thread with
    | done result => exact h
    | call i next =>
      rw [hprogram] at hthread hok
      dsimp only at hok ⊢
      cases hexec : sys.exec i answer pool.shared with
      | none => exact h
      | some executed =>
        obtain ⟨hneeds, hnext⟩ := hthread pool.shared (hlaws.rely_refl _) h.keeps
        obtain ⟨hkeeps, hrely⟩ := hlaws.exec i answer _ _ _ h.keeps hneeds hok hexec
        exact (h.shared hlaws hkeeps hrely).goto (hnext answer _ _ hexec hkeeps hrely)
    | start p next =>
      rw [hprogram] at hthread
      obtain ⟨hpre, hnext⟩ := hthread pool.shared pool.started (hlaws.rely_refl _) h.keeps
      exact (h.start (hlaws.body p _ h.keeps hpre)).goto hnext
    | await threads next =>
      rw [hprogram] at hthread
      dsimp only
      split
      · exact h.goto (hthread pool.shared (hlaws.rely_refl _) h.keeps)
      · exact h

end Lawful

end Contract.Holds

end Pool

end Threads
