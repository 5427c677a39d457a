import Mathlib.Logic.Function.Basic
import HelixSync.Lib.Runs

/-!
# Locks, and handlers that rely on them

Handlers run in numbered slots, one statement at a time, and hold locks from one statement to a
later one. A table of locks says which slot holds which key.

What one slot does to a table leaves the locks of every other slot alone, if it acquires only keys
that are free for it (`Locks.acquireAll_eq_some_of_ne`, `Locks.release_eq_some_of_ne`). That is
what a handler can rely on, and `Runs.invariant_of_rely` is the rule for runs of such handlers:
each keeps what it knows by its own statements, and by those of the others as far as they respect
what it relies on.
-/

/-- Which slot holds a key. -/
abbrev Locks (κ : Type) := κ → Option ℕ

namespace Locks

variable {κ : Type} [DecidableEq κ] (l : Locks κ) (slot : ℕ)

/-- No lock is held. -/
def empty : Locks κ := fun _ => none

/-- Whether a slot may take a key. -/
def free (k : κ) : Bool := l k == none || l k == some slot

/-- A slot takes keys. -/
def acquireAll (ks : List κ) : Locks κ := fun k => if k ∈ ks then some slot else l k

/-- A slot takes one key. -/
def acquire (k : κ) : Locks κ := l.acquireAll slot [k]

/-- A slot gives up all it holds. -/
def release : Locks κ := fun k => if l k = some slot then none else l k

variable {l slot} {other : ℕ} {k : κ} {ks : List κ}

omit [DecidableEq κ] in
theorem free_iff : l.free slot k = true ↔ l k = none ∨ l k = some slot := by
  simp [free]

theorem acquireAll_of_mem (h : k ∈ ks) : l.acquireAll slot ks k = some slot := if_pos h

theorem acquireAll_of_notMem (h : k ∉ ks) : l.acquireAll slot ks k = l k := if_neg h

/-- What a slot held it holds. -/
theorem acquireAll_of_held (h : l k = some slot) : l.acquireAll slot ks k = some slot := by
  unfold acquireAll
  split
  · rfl
  · exact h

theorem acquire_self : l.acquire slot k k = some slot := acquireAll_of_mem (List.mem_singleton_self k)

theorem acquire_of_held {k' : κ} (h : l k = some slot) : l.acquire slot k' k = some slot :=
  acquireAll_of_held h

/-- Keys that are free for one slot are not held by another. -/
theorem acquireAll_eq_some_of_ne (hne : other ≠ slot) (hfree : ∀ k ∈ ks, l.free slot k = true) :
    l.acquireAll slot ks k = some other ↔ l k = some other := by
  unfold acquireAll
  split
  · rename_i hk
    rcases free_iff.mp (hfree k hk) with h | h
    · simp [h, Ne.symm hne]
    · simp [h]
  · exact Iff.rfl

theorem acquire_eq_some_of_ne {k' : κ} (hne : other ≠ slot) (hfree : l.free slot k' = true) :
    l.acquire slot k' k = some other ↔ l k = some other :=
  acquireAll_eq_some_of_ne hne (List.forall_mem_singleton.mpr hfree)

omit [DecidableEq κ] in
theorem release_eq_some_of_ne (hne : other ≠ slot) :
    l.release slot k = some other ↔ l k = some other := by
  unfold release
  split
  · rename_i h
    rw [h]
    simp [Ne.symm hne]
  · exact Iff.rfl

end Locks

namespace Runs

variable {σ ε ι : Type} {step : σ → ε → σ} {shared : σ → Prop} {own : ι → σ → Prop}

/-- **Handlers that rely on each other**, one event: it keeps what is shared; the handler it belongs
to keeps what it knows of its own; and the others, which rely on what the event respects, keep
theirs. -/
theorem step_of_rely (actor : ε → Option ι) (rely : ι → σ → σ → Prop)
    (hshared : ∀ s e, shared s → (∀ i, own i s) → shared (step s e))
    (hown : ∀ s e i, shared s → (∀ j, own j s) → actor e = some i → own i (step s e))
    (hrely : ∀ s e i, shared s → (∀ j, own j s) → actor e ≠ some i → rely i s (step s e))
    (hstable : ∀ s s' i, own i s → rely i s s' → own i s') {s : σ} (hs : shared s)
    (hi : ∀ i, own i s) (e : ε) : shared (step s e) ∧ ∀ i, own i (step s e) := by
  refine ⟨hshared s e hs hi, fun i => ?_⟩
  by_cases hactor : actor e = some i
  · exact hown s e i hs hi hactor
  · exact hstable s _ i (hi i) (hrely s e i hs hi hactor)

/-- The same of a run. -/
theorem invariant_of_rely (actor : ε → Option ι) (rely : ι → σ → σ → Prop)
    (hshared : ∀ s e, shared s → (∀ i, own i s) → shared (step s e))
    (hown : ∀ s e i, shared s → (∀ j, own j s) → actor e = some i → own i (step s e))
    (hrely : ∀ s e i, shared s → (∀ j, own j s) → actor e ≠ some i → rely i s (step s e))
    (hstable : ∀ s s' i, own i s → rely i s s' → own i s') {s : σ} (hs : shared s)
    (hi : ∀ i, own i s) (es : List ε) : shared (run step s es) ∧ ∀ i, own i (run step s es) :=
  invariant (I := fun s => shared s ∧ ∀ i, own i s)
    (fun _ e h => step_of_rely actor rely hshared hown hrely hstable h.1 h.2 e) ⟨hs, hi⟩ es

end Runs
