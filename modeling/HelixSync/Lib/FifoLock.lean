import HelixSync.Lib.Runs

/-!
# A lock with a queue

Who asks for the lock waits at the end of a queue, and enters from its front once nobody is inside.
The history says who has entered, in which order. A system has such a lock if what it does looks
like a run of it (`Runs.run_observed`), in which every step is one that the lock allows
(`FifoLock.Allows`).
-/

/-- A lock: who waits for it, who is inside, and who has entered so far. -/
structure FifoLock (ι : Type) where
  waiting : List ι
  inside : Option ι
  entered : List ι

namespace FifoLock

variable {ι : Type}

/-- What can happen at a lock. -/
inductive Event (ι : Type) where
  | call (i : ι)
  | enter
  | leave

/-- A lock nobody has called for. -/
def idle : FifoLock ι := ⟨[], none, []⟩

/-- One event. -/
def step (l : FifoLock ι) : Event ι → FifoLock ι
  | .call i => { l with waiting := l.waiting ++ [i] }
  | .enter => match l.inside, l.waiting with
    | none, i :: rest => ⟨rest, some i, l.entered ++ [i]⟩
    | _, _ => l
  | .leave => { l with inside := none }

/-- Whether the lock lets an event happen. -/
def Allows (l : FifoLock ι) : Event ι → Prop
  | .call _ => True
  | .enter => l.inside = none ∧ l.waiting ≠ []
  | .leave => l.inside ≠ none

end FifoLock
