import Mathlib.Data.Int.Order.Basic
import Mathlib.Data.List.Basic

/-!
# Counters clamped at zero

A counter follows a level: each time the level changes, the change is added to the counter, and
the counter is clamped at zero (`ClampedCounter.follow`). Clamping once at the end may give less:
what a counter loses below zero it does not get back. The two agree exactly if the counter is
never clamped, or is clamped at levels the last one does not exceed
(`ClampedCounter.follow_eq_iff`).
-/

namespace ClampedCounter

/-- The counter after the level has gone through some values. -/
def follow : ℕ → ℤ → List ℤ → ℕ
  | count, _, [] => count
  | count, level, next :: levels => follow (count + (next - level)).toNat next levels

/-- The last level. -/
def lastLevel (level : ℤ) (levels : List ℤ) : ℤ := levels.getLast?.getD level

theorem lastLevel_cons (level next : ℤ) (levels : List ℤ) :
    lastLevel level (next :: levels) = lastLevel next levels := by
  rcases levels with _ | ⟨a, levels⟩
  · rfl
  · simp [lastLevel, List.getLast?_cons]

theorem follow_append (levels : List ℤ) (next : ℤ) : ∀ (count : ℕ) (level : ℤ),
    follow count level (levels ++ [next]) =
      (follow count level levels + (next - lastLevel level levels)).toNat := by
  induction levels with
  | nil => exact fun _ _ => rfl
  | cons a levels ih =>
    intro count level
    rw [List.cons_append, follow, ih, follow, lastLevel_cons]

/-- The counter is at least as far above the last level as it was above the first, -/
theorem le_follow (levels : List ℤ) : ∀ (count : ℕ) (level : ℤ),
    count + (lastLevel level levels - level) ≤ follow count level levels := by
  induction levels with
  | nil => exact fun count level => by simp [follow, lastLevel]
  | cons next levels ih =>
    intro count level
    have hrest := ih (count + (next - level)).toNat next
    rw [lastLevel_cons, follow]
    omega

/-- and at least as high as the level has come from any value in between, -/
theorem le_follow_of_mem {x : ℤ} (levels : List ℤ) (hx : x ∈ levels) :
    ∀ (count : ℕ) (level : ℤ), lastLevel level levels - x ≤ follow count level levels := by
  induction levels with
  | nil => exact absurd hx List.not_mem_nil
  | cons next levels ih =>
    intro count level
    rw [lastLevel_cons, follow]
    rcases List.mem_cons.mp hx with rfl | hx
    · have hrest := le_follow levels (count + (x - level)).toNat x
      omega
    · exact ih hx _ _

/-- and it is one of these. -/
theorem follow_attained (levels : List ℤ) : ∀ (count : ℕ) (level : ℤ),
    (follow count level levels : ℤ) = count + (lastLevel level levels - level) ∨
      ∃ x ∈ levels, (follow count level levels : ℤ) = lastLevel level levels - x := by
  induction levels with
  | nil => exact fun count level => Or.inl (by simp [follow, lastLevel])
  | cons next levels ih =>
    intro count level
    rw [lastLevel_cons, follow]
    rcases ih (count + (next - level)).toNat next with h | ⟨x, hx, h⟩
    · by_cases hneg : count + (next - level) ≤ 0
      · exact Or.inr ⟨next, List.mem_cons_self, by omega⟩
      · exact Or.inl (by omega)
    · exact Or.inr ⟨x, List.mem_cons_of_mem _ hx, h⟩

/-- **Clamping once is enough** exactly if the counter does not rise after it was clamped. -/
theorem follow_eq_iff (count : ℕ) (level : ℤ) (levels : List ℤ) :
    follow count level levels = (count + (lastLevel level levels - level)).toNat ↔
      ∀ x ∈ levels, level ≤ count + x ∨ lastLevel level levels ≤ x := by
  constructor
  · intro h x hx
    have hle := le_follow_of_mem levels hx count level
    omega
  · intro h
    have hlow := le_follow levels count level
    rcases follow_attained levels count level with heq | ⟨x, hx, heq⟩
    · omega
    · rcases h x hx with hx' | hx' <;> omega

end ClampedCounter
