import Mathlib.Order.CompletePartialOrder
import Mathlib.Order.Interval.Set.Disjoint
import Mathlib.Order.Interval.Set.LinearOrder
import Mathlib.Tactic.Common

/-!
# Intervals stacked downwards

Half-open intervals, each of which ends where the one before it begins: what an import covers
that reaches further back each time. The list has the newest, and lowest, one first. The first
interval of all may be empty, even one whose bounds are the wrong way round, as long as
nothing is put below it.

* `IntervalStack.Stacked.iUnion_Ico` – together they are one interval;
* `IntervalStack.Stacked.pairwise_disjoint` – no two of them meet;
* `IntervalStack.Stacked.pairwise_ne` – no two begin at the same place.
-/

namespace IntervalStack

variable {ι α : Type} [LinearOrder α] (low high : ι → α)

/-- A stack of intervals below `top`, and where it begins. -/
inductive Stacked (top : α) : List ι → α → Prop
  | first {item : ι} : high item = top → Stacked top [item] (low item)
  | under {item : ι} {items : List ι} {bottom : α} : Stacked top items bottom →
      bottom ≤ top → high item = bottom → low item < bottom → Stacked top (item :: items) (low item)

variable {low high} {top bottom : α} {items : List ι}

theorem Stacked.bottom_le (h : Stacked low high top items bottom) :
    ∀ item ∈ items, bottom ≤ low item := by
  induction h with
  | first _ =>
    intro other hother
    rw [List.mem_singleton.mp hother]
  | under _ _ _ hlt ih =>
    intro other hother
    rcases List.mem_cons.mp hother with rfl | hother
    · exact le_refl _
    · exact hlt.le.trans (ih other hother)

theorem Stacked.exists_low_eq (h : Stacked low high top items bottom) :
    ∃ item ∈ items, low item = bottom := by
  cases h with
  | first _ => exact ⟨_, List.mem_cons_self, rfl⟩
  | under _ _ _ _ => exact ⟨_, List.mem_cons_self, rfl⟩

/-- **Together** the intervals are one. -/
theorem Stacked.iUnion_Ico (h : Stacked low high top items bottom) :
    ⋃ item ∈ items, Set.Ico (low item) (high item) = Set.Ico bottom top := by
  induction h with
  | first htop => simp [htop]
  | @under item items bottom _ hle hhigh hlt ih =>
    have hsplit : (⋃ other ∈ item :: items, Set.Ico (low other) (high other)) =
        Set.Ico (low item) (high item) ∪ ⋃ other ∈ items, Set.Ico (low other) (high other) := by
      simp only [List.mem_cons, Set.iUnion_iUnion_eq_or_left]
    rw [hsplit, ih, hhigh]
    exact Set.Ico_union_Ico_eq_Ico hlt.le hle

/-- **No two** of the intervals meet. -/
theorem Stacked.pairwise_disjoint (h : Stacked low high top items bottom) :
    items.Pairwise fun a b => Disjoint (Set.Ico (low a) (high a)) (Set.Ico (low b) (high b)) := by
  induction h with
  | first _ => exact List.pairwise_singleton _ _
  | under hrest _ hhigh _ ih =>
    refine List.pairwise_cons.mpr ⟨fun other hother => ?_, ih⟩
    rw [hhigh]
    refine Set.disjoint_left.mpr fun t ht htother => ?_
    exact absurd (ht.2.trans_le (hrest.bottom_le other hother)) (not_lt.mpr htother.1)

/-- No two of them begin at the same place. -/
theorem Stacked.pairwise_ne (h : Stacked low high top items bottom) :
    items.Pairwise fun a b => low a ≠ low b := by
  induction h with
  | first _ => exact List.pairwise_singleton _ _
  | under hrest _ _ hlt ih =>
    exact List.pairwise_cons.mpr
      ⟨fun other hother => (hlt.trans_le (hrest.bottom_le other hother)).ne, ih⟩

end IntervalStack
