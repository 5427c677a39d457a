import Mathlib.Data.List.Sort
import Mathlib.Data.List.Nodup

/-!
# Sorting a list in two parts

An insertion sort of `l ++ l'` sorts the two parts on their own if everything in `l` is
below everything in `l'` (`List.insertionSort_append_of_forall`). Its last element is that
of `l'` as soon as `l` lies below that one element
(`List.getLast?_insertionSort_append`). And a filtered part of a list without repetitions
is the filtered list if it lacks nothing the filter keeps
(`List.Sublist.filter_eq_of_forall`). A list in order is the part below a bound followed by
the part above (`List.Pairwise.filter_append_filter`).
-/

namespace List

variable {α : Type} {r : α → α → Prop} [DecidableRel r] {a b : α} {l l' : List α}

theorem orderedInsert_append_of_forall (h : ∀ b ∈ l', r a b) :
    (l ++ l').orderedInsert r a = l.orderedInsert r a ++ l' := by
  induction l with
  | nil =>
    cases l' with
    | nil => rfl
    | cons b l' =>
      rw [nil_append, orderedInsert_cons_of_le r l' (h b mem_cons_self)]
      rfl
  | cons c l ih =>
    rw [cons_append, orderedInsert_cons, orderedInsert_cons, ih]
    split <;> rfl

/-- **Two parts in order** are sorted each on its own. -/
theorem insertionSort_append_of_forall (h : ∀ a ∈ l, ∀ b ∈ l', r a b) :
    (l ++ l').insertionSort r = l.insertionSort r ++ l'.insertionSort r := by
  induction l with
  | nil => rfl
  | cons c l ih =>
    rw [cons_append, insertionSort_cons, ih fun a ha => h a (mem_cons_of_mem _ ha),
      insertionSort_cons]
    refine orderedInsert_append_of_forall fun b hb => h c mem_cons_self b ?_
    exact (perm_insertionSort r l').mem_iff.mp hb

theorem getLast?_orderedInsert (hlast : l.getLast? = some b) (h : r a b) :
    (l.orderedInsert r a).getLast? = some b := by
  induction l with
  | nil => exact absurd hlast (by simp)
  | cons c l ih =>
    rw [orderedInsert_cons]
    split
    · rw [getLast?_cons_cons, hlast]
    · cases l with
      | nil =>
        rename_i hle
        obtain rfl : c = b := by simpa using hlast
        exact absurd h hle
      | cons d l =>
        rw [getLast?_cons_cons] at hlast
        have hrest := ih hlast
        rcases hins : orderedInsert r a (d :: l) with _ | ⟨e, rest⟩
        · rw [hins] at hrest
          exact absurd hrest (by simp)
        · rw [getLast?_cons_cons, ← hins, hrest]

/-- **The last element** is that of the second part if the first part is below it. -/
theorem getLast?_insertionSort_append (hlast : (l'.insertionSort r).getLast? = some b)
    (h : ∀ a ∈ l, r a b) : ((l ++ l').insertionSort r).getLast? = some b := by
  induction l with
  | nil => exact hlast
  | cons c l ih =>
    rw [cons_append, insertionSort_cons]
    exact getLast?_orderedInsert (ih fun a ha => h a (mem_cons_of_mem _ ha)) (h c mem_cons_self)

omit [DecidableRel r] in
/-- **A part of a list** with everything a filter keeps. -/
theorem Sublist.filter_eq_of_forall {p : α → Bool} (hsub : l.Sublist l') (hnodup : l'.Nodup)
    (h : ∀ a ∈ l', p a = true → a ∈ l) : l.filter p = l'.filter p := by
  refine (hsub.filter p).eq_of_length_le ?_
  refine (subperm_of_subset (hnodup.filter p) fun a ha => ?_).length_le
  obtain ⟨hmem, hp⟩ := mem_filter.mp ha
  exact mem_filter.mpr ⟨h a hmem hp, hp⟩

omit [DecidableRel r] in
/-- **A list in order, cut at a bound**: the part below and a part above follow each other. -/
theorem Pairwise.filter_append_filter {f : α → ℕ} (h : l.Pairwise fun a b => f a < f b) (m : ℕ)
    (q : α → Bool) :
    l.filter (fun a => Decidable.decide (f a ≤ m)) ++
        l.filter (fun a => Decidable.decide (m < f a) && q a) =
      l.filter fun a => Decidable.decide (f a ≤ m) || q a := by
  induction l with
  | nil => rfl
  | cons a l ih =>
    obtain ⟨hhead, htail⟩ := pairwise_cons.mp h
    by_cases ha : f a ≤ m
    · rw [filter_cons_of_pos (by simpa using ha), filter_cons_of_neg (by simp [ha]),
        filter_cons_of_pos (by simp [ha]), cons_append, ih htail]
    · -- nothing after `a` lies below the bound
      have hnil : (a :: l).filter (fun b => Decidable.decide (f b ≤ m)) = [] := by
        rw [filter_eq_nil_iff]
        intro b hb
        rcases mem_cons.mp hb with rfl | hb
        · simpa using ha
        · have hlt := hhead b hb
          simp only [decide_eq_true_eq]
          omega
      rw [hnil, nil_append]
      refine filter_congr fun b hb => ?_
      have hb' : ¬f b ≤ m := by simpa using filter_eq_nil_iff.mp hnil b hb
      simp [hb', not_le.mp hb']

end List
