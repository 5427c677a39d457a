import Mathlib.Algebra.Ring.Nat
import Mathlib.Data.List.Basic
import Mathlib.Tactic.Common

/-!
# Cutting a stream into pieces

Two ways to cut a stream, and for both of them what a consumer needs that lost its work and
starts again: restarted where a piece ends, the cutting gives the remaining pieces.

* `Cutting.cut`: items are gathered until the piece is full by whatever measure, and what is
  left at the end stays apart (`Cutting.cut_drop`).
* `Cutting.pieces`: the stream comes in labelled groups, and the pieces have the same number
  of items each; a group that straddles a boundary is split, and both parts keep its label
  (`Cutting.pieces_drop`).
-/

namespace Cutting

section Measured

variable {α : Type} (full : List α → Bool) (fits : α → Bool)

/-- The full pieces of a stream, of which `pending` has been gathered, and what is left at the
end. Nothing is left if the stream is given up, at an item that does not fit. -/
def cut : List α → List α → List (List α) × Option (List α)
  | pending, [] => ([], some pending)
  | pending, x :: xs =>
    if fits x then
      if full (pending ++ [x]) then
        let rest := cut [] xs
        ((pending ++ [x]) :: rest.1, rest.2)
      else cut (pending ++ [x]) xs
    else ([], none)

/-- **Nothing is lost or changes place** in a stream that is not given up. -/
theorem cut_flatten {pending xs left : List α} (h : (cut full fits pending xs).2 = some left) :
    (cut full fits pending xs).1.flatten ++ left = pending ++ xs := by
  induction xs generalizing pending with
  | nil =>
    obtain rfl := Option.some.inj h
    rw [cut, List.flatten_nil, List.nil_append, List.append_nil]
  | cons x xs ih =>
    rw [cut] at h ⊢
    split_ifs at h ⊢
    · rw [List.flatten_cons, List.append_assoc, ih h, List.nil_append, List.append_assoc,
        List.singleton_append]
    · rw [ih h, List.append_assoc, List.singleton_append]

/-- The first piece ends before some point of the stream, and the cutting starts anew there. -/
theorem cut_eq_cons {pending xs piece : List α} {rest : List (List α)}
    (h : (cut full fits pending xs).1 = piece :: rest) :
    ∃ before after, xs = before ++ after ∧ piece = pending ++ before ∧ before ≠ [] ∧
      (cut full fits [] after).1 = rest ∧
        (cut full fits [] after).2 = (cut full fits pending xs).2 := by
  induction xs generalizing pending with
  | nil => exact absurd h (by simp [cut])
  | cons x xs ih =>
    rw [cut] at h ⊢
    split_ifs at h ⊢
    · obtain ⟨rfl, rfl⟩ := List.cons.inj h
      exact ⟨[x], xs, rfl, rfl, List.cons_ne_nil _ _, rfl, rfl⟩
    · obtain ⟨before, after, rfl, rfl, -, hrest, hleft⟩ := ih h
      exact ⟨x :: before, after, rfl, by rw [List.append_assoc, List.singleton_append],
        List.cons_ne_nil _ _, hrest, hleft⟩

/-- **Restarted where a piece ends**, the cutting gives the remaining pieces. -/
theorem cut_drop (xs : List α) (k : ℕ) :
    cut full fits [] (xs.drop ((cut full fits [] xs).1.take k).flatten.length) =
      ((cut full fits [] xs).1.drop k, (cut full fits [] xs).2) := by
  induction k generalizing xs with
  | zero => rfl
  | succ k ih =>
    rcases hpieces : (cut full fits [] xs).1 with _ | ⟨piece, rest⟩
    · rw [List.take_nil, List.drop_nil, List.flatten_nil, List.length_nil, List.drop_zero,
        ← hpieces]
    · obtain ⟨before, after, rfl, rfl, -, rfl, hleft⟩ := cut_eq_cons full fits hpieces
      have hgo := ih after
      rw [List.take_succ_cons, List.drop_succ_cons, List.flatten_cons, List.length_append,
        List.drop_append, List.drop_of_length_le (Nat.le_add_right _ _),
        Nat.add_sub_cancel_left, List.nil_append, hgo, hleft]

/-- The full pieces are a first part of the stream. -/
theorem cut_isPrefix (xs : List α) : (cut full fits [] xs).1.flatten <+: xs := by
  have hleading : ∀ (pending xs : List α),
      (cut full fits pending xs).1.flatten <+: pending ++ xs := by
    intro pending xs
    induction xs generalizing pending with
    | nil => exact List.nil_prefix
    | cons x xs ih =>
      rw [cut, List.append_cons pending x xs]
      split_ifs
      · exact (List.prefix_append_right_inj _).mpr (ih [])
      · exact ih _
      · exact List.nil_prefix
  exact hleading [] xs

/-- The full pieces, and what is left as a last one; and whether the end is reached. -/
def cutAll (xs : List α) : List (List α) × Bool :=
  ((cut full fits [] xs).1 ++ ((cut full fits [] xs).2.filter fun left => !left.isEmpty).toList,
    (cut full fits [] xs).2.isSome)

theorem leftover_flatten (left : List α) :
    ((some left).filter fun left => !left.isEmpty).toList.flatten = left := by
  rcases left with _ | ⟨x, left⟩
  · rfl
  · exact List.append_nil _

theorem cutAll_isPrefix (xs : List α) : (cutAll full fits xs).1.flatten <+: xs := by
  rw [cutAll]
  rcases hleft : (cut full fits [] xs).2 with _ | left
  · rw [Option.filter_none, Option.toList_none, List.append_nil]
    exact cut_isPrefix full fits xs
  · have hall : (cut full fits [] xs).1.flatten ++ left = xs := cut_flatten full fits hleft
    have hflatten : ((cut full fits [] xs).1 ++
        ((some left).filter fun left => !left.isEmpty).toList).flatten = xs := by
      rw [List.flatten_append, leftover_flatten, hall]
    exact ⟨[], (List.append_nil _).trans hflatten⟩

/-- If the end is reached the pieces make up the stream. -/
theorem cutAll_flatten {xs : List α} (h : (cutAll full fits xs).2 = true) :
    (cutAll full fits xs).1.flatten = xs := by
  obtain ⟨left, hleft⟩ := Option.isSome_iff_exists.mp h
  have hall : (cut full fits [] xs).1.flatten ++ left = xs := cut_flatten full fits hleft
  rw [cutAll, List.flatten_append, hleft, leftover_flatten, hall]

/-- **Restarted where a piece ends**, the last one among them. -/
theorem cutAll_drop (xs : List α) {k : ℕ} (hk : k ≤ (cutAll full fits xs).1.length) :
    cutAll full fits (xs.drop ((cutAll full fits xs).1.take k).flatten.length) =
      ((cutAll full fits xs).1.drop k, (cutAll full fits xs).2) := by
  by_cases hfull : k ≤ (cut full fits [] xs).1.length
  · have htake : (cutAll full fits xs).1.take k = (cut full fits [] xs).1.take k := by
      rw [cutAll, List.take_append_of_le_length hfull]
    have hdrop : (cutAll full fits xs).1.drop k = (cut full fits [] xs).1.drop k ++
        ((cut full fits [] xs).2.filter fun left => !left.isEmpty).toList := by
      rw [cutAll, List.drop_append_of_le_length hfull]
    rw [htake, hdrop, cutAll, cut_drop, cutAll]
  · -- the last piece is behind: there is nothing left
    have hend : (cutAll full fits xs).2 = true := by
      rw [cutAll] at hk ⊢
      rcases hleft : (cut full fits [] xs).2 with _ | left
      · rw [hleft, Option.filter_none, Option.toList_none, List.append_nil] at hk
        exact absurd hk hfull
      · rfl
    have hlength : (cutAll full fits xs).1.length ≤ k := by
      have hlast := Option.length_toList_le
        (o := (cut full fits [] xs).2.filter fun left => !left.isEmpty)
      rw [cutAll, List.length_append]
      omega
    rw [List.take_of_length_le hlength, cutAll_flatten full fits hend, List.drop_length,
      List.drop_of_length_le hlength, hend]
    rfl

end Measured

/-! ### Labelled groups -/

/-- A group of items with a label. -/
structure Group (ι α : Type) where
  label : ι
  items : List α
  deriving DecidableEq, Repr

section Groups

variable {ι α : Type}

/-- The items of a stream, each with its label. -/
def itemsOf (groups : List (Group ι α)) : List (ι × α) :=
  groups.flatMap fun g => g.items.map fun x => (g.label, x)

/-- How many items a stream has. -/
def count (groups : List (Group ι α)) : ℕ := (groups.map fun g => g.items.length).sum

/-- The first `n` items, without empty groups. -/
def takeItems : ℕ → List (Group ι α) → List (Group ι α)
  | _, [] => []
  | n, g :: groups =>
    if n = 0 then []
    else if g.items = [] then takeItems n groups
    else if n ≤ g.items.length then [⟨g.label, g.items.take n⟩]
    else g :: takeItems (n - g.items.length) groups

/-- The items after the first `n`, without empty groups in front. -/
def dropItems : ℕ → List (Group ι α) → List (Group ι α)
  | _, [] => []
  | n, g :: groups =>
    if n < g.items.length then ⟨g.label, g.items.drop n⟩ :: groups
    else dropItems (n - g.items.length) groups

variable {g : Group ι α} {groups : List (Group ι α)}

@[simp] theorem itemsOf_nil : itemsOf ([] : List (Group ι α)) = [] := rfl

theorem itemsOf_cons : itemsOf (g :: groups) = (g.items.map fun x => (g.label, x)) ++ itemsOf groups :=
  List.flatMap_cons

@[simp] theorem count_nil : count ([] : List (Group ι α)) = 0 := rfl

@[simp] theorem count_cons : count (g :: groups) = g.items.length + count groups := by
  rw [count, List.map_cons, List.sum_cons, count]

@[simp] theorem count_append (groups groups' : List (Group ι α)) :
    count (groups ++ groups') = count groups + count groups' := by
  rw [count, List.map_append, List.sum_append, count, count]

theorem length_itemsOf (groups : List (Group ι α)) : (itemsOf groups).length = count groups := by
  induction groups with
  | nil => rfl
  | cons g groups ih => rw [itemsOf_cons, List.length_append, List.length_map, ih, count_cons]

/-- What is dropped is dropped from the items. -/
theorem itemsOf_dropItems (n : ℕ) (groups : List (Group ι α)) :
    itemsOf (dropItems n groups) = (itemsOf groups).drop n := by
  induction groups generalizing n with
  | nil => rw [dropItems, itemsOf_nil, List.drop_nil]
  | cons g groups ih =>
    rw [dropItems, itemsOf_cons, List.drop_append, List.length_map]
    split
    · rename_i hlt
      rw [itemsOf_cons, List.map_drop, Nat.sub_eq_zero_of_le (Nat.le_of_lt hlt),
        List.drop_zero]
    · rename_i hle
      rw [List.drop_of_length_le (by rw [List.length_map]; exact Nat.le_of_not_lt hle),
        List.nil_append, ih]

theorem itemsOf_takeItems (n : ℕ) (groups : List (Group ι α)) :
    itemsOf (takeItems n groups) = (itemsOf groups).take n := by
  induction groups generalizing n with
  | nil => rw [takeItems, itemsOf_nil, List.take_nil]
  | cons g groups ih =>
    rw [takeItems, itemsOf_cons, List.take_append, List.length_map]
    split_ifs with hzero hempty hle
    · rw [hzero, List.take_zero, Nat.zero_sub, List.take_zero, itemsOf_nil, List.append_nil]
    · rw [ih, hempty, List.map_nil, List.take_nil, List.nil_append, List.length_nil, Nat.sub_zero]
    · rw [itemsOf_cons, itemsOf_nil, List.map_take, Nat.sub_eq_zero_of_le hle, List.take_zero]
    · have hmap : (g.items.map fun x => (g.label, x)).length ≤ n := by
        rw [List.length_map]
        omega
      rw [itemsOf_cons, ih, List.take_of_length_le hmap]

theorem count_dropItems (n : ℕ) (groups : List (Group ι α)) :
    count (dropItems n groups) = count groups - n := by
  rw [← length_itemsOf, itemsOf_dropItems, List.length_drop, length_itemsOf]

theorem count_takeItems (n : ℕ) (groups : List (Group ι α)) :
    count (takeItems n groups) = min n (count groups) := by
  rw [← length_itemsOf, itemsOf_takeItems, List.length_take, length_itemsOf]

/-- Dropping all there is leaves nothing, not even an empty group. -/
theorem dropItems_of_count_le {n : ℕ} (h : count groups ≤ n) : dropItems n groups = [] := by
  induction groups generalizing n with
  | nil => rfl
  | cons g groups ih =>
    rw [count_cons] at h
    rw [dropItems, if_neg (by omega)]
    exact ih (by omega)

/-- Dropping twice is dropping once. -/
theorem dropItems_dropItems (m n : ℕ) (groups : List (Group ι α)) :
    dropItems n (dropItems m groups) = dropItems (m + n) groups := by
  induction groups generalizing m with
  | nil => rfl
  | cons g groups ih =>
    rw [dropItems, dropItems]
    by_cases hm : m < g.items.length
    · rw [if_pos hm, dropItems, List.length_drop]
      by_cases hn : n < g.items.length - m
      · rw [if_pos hn, if_pos (by omega), List.drop_drop]
      · rw [if_neg hn, if_neg (by omega)]
        congr 1
        omega
    · rw [if_neg hm, ih, if_neg (by omega)]
      congr 1
      omega

theorem dropItems_min (n : ℕ) (groups : List (Group ι α)) :
    dropItems (min n (count groups)) groups = dropItems n groups := by
  rcases Nat.le_total n (count groups) with hle | hle
  · rw [Nat.min_eq_left hle]
  · rw [Nat.min_eq_right hle, dropItems_of_count_le (Nat.le_refl _), dropItems_of_count_le hle]

/-! ### Groups that are not empty -/

theorem dropItems_zero (h : ∀ g ∈ groups, g.items ≠ []) : dropItems 0 groups = groups := by
  rcases groups with _ | ⟨g, groups⟩
  · rfl
  · rw [dropItems, if_pos (List.length_pos_iff.mpr (h g List.mem_cons_self)), List.drop_zero]

theorem items_ne_nil_of_mem_dropItems (h : ∀ g ∈ groups, g.items ≠ []) {n : ℕ} {g : Group ι α}
    (hg : g ∈ dropItems n groups) : g.items ≠ [] := by
  induction groups generalizing n with
  | nil => exact absurd hg List.not_mem_nil
  | cons first groups ih =>
    rw [dropItems] at hg
    split at hg
    · rename_i hlt
      rcases List.mem_cons.mp hg with rfl | hg
      · exact fun hnil => absurd (List.drop_eq_nil_iff.mp hnil) (Nat.not_le_of_lt hlt)
      · exact h g (List.mem_cons_of_mem _ hg)
    · exact ih (fun g hg => h g (List.mem_cons_of_mem _ hg)) hg

/-- A group that the boundary is in, or ends at. -/
theorem dropItems_cons_of_le (h : ∀ g ∈ groups, g.items ≠ []) {n : ℕ}
    (hn : n ≤ g.items.length) : dropItems n (g :: groups) =
      (if n < g.items.length then [⟨g.label, g.items.drop n⟩] else []) ++ groups := by
  rw [dropItems]
  split
  · rfl
  · rw [Nat.sub_eq_zero_of_le hn, dropItems_zero h, List.nil_append]

theorem takeItems_append {pending : List (Group ι α)} (h : ∀ g ∈ pending, g.items ≠ []) {n : ℕ}
    (hn : count pending < n) (groups : List (Group ι α)) :
    takeItems n (pending ++ groups) = pending ++ takeItems (n - count pending) groups := by
  induction pending generalizing n with
  | nil => rfl
  | cons g pending ih =>
    rw [count_cons] at hn
    have hrest : ∀ g ∈ pending, g.items ≠ [] := fun g hg => h g (List.mem_cons_of_mem _ hg)
    rw [List.cons_append, takeItems, if_neg (by omega), if_neg (h g List.mem_cons_self),
      if_neg (by omega), ih hrest (by omega), count_cons, Nat.sub_sub, List.cons_append]

theorem dropItems_append {pending : List (Group ι α)} {n : ℕ} (hn : count pending ≤ n)
    (groups : List (Group ι α)) :
    dropItems n (pending ++ groups) = dropItems (n - count pending) groups := by
  induction pending generalizing n with
  | nil => rfl
  | cons g pending ih =>
    rw [count_cons] at hn
    rw [List.cons_append, dropItems, if_neg (by omega), ih (by omega), count_cons, Nat.sub_sub]

/-! ### Pieces of a fixed size -/

/-- A stream in pieces of `size` items, the last of which may be shorter. -/
def pieces (size : ℕ) (groups : List (Group ι α)) : List (List (Group ι α)) :=
  if 0 < size ∧ 0 < count groups then
    takeItems size groups :: pieces size (dropItems size groups)
  else []
termination_by count groups
decreasing_by rw [count_dropItems]; omega

variable {size : ℕ}

theorem pieces_of_count_eq_zero (h : count groups = 0) : pieces size groups = [] := by
  rw [pieces, if_neg]
  omega

theorem pieces_of_count_pos (hsize : 0 < size) (h : 0 < count groups) :
    pieces size groups = takeItems size groups :: pieces size (dropItems size groups) := by
  rw [pieces, if_pos ⟨hsize, h⟩]

/-- No piece is without items. -/
theorem count_pos_of_mem_pieces {piece : List (Group ι α)} (h : piece ∈ pieces size groups) :
    0 < count piece := by
  induction groups using pieces.induct size with
  | case1 groups hpos ih =>
    rw [pieces_of_count_pos hpos.1 hpos.2] at h
    rcases List.mem_cons.mp h with rfl | h
    · rw [count_takeItems]
      omega
    · exact ih h
  | case2 groups hnone =>
    rw [pieces, if_neg hnone] at h
    exact absurd h List.not_mem_nil

/-- No piece has more items than its size. -/
theorem count_le_of_mem_pieces {piece : List (Group ι α)} (h : piece ∈ pieces size groups) :
    count piece ≤ size := by
  induction groups using pieces.induct size with
  | case1 groups hpos ih =>
    rw [pieces_of_count_pos hpos.1 hpos.2] at h
    rcases List.mem_cons.mp h with rfl | h
    · rw [count_takeItems]
      exact Nat.min_le_left _ _
    · exact ih h
  | case2 groups hnone =>
    rw [pieces, if_neg hnone] at h
    exact absurd h List.not_mem_nil

/-- Every piece but the last has as many items as its size. -/
theorem count_of_mem_dropLast_pieces {piece : List (Group ι α)}
    (h : piece ∈ (pieces size groups).dropLast) : count piece = size := by
  induction groups using pieces.induct size with
  | case1 groups hpos ih =>
    rw [pieces_of_count_pos hpos.1 hpos.2] at h
    by_cases hnone : pieces size (dropItems size groups) = []
    · rw [hnone] at h
      exact absurd h List.not_mem_nil
    rw [List.dropLast_cons_of_ne_nil hnone] at h
    rcases List.mem_cons.mp h with rfl | h
    · rw [count_takeItems, Nat.min_eq_left]
      by_contra hlt
      refine hnone (pieces_of_count_eq_zero ?_)
      rw [count_dropItems]
      omega
    · exact ih h
  | case2 groups hnone =>
    rw [pieces, if_neg hnone] at h
    exact absurd h List.not_mem_nil

/-- **Restarted where a piece ends**, the cutting gives the remaining pieces. -/
theorem pieces_drop (hsize : 0 < size) (h : ∀ g ∈ groups, g.items ≠ []) (k : ℕ) :
    pieces size (dropItems (k * size) groups) = (pieces size groups).drop k := by
  induction k generalizing groups with
  | zero => rw [Nat.zero_mul, dropItems_zero h, List.drop_zero]
  | succ k ih =>
    rw [Nat.succ_mul, Nat.add_comm, ← dropItems_dropItems,
      ih fun g => items_ne_nil_of_mem_dropItems h]
    by_cases hcount : count groups = 0
    · have hnone : count (dropItems size groups) = 0 := by
        rw [count_dropItems, hcount, Nat.zero_sub]
      rw [pieces_of_count_eq_zero hnone, pieces_of_count_eq_zero hcount, List.drop_nil,
        List.drop_nil]
    · rw [pieces_of_count_pos hsize (Nat.pos_of_ne_zero hcount), List.drop_succ_cons]

/-- A stream that fits into one piece is that piece. -/
theorem pieces_of_count_lt (h : ∀ g ∈ groups, g.items ≠ []) (hlt : count groups < size) :
    pieces size groups = if count groups = 0 then [] else [groups] := by
  split
  · rename_i hzero
    exact pieces_of_count_eq_zero hzero
  · rename_i hne
    have htake : takeItems size groups = groups := by
      rw [← List.append_nil groups, takeItems_append h hlt, takeItems]
    rw [pieces_of_count_pos (by omega) (Nat.pos_of_ne_zero hne), htake,
      dropItems_of_count_le (Nat.le_of_lt hlt), pieces_of_count_eq_zero rfl]

/-- A piece that is filled up by a part of the next group, or by the whole of it. -/
theorem pieces_of_filled {pending : List (Group ι α)} (hpending : ∀ g ∈ pending, g.items ≠ [])
    (hgroups : ∀ g ∈ groups, g.items ≠ []) (hlt : count pending < size)
    (hfill : size - count pending ≤ g.items.length) :
    pieces size (pending ++ g :: groups) =
      (pending ++ [⟨g.label, g.items.take (size - count pending)⟩]) ::
        pieces size ((if size - count pending < g.items.length
          then [⟨g.label, g.items.drop (size - count pending)⟩] else []) ++ groups) := by
  have hne : g.items ≠ [] := by
    intro hnil
    rw [hnil, List.length_nil] at hfill
    omega
  have hcount : 0 < count (pending ++ g :: groups) := by
    rw [count_append, count_cons]
    have := List.length_pos_iff.mpr hne
    omega
  rw [pieces_of_count_pos (by omega) hcount, takeItems_append hpending hlt,
    dropItems_append (Nat.le_of_lt hlt), takeItems, if_neg (by omega), if_neg hne, if_pos hfill,
    dropItems_cons_of_le hgroups hfill]

/-- The pieces make up the stream, -/
theorem itemsOf_pieces (hsize : 0 < size) (groups : List (Group ι α)) :
    (pieces size groups).flatMap itemsOf = itemsOf groups := by
  induction groups using pieces.induct size with
  | case1 groups hpos ih =>
    rw [pieces_of_count_pos hpos.1 hpos.2, List.flatMap_cons, ih, itemsOf_takeItems,
      itemsOf_dropItems, List.take_append_drop]
  | case2 groups hnone =>
    have hcount : count groups = 0 := by omega
    rw [pieces_of_count_eq_zero hcount, List.flatMap_nil,
      List.eq_nil_of_length_eq_zero ((length_itemsOf groups).trans hcount)]

/-- and the first of them hold the first items. -/
theorem count_take_pieces (hsize : 0 < size) (groups : List (Group ι α)) {k : ℕ}
    (hk : k ≤ (pieces size groups).length) :
    (((pieces size groups).take k).map count).sum = min (k * size) (count groups) := by
  induction k generalizing groups with
  | zero => rw [List.take_zero, List.map_nil, List.sum_nil, Nat.zero_mul, Nat.zero_min]
  | succ k ih =>
    have hpos : 0 < count groups := by
      by_contra hzero
      rw [pieces_of_count_eq_zero (by omega)] at hk
      exact absurd hk (Nat.not_succ_le_zero k)
    rw [pieces_of_count_pos hsize hpos, List.length_cons] at hk
    rw [pieces_of_count_pos hsize hpos, List.take_succ_cons, List.map_cons, List.sum_cons,
      ih _ (by omega), count_takeItems, count_dropItems, Nat.succ_mul]
    omega

end Groups

end Cutting
