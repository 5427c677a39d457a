import Mathlib.Data.List.Basic
import Mathlib.Logic.Function.Basic

/-!
# Logs of writes that are thinned out

A log is a list of entries, each of which may write to keys; what it leaves under a key is what
was written there last (`LastWrites.foldl_apply`). An entry can be dropped without any effect on
a key if it does not write there or a later one does. A log thinned out in this way
(`LastWrites.Thins`) leaves the same (`LastWrites.Thins.last_eq`).
-/

namespace LastWrites

variable {α κ β : Type} (writes : α → κ → Option β)

/-- What a log writes to a key last. -/
def last (k : κ) : List α → Option β
  | [] => none
  | entry :: rest => (last k rest).or (writes entry k)

variable {writes} {k : κ} {entry : α} {kept rest entries : List α}

theorem last_append (entries rest : List α) :
    last writes k (entries ++ rest) = (last writes k rest).or (last writes k entries) := by
  induction entries with
  | nil => simp [last]
  | cons entry entries ih => rw [List.cons_append, last, ih, last, Option.or_assoc]

theorem isSome_last (h : entry ∈ entries) (hwrites : (writes entry k).isSome = true) :
    (last writes k entries).isSome = true := by
  induction entries with
  | nil => exact absurd h List.not_mem_nil
  | cons first rest ih =>
    rw [last, Option.isSome_or, Bool.or_eq_true]
    rcases List.mem_cons.mp h with rfl | h
    · exact Or.inr hwrites
    · exact Or.inl (ih h)

theorem last_eq_none_iff :
    last writes k entries = none ↔ ∀ entry ∈ entries, writes entry k = none := by
  induction entries with
  | nil => simp [last]
  | cons first rest ih => rw [last, Option.or_eq_none_iff, ih, List.forall_mem_cons, and_comm]

/-- **What a log leaves** under a key is what was written there last, or what was there before. -/
theorem foldl_apply {store : κ → Option β} {apply : (κ → Option β) → α → κ → Option β}
    (happly : ∀ store entry, apply store entry k = (writes entry k).or (store k)) :
    entries.foldl apply store k = (last writes k entries).or (store k) := by
  induction entries generalizing store with
  | nil => rfl
  | cons entry rest ih => rw [List.foldl_cons, ih, happly, last, Option.or_assoc]

/-- A log without some entries, each of which does not write to a key or is followed by one that
does. -/
inductive Thins (writes : α → κ → Option β) (k : κ) : List α → List α → Prop
  | nil : Thins writes k [] []
  | keep {kept rest : List α} (entry : α) : Thins writes k kept rest →
      Thins writes k (entry :: kept) (entry :: rest)
  | drop {kept rest : List α} {entry : α} : Thins writes k kept rest →
      writes entry k = none ∨ (last writes k rest).isSome = true →
      Thins writes k kept (entry :: rest)

/-- **A thinned-out log leaves the same.** -/
theorem Thins.last_eq (h : Thins writes k kept entries) :
    last writes k kept = last writes k entries := by
  induction h with
  | nil => rfl
  | keep entry _ ih => rw [last, last, ih]
  | drop _ hdrop ih =>
    rw [last, ih]
    rcases hdrop with hnone | hsome
    · rw [hnone, Option.or_none]
    · exact (Option.or_of_isSome hsome).symm

theorem Thins.sublist (h : Thins writes k kept entries) : kept.Sublist entries := by
  induction h with
  | nil => exact List.Sublist.refl _
  | keep entry _ ih => exact ih.cons_cons entry
  | drop _ _ ih => exact ih.cons _

/-- Entries that do not write to a key can be left out by their place. -/
theorem thins_filter_zipIdx {p : α × ℕ → Bool}
    (h : ∀ entry ∈ entries, ∀ i, p (entry, i) = false → writes entry k = none) (n : ℕ) :
    Thins writes k (((entries.zipIdx n).filter p).map Prod.fst) entries := by
  induction entries generalizing n with
  | nil => exact .nil
  | cons entry rest ih =>
    have hrest := ih (fun later hlater => h later (List.mem_cons_of_mem _ hlater)) (n + 1)
    rw [List.zipIdx_cons]
    rcases hp : p (entry, n) with _ | _
    · rw [List.filter_cons_of_neg (by simp [hp])]
      exact .drop hrest (Or.inl (h entry List.mem_cons_self n hp))
    · rw [List.filter_cons_of_pos hp]
      exact .keep entry hrest

end LastWrites
