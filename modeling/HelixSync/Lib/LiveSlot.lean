import Mathlib.Data.List.Basic
import Mathlib.Order.Basic
import Mathlib.Order.Lattice

/-!
# A last-writer-wins slot with an asymmetric rule

A slot is written by three kinds of marks with keys from a linear order: `present`,
`moved` and `deleted`. The mark with the higher key replaces the other, with two
exceptions: a deletion replaces a move whatever their keys, and a move never replaces a
deletion. So whether the slot ends deleted is not decided by the greatest key, and it
can depend on the order in which the marks arrive.

* `LiveSlot.isDeleted_of_deleted_top`: it ends deleted when some deletion is above all
  `present` marks;
* `LiveSlot.not_isDeleted_of_present_top`: it ends live when some `present` mark is above
  all deletions and all moves;
* `LiveSlot.not_isDeleted_of_no_deleted`: it ends live when there is no deletion;
* in the one case left, a deletion below a `present` mark below a move, both ends occur
  (`LiveSlot.not_isDeleted_deletedFirst`, `LiveSlot.isDeleted_deletedLast`).
-/

namespace LiveSlot

variable {κ : Type} [LinearOrder κ]

/-- A mark and its key. -/
inductive Mark (κ : Type) where
  | present (key : κ)
  | moved (key : κ)
  | deleted (key : κ)

namespace Mark

/-- The key of a mark. -/
def key : Mark κ → κ
  | present k => k
  | moved k => k
  | deleted k => k

/-- Whether the mark is a deletion. -/
def isDeleted : Mark κ → Bool
  | deleted _ => true
  | _ => false

end Mark

/-- Whether a mark replaces the one the slot holds. -/
def replaces : Mark κ → Mark κ → Bool
  | .moved _, .deleted _ => true
  | .deleted _, .moved _ => false
  | held, mark => held.key < mark.key

/-- The slot after one mark. -/
def step : Option (Mark κ) → Mark κ → Option (Mark κ)
  | none, mark => some mark
  | some held, mark => if replaces held mark then some mark else some held

/-- The slot after a list of marks. -/
def run (slot : Option (Mark κ)) (marks : List (Mark κ)) : Option (Mark κ) := marks.foldl step slot

/-- Whether a slot holds a deletion. -/
def IsDeleted (slot : Option (Mark κ)) : Prop := ∃ d, slot = some (.deleted d)

omit [LinearOrder κ] in
theorem isDeleted_iff {mark : Mark κ} : mark.isDeleted = true ↔ IsDeleted (some mark) := by
  cases mark <;> simp [Mark.isDeleted, IsDeleted]

@[simp] theorem run_nil (slot : Option (Mark κ)) : run slot [] = slot := rfl

@[simp] theorem run_cons (slot : Option (Mark κ)) (m : Mark κ) (marks : List (Mark κ)) :
    run slot (m :: marks) = run (step slot m) marks := rfl

theorem run_append (slot : Option (Mark κ)) (marks marks' : List (Mark κ)) :
    run slot (marks ++ marks') = run (run slot marks) marks' :=
  List.foldl_append

/-- The slot holds what it held, or one of the marks it was given. -/
theorem mem_of_run {marks : List (Mark κ)} :
    ∀ {slot : Option (Mark κ)} {c : Mark κ}, run slot marks = some c → c ∈ marks ∨ slot = some c := by
  induction marks with
  | nil => exact fun h => Or.inr h
  | cons m marks ih =>
    intro slot c h
    rcases ih h with hmem | hstep
    · exact Or.inl (List.mem_cons_of_mem _ hmem)
    · cases slot with
      | none => exact Or.inl (Option.some.inj hstep ▸ List.mem_cons_self)
      | some held =>
        rw [step] at hstep
        split at hstep
        · exact Or.inl (Option.some.inj hstep ▸ List.mem_cons_self)
        · exact Or.inr hstep

/-- The slot is empty only if it was given nothing. -/
theorem run_eq_none_iff {slot : Option (Mark κ)} {marks : List (Mark κ)} :
    run slot marks = none ↔ slot = none ∧ marks = [] := by
  induction marks generalizing slot with
  | nil => simp
  | cons m marks ih =>
    rw [run_cons, ih]
    cases slot with
    | none => simp [step]
    | some held =>
      rw [step]
      split <;> simp

/-! ### A mark that takes the slot for good -/

section Absorb

variable {T : Mark κ → Prop} {marks : List (Mark κ)}

/-- Marks that no later mark replaces by others keep the slot. -/
theorem run_stays (hstay : ∀ held m, T held → m ∈ marks → replaces held m = true → T m) :
    ∀ held, T held → ∃ c, run (some held) marks = some c ∧ T c := by
  induction marks with
  | nil => exact fun held h => ⟨held, rfl, h⟩
  | cons m marks ih =>
    intro held h
    have ih' := ih fun held m' hT hm' => hstay held m' hT (List.mem_cons_of_mem _ hm')
    rw [run_cons, step]
    split
    · rename_i hrep
      exact ih' m (hstay held m h List.mem_cons_self hrep)
    · exact ih' held h

/-- **Absorption**: a mark that takes the slot from every other, into a set of marks that
keeps it, decides the outcome. -/
theorem run_absorbs {t : Mark κ} (hmem : t ∈ marks) (ht : T t)
    (henter : ∀ held ∈ marks, replaces held t = true ∨ T held)
    (hstay : ∀ held m, T held → m ∈ marks → replaces held m = true → T m) :
    ∃ c, run none marks = some c ∧ T c := by
  obtain ⟨before, after, rfl⟩ := List.append_of_mem hmem
  rw [run_append, run_cons]
  have hafter : ∀ held, T held → ∃ c, run (some held) after = some c ∧ T c := fun held h =>
    run_stays (fun held' m hT hm => hstay held' m hT (by simp [hm])) held h
  rcases hslot : run none before with _ | held
  · exact hafter t ht
  · have hheld : held ∈ before ++ t :: after := by
      rcases mem_of_run hslot with h | h
      · simp [h]
      · exact absurd h (by simp)
    rw [step]
    split
    · exact hafter t ht
    · rename_i hrep
      exact hafter held ((henter held hheld).resolve_left hrep)

end Absorb

/-! ### The outcomes that do not depend on the order -/

variable {marks : List (Mark κ)}

/-- **A deletion above all `present` marks** decides: the slot ends deleted. -/
theorem isDeleted_of_deleted_top {d : κ} (hd : Mark.deleted d ∈ marks)
    (htop : ∀ n, Mark.present n ∈ marks → n < d) : IsDeleted (run none marks) := by
  obtain ⟨c, hrun, k, rfl, -⟩ :=
    run_absorbs (T := fun c => ∃ k, c = .deleted k ∧ d ≤ k) hd ⟨d, rfl, le_refl _⟩
      (fun held hmem => by
        cases held with
        | present n => exact Or.inl (decide_eq_true (htop n hmem))
        | moved n => exact Or.inl rfl
        | deleted k =>
          rcases lt_or_ge k d with hlt | hge
          · exact Or.inl (decide_eq_true hlt)
          · exact Or.inr ⟨k, rfl, hge⟩)
      (by
        rintro _ m ⟨k, rfl, hk⟩ hmem hrep
        cases m with
        | present n =>
          have hlt : k < n := of_decide_eq_true hrep
          exact absurd (lt_of_le_of_lt hk hlt) (not_lt_of_gt (htop n hmem))
        | moved n => exact absurd hrep (by simp [replaces])
        | deleted k' => exact ⟨k', rfl, le_trans hk (le_of_lt (of_decide_eq_true hrep))⟩)
  exact ⟨k, hrun⟩

/-- **A `present` mark above all deletions and moves** decides: the slot ends live. -/
theorem not_isDeleted_of_present_top {n : κ} (hn : Mark.present n ∈ marks)
    (hd : ∀ d, Mark.deleted d ∈ marks → d < n) (hm : ∀ m, Mark.moved m ∈ marks → m < n) :
    ¬IsDeleted (run none marks) := by
  obtain ⟨c, hrun, k, rfl, -⟩ :=
    run_absorbs (T := fun c => ∃ k, c = .present k ∧ n ≤ k) hn ⟨n, rfl, le_refl _⟩
      (fun held hmem => by
        cases held with
        | present k =>
          rcases lt_or_ge k n with hlt | hge
          · exact Or.inl (decide_eq_true hlt)
          · exact Or.inr ⟨k, rfl, hge⟩
        | moved m => exact Or.inl (decide_eq_true (hm m hmem))
        | deleted d => exact Or.inl (decide_eq_true (hd d hmem)))
      (by
        rintro _ m ⟨k, rfl, hk⟩ hmem hrep
        have hlt : k < m.key := of_decide_eq_true (by cases m <;> exact hrep)
        cases m with
        | present k' => exact ⟨k', rfl, le_trans hk (le_of_lt hlt)⟩
        | moved m => exact absurd (lt_of_le_of_lt hk hlt) (not_lt_of_gt (hm m hmem))
        | deleted d => exact absurd (lt_of_le_of_lt hk hlt) (not_lt_of_gt (hd d hmem)))
  rintro ⟨d, hdel⟩
  rw [hrun] at hdel
  exact absurd hdel (by simp)

/-- **Without deletions** the slot ends live. -/
theorem not_isDeleted_of_no_deleted (hd : ∀ d, Mark.deleted d ∉ marks) :
    ¬IsDeleted (run none marks) := by
  rintro ⟨d, hdel⟩
  rcases mem_of_run hdel with h | h
  · exact hd d h
  · exact absurd h (by simp)

/-! ### The outcome that does -/

section Dependent

variable {ds ns ms : List κ}

/-- Deletions first, then a higher `present` mark, then moves: the slot ends live. -/
theorem not_isDeleted_deletedFirst {n : κ} (hn : n ∈ ns) (hd : ∀ d ∈ ds, d < n) :
    ¬IsDeleted (run none (ds.map Mark.deleted ++ ns.map Mark.present ++ ms.map Mark.moved)) := by
  rintro ⟨d, hdel⟩
  rw [run_append] at hdel
  rcases mem_of_run hdel with h | h
  · obtain ⟨m, -, hm⟩ := List.mem_map.mp h
    exact absurd hm (by simp)
  · refine not_isDeleted_of_present_top (n := n) ?_ ?_ ?_ ⟨d, h⟩
    · simp [hn]
    · intro d' hd'
      simp only [List.mem_append, List.mem_map, Mark.deleted.injEq, exists_eq_right, reduceCtorEq,
        and_false, exists_false, or_false] at hd'
      exact hd d' hd'
    · intro m hm
      simp at hm

/-- `present` marks first, then a higher move, then a deletion: the slot ends deleted. -/
theorem isDeleted_deletedLast {m : κ} (hm : m ∈ ms) (hn : ∀ n ∈ ns, n < m) (hds : ds ≠ []) :
    IsDeleted (run none (ns.map Mark.present ++ ms.map Mark.moved ++ ds.map Mark.deleted)) := by
  rw [run_append]
  obtain ⟨c, hrun, k, rfl, -⟩ :=
    @run_absorbs κ _ (fun c => ∃ k, c = Mark.moved k ∧ m ≤ k)
      (ns.map Mark.present ++ ms.map Mark.moved) (.moved m) (by simp [hm]) ⟨m, rfl, le_refl _⟩
      (fun held hmem => by
        rcases List.mem_append.mp hmem with h | h
        · obtain ⟨n, hn', rfl⟩ := List.mem_map.mp h
          exact Or.inl (decide_eq_true (hn n hn'))
        · obtain ⟨k, -, rfl⟩ := List.mem_map.mp h
          rcases lt_or_ge k m with hlt | hge
          · exact Or.inl (decide_eq_true hlt)
          · exact Or.inr ⟨k, rfl, hge⟩)
      (by
        rintro _ c ⟨k, rfl, hk⟩ hmem hrep
        rcases List.mem_append.mp hmem with h | h
        · obtain ⟨n, hn', rfl⟩ := List.mem_map.mp h
          have hlt : k < n := of_decide_eq_true hrep
          exact absurd (lt_of_le_of_lt hk hlt) (not_lt_of_gt (hn n hn'))
        · obtain ⟨k', -, rfl⟩ := List.mem_map.mp h
          exact ⟨k', rfl, le_trans hk (le_of_lt (of_decide_eq_true hrep))⟩)
  rw [hrun]
  cases ds with
  | nil => exact absurd rfl hds
  | cons d ds =>
    obtain ⟨c, hlast, k', rfl⟩ := @run_stays κ _ (fun c => ∃ k, c = Mark.deleted k)
      (ds.map Mark.deleted)
      (fun held c _ hmem _ => by
        obtain ⟨k', -, rfl⟩ := List.mem_map.mp hmem
        exact ⟨k', rfl⟩) (.deleted d) ⟨d, rfl⟩
    exact ⟨k', hlast⟩

end Dependent

end LiveSlot
