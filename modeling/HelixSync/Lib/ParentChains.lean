import Mathlib.Data.Finset.Card
import Mathlib.Data.Nat.Find
import Mathlib.Logic.Relation
import HelixSync.Lib.Forest

/-!
# Chains of parents

A hierarchy given by a partial function from an element to its parent. An element is below
another if it comes to it by going up (`ParentChains.Below`), and it is rooted if it comes to
a root (`ParentChains.Rooted`). A rooted element is not below itself
(`ParentChains.Rooted.not_below`), so a hierarchy in which all elements are rooted has no
cycle. Putting an element elsewhere keeps this if the new parent is neither the element nor
below it (`ParentChains.Rooted.of_move`).

In a list of nodes an element comes to anything above it within as many steps as there are
nodes (`Forest.isBelow_length_iff`), so the test with that many levels is the relation.
-/

namespace ParentChains

open Relation

variable {ι : Type}

/-- One step up. -/
def Step (up : ι → Option ι) (a b : ι) : Prop := up a = some b

/-- An element below another. -/
def Below (up : ι → Option ι) (top x : ι) : Prop := TransGen (Step up) x top

/-- An element from which one comes to a root. -/
inductive Rooted (root : ι → Prop) (up : ι → Option ι) : ι → Prop
  | root {x : ι} (h : root x) : Rooted root up x
  | step {x y : ι} (h : up x = some y) (hy : Rooted root up y) : Rooted root up x

variable {up up' : ι → Option ι} {root : ι → Prop} {top x y z : ι}

theorem below_iff : Below up top x ↔ ∃ y, up x = some y ∧ (y = top ∨ Below up top y) := by
  constructor
  · intro h
    rcases TransGen.head'_iff.mp h with ⟨y, hy, hrest⟩
    rcases reflTransGen_iff_eq_or_transGen.mp hrest with heq | hbelow
    · exact ⟨y, hy, Or.inl heq.symm⟩
    · exact ⟨y, hy, Or.inr hbelow⟩
  · rintro ⟨y, hy, rfl | hbelow⟩
    · exact TransGen.single hy
    · exact TransGen.head hy hbelow

theorem Below.trans (h : Below up y x) (h' : Below up z y) : Below up z x :=
  TransGen.trans h h'

/-- Nothing is above an element without a parent. -/
theorem not_below_of_none (h : up x = none) : ¬ Below up top x := by
  rw [below_iff]
  rintro ⟨y, hy, -⟩
  rw [h] at hy
  exact absurd hy nofun

/-- **A rooted element is not below itself**, if the roots have no parents. -/
theorem Rooted.not_below (hroot : ∀ r, root r → up r = none) (h : Rooted root up x) :
    ¬ Below up x x := by
  induction h with
  | root hr => exact not_below_of_none (hroot _ hr)
  | step hup _ ih =>
    rintro hbelow
    obtain ⟨z, hz, hcase⟩ := below_iff.mp hbelow
    obtain rfl := Option.some.inj (hup.symm.trans hz)
    rcases hcase with heq | habove
    · exact ih (below_iff.mpr ⟨_, heq ▸ hup, Or.inl rfl⟩)
    · exact ih (habove.trans (TransGen.single hup))

/-- Elements whose way up is changed are rooted if they are rooted in the end. -/
theorem Rooted.of_agree {bad : ι → Prop} (hagree : ∀ a, ¬ bad a → up' a = up a)
    (hbad : ∀ a, bad a → Rooted root up' a) (h : Rooted root up x) : Rooted root up' x := by
  induction h with
  | root hr => exact .root hr
  | @step a b hup _ ih =>
    by_cases hbada : bad a
    · exact hbad a hbada
    · exact .step ((hagree a hbada).trans hup) ih

/-- **What is rooted stays rooted** where the way up is kept. -/
theorem Rooted.of_kept {s : ι → Prop} (hkept : ∀ a b, s a → up a = some b → up' a = some b ∧ s b)
    (hx : s x) (h : Rooted root up x) : Rooted root up' x := by
  induction h with
  | root hr => exact .root hr
  | step hup _ ih =>
    obtain ⟨hup', hy⟩ := hkept _ _ hx hup
    exact .step hup' (ih hy)

/-- **A set closed under going up** holds all that is above its elements. -/
theorem Below.mem_of_closed {s : ι → Prop} (hclosed : ∀ a b, s a → up a = some b → s b)
    (hx : s x) (h : Below up top x) : s top := by
  induction h using TransGen.head_induction_on with
  | single hstep => exact hclosed _ _ hx hstep
  | head hstep _ ih => exact ih (hclosed _ _ hx hstep)

/-- What is below something stays so where the way up is kept. -/
theorem Below.of_kept {s : ι → Prop} (hkept : ∀ a b, s a → up a = some b → up' a = some b ∧ s b)
    (hx : s x) (h : Below up top x) : Below up' top x := by
  induction h using TransGen.head_induction_on with
  | single hstep => exact TransGen.single (hkept _ _ hx hstep).1
  | head hstep _ ih =>
    obtain ⟨hup', hy⟩ := hkept _ _ hx hstep
    exact TransGen.head hup' (ih hy)

/-- What is not above an element, nor it itself, is passed by on its way up. -/
theorem kept_of_not_below {bad : ι} (hagree : ∀ a, a ≠ bad → up' a = up a) (a b : ι)
    (ha : a ≠ bad ∧ ¬ Below up bad a) (hup : up a = some b) :
    up' a = some b ∧ b ≠ bad ∧ ¬ Below up bad b := by
  refine ⟨(hagree a ha.1).trans hup, ?_, ?_⟩
  · rintro rfl
    exact ha.2 (below_iff.mpr ⟨_, hup, Or.inl rfl⟩)
  · intro hbelow
    exact ha.2 (below_iff.mpr ⟨b, hup, Or.inr hbelow⟩)

/-- **Putting an element elsewhere** keeps everything rooted, if its new parent is rooted and
neither the element nor below it. -/
theorem Rooted.of_move {parent : ι} (hagree : ∀ a, a ≠ z → up' a = up a) (hz : up' z = some parent)
    (hparent : Rooted root up parent) (hne : parent ≠ z) (hnot : ¬ Below up z parent)
    (h : Rooted root up x) : Rooted root up' x := by
  have hparent' : Rooted root up' parent :=
    hparent.of_kept (kept_of_not_below hagree) ⟨hne, hnot⟩
  refine @Rooted.of_agree ι up up' root x (· = z) hagree ?_ h
  rintro a rfl
  exact .step hz hparent'

end ParentChains

namespace Forest

open ParentChains

variable {ι α : Type} [DecidableEq ι]

/-- The parent of a node. -/
def up (forest : Forest ι α) (id : ι) : Option ι := (forest.node? id).bind Node.parent

/-- So many steps up. -/
def climb (forest : Forest ι α) : ℕ → ι → Option ι
  | 0, id => some id
  | n + 1, id => (forest.up id).bind (climb forest n)

variable {forest : Forest ι α} {top id : ι}

theorem isBelow_succ (levels : ℕ) : forest.isBelow top (levels + 1) id = true ↔
    ∃ parent, forest.up id = some parent ∧ (parent = top ∨ forest.isBelow top levels parent = true) := by
  rw [isBelow, ← up]
  cases forest.up id with
  | none => simp
  | some parent => simp

theorem isBelow_iff_climb (levels : ℕ) : forest.isBelow top levels id = true ↔
    ∃ k, 0 < k ∧ k ≤ levels ∧ forest.climb k id = some top := by
  induction levels generalizing id with
  | zero =>
    refine iff_of_false (by simp [isBelow]) ?_
    rintro ⟨k, hpos, hle, -⟩
    omega
  | succ levels ih =>
    rw [isBelow_succ]
    constructor
    · rintro ⟨parent, hup, rfl | hbelow⟩
      · exact ⟨1, Nat.one_pos, by omega, by simp [climb, hup]⟩
      · obtain ⟨k, hpos, hle, hk⟩ := ih.mp hbelow
        exact ⟨k + 1, by omega, by omega, by simp [climb, hup, hk]⟩
    · rintro ⟨k, hpos, hle, hk⟩
      obtain ⟨k, rfl⟩ := Nat.exists_eq_succ_of_ne_zero hpos.ne'
      obtain ⟨parent, hup, hrest⟩ := Option.bind_eq_some_iff.mp hk
      refine ⟨parent, hup, ?_⟩
      rcases Nat.eq_zero_or_pos k with rfl | hk
      · exact Or.inl (Option.some.inj hrest)
      · exact Or.inr (ih.mpr ⟨k, hk, by omega, hrest⟩)

theorem climb_add (m n : ℕ) : forest.climb (m + n) id = (forest.climb m id).bind (forest.climb n) := by
  induction m generalizing id with
  | zero => simp [climb]
  | succ m ih =>
    rw [Nat.succ_add, climb, climb]
    cases forest.up id with
    | none => rfl
    | some parent => exact ih

theorem below_iff_climb : Below forest.up top id ↔ ∃ k, 0 < k ∧ forest.climb k id = some top := by
  constructor
  · intro h
    induction h using Relation.TransGen.head_induction_on with
    | single hstep => exact ⟨1, Nat.one_pos, by rw [climb, show forest.up _ = _ from hstep]; rfl⟩
    | head hstep _ ih =>
      obtain ⟨k, hpos, hk⟩ := ih
      exact ⟨k + 1, Nat.succ_pos k, by rw [climb, show forest.up _ = _ from hstep]; exact hk⟩
  · rintro ⟨k, hpos, hk⟩
    obtain ⟨k, rfl⟩ := Nat.exists_eq_succ_of_ne_zero hpos.ne'
    induction k generalizing id with
    | zero =>
      obtain ⟨parent, hup, hrest⟩ := Option.bind_eq_some_iff.mp hk
      exact below_iff.mpr ⟨parent, hup, Or.inl (Option.some.inj hrest)⟩
    | succ k ih =>
      obtain ⟨parent, hup, hrest⟩ := Option.bind_eq_some_iff.mp hk
      exact below_iff.mpr ⟨parent, hup, Or.inr (ih (Nat.succ_pos k) hrest)⟩

theorem mem_ids_of_up {parent : ι} (h : forest.up id = some parent) :
    id ∈ forest.map Node.id := by
  obtain ⟨node, hnode, -⟩ := Option.bind_eq_some_iff.mp h
  have hid := List.find?_some hnode
  exact List.mem_map.mpr ⟨node, List.mem_of_find?_eq_some hnode, by simpa using hid⟩

/-- **As many steps as there are nodes suffice**: the fewest steps that lead somewhere visit no
node twice. -/
theorem exists_climb_le_length (h : Below forest.up top id) :
    ∃ k, 0 < k ∧ k ≤ forest.length ∧ forest.climb k id = some top := by
  classical
  have hex := below_iff_climb.mp h
  obtain ⟨hpos, hk⟩ := Nat.find_spec hex
  refine ⟨Nat.find hex, hpos, ?_, hk⟩
  -- The ids on the way, by the number of steps to them.
  have hway : ∀ i < Nat.find hex, ∃ a, forest.climb i id = some a ∧ a ∈ forest.map Node.id := by
    intro i hi
    have hsplit : Nat.find hex = i + (Nat.find hex - i - 1 + 1) := by omega
    rw [hsplit, climb_add] at hk
    obtain ⟨a, ha, hrest⟩ := Option.bind_eq_some_iff.mp hk
    obtain ⟨parent, hup, -⟩ := Option.bind_eq_some_iff.mp hrest
    exact ⟨a, ha, mem_ids_of_up hup⟩
  have hcard : (Finset.range (Nat.find hex)).card ≤ (forest.map Node.id).toFinset.card := by
    refine Finset.card_le_card_of_injOn (fun i => (forest.climb i id).getD id) ?_ ?_
    · intro i hi
      obtain ⟨a, ha, hmem⟩ := hway i (Finset.mem_range.mp hi)
      simpa [ha] using hmem
    · intro i hi j hj heq
      -- Two equal ids would make a shorter way.
      have hcut : ∀ {i j : ℕ}, i < j → j < Nat.find hex → forest.climb i id = forest.climb j id →
          False := by
        intro i j hij hj heq
        have hshort : forest.climb (i + (Nat.find hex - j)) id = some top := by
          rw [climb_add, heq, ← climb_add]
          rwa [show j + (Nat.find hex - j) = Nat.find hex by omega]
        exact Nat.find_min hex (show i + (Nat.find hex - j) < Nat.find hex by omega)
          ⟨by omega, hshort⟩
      have hi := Finset.mem_range.mp (Finset.mem_coe.mp hi)
      have hj := Finset.mem_range.mp (Finset.mem_coe.mp hj)
      obtain ⟨a, ha, -⟩ := hway i hi
      obtain ⟨b, hb, -⟩ := hway j hj
      have heq : forest.climb i id = forest.climb j id := by
        rw [ha, hb]
        simpa [ha, hb] using heq
      rcases lt_trichotomy i j with hlt | rfl | hgt
      · exact (hcut hlt hj heq).elim
      · rfl
      · exact (hcut hgt hi heq.symm).elim
  rw [Finset.card_range] at hcard
  exact hcard.trans ((List.toFinset_card_le _).trans (List.length_map _).le)

/-- **The test with as many levels as nodes** is the relation. -/
theorem isBelow_length_iff : forest.isBelow top forest.length id = true ↔ Below forest.up top id :=
  ⟨fun h => by
    obtain ⟨k, hpos, -, hk⟩ := (isBelow_iff_climb _).mp h
    exact below_iff_climb.mpr ⟨k, hpos, hk⟩,
  fun h => (isBelow_iff_climb _).mpr (exists_climb_le_length h)⟩

end Forest
