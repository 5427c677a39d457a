import Mathlib.Data.Finset.Card
import Mathlib.Data.Finset.Image
import Mathlib.Logic.Function.Basic

/-!
# Finite maps

A map with finitely many keys, given by its lookup function together with its set
of keys. Programs that keep a hash map and then count, sum over or walk its entries
in no particular order are stated with it: two maps are equal as soon as their
lookups agree (`FinMap.ext_get`), so nothing can depend on an iteration order, and a
sum over the entries is a sum over the finite set of keys.
-/

/-- A finite map from `κ` to `υ`. -/
structure FinMap (κ υ : Type) where
  /-- The value of a key, if it has one. -/
  get : κ → Option υ
  /-- The keys that have a value. -/
  keys : Finset κ
  mem_keys : ∀ k, k ∈ keys ↔ (get k).isSome

namespace FinMap

variable {κ υ : Type}

/-- **Extensionality**: the lookups determine the map. -/
theorem ext_get {m m' : FinMap κ υ} (h : ∀ k, m.get k = m'.get k) : m = m' := by
  obtain ⟨get, keys, hkeys⟩ := m
  obtain ⟨get', keys', hkeys'⟩ := m'
  obtain rfl : get = get' := funext h
  obtain rfl : keys = keys' := by
    ext k
    rw [hkeys, hkeys']
  rfl

theorem mem_keys_iff_exists {m : FinMap κ υ} {k : κ} : k ∈ m.keys ↔ ∃ v, m.get k = some v := by
  rw [m.mem_keys, Option.isSome_iff_exists]

theorem get_eq_none_iff {m : FinMap κ υ} {k : κ} : m.get k = none ↔ k ∉ m.keys := by
  rw [m.mem_keys, Option.not_isSome_iff_eq_none]

/-- The map with no entries. -/
def empty : FinMap κ υ where
  get := fun _ => none
  keys := ∅
  mem_keys := by simp

@[simp] theorem get_empty (k : κ) : (empty : FinMap κ υ).get k = none := rfl

section Decidable

variable [DecidableEq κ] (m : FinMap κ υ)

/-- The map with the value of one key set. -/
def insert (k : κ) (v : υ) : FinMap κ υ where
  get := Function.update m.get k (some v)
  keys := Insert.insert k m.keys
  mem_keys := by
    intro j
    by_cases h : j = k
    · simp [h]
    · simp [h, m.mem_keys]

theorem get_insert (k : κ) (v : υ) (j : κ) :
    (m.insert k v).get j = if j = k then some v else m.get j :=
  Function.update_apply _ _ _ _

@[simp] theorem keys_insert (k : κ) (v : υ) : (m.insert k v).keys = Insert.insert k m.keys := rfl

/-- The map without one key. -/
def erase (k : κ) : FinMap κ υ where
  get := Function.update m.get k none
  keys := m.keys.erase k
  mem_keys := by
    intro j
    by_cases h : j = k
    · simp [h]
    · simp [h, m.mem_keys]

theorem get_erase (k j : κ) : (m.erase k).get j = if j = k then none else m.get j :=
  Function.update_apply _ _ _ _

@[simp] theorem keys_erase (k : κ) : (m.erase k).keys = m.keys.erase k := rfl

end Decidable

section Retain

variable (m : FinMap κ υ) (p : κ → υ → Bool)

/-- The entries that satisfy a predicate. -/
def retain : FinMap κ υ where
  get := fun k => (m.get k).filter (p k)
  keys := m.keys.filter fun k => ((m.get k).filter (p k)).isSome
  mem_keys := by
    intro k
    rw [Finset.mem_filter, m.mem_keys, and_iff_right_iff_imp]
    cases m.get k <;> simp

@[simp] theorem get_retain (k : κ) : (m.retain p).get k = (m.get k).filter (p k) := rfl

theorem get_retain_eq_some_iff {k : κ} {v : υ} :
    (m.retain p).get k = some v ↔ m.get k = some v ∧ p k v = true := by
  rw [get_retain, Option.filter_eq_some_iff]

theorem mem_keys_retain {k : κ} :
    k ∈ (m.retain p).keys ↔ ∃ v, m.get k = some v ∧ p k v = true := by
  simp only [mem_keys_iff_exists, get_retain_eq_some_iff]

end Retain

/-! ### Counting the keys under a label

A label of the keys parts the entries into groups, and a program that keeps the size of every
group beside the map has to keep it in step with each insertion and each removal. -/

section CountOf

variable {β : Type} [DecidableEq β] (f : κ → β) (m : FinMap κ υ)

/-- The number of keys with a label. -/
def countOf (label : β) : ℕ := (m.keys.filter fun k => f k = label).card

variable {f m}

/-- A key is counted under its label. -/
theorem countOf_pos {k : κ} (h : k ∈ m.keys) : 0 < m.countOf f (f k) :=
  Finset.card_pos.mpr ⟨k, Finset.mem_filter.mpr ⟨h, rfl⟩⟩

/-- What a filter keeps and what it drops make up each group. -/
theorem countOf_retain_add (p : κ → υ → Bool) (label : β) :
    (m.retain p).countOf f label +
        (m.keys.filter fun k => f k = label ∧ ¬((m.get k).filter (p k)).isSome = true).card =
      m.countOf f label := by
  rw [countOf, countOf, ← Finset.card_filter_add_card_filter_not
    (s := m.keys.filter fun k => f k = label) (fun k => ((m.get k).filter (p k)).isSome = true),
    Finset.filter_filter, Finset.filter_filter]
  congr 2
  ext k
  simp only [retain, Finset.mem_filter]
  tauto

variable [DecidableEq κ]

/-- A new key adds one to its own group. -/
theorem countOf_insert {k : κ} (h : m.get k = none) (v : υ) :
    (m.insert k v).countOf f =
      Function.update (m.countOf f) (f k) (m.countOf f (f k) + 1) := by
  have hk : k ∉ m.keys := get_eq_none_iff.mp h
  funext label
  rw [Function.update_apply, countOf, keys_insert, Finset.filter_insert]
  split_ifs with hlabel hlabel' hlabel'
  · rw [Finset.card_insert_of_notMem fun hmem => hk (Finset.mem_filter.mp hmem).1, ← hlabel]
    rfl
  · exact absurd hlabel.symm hlabel'
  · exact absurd hlabel'.symm hlabel
  · rfl

/-- A key that is there is only overwritten. -/
theorem keys_insert_of_mem {k : κ} (h : k ∈ m.keys) (v : υ) : (m.insert k v).keys = m.keys :=
  Finset.insert_eq_of_mem h

/-- The removal of a key takes one from its own group. -/
theorem countOf_erase {k : κ} (h : k ∈ m.keys) :
    (m.erase k).countOf f =
      Function.update (m.countOf f) (f k) (m.countOf f (f k) - 1) := by
  funext label
  rw [Function.update_apply, countOf, keys_erase, Finset.filter_erase]
  split_ifs with hlabel
  · rw [Finset.card_erase_of_mem (Finset.mem_filter.mpr ⟨h, hlabel.symm⟩), hlabel]
    rfl
  · rw [Finset.erase_eq_of_notMem fun hmem => hlabel (Finset.mem_filter.mp hmem).2.symm]
    rfl

end CountOf

end FinMap
