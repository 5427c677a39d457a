import Mathlib.Data.List.Basic
import Mathlib.Order.Lattice

/-!
# Stores that are read in key order

A store of records under keys from a linear order, as a list of its entries in ascending order. It
can be read a part at a time (`OrderedStore.scan`): the next entries above the last key that was
read.

* `OrderedStore.get_insert`, `OrderedStore.get_retain` – what is stored under a key after an update;
* `OrderedStore.get_of_mem_scan` – a scan reads what is stored.
-/

/-- Records under keys, in the order of the keys. -/
structure OrderedStore (κ υ : Type) [LinearOrder κ] where
  entries : List (κ × υ)
  sorted : entries.Pairwise fun a b => a.1 < b.1

namespace OrderedStore

variable {κ υ : Type} [LinearOrder κ]

/-! ### Entries -/

/-- The record of a key in a list of entries. -/
def lookup (k : κ) : List (κ × υ) → Option υ
  | [] => none
  | entry :: entries => if entry.1 = k then some entry.2 else lookup k entries

/-- The entries with the record of a key set. -/
def insertEntry (k : κ) (v : υ) : List (κ × υ) → List (κ × υ)
  | [] => [(k, v)]
  | entry :: entries =>
    if k < entry.1 then (k, v) :: entry :: entries
    else if k = entry.1 then (k, v) :: entries
    else entry :: insertEntry k v entries

variable {k : κ} {v : υ} {entries : List (κ × υ)} {entry : κ × υ}

theorem lookup_eq_none (h : ∀ entry ∈ entries, entry.1 ≠ k) : lookup k entries = none := by
  induction entries with
  | nil => rfl
  | cons first entries ih =>
    rw [lookup, if_neg (h first List.mem_cons_self)]
    exact ih fun entry hentry => h entry (List.mem_cons_of_mem _ hentry)

theorem lookup_of_mem (hsorted : entries.Pairwise fun a b => a.1 < b.1) (h : entry ∈ entries) :
    lookup entry.1 entries = some entry.2 := by
  induction entries with
  | nil => exact absurd h List.not_mem_nil
  | cons first entries ih =>
    obtain ⟨hfirst, hrest⟩ := List.pairwise_cons.mp hsorted
    rw [lookup]
    rcases List.mem_cons.mp h with rfl | h
    · rw [if_pos rfl]
    · rw [if_neg (ne_of_lt (hfirst entry h))]
      exact ih hrest h

theorem mem_insertEntry (h : entry ∈ insertEntry k v entries) :
    entry = (k, v) ∨ entry ∈ entries := by
  induction entries with
  | nil => exact Or.inl (List.mem_singleton.mp h)
  | cons first entries ih =>
    rw [insertEntry] at h
    split_ifs at h
    · exact List.mem_cons.mp h
    · exact (List.mem_cons.mp h).imp_right (List.mem_cons_of_mem _)
    · rcases List.mem_cons.mp h with rfl | h
      · exact Or.inr List.mem_cons_self
      · exact (ih h).imp_right (List.mem_cons_of_mem _)

theorem sorted_insertEntry (k : κ) (v : υ) (h : entries.Pairwise fun a b => a.1 < b.1) :
    (insertEntry k v entries).Pairwise fun a b => a.1 < b.1 := by
  induction entries with
  | nil => exact List.pairwise_singleton _ _
  | cons first entries ih =>
    obtain ⟨hfirst, hentries⟩ := List.pairwise_cons.mp h
    rw [insertEntry]
    split_ifs with hlt heq
    · refine List.pairwise_cons.mpr ⟨fun entry hentry => ?_, h⟩
      rcases List.mem_cons.mp hentry with rfl | hentry
      · exact hlt
      · exact lt_trans hlt (hfirst entry hentry)
    · exact List.pairwise_cons.mpr ⟨fun entry hentry => heq ▸ hfirst entry hentry, hentries⟩
    · refine List.pairwise_cons.mpr ⟨fun entry hentry => ?_, ih hentries⟩
      rcases mem_insertEntry hentry with rfl | hentry
      · exact lt_of_le_of_ne (not_lt.mp hlt) (Ne.symm heq)
      · exact hfirst entry hentry

/-- A new key is one entry more. -/
theorem insertEntry_perm (h : k ∉ entries.map Prod.fst) :
    (insertEntry k v entries).Perm ((k, v) :: entries) := by
  induction entries with
  | nil => exact List.Perm.refl _
  | cons first entries ih =>
    rw [List.map_cons, List.mem_cons, not_or] at h
    rw [insertEntry]
    split_ifs with hlt heq
    · exact List.Perm.refl _
    · exact absurd heq h.1
    · exact ((ih h.2).cons first).trans (List.Perm.swap _ _ _)

theorem lookup_insertEntry (j : κ) :
    lookup j (insertEntry k v entries) = if j = k then some v else lookup j entries := by
  induction entries with
  | nil => simp only [insertEntry, lookup, eq_comm]
  | cons first entries ih =>
    by_cases hlt : k < first.1
    · rw [insertEntry, if_pos hlt, lookup]
      simp only [eq_comm]
    · by_cases heq : k = first.1
      · rw [insertEntry, if_neg hlt, if_pos heq, lookup, lookup, ← heq]
        by_cases hj : j = k
        · rw [if_pos hj, if_pos hj.symm]
        · rw [if_neg hj, if_neg (Ne.symm hj), if_neg (Ne.symm hj)]
      · rw [insertEntry, if_neg hlt, if_neg heq, lookup, lookup, ih]
        by_cases hj : j = k
        · rw [if_pos hj, if_pos hj, if_neg (hj ▸ Ne.symm heq)]
        · rw [if_neg hj, if_neg hj]

theorem lookup_filter (p : κ → υ → Bool) (hsorted : entries.Pairwise fun a b => a.1 < b.1) :
    lookup k (entries.filter fun entry => p entry.1 entry.2) = (lookup k entries).filter (p k) := by
  induction entries with
  | nil => rfl
  | cons first entries ih =>
    obtain ⟨hfirst, hrest⟩ := List.pairwise_cons.mp hsorted
    rw [List.filter_cons, lookup]
    by_cases hkey : first.1 = k
    · have hnone : lookup k (entries.filter fun entry => p entry.1 entry.2) = none :=
        lookup_eq_none fun entry hentry =>
          hkey ▸ Ne.symm (ne_of_lt (hfirst entry (List.mem_of_mem_filter hentry)))
      rw [if_pos hkey, Option.filter_some, ← hkey]
      split_ifs
      · rw [lookup, if_pos rfl]
      · rw [hkey, hnone]
    · rw [if_neg hkey, ← ih hrest]
      split_ifs
      · rw [lookup, if_neg hkey]
      · rfl

/-! ### The store -/

variable (store : OrderedStore κ υ)

/-- The store without records. -/
def empty : OrderedStore κ υ := ⟨[], List.Pairwise.nil⟩

/-- The record of a key. -/
def get (k : κ) : Option υ := lookup k store.entries

/-- The store with the record of a key set. -/
def insert (k : κ) (v : υ) : OrderedStore κ υ :=
  ⟨insertEntry k v store.entries, sorted_insertEntry k v store.sorted⟩

/-- The records that satisfy a predicate. -/
def retain (p : κ → υ → Bool) : OrderedStore κ υ :=
  ⟨store.entries.filter fun entry => p entry.1 entry.2, store.sorted.filter _⟩

/-- The next entries above a key, or the first of all. -/
def scan (size : ℕ) (last : Option κ) : List (κ × υ) :=
  (store.entries.filter fun entry => last.all fun k => k < entry.1).take size

theorem get_insert (k : κ) (v : υ) (j : κ) :
    (store.insert k v).get j = if j = k then some v else store.get j :=
  lookup_insertEntry j

theorem get_retain (p : κ → υ → Bool) (k : κ) :
    (store.retain p).get k = (store.get k).filter (p k) :=
  lookup_filter p store.sorted

variable {store}

theorem mem_entries_iff {entry : κ × υ} :
    entry ∈ store.entries ↔ store.get entry.1 = some entry.2 := by
  refine ⟨lookup_of_mem store.sorted, fun h => ?_⟩
  -- a record that is found is that of an entry
  have hfound : ∀ entries : List (κ × υ), lookup entry.1 entries = some entry.2 →
      entry ∈ entries := by
    intro entries
    induction entries with
    | nil => exact fun h => absurd h (by simp [lookup])
    | cons first entries ih =>
      intro h
      rw [lookup] at h
      split_ifs at h with hkey
      · exact List.mem_cons.mpr (Or.inl (Prod.ext hkey.symm (Option.some.inj h).symm))
      · exact List.mem_cons_of_mem _ (ih h)
  exact hfound store.entries h

/-- A scan reads what is stored. -/
theorem get_of_mem_scan {size : ℕ} {last : Option κ} {entry : κ × υ}
    (h : entry ∈ store.scan size last) : store.get entry.1 = some entry.2 :=
  lookup_of_mem store.sorted (List.mem_of_mem_filter (List.mem_of_mem_take h))

end OrderedStore
