import HelixSync.Lib.OrderedStore
import Mathlib.Data.List.Nodup
import Mathlib.Tactic.Common

/-!
# Walks over a store that changes

A cursor stands on a row of a store that is read in key order, and goes on to later rows
(`Cursor`). A walk that may hold no cursor for long reads a chunk at a time, each chunk in a
transaction of its own, and remembers the key of the last row it has read (`ScanWalk`). Between
two chunks the store may change in any way.

* `ScanWalk.after_ascending` – the rows are visited in the order of their keys, so none twice;
* `ScanWalk.mem_visited_after` – a row that every transaction finds in the store is visited by the
  time the walk is exhausted;
* `ScanWalk.exists_exhausted` – the walk comes to its end once the store no longer changes.
-/

/-! ### Cursors -/

/-- A cursor on a row, with the rows behind it. -/
structure Cursor (κ υ : Type) where
  row : κ × υ
  following : List (κ × υ)

namespace Cursor

variable {κ υ : Type}

/-- The key a cursor was sent to is not behind its position. -/
inductive DataError where
  | notAfterPosition
  deriving DecidableEq

/-- A cursor on the first of some rows, none if there are none. -/
def on : List (κ × υ) → Option (Cursor κ υ)
  | [] => none
  | row :: following => some ⟨row, following⟩

variable (c : Cursor κ υ)

def primaryKey : κ := c.row.1

/-- The cursor on the next row. -/
def advance : Option (Cursor κ υ) := on c.following

/-- The cursor on the first row at or after a key, which has to lie behind the current row. -/
def continuePrimaryKey [LinearOrder κ] (key : κ) : Except DataError (Option (Cursor κ υ)) :=
  if key ≤ c.primaryKey then .error .notAfterPosition
  else .ok (on (c.following.dropWhile fun row => row.1 < key))

end Cursor

/-- The cursor on the first row of a store. -/
def OrderedStore.openCursor {κ υ : Type} [LinearOrder κ] (store : OrderedStore κ υ) :
    Option (Cursor κ υ) :=
  Cursor.on store.entries

/-! ### Walks -/

/-- A walk between two of its transactions: the rows it has visited, the key to go on behind, and
whether the last chunk was a short one. -/
structure ScanWalk (κ υ : Type) where
  visited : List (κ × υ)
  last : Option κ
  exhausted : Bool

namespace ScanWalk

variable {κ υ : Type} [LinearOrder κ]

/-- A walk that has not begun. -/
def start : ScanWalk κ υ := ⟨[], none, false⟩

/-- The key of the last row of a chunk, if there is one. -/
def lastOf (last : Option κ) (chunk : List (κ × υ)) : Option κ :=
  (chunk.getLast?.map Prod.fst).or last

/-- The walk after one more transaction. -/
def next (size : ℕ) (w : ScanWalk κ υ) (store : OrderedStore κ υ) : ScanWalk κ υ :=
  if w.exhausted then w
  else
    let chunk := store.scan size w.last
    ⟨w.visited ++ chunk, lastOf w.last chunk, decide (chunk.length < size)⟩

/-- The walk after `n` transactions, the `i`-th of which sees the `i`-th store. -/
def after (size : ℕ) (stores : ℕ → OrderedStore κ υ) : ℕ → ScanWalk κ υ
  | 0 => start
  | n + 1 => (after size stores n).next size (stores n)

/-- A key that is still ahead. -/
def Ahead (last : Option κ) (k : κ) : Prop := ∀ j ∈ last, j < k

variable {last : Option κ} {size : ℕ} {store : OrderedStore κ υ} {w : ScanWalk κ υ}

theorem all_lt_iff_ahead {k : κ} : (last.all fun j => decide (j < k)) = true ↔ Ahead last k := by
  cases last <;> simp [Ahead]

/-! ### One chunk -/

/-- A chunk has rows of the store that are ahead. -/
theorem ahead_of_mem_scan {entry : κ × υ} (h : entry ∈ store.scan size last) :
    Ahead last entry.1 :=
  all_lt_iff_ahead.mp (List.mem_filter.mp (List.mem_of_mem_take h)).2

theorem sorted_scan (size : ℕ) (last : Option κ) (store : OrderedStore κ υ) :
    (store.scan size last).Pairwise fun a b => a.1 < b.1 :=
  (store.sorted.filter _).sublist (List.take_sublist _ _)

/-- A row ahead that a chunk does not reach comes behind a full chunk. -/
theorem scan_of_not_mem {entry : κ × υ} (hentry : entry ∈ store.entries)
    (hahead : Ahead last entry.1) (h : entry ∉ store.scan size last) :
    (store.scan size last).length = size ∧ ∀ row ∈ store.scan size last, row.1 < entry.1 := by
  have hmem : entry ∈ store.entries.filter fun row => last.all fun j => decide (j < row.1) :=
    List.mem_filter.mpr ⟨hentry, all_lt_iff_ahead.mpr hahead⟩
  have hsorted := store.sorted.filter fun row => last.all fun j => decide (j < row.1)
  rw [← List.take_append_drop size (store.entries.filter _)] at hmem hsorted
  have hdrop := (List.mem_append.mp hmem).resolve_left h
  constructor
  · refine List.length_take_of_le (le_of_lt ?_)
    have hpos := List.length_pos_of_mem hdrop
    rw [List.length_drop] at hpos
    omega
  · exact fun row hrow => (List.pairwise_append.mp hsorted).2.2 row hrow entry hdrop

/-- Behind the last row of a chunk is behind all of them. -/
theorem lt_of_ahead_lastOf {chunk : List (κ × υ)} (hsorted : chunk.Pairwise fun a b => a.1 < b.1)
    {row : κ × υ} (hrow : row ∈ chunk) {k : κ} (h : Ahead (lastOf last chunk) k) : row.1 < k := by
  obtain ⟨front, final, rfl⟩ : ∃ front final, chunk = front ++ [final] :=
    ⟨chunk.dropLast, chunk.getLast (List.ne_nil_of_mem hrow), (List.dropLast_append_getLast _).symm⟩
  have hfinal : final.1 < k := h _ (by simp [lastOf])
  rcases List.mem_append.mp hrow with hfront | hlast
  · exact lt_trans ((List.pairwise_append.mp hsorted).2.2 row hfront final (by simp)) hfinal
  · rwa [List.mem_singleton.mp hlast]

/-- The walk only goes on. -/
theorem ahead_of_ahead_lastOf {k : κ} (h : Ahead (lastOf last (store.scan size last)) k) :
    Ahead last k := by
  rcases heq : store.scan size last with _ | ⟨row, rest⟩
  · rwa [heq] at h
  · have hrow : row ∈ store.scan size last := heq ▸ List.mem_cons_self
    have hlt : row.1 < k := lt_of_ahead_lastOf (sorted_scan size last store) hrow h
    exact fun j hj => lt_trans (ahead_of_mem_scan hrow j hj) hlt

/-- What is ahead of every row of a chunk, and was ahead before, is still ahead. -/
theorem ahead_lastOf {chunk : List (κ × υ)} {k : κ} (hahead : Ahead last k)
    (h : ∀ row ∈ chunk, row.1 < k) : Ahead (lastOf last chunk) k := by
  intro j hj
  rw [lastOf, Option.mem_def, Option.or_eq_some_iff] at hj
  rcases hj with hj | ⟨-, hj⟩
  · obtain ⟨row, hrow, rfl⟩ := Option.map_eq_some_iff.mp hj
    exact h row (List.mem_of_getLast? hrow)
  · exact hahead j hj

/-! ### Runs -/

/-- The rows are in ascending order, and what is ahead lies behind all of them. -/
structure Ascending (w : ScanWalk κ υ) : Prop where
  sorted : w.visited.Pairwise fun a b => a.1 < b.1
  lt_of_ahead : ∀ row ∈ w.visited, ∀ k, Ahead w.last k → row.1 < k

theorem ascending_start : (start : ScanWalk κ υ).Ascending where
  sorted := List.Pairwise.nil
  lt_of_ahead := fun _ hrow => absurd hrow List.not_mem_nil

theorem Ascending.next (h : w.Ascending) (size : ℕ) (store : OrderedStore κ υ) :
    (w.next size store).Ascending := by
  rw [ScanWalk.next]
  split_ifs
  · exact h
  · constructor
    · refine List.pairwise_append.mpr ⟨h.sorted, sorted_scan size w.last store, ?_⟩
      exact fun row hrow row' hrow' => h.lt_of_ahead row hrow row'.1 (ahead_of_mem_scan hrow')
    · intro row hrow k hahead
      rcases List.mem_append.mp hrow with hold | hnew
      · exact h.lt_of_ahead row hold k (ahead_of_ahead_lastOf hahead)
      · exact lt_of_ahead_lastOf (sorted_scan size w.last store) hnew hahead

/-- **The rows are visited in ascending order.** -/
theorem after_ascending (size : ℕ) (stores : ℕ → OrderedStore κ υ) (n : ℕ) :
    (after size stores n).Ascending := by
  induction n with
  | zero => exact ascending_start
  | succ n ih => exact ih.next size (stores n)

/-- What is visited was in the store of a transaction. -/
theorem get_of_mem_visited {stores : ℕ → OrderedStore κ υ} {n : ℕ} {row : κ × υ}
    (h : row ∈ (after size stores n).visited) : ∃ i < n, (stores i).get row.1 = some row.2 := by
  induction n with
  | zero => exact absurd h List.not_mem_nil
  | succ n ih =>
    have hearlier : row ∈ (after size stores n).visited →
        ∃ i < n + 1, (stores i).get row.1 = some row.2 := fun hold => by
      obtain ⟨i, hi, hget⟩ := ih hold
      exact ⟨i, Nat.lt_succ_of_lt hi, hget⟩
    rw [after, ScanWalk.next] at h
    split_ifs at h
    · exact hearlier h
    · rcases List.mem_append.mp h with hold | hnew
      · exact hearlier hold
      · exact ⟨n, Nat.lt_succ_self n, OrderedStore.get_of_mem_scan hnew⟩

/-- A row that every transaction has found is visited, or the walk has yet to come to it. -/
theorem mem_visited_or_ahead {stores : ℕ → OrderedStore κ υ} {n : ℕ} {k : κ}
    (h : ∀ i < n, ∃ v, (stores i).get k = some v) :
    k ∈ (after size stores n).visited.map Prod.fst ∨
      (after size stores n).exhausted = false ∧ Ahead (after size stores n).last k := by
  induction n with
  | zero => exact Or.inr ⟨rfl, fun j hj => absurd hj (by simp [after, start])⟩
  | succ n ih =>
    have hbefore := ih fun i hi => h i (Nat.lt_succ_of_lt hi)
    obtain ⟨v, hget⟩ := h n (Nat.lt_succ_self n)
    rw [after, ScanWalk.next]
    split_ifs with hexhausted
    · exact hbefore
    · rw [List.map_append, List.mem_append]
      rcases hbefore with hvisited | ⟨-, hahead⟩
      · exact Or.inl (Or.inl hvisited)
      · by_cases hmem : (k, v) ∈ (stores n).scan size (after size stores n).last
        · exact Or.inl (Or.inr (List.mem_map_of_mem hmem))
        · -- the chunk is full and ends before the row
          obtain ⟨hfull, hless⟩ :=
            scan_of_not_mem (OrderedStore.mem_entries_iff.mpr hget) hahead hmem
          exact Or.inr ⟨decide_eq_false (by rw [hfull]; exact lt_irrefl _),
            ahead_lastOf hahead hless⟩

/-- **Nothing is missed**: a row that every transaction finds is visited when the walk ends. -/
theorem mem_visited_after {stores : ℕ → OrderedStore κ υ} {n : ℕ} {k : κ}
    (hexhausted : (after size stores n).exhausted = true)
    (h : ∀ i < n, ∃ v, (stores i).get k = some v) :
    k ∈ (after size stores n).visited.map Prod.fst := by
  rcases mem_visited_or_ahead h with hvisited | ⟨hnot, -⟩
  · exact hvisited
  · rw [hexhausted] at hnot
    exact absurd hnot (by decide)

/-- How many rows of a store are ahead. -/
def remaining (store : OrderedStore κ υ) (w : ScanWalk κ υ) : ℕ :=
  (store.entries.filter fun row => w.last.all fun j => decide (j < row.1)).length

/-- A full chunk leaves less to do. -/
theorem remaining_next_lt (hsize : 0 < size) (hbefore : w.exhausted = false)
    (h : (w.next size store).exhausted = false) :
    remaining store (w.next size store) < remaining store w := by
  have hnext : w.next size store = ⟨w.visited ++ store.scan size w.last,
      lastOf w.last (store.scan size w.last), decide ((store.scan size w.last).length < size)⟩ := by
    rw [ScanWalk.next, hbefore]
    rfl
  rw [hnext] at h ⊢
  obtain ⟨row, hrow⟩ : ∃ row, row ∈ store.scan size w.last :=
    List.exists_mem_of_length_pos (hsize.trans_le (not_lt.mp (of_decide_eq_false h)))
  have hahead : row ∈ store.entries.filter fun row => w.last.all fun j => decide (j < row.1) :=
    List.mem_of_mem_take hrow
  -- of the rows that were ahead, the ones of the chunk no longer are
  have hsub : (store.entries.filter fun row =>
        (lastOf w.last (store.scan size w.last)).all fun j => decide (j < row.1)) =
      (store.entries.filter fun row => w.last.all fun j => decide (j < row.1)).filter fun row =>
        (lastOf w.last (store.scan size w.last)).all fun j => decide (j < row.1) := by
    rw [List.filter_filter]
    refine List.filter_congr fun row _ => ?_
    rw [eq_comm, Bool.and_eq_left_iff_imp]
    exact fun hlater => all_lt_iff_ahead.mpr (ahead_of_ahead_lastOf (all_lt_iff_ahead.mp hlater))
  rw [remaining, remaining, hsub, List.length_filter_lt_length_iff_exists]
  refine ⟨row, hahead, fun hlater => lt_irrefl row.1 ?_⟩
  exact lt_of_ahead_lastOf (sorted_scan size w.last store) hrow (all_lt_iff_ahead.mp hlater)

/-- **The walk ends** once the store no longer changes. -/
theorem exists_exhausted (hsize : 0 < size) {stores : ℕ → OrderedStore κ υ} {start : ℕ}
    (h : ∀ n ≥ start, stores n = stores start) : ∃ n, (after size stores n).exhausted = true := by
  by_contra hnever
  have hrunning : ∀ n, (after size stores n).exhausted = false := fun n =>
    Bool.not_eq_true _ ▸ fun hexhausted => hnever ⟨n, hexhausted⟩
  -- each transaction from then on would lower what remains
  have hless : ∀ i, remaining (stores start) (after size stores (start + i)) + i ≤
      remaining (stores start) (after size stores start) := by
    intro i
    induction i with
    | zero => exact le_refl _
    | succ i ih =>
      have hafter : after size stores (start + (i + 1)) =
          (after size stores (start + i)).next size (stores start) := by
        rw [← h (start + i) (Nat.le_add_right _ _)]
        rfl
      have hstep : remaining (stores start)
            ((after size stores (start + i)).next size (stores start)) <
          remaining (stores start) (after size stores (start + i)) :=
        remaining_next_lt hsize (hrunning (start + i)) (hafter ▸ hrunning (start + (i + 1)))
      rw [hafter]
      omega
  have hbound := hless (remaining (stores start) (after size stores start) + 1)
  omega

end ScanWalk
