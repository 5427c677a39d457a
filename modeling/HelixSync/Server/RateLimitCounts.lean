import HelixSync.Server.RateLimit

/-!
# The bookkeeping of the rate limiter

Entries come and go on five paths: a call adds its key, a sweep and the emergency sweep of a
call drop what has been idle, and the two evictions of a call drop one entry each. The size
of every bucket is kept beside the map, so each path has to update both.

* `Partition.Counted`: the counts are the sizes of the buckets. Every operation keeps it
  (`Partition.Counted.remove`, `Partition.Counted.sweep`, `Partition.Counted.takeToken`);
* `Partition.Kept`: the same, and the map is within its capacity. The capacity check of a call
  lets a new key in only where there is room for it (`Partition.makesRoom`);
* `Partition.run_kept`: both hold after every run of calls and sweeps.

What the counts never do is go below zero (`Partition.Unsaturated`), although they are
decremented with a subtraction that would hide it.
-/

namespace HelixSync.Server.RateLimit

namespace Partition

variable {p : Partition} {c : Call}

/-- The counts are the numbers of entries stored under each bucket. -/
def Counted (p : Partition) : Prop := p.bucketCounts = p.windows.countOf Prod.fst

/-- No decrement meets a count that is too small: an entry that is stored is counted, and a sweep
takes from no bucket more than its count. -/
structure Unsaturated (p : Partition) : Prop where
  remove : ∀ k ∈ p.windows.keys, 0 < p.bucketCount k.1
  sweep : ∀ now bucket, p.expiredIn now bucket ≤ p.bucketCount bucket

/-! ### The counts -/

/-- What a sweep leaves of a bucket and what it removes make up the bucket. -/
theorem countOf_sweep_add_expiredIn (p : Partition) (now : ℚ) (bucket : String) :
    (p.sweep now).windows.countOf Prod.fst bucket + p.expiredIn now bucket =
      p.windows.countOf Prod.fst bucket := by
  have hdropped : (p.windows.keys.filter fun k =>
        k.1 = bucket ∧ (p.windows.get k).any (TokenBucket.expired now) = true) =
      p.windows.keys.filter fun k => k.1 = bucket ∧
        ¬((p.windows.get k).filter fun entry => !entry.expired now).isSome = true := by
    refine Finset.filter_congr fun k hk => ?_
    obtain ⟨entry, hentry⟩ := FinMap.mem_keys_iff_exists.mp hk
    cases hexpired : entry.expired now <;> simp [hentry, Option.filter_some, hexpired]
  have hparts := FinMap.countOf_retain_add (f := Prod.fst) (m := p.windows)
    (fun _ entry => !entry.expired now) bucket
  rw [← hdropped] at hparts
  exact hparts

theorem Counted.bucketCount_eq (h : p.Counted) (bucket : String) :
    p.bucketCount bucket = p.windows.countOf Prod.fst bucket :=
  congrFun h bucket

/-- Right counts are never decremented below zero. -/
theorem Counted.unsaturated (h : p.Counted) : p.Unsaturated where
  remove := fun k hk => h.bucketCount_eq k.1 ▸ FinMap.countOf_pos hk
  sweep := fun now bucket => by
    rw [h.bucketCount_eq, ← p.countOf_sweep_add_expiredIn now]
    exact Nat.le_add_left _ _

theorem counted_new (capacity : ℕ) : (new capacity).Counted := rfl

theorem Counted.sweep (h : p.Counted) (now : ℚ) : (p.sweep now).Counted := by
  funext bucket
  change p.bucketCount bucket - p.expiredIn now bucket = _
  rw [h.bucketCount_eq, ← p.countOf_sweep_add_expiredIn now, Nat.add_sub_cancel]

/-- Whether or not the key is there. -/
theorem Counted.remove (h : p.Counted) (k : MapKey) : (p.remove k).1.Counted := by
  rw [Partition.remove]
  cases hget : p.windows.get k with
  | none => exact h
  | some entry =>
    have hmem : k ∈ p.windows.keys := FinMap.mem_keys_iff_exists.mpr ⟨entry, hget⟩
    change Function.update p.bucketCounts k.1 (p.bucketCount k.1 - 1) = _
    rw [h.bucketCount_eq, show p.bucketCounts = _ from h]
    exact (FinMap.countOf_erase hmem).symm

/-- A new key is counted once, a key that is there not again. -/
theorem Counted.takeToken (h : p.Counted) (c : Call) : (p.takeToken c).1.Counted := by
  rw [Partition.takeToken]
  cases hget : p.windows.get c.mapKey with
  | none =>
    change Function.update p.bucketCounts c.bucket (p.bucketCount c.bucket + 1) = _
    rw [h.bucketCount_eq, show p.bucketCounts = _ from h]
    exact (FinMap.countOf_insert hget _).symm
  | some entry =>
    have hmem : c.mapKey ∈ p.windows.keys := FinMap.mem_keys_iff_exists.mpr ⟨entry, hget⟩
    refine Eq.trans (show p.bucketCounts = _ from h) ?_
    funext bucket
    exact congrArg (fun keys => (Finset.filter (fun k : MapKey => k.1 = bucket) keys).card)
      (FinMap.keys_insert_of_mem hmem _).symm

/-! ### Room for a new key -/

/-- The counts are right and the map is within its capacity. -/
structure Kept (capacity : ℕ) (p : Partition) : Prop where
  counted : p.Counted
  capacity_eq : p.capacity = capacity
  card_le : p.windows.keys.card ≤ capacity

variable {capacity : ℕ}

theorem kept_new (capacity : ℕ) : (new capacity).Kept capacity where
  counted := counted_new capacity
  capacity_eq := rfl
  card_le := Nat.zero_le _

theorem Kept.sweep (h : p.Kept capacity) (now : ℚ) : (p.sweep now).Kept capacity where
  counted := h.counted.sweep now
  capacity_eq := h.capacity_eq
  card_le := (Finset.card_filter_le _ _).trans h.card_le

theorem Kept.maybeEmergencySweep (h : p.Kept capacity) (now : ℚ) :
    (p.maybeEmergencySweep now).Kept capacity := by
  rw [Partition.maybeEmergencySweep]
  split_ifs
  · exact h
  · exact Kept.sweep (p := { p with lastEmergencySweep := now })
      ⟨h.counted, h.capacity_eq, h.card_le⟩ now

/-- The outcome of an operation that is to free a slot: if it says so, there is one. -/
structure Frees (capacity : ℕ) (outcome : Partition × Bool) : Prop where
  kept : outcome.1.Kept capacity
  room : outcome.2 = true → outcome.1.windows.keys.card < capacity

/-- Nothing was found to evict. -/
theorem Kept.frees_not (h : p.Kept capacity) : Frees capacity (p, false) where
  kept := h
  room := by simp

theorem Kept.scanFailed (h : p.Kept capacity) (now : ℚ) : (p.scanFailed now).Kept capacity :=
  ⟨h.counted, h.capacity_eq, h.card_le⟩

theorem Kept.remove (h : p.Kept capacity) (k : MapKey) : Frees capacity (p.remove k) := by
  have hcounted := h.counted.remove k
  rw [Partition.remove] at hcounted ⊢
  cases hget : p.windows.get k with
  | none => exact h.frees_not
  | some entry =>
    rw [hget] at hcounted
    -- the map was not empty, so it is now smaller than the capacity
    have hmem : k ∈ p.windows.keys := FinMap.mem_keys_iff_exists.mpr ⟨entry, hget⟩
    have hless : (p.windows.erase k).keys.card < capacity :=
      (Finset.card_erase_lt_of_mem hmem).trans_le h.card_le
    constructor
    · exact ⟨hcounted, h.capacity_eq, hless.le⟩
    · exact fun _ => hless

theorem Kept.evictOneEntry (h : p.Kept capacity) (now : ℚ) (order : List MapKey)
    (exemptBucket : String) : Frees capacity (p.evictOneEntry now order exemptBucket) := by
  rw [Partition.evictOneEntry]
  split_ifs
  · exact h.frees_not
  · dsimp only
    split
    · exact (h.scanFailed now).frees_not
    · exact h.remove _

theorem Kept.evictLruInBucket (h : p.Kept capacity) (now : ℚ) (order : List MapKey)
    (bucket : String) : Frees capacity (p.evictLruInBucket now order bucket) := by
  rw [Partition.evictLruInBucket]
  split_ifs
  · exact h.frees_not
  · split
    · exact (h.scanFailed now).frees_not
    · exact h.remove _

/-- A call for a key that is there makes no room: nothing is swept and nothing evicted. -/
theorem makeRoom_of_mem (h : c.mapKey ∈ p.windows.keys) : p.makeRoom c = (p, true) := by
  refine if_neg ?_
  rintro ⟨hnone, -⟩
  exact FinMap.get_eq_none_iff.mp (Option.isNone_iff_eq_none.mp hnone) h

/-- **The capacity check**: a call for a new key goes on only where there is room. -/
theorem makesRoom (h : p.Kept capacity) (c : Call) (hnew : c.mapKey ∉ p.windows.keys) :
    Frees capacity (p.makeRoom c) := by
  have hnone : (p.windows.get c.mapKey).isNone = true := by
    rw [Option.isNone_iff_eq_none, FinMap.get_eq_none_iff]
    exact hnew
  rw [makeRoom, h.capacity_eq]
  split_ifs with hfull hshare
  · have hswept := h.maybeEmergencySweep c.now
    dsimp only
    split_ifs
    · exact hswept.evictLruInBucket c.now c.order c.bucket
    · exact ⟨hswept, fun hroom => hswept.capacity_eq ▸ of_decide_eq_true hroom⟩
  · have hevicted := h.evictOneEntry c.now c.order c.bucket
    refine ⟨hevicted.kept, fun hok => ?_⟩
    rcases (Bool.or_eq_true _ _).mp hok with hfreed | hroom
    · exact hevicted.room hfreed
    · exact hevicted.kept.capacity_eq ▸ of_decide_eq_true hroom
  · exact ⟨h, fun _ => not_le.mp fun hle => hfull ⟨hnone, hle⟩⟩

/-! ### Runs -/

theorem card_keys_takeToken_le (p : Partition) (c : Call) :
    (p.takeToken c).1.windows.keys.card ≤ p.windows.keys.card + 1 :=
  Finset.card_insert_le _ _

theorem keys_takeToken_of_mem (h : c.mapKey ∈ p.windows.keys) :
    (p.takeToken c).1.windows.keys = p.windows.keys :=
  FinMap.keys_insert_of_mem h _

@[simp] theorem capacity_takeToken (p : Partition) (c : Call) :
    (p.takeToken c).1.capacity = p.capacity := by
  rw [takeToken]
  cases (p.windows.get c.mapKey).isNone <;> rfl

/-- A call for a key that is there changes the entry of that key and nothing else. -/
theorem checkWithRetryAfter_of_mem (h : c.mapKey ∈ p.windows.keys) :
    p.checkWithRetryAfter c = p.takeToken c := by
  rw [checkWithRetryAfter_eq, makeRoom_of_mem h, if_pos rfl]

/-- **One step** keeps the books. -/
theorem step_kept (h : p.Kept capacity) (e : Event) : (p.step e).Kept capacity := by
  cases e with
  | sweep now => exact h.sweep now
  | call c =>
    by_cases hmem : c.mapKey ∈ p.windows.keys
    · rw [step, checkWithRetryAfter_of_mem hmem]
      exact ⟨h.counted.takeToken c, (capacity_takeToken p c).trans h.capacity_eq,
        (keys_takeToken_of_mem hmem).symm ▸ h.card_le⟩
    · have hmade := makesRoom h c hmem
      rw [step, checkWithRetryAfter_eq]
      split_ifs with hok
      · exact ⟨hmade.kept.counted.takeToken c,
          (capacity_takeToken _ c).trans hmade.kept.capacity_eq,
          (card_keys_takeToken_le _ c).trans (hmade.room hok)⟩
      · exact hmade.kept

/-- **Every run** keeps the books. -/
theorem run_kept (capacity : ℕ) (es : List Event) :
    (Runs.run step (new capacity) es).Kept capacity :=
  Runs.invariant (I := Kept capacity) (fun _ e h => step_kept h e) (kept_new capacity) es

/-- **The bookkeeping of the limiter.** After every run the map is within its capacity and every
bucket is counted exactly; no decrement saturates, neither one by a sweep nor one by an eviction,
be it before or after an emergency sweep; and a call for a key that is there evicts nothing. -/
theorem bookkeeping (capacity : ℕ) (es : List Event) :
    let p := Runs.run step (new capacity) es
    p.windows.keys.card ≤ capacity ∧
    (∀ bucket, p.bucketCount bucket = (p.windows.keys.filter fun k => k.1 = bucket).card) ∧
    (p.Unsaturated ∧ ∀ now, (p.maybeEmergencySweep now).Unsaturated) ∧
    ∀ c : Call, c.mapKey ∈ p.windows.keys →
      (p.step (.call c)).windows.keys = p.windows.keys ∧
      (∀ k ≠ c.mapKey, (p.step (.call c)).windows.get k = p.windows.get k) ∧
      (p.step (.call c)).bucketCounts = p.bucketCounts := by
  intro p
  have h : p.Kept capacity := run_kept capacity es
  refine ⟨h.card_le, h.counted.bucketCount_eq, ⟨h.counted.unsaturated, fun now =>
    (h.maybeEmergencySweep now).counted.unsaturated⟩, fun c hmem => ?_⟩
  have hkeys : (p.step (.call c)).windows.keys = p.windows.keys := by
    rw [step, checkWithRetryAfter_of_mem hmem, keys_takeToken_of_mem hmem]
  refine ⟨hkeys, fun k hk => ?_, ?_⟩
  · rw [step, checkWithRetryAfter_of_mem hmem]
    exact get_takeToken_of_ne hk.symm
  · -- the counts after the call are those of the same keys
    funext bucket
    rw [show (p.step (.call c)).bucketCounts = _ from (step_kept h (.call c)).counted,
      show p.bucketCounts = _ from h.counted, FinMap.countOf, FinMap.countOf, hkeys]

/-- A full map answers the key it holds and keeps it. -/
theorem bookkeeping_login :
    (Runs.run step (new 1) [loginAt 0]).windows.keys.card ≤ 1 ∧
    (Runs.run step (new 1) [loginAt 0, loginAt 10]).windows.keys =
      (Runs.run step (new 1) [loginAt 0]).windows.keys :=
  ⟨(bookkeeping 1 [loginAt 0]).1,
    ((bookkeeping 1 [loginAt 0]).2.2.2 ⟨"login", "203.0.113.7", 1, 60, 10, []⟩
      (by decide +kernel)).1⟩

end Partition

end HelixSync.Server.RateLimit
