import HelixSync.Lib.FinMap
import HelixSync.Lib.RefillingBucket
import HelixSync.Lib.Runs
import Mathlib.Algebra.Order.Field.Rat

/-!
# The rate limiter

One partition of the in-memory rate limiter: a map from (bucket, key) to a token bucket,
the number of entries of each bucket, and the clocks that keep the scans for room apart.
Times are seconds since the limiter was created and are exact, where the code counts in
floating point.

A key that is not in the map stands for a full bucket, which is why an entry that has
been idle for a whole window may be dropped. `TokenBucket.Tracks` says it: at every later
time the entry, or its absence, gives as many tokens as a bucket that is never dropped
(`Bucket`). The answers to one key are the answers of that bucket
(`Partition.answersOf_eq`), whatever the other keys do and whenever a sweep runs.
-/

namespace HelixSync.Server.RateLimit

/-- Token-bucket state for one (bucket, key). -/
structure TokenBucket where
  lastRefill : ℚ
  tokens : ℚ
  /-- Stored so that a sweep can use it. -/
  window : ℚ
  deriving DecidableEq

/-- The key of an entry: the bucket, and the IP, device id or token within it. -/
abbrev MapKey := String × String

structure Partition where
  windows : FinMap MapKey TokenBucket
  /-- Entries per bucket. A bucket that was never counted counts zero. -/
  bucketCounts : String → ℕ
  /-- The most entries `windows` may hold. -/
  capacity : ℕ
  lastEmergencySweep : ℚ
  /-- When the last eviction scan found nothing; `none` if none did yet. -/
  lastFailedEvictionScan : Option ℚ

def maxUntrustedEntries : ℕ := 25000

/-- The most entries one bucket may hold when the partition is full. -/
def maxEntriesPerBucket : ℕ := 5000

def emergencySweepCooldown : ℚ := 1

/-- The most entries one eviction scan looks at. -/
def evictionScanCap : ℕ := 64

def evictionScanCooldown : ℚ := 1 / 5

/-- The time between two instants, zero if they are the other way round. -/
def durationSince (now earlier : ℚ) : ℚ := max 0 (now - earlier)

/-- An entry that has been idle for a full window. -/
def TokenBucket.expired (now : ℚ) (entry : TokenBucket) : Bool :=
  decide (entry.window ≤ durationSince now entry.lastRefill)

/-- A call of `check_with_retry_after`. `order` is the order in which an iteration over the
map yields its entries. -/
structure Call where
  bucket : String
  key : String
  limit : ℕ
  window : ℚ
  now : ℚ
  order : List MapKey

def Call.mapKey (c : Call) : MapKey := (c.bucket, c.key)

namespace Partition

/-- `Partition::new`. -/
def new (capacity : ℕ) : Partition where
  windows := .empty
  bucketCounts := fun _ => 0
  capacity := capacity
  lastEmergencySweep := 0
  lastFailedEvictionScan := none

variable (p : Partition)

def bucketCount (bucket : String) : ℕ := p.bucketCounts bucket

def incrementBucketCount (bucket : String) : Partition :=
  { p with bucketCounts := Function.update p.bucketCounts bucket (p.bucketCount bucket + 1) }

/-- The count goes down by one and stays at zero once it is there. -/
def decrementBucketCount (bucket : String) : Partition :=
  { p with bucketCounts := Function.update p.bucketCounts bucket (p.bucketCount bucket - 1) }

def evictionScanOnCooldown (now : ℚ) : Bool :=
  match p.lastFailedEvictionScan with
  | none => false
  | some last => decide (durationSince now last < evictionScanCooldown)

/-- Removes a key if it is still there, and says whether a slot was freed. -/
def remove (k : MapKey) : Partition × Bool :=
  match p.windows.get k with
  | some _ => ({ p with windows := p.windows.erase k }.decrementBucketCount k.1, true)
  | none => (p, false)

/-- How many entries of a bucket a sweep removes. -/
def expiredIn (now : ℚ) (bucket : String) : ℕ :=
  (p.windows.keys.filter fun k =>
    k.1 = bucket ∧ (p.windows.get k).any (TokenBucket.expired now) = true).card

/-- Removes the entries that have been idle for a full window. The count of a bucket goes
down once for each of its entries. -/
def sweep (now : ℚ) : Partition :=
  { p with
    windows := p.windows.retain fun _ entry => !entry.expired now
    bucketCounts := fun bucket => p.bucketCount bucket - p.expiredIn now bucket }

/-- The entries a scan looks at: the first ones of the iteration. -/
def scanned (order : List MapKey) : List (MapKey × TokenBucket) :=
  (order.filterMap fun k => (p.windows.get k).map (k, ·)).take evictionScanCap

/-- The scan found nothing, so that the next ones are skipped for a while. -/
def scanFailed (now : ℚ) : Partition := { p with lastFailedEvictionScan := some now }

/-- Frees one slot by removing an expired entry, or else an entry of a bucket over its share. -/
def evictOneEntry (now : ℚ) (order : List MapKey) (exemptBucket : String) : Partition × Bool :=
  if p.evictionScanOnCooldown now then
    (p, false)
  else
    let expired := (p.scanned order).find? fun entry => entry.2.expired now
    let monopolizer := (p.scanned order).find? fun entry =>
      entry.1.1 != exemptBucket && decide (maxEntriesPerBucket ≤ p.bucketCount entry.1.1)
    match expired.or monopolizer with
    | none => (p.scanFailed now, false)
    | some entry => p.remove entry.1

/-- The entry refilled longest ago among the scanned ones of a bucket; the first of several. -/
def oldestIn (bucket : String) (entries : List (MapKey × TokenBucket)) : Option (MapKey × ℚ) :=
  entries.foldl
    (fun oldest entry =>
      if entry.1.1 = bucket ∧ oldest.all (fun o => decide (entry.2.lastRefill < o.2)) = true then
        some (entry.1, entry.2.lastRefill)
      else
        oldest)
    none

/-- Frees one slot by removing the oldest entry of the caller's own bucket. -/
def evictLruInBucket (now : ℚ) (order : List MapKey) (bucket : String) : Partition × Bool :=
  if p.evictionScanOnCooldown now then
    (p, false)
  else
    match oldestIn bucket (p.scanned order) with
    | none => (p.scanFailed now, false)
    | some oldest => p.remove oldest.1

/-- A sweep, unless there was an emergency sweep a moment ago. -/
def maybeEmergencySweep (now : ℚ) : Partition :=
  if durationSince now p.lastEmergencySweep < emergencySweepCooldown then
    p
  else
    { p with lastEmergencySweep := now }.sweep now

/-- The capacity check of a call, and whether the call may go on. -/
def makeRoom (c : Call) : Partition × Bool :=
  if (p.windows.get c.mapKey).isNone = true ∧ p.capacity ≤ p.windows.keys.card then
    if maxEntriesPerBucket ≤ p.bucketCount c.bucket then
      let swept := p.maybeEmergencySweep c.now
      if maxEntriesPerBucket ≤ swept.bucketCount c.bucket then
        -- still over its share: the bucket's own oldest entry goes
        swept.evictLruInBucket c.now c.order c.bucket
      else
        (swept, decide (swept.windows.keys.card < swept.capacity))
    else
      let evicted := p.evictOneEntry c.now c.order c.bucket
      (evicted.1, evicted.2 || decide (evicted.1.windows.keys.card < evicted.1.capacity))
  else
    (p, true)

end Partition

/-- The refill of an entry by a call, before a token is taken. -/
def TokenBucket.refill (entry : TokenBucket) (rate : ℚ) (c : Call) : TokenBucket where
  lastRefill := c.now
  tokens := min (entry.tokens + durationSince c.now entry.lastRefill * rate) c.limit
  window := c.window

/-- A token is taken if there is one; else the answer is the time until there will be. -/
def TokenBucket.take (entry : TokenBucket) (rate : ℚ) : TokenBucket × Except ℚ Unit :=
  if 1 ≤ entry.tokens then
    ({ entry with tokens := entry.tokens - 1 }, .ok ())
  else
    (entry, .error ((1 - entry.tokens) / rate))

namespace Partition

variable (p : Partition)

/-- The part of a call after the capacity check: a new key starts with a full bucket. -/
def takeToken (c : Call) : Partition × Except ℚ Unit :=
  let entry := (p.windows.get c.mapKey).getD ⟨c.now, c.limit, c.window⟩
  let counted :=
    if (p.windows.get c.mapKey).isNone = true then p.incrementBucketCount c.bucket else p
  let rate := c.limit / c.window
  let taken := (entry.refill rate c).take rate
  ({ counted with windows := p.windows.insert c.mapKey taken.1 }, taken.2)

/-- `check_with_retry_after`: the partition after the call and its answer. -/
def checkWithRetryAfter (c : Call) : Partition × Except ℚ Unit :=
  match p.makeRoom c with
  | (p', false) => (p', .error c.window)
  | (p', true) => p'.takeToken c

end Partition

/-- What happens to a partition: calls, and passes of the periodic sweep. -/
inductive Event where
  | call (c : Call)
  | sweep (now : ℚ)

namespace Event

def now : Event → ℚ
  | call c => c.now
  | sweep t => t

def isCall : Event → Bool
  | call _ => true
  | sweep _ => false

/-- A call for one key. -/
def isOf (k : MapKey) : Event → Bool
  | call c => decide (c.mapKey = k)
  | sweep _ => false

end Event

namespace Partition

/-- One event of a run. -/
def step (p : Partition) : Event → Partition
  | .call c => (p.checkWithRetryAfter c).1
  | .sweep now => p.sweep now

/-- The answers a run gives to the calls for one key, each with its time. -/
def answersOf (k : MapKey) : Partition → List Event → List (ℚ × Except ℚ Unit)
  | _, [] => []
  | p, .call c :: es =>
    if c.mapKey = k then
      (c.now, (p.checkWithRetryAfter c).2) :: answersOf k (p.checkWithRetryAfter c).1 es
    else
      answersOf k (p.checkWithRetryAfter c).1 es
  | p, .sweep now :: es => answersOf k (p.sweep now) es

/-- A call makes room, where it has to, without evicting a key, and is not turned away for lack
of room when it is for the key itself. An emergency sweep may run. -/
def Spares (k : MapKey) (p : Partition) : Event → Prop
  | .call c =>
    ((p.makeRoom c).1.windows.get k = p.windows.get k ∨
      (p.makeRoom c).1.windows.get k = (p.sweep c.now).windows.get k) ∧
    (c.mapKey = k → (p.makeRoom c).2 = true)
  | .sweep _ => True

instance (k : MapKey) (p : Partition) : (e : Event) → Decidable (p.Spares k e)
  | .call _ => inferInstanceAs (Decidable ((_ ∨ _) ∧ _))
  | .sweep _ => inferInstanceAs (Decidable True)

end Partition

/-! ### An entry as a bucket that is never dropped -/

namespace TokenBucket

/-- The tokens a key finds at a later time. A key without an entry finds a full bucket. -/
def available (limit : ℕ) (window : ℚ) (entry : Option TokenBucket) (t : ℚ) : ℚ :=
  entry.elim (limit : ℚ) fun e =>
    min (e.tokens + durationSince t e.lastRefill * (limit / window)) limit

/-- The entry of a key, or its absence, gives what the bucket gives at every later time. -/
structure Tracks (limit : ℕ) (window now : ℚ) (entry : Option TokenBucket) (b : Bucket ℚ) :
    Prop where
  time_le : b.time ≤ now
  level_nonneg : 0 ≤ b.level
  wellFormed : ∀ e ∈ entry, e.window = window ∧ 0 ≤ e.tokens ∧ e.lastRefill ≤ now
  available_eq : ∀ t, now ≤ t →
    available limit window entry t = b.levelAt (limit : ℚ) (limit / window) t

variable {limit : ℕ} {window now : ℚ} {entry : Option TokenBucket} {b : Bucket ℚ}

theorem durationSince_of_le {t s : ℚ} (h : s ≤ t) : durationSince t s = t - s :=
  max_eq_right (sub_nonneg.mpr h)

/-- A key that was never seen is tracked by a full bucket. -/
theorem Tracks.full (hwindow : 0 < window) : Tracks limit window now none ⟨now, limit⟩ where
  time_le := le_rfl
  level_nonneg := Nat.cast_nonneg limit
  wellFormed := by simp
  available_eq := by
    intro t ht
    have hgain : 0 ≤ limit / window * (t - now) :=
      mul_nonneg (div_nonneg (Nat.cast_nonneg limit) hwindow.le) (sub_nonneg.mpr ht)
    exact (min_eq_right (le_add_of_nonneg_right hgain)).symm

theorem Tracks.mono {now' : ℚ} (h : Tracks limit window now entry b) (hle : now ≤ now') :
    Tracks limit window now' entry b where
  time_le := h.time_le.trans hle
  level_nonneg := h.level_nonneg
  wellFormed := fun e he =>
    ⟨(h.wellFormed e he).1, (h.wellFormed e he).2.1, (h.wellFormed e he).2.2.trans hle⟩
  available_eq := fun t ht => h.available_eq t (hle.trans ht)

/-- **A sweep changes nothing**: an entry it drops has filled up again. -/
theorem Tracks.sweep (hwindow : 0 < window) (h : Tracks limit window now entry b) :
    Tracks limit window now (entry.filter fun e => !e.expired now) b where
  time_le := h.time_le
  level_nonneg := h.level_nonneg
  wellFormed := fun e he => h.wellFormed e (Option.filter_eq_some_iff.mp he).1
  available_eq := by
    intro t ht
    rw [← h.available_eq t ht]
    cases entry with
    | none => rfl
    | some e =>
      obtain ⟨hw, htokens, hlast⟩ := h.wellFormed e rfl
      by_cases hexp : e.expired now = true
      · rw [Option.filter_some_neg (by simp [hexp])]
        rw [expired, decide_eq_true_eq, durationSince_of_le hlast, hw] at hexp
        have hidle : window ≤ t - e.lastRefill := by linarith
        have hfull : (limit : ℚ) ≤ (t - e.lastRefill) * (limit / window) := by
          calc (limit : ℚ) = window * (limit / window) := by field_simp
            _ ≤ (t - e.lastRefill) * (limit / window) :=
              mul_le_mul_of_nonneg_right hidle (div_nonneg (Nat.cast_nonneg limit) hwindow.le)
        change (limit : ℚ) = min (e.tokens + durationSince t e.lastRefill * (limit / window)) limit
        rw [durationSince_of_le (hlast.trans ht), min_eq_right (by linarith)]
      · rw [Option.filter_some_pos (by simpa using hexp)]

/-- What a call refills is what was available. -/
theorem refill_getD (c : Call) :
    ((entry.getD ⟨c.now, c.limit, c.window⟩).refill (c.limit / c.window) c).tokens =
      available c.limit c.window entry c.now := by
  cases entry with
  | none => simp [refill, available, durationSince]
  | some e => rfl

end TokenBucket

namespace Partition

variable {k : MapKey} {limit : ℕ} {window now : ℚ} {p : Partition} {b : Bucket ℚ} {c : Call}
  {es : List Event}

theorem checkWithRetryAfter_eq (p : Partition) (c : Call) :
    p.checkWithRetryAfter c =
      if (p.makeRoom c).2 = true then (p.makeRoom c).1.takeToken c
      else ((p.makeRoom c).1, .error c.window) := by
  rcases hmake : p.makeRoom c with ⟨p', _ | _⟩ <;> simp [checkWithRetryAfter, hmake]

@[simp] theorem get_takeToken (c : Call) :
    (p.takeToken c).1.windows.get c.mapKey =
      some (((p.windows.get c.mapKey).getD ⟨c.now, c.limit, c.window⟩).refill
        (c.limit / c.window) c |>.take (c.limit / c.window)).1 := by
  simp [takeToken, FinMap.get_insert]

theorem get_takeToken_of_ne (h : c.mapKey ≠ k) :
    (p.takeToken c).1.windows.get k = p.windows.get k := by
  simp [takeToken, FinMap.get_insert, h.symm]

/-- A call for the key is a request to the bucket, and its entry tracks the bucket after it. -/
theorem takeToken_tracks (h : TokenBucket.Tracks c.limit c.window now (p.windows.get c.mapKey) b)
    (hwindow : 0 < c.window) (hnow : now ≤ c.now) :
    (p.takeToken c).2 = (b.request (c.limit : ℚ) (c.limit / c.window) c.now).2 ∧
      TokenBucket.Tracks c.limit c.window c.now ((p.takeToken c).1.windows.get c.mapKey)
        (b.request (c.limit : ℚ) (c.limit / c.window) c.now).1 := by
  have hlimit : (0 : ℚ) ≤ c.limit := Nat.cast_nonneg _
  have hrate : (0 : ℚ) ≤ c.limit / c.window := div_nonneg hlimit hwindow.le
  have hlevel := h.available_eq c.now hnow
  have hmem := Bucket.request_level_mem hlimit hrate
    h.level_nonneg (h.time_le.trans hnow)
  -- what is written down: the level the request leaves, at the time of the call
  have htaken : (((p.windows.get c.mapKey).getD ⟨c.now, c.limit, c.window⟩).refill
        (c.limit / c.window) c).take (c.limit / c.window) =
      (⟨c.now, (b.request (c.limit : ℚ) (c.limit / c.window) c.now).1.level, c.window⟩,
        (b.request (c.limit : ℚ) (c.limit / c.window) c.now).2) := by
    rw [TokenBucket.take, TokenBucket.refill_getD, hlevel]
    by_cases hone : 1 ≤ b.levelAt (c.limit : ℚ) (c.limit / c.window) c.now
    · rw [if_pos hone, Bucket.request_of_le hone]
      rfl
    · rw [if_neg hone, Bucket.request_of_lt (not_le.mp hone), ← hlevel,
        ← TokenBucket.refill_getD]
      rfl
  refine ⟨congrArg Prod.snd htaken, ?_⟩
  rw [get_takeToken, htaken]
  constructor
  · rw [Bucket.request_time]
  · exact hmem.1
  · intro e he
    obtain rfl := Option.some_injective _ he
    exact ⟨rfl, hmem.1, le_rfl⟩
  · intro t ht
    rw [Bucket.levelAt, Bucket.request_time, mul_comm]
    exact congrArg (min · _) (by rw [TokenBucket.durationSince_of_le ht])

/-- The calls of a run for one key all have one limit and one window. -/
def FixedLimit (k : MapKey) (limit : ℕ) (window : ℚ) (es : List Event) : Prop :=
  ∀ c, Event.call c ∈ es → c.mapKey = k → c.limit = limit ∧ c.window = window

/-- **One event**: the bucket is asked by the calls for the key and by nothing else. -/
theorem step_tracks {e : Event} (h : TokenBucket.Tracks limit window now (p.windows.get k) b)
    (hwindow : 0 < window) (hnow : now ≤ e.now) (hfixed : FixedLimit k limit window [e])
    (hspares : p.Spares k e) :
    TokenBucket.Tracks limit window e.now ((p.step e).windows.get k)
        (if e.isOf k then (b.request (limit : ℚ) (limit / window) e.now).1 else b) ∧
      ∀ c, e = .call c → c.mapKey = k →
        (p.checkWithRetryAfter c).2 = (b.request (limit : ℚ) (limit / window) c.now).2 := by
  cases e with
  | sweep t => exact ⟨(h.mono hnow).sweep hwindow, by simp⟩
  | call c =>
    -- the capacity check leaves the entry, or sweeps it
    have hmade : TokenBucket.Tracks limit window c.now ((p.makeRoom c).1.windows.get k) b := by
      rcases hspares.1 with hsame | hswept
      · exact hsame ▸ h.mono hnow
      · exact hswept ▸ (h.mono hnow).sweep hwindow
    by_cases hk : c.mapKey = k
    · obtain ⟨rfl, rfl⟩ := hfixed c (by simp) hk
      subst hk
      have hcheck : p.checkWithRetryAfter c = (p.makeRoom c).1.takeToken c := by
        rw [checkWithRetryAfter_eq, if_pos (hspares.2 rfl)]
      have htake := takeToken_tracks hmade hwindow le_rfl
      refine ⟨?_, ?_⟩
      · rw [step, hcheck, if_pos (by simp [Event.isOf])]
        exact htake.2
      · rintro c' hc' -
        obtain rfl := Event.call.inj hc'
        rw [hcheck]
        exact htake.1
    · refine ⟨?_, ?_⟩
      · rw [step, if_neg (by simp [Event.isOf, hk]), checkWithRetryAfter_eq]
        split
        · rw [get_takeToken_of_ne hk]
          exact hmade
        · exact hmade
      · rintro c' hc' hk'
        exact absurd (Event.call.inj hc' ▸ hk') hk

/-- The times of the calls for one key. -/
def timesOf (k : MapKey) (es : List Event) : List ℚ := (es.filter (Event.isOf k)).map Event.now

theorem timesOf_sublist : (timesOf k es).Sublist (es.map Event.now) :=
  List.Sublist.map _ List.filter_sublist

/-- The sweeps of a run are not among the calls for a key. -/
theorem timesOf_congr {es' : List Event}
    (h : es'.filter Event.isCall = es.filter Event.isCall) : timesOf k es' = timesOf k es := by
  have hof (es : List Event) :
      es.filter (Event.isOf k) = (es.filter Event.isCall).filter (Event.isOf k) := by
    rw [List.filter_filter]
    congr 1
    ext e
    cases e <;> simp [Event.isOf, Event.isCall]
  rw [timesOf, timesOf, hof es, hof es', h]

theorem FixedLimit.of_subset {es' : List Event} (h : FixedLimit k limit window es)
    (hsub : es' ⊆ es) : FixedLimit k limit window es' :=
  fun c hc => h c (hsub hc)

/-- **The answers to a key are those of a bucket that is never dropped.** -/
theorem answersOf_eq (hwindow : 0 < window)
    (h : TokenBucket.Tracks limit window now (p.windows.get k) b)
    (hordered : (now :: es.map Event.now).Pairwise (· ≤ ·)) (hfixed : FixedLimit k limit window es)
    (hspares : Runs.Meets step (Spares k) p es) :
    answersOf k p es = b.answers (limit : ℚ) (limit / window) (timesOf k es) := by
  induction es generalizing p b now with
  | nil => rfl
  | cons e es ih =>
    rw [List.map_cons, List.pairwise_cons] at hordered
    obtain ⟨htracks, hanswer⟩ := step_tracks h hwindow (hordered.1 _ List.mem_cons_self)
      (hfixed.of_subset (by simp)) hspares.1
    have hrest := ih htracks hordered.2 (hfixed.of_subset (List.subset_cons_self _ _)) hspares.2
    cases e with
    | sweep t => exact hrest
    | call c =>
      by_cases hk : c.mapKey = k
      · have hof : Event.isOf k (.call c) = true := by simpa [Event.isOf] using hk
        rw [if_pos hof] at hrest
        rw [answersOf, if_pos hk, timesOf, List.filter_cons_of_pos hof, List.map_cons,
          Bucket.answers, hanswer c rfl hk]
        exact congrArg _ hrest
      · have hof : Event.isOf k (.call c) ≠ true := by simpa [Event.isOf] using hk
        rw [if_neg hof] at hrest
        rw [answersOf, if_neg hk, timesOf, List.filter_cons_of_neg hof]
        exact hrest

/-- When an event of a run comes, the entry of a key tracks a bucket: the one it tracked at first
if no call for the key came before. -/
theorem run_tracks {e : Event} {rest : List Event} (hwindow : 0 < window)
    (h : TokenBucket.Tracks limit window now (p.windows.get k) b)
    (hordered : (now :: (es ++ e :: rest).map Event.now).Pairwise (· ≤ ·))
    (hfixed : FixedLimit k limit window (es ++ e :: rest))
    (hspares : Runs.Meets step (Spares k) p (es ++ e :: rest)) :
    ∃ b', TokenBucket.Tracks limit window e.now ((Runs.run step p es).windows.get k) b' ∧
      (timesOf k es = [] → b' = b) := by
  induction es generalizing p b now with
  | nil => exact ⟨b, h.mono ((List.pairwise_cons.mp hordered).1 _ (by simp)), fun _ => rfl⟩
  | cons e' es ih =>
    rw [List.cons_append, List.map_cons, List.pairwise_cons] at hordered
    have htracks := (step_tracks h hwindow (hordered.1 _ List.mem_cons_self)
      (hfixed.of_subset (by simp)) hspares.1).1
    obtain ⟨b', htracks', hsame⟩ := ih htracks hordered.2
      (hfixed.of_subset (List.subset_cons_self _ _)) hspares.2
    refine ⟨b', htracks', fun hnone => ?_⟩
    by_cases hof : Event.isOf k e' = true
    · rw [timesOf, List.filter_cons_of_pos hof] at hnone
      exact absurd hnone (by simp)
    · rw [timesOf, List.filter_cons_of_neg hof] at hnone
      rw [hsame hnone, if_neg hof]

/-- The times of the events do not decrease. -/
def InOrder (es : List Event) : Prop := (es.map Event.now).Pairwise (· ≤ ·)

theorem InOrder.of_append_right {es' : List Event} (h : InOrder (es ++ es')) : InOrder es' := by
  rw [InOrder, List.map_append] at h
  exact (List.pairwise_append.mp h).2.1

/-- The time of the first event of a run. -/
def start (es : List Event) : ℚ := (es.map Event.now).headD 0

theorem InOrder.cons_start (h : InOrder es) : (start es :: es.map Event.now).Pairwise (· ≤ ·) := by
  cases es with
  | nil => simp
  | cons e es =>
    refine List.pairwise_cons.mpr ⟨?_, h⟩
    intro t ht
    rcases List.mem_cons.mp ht with rfl | ht
    · exact le_rfl
    · exact (List.pairwise_cons.mp h).1 t ht

theorem answersOf_new_eq {capacity : ℕ} (hwindow : 0 < window) (hordered : InOrder es)
    (hfixed : FixedLimit k limit window es)
    (hspares : Runs.Meets step (Spares k) (new capacity) es) :
    answersOf k (new capacity) es =
      Bucket.answers (limit : ℚ) (limit / window) ⟨start es, limit⟩ (timesOf k es) :=
  answersOf_eq hwindow (TokenBucket.Tracks.full hwindow) hordered.cons_start hfixed hspares

/-- **The retry-after is exact**: a refused call names the least wait after which a lone retry
is accepted. -/
theorem retry_isOk_iff {capacity : ℕ} (hlimit : 1 ≤ limit) (hwindow : 0 < window)
    {es₁ es₂ es₃ : List Event} {c c' : Call} {r : ℚ}
    (hordered : InOrder (es₁ ++ .call c :: (es₂ ++ .call c' :: es₃)))
    (hfixed : FixedLimit k limit window (es₁ ++ .call c :: (es₂ ++ .call c' :: es₃)))
    (hspares : Runs.Meets step (Spares k) (new capacity)
      (es₁ ++ .call c :: (es₂ ++ .call c' :: es₃)))
    (hc : c.mapKey = k) (hc' : c'.mapKey = k) (hlone : timesOf k es₂ = [])
    (hrefused : ((Runs.run step (new capacity) es₁).checkWithRetryAfter c).2 = .error r) :
    0 < r ∧
      (((Runs.run step (new capacity) (es₁ ++ .call c :: es₂)).checkWithRetryAfter c').2 = .ok () ↔
        r ≤ c'.now - c.now) := by
  have hrate : (0 : ℚ) < limit / window := div_pos (by exact_mod_cast hlimit) hwindow
  obtain ⟨-, hsparesc, hspares₂⟩ := Runs.meets_append.mp hspares
  obtain ⟨b₁, htracks₁, -⟩ := run_tracks hwindow (TokenBucket.Tracks.full hwindow)
    hordered.cons_start hfixed hspares
  have hfixedc : FixedLimit k limit window [.call c] := hfixed.of_subset (by simp)
  have hfixedc' : FixedLimit k limit window [.call c'] := hfixed.of_subset (by simp)
  obtain ⟨htracks, hanswer⟩ := step_tracks htracks₁ hwindow le_rfl hfixedc hsparesc
  rw [hanswer c rfl hc, Bucket.request_eq_error_iff] at hrefused
  obtain ⟨hshort, rfl⟩ := hrefused
  refine ⟨div_pos (sub_pos.mpr hshort) hrate, ?_⟩
  -- the refusal writes the level down, and nothing is asked of the bucket until the retry
  have hof : Event.isOf k (.call c) = true := by simpa [Event.isOf] using hc
  rw [if_pos hof, Event.now, Bucket.request_of_lt hshort] at htracks
  obtain ⟨b₂, htracks₂, hsame⟩ := run_tracks hwindow htracks hordered.of_append_right
    (hfixed.of_subset (by intro e he; simp only [List.mem_append, List.mem_cons] at he ⊢; tauto))
    hspares₂
  obtain rfl := hsame hlone
  obtain ⟨-, hsparesc', -⟩ := Runs.meets_append.mp hspares₂
  have hretry := (step_tracks htracks₂ hwindow le_rfl hfixedc' hsparesc').2 c' rfl hc'
  rw [Runs.run_append, Runs.run_cons, hretry,
    Bucket.request_isOk_iff (by exact_mod_cast hlimit) hrate]

/-- **The token bucket bound.** -/
theorem tokenBucket_bound {capacity : ℕ} (hlimit : 1 ≤ limit) (hwindow : 0 < window)
    (hordered : InOrder es) (hfixed : FixedLimit k limit window es)
    (hspares : Runs.Meets step (Spares k) (new capacity) es) :
    (∀ a T : ℚ, 0 ≤ T →
      (((answersOf k (new capacity) es).countP fun d =>
        d.2.isOk && (decide (a ≤ d.1) && decide (d.1 ≤ a + T)) : ℕ) : ℚ) ≤
          limit + limit * T / window) ∧
    (∀ es₁ c es₂ c' es₃ r, es = es₁ ++ .call c :: (es₂ ++ .call c' :: es₃) →
      c.mapKey = k → c'.mapKey = k → timesOf k es₂ = [] →
      ((Runs.run step (new capacity) es₁).checkWithRetryAfter c).2 = .error r →
      0 < r ∧
        (((Runs.run step (new capacity) (es₁ ++ .call c :: es₂)).checkWithRetryAfter c').2 =
          .ok () ↔ r ≤ c'.now - c.now)) ∧
    ∀ es', es'.filter Event.isCall = es.filter Event.isCall → InOrder es' →
      Runs.Meets step (Spares k) (new capacity) es' →
      answersOf k (new capacity) es' = answersOf k (new capacity) es := by
  refine ⟨?_, ?_, ?_⟩
  · intro a T hT
    have hfull : (0 : ℚ) ≤ limit := Nat.cast_nonneg _
    have htimes : (start es :: timesOf k es).Pairwise (· ≤ ·) :=
      hordered.cons_start.sublist (timesOf_sublist.cons_cons _)
    have hbound := Bucket.countP_between_le (b := ⟨start es, limit⟩) hfull
      (div_nonneg hfull hwindow.le) hfull htimes (le_add_of_nonneg_right hT : a ≤ a + T)
    rw [answersOf_new_eq hwindow hordered hfixed hspares]
    refine hbound.trans (le_of_eq ?_)
    ring
  · rintro es₁ c es₂ c' es₃ r rfl hc hc' hlone hrefused
    exact retry_isOk_iff hlimit hwindow hordered hfixed hspares hc hc' hlone hrefused
  · intro es' hcalls hordered' hspares'
    have hmem {c : Call} : Event.call c ∈ es' ↔ Event.call c ∈ es := by
      simpa [Event.isCall] using congrArg (Event.call c ∈ ·) hcalls
    rw [answersOf_new_eq hwindow hordered hfixed hspares,
      answersOf_new_eq hwindow hordered' (fun c hc => hfixed c (hmem.mp hc)) hspares',
      timesOf_congr hcalls]
    refine Bucket.answers_full (div_nonneg (Nat.cast_nonneg _) hwindow.le) ?_ ?_
    · exact fun t ht => (List.pairwise_cons.mp hordered'.cons_start).1 t
        ((timesOf_congr hcalls ▸ timesOf_sublist).subset ht)
    · exact fun t ht => (List.pairwise_cons.mp hordered.cons_start).1 t (timesOf_sublist.subset ht)

/-- A login attempt. -/
def loginAt (now : ℚ) : Event := .call ⟨"login", "203.0.113.7", 1, 60, now, []⟩

theorem tokenBucket_bound_logins :
    (((answersOf ("login", "203.0.113.7") (new maxUntrustedEntries)
        [loginAt 0, loginAt 10, loginAt 60]).countP fun d =>
      d.2.isOk && (decide (0 ≤ d.1) && decide (d.1 ≤ 0 + 60)) : ℕ) : ℚ) ≤
        (1 : ℕ) + (1 : ℕ) * 60 / 60 ∧
    answersOf ("login", "203.0.113.7") (new maxUntrustedEntries)
        [loginAt 0, loginAt 10, .sweep 30, loginAt 60] =
      answersOf ("login", "203.0.113.7") (new maxUntrustedEntries)
        [loginAt 0, loginAt 10, loginAt 60] := by
  have hordered : InOrder [loginAt 0, loginAt 10, loginAt 60] := by
    norm_num [InOrder, loginAt, Event.now]
  have hfixed : FixedLimit ("login", "203.0.113.7") 1 60 [loginAt 0, loginAt 10, loginAt 60] := by
    simp [FixedLimit, loginAt]
  have hspares : Runs.Meets step (Spares ("login", "203.0.113.7")) (new maxUntrustedEntries)
      [loginAt 0, loginAt 10, loginAt 60] := by decide +kernel
  have h := tokenBucket_bound le_rfl (by norm_num) hordered hfixed hspares
  exact ⟨h.1 0 60 (by norm_num), h.2.2 _ rfl (by norm_num [InOrder, loginAt, Event.now])
    (by decide +kernel)⟩

end Partition

end HelixSync.Server.RateLimit
