import Mathlib.Algebra.Order.Field.Basic
import Mathlib.Data.List.Count
import Mathlib.Tactic.FieldSimp
import Mathlib.Tactic.Linarith
import Mathlib.Tactic.Ring

/-!
# Buckets that refill at a steady rate

A bucket holds at most `cap`, gains `rate` for each unit of time and loses one unit to
each request it accepts. A request that finds less than one unit is refused, with the
time after which a unit has come together; a refused request takes nothing.

* `Bucket.request_isOk_iff` – when a request is accepted, in terms of the wait since the
  last one;
* `Bucket.countP_between_le` – **the rate bound**: the level is a potential, which an
  accepted request lowers by one and an interval of length `T` raises by at most `rate * T`.
-/

/-- What a bucket held when it was last written. -/
structure Bucket (K : Type) where
  time : K
  level : K

namespace Bucket

variable {K : Type} [Field K] [LinearOrder K] (cap rate : K)

/-- What the bucket holds at a later time. -/
def levelAt (b : Bucket K) (t : K) : K := min (b.level + rate * (t - b.time)) cap

/-- A request: the bucket after it, and how long to wait if it is refused. -/
def request (b : Bucket K) (t : K) : Bucket K × Except K Unit :=
  let level := b.levelAt cap rate t
  if 1 ≤ level then (⟨t, level - 1⟩, .ok ()) else (⟨t, level⟩, .error ((1 - level) / rate))

/-- The answers to a list of requests, each with its time. -/
def answers : Bucket K → List K → List (K × Except K Unit)
  | _, [] => []
  | b, t :: ts => (t, (b.request cap rate t).2) :: answers (b.request cap rate t).1 ts

variable {cap rate} {b : Bucket K} {t : K}

theorem request_of_le (h : 1 ≤ b.levelAt cap rate t) :
    b.request cap rate t = (⟨t, b.levelAt cap rate t - 1⟩, .ok ()) := if_pos h

theorem request_of_lt (h : b.levelAt cap rate t < 1) :
    b.request cap rate t =
      (⟨t, b.levelAt cap rate t⟩, .error ((1 - b.levelAt cap rate t) / rate)) :=
  if_neg h.not_ge

/-- An answer is a refusal exactly if less than one unit is there; its wait is then known. -/
theorem request_eq_error_iff {r : K} :
    (b.request cap rate t).2 = .error r ↔
      b.levelAt cap rate t < 1 ∧ (1 - b.levelAt cap rate t) / rate = r := by
  by_cases h : 1 ≤ b.levelAt cap rate t
  · simp [request_of_le h, h]
  · simp [request_of_lt (not_le.mp h), not_le.mp h]

theorem request_eq_ok_iff :
    (b.request cap rate t).2 = .ok () ↔ 1 ≤ b.levelAt cap rate t := by
  by_cases h : 1 ≤ b.levelAt cap rate t
  · simp [request_of_le h, h]
  · simp [request_of_lt (not_le.mp h), h]

@[simp] theorem request_time : (b.request cap rate t).1.time = t := by
  by_cases h : 1 ≤ b.levelAt cap rate t
  · rw [request_of_le h]
  · rw [request_of_lt (not_le.mp h)]

/-- Every request is answered, in the order in which they come. -/
theorem map_fst_answers (ts : List K) : (b.answers cap rate ts).map Prod.fst = ts := by
  induction ts generalizing b with
  | nil => rfl
  | cons t ts ih => rw [answers, List.map_cons, ih]

theorem levelAt_le : b.levelAt cap rate t ≤ cap := min_le_right _ _

/-- The level may be written down at the time of the next request. -/
theorem answers_cons_eq {ts : List K} :
    answers cap rate ⟨t, b.levelAt cap rate t⟩ (t :: ts) = b.answers cap rate (t :: ts) := by
  have hlevel : levelAt cap rate ⟨t, b.levelAt cap rate t⟩ t = b.levelAt cap rate t := by
    rw [levelAt, sub_self, mul_zero, add_zero, min_eq_left levelAt_le]
  rw [answers, answers, request, request, hlevel]

variable [IsStrictOrderedRing K]

/-- What is there is never negative. -/
theorem levelAt_nonneg (hcap : 0 ≤ cap) (hrate : 0 ≤ rate) (hlevel : 0 ≤ b.level)
    (h : b.time ≤ t) : 0 ≤ b.levelAt cap rate t :=
  le_min (add_nonneg hlevel (mul_nonneg hrate (sub_nonneg.mpr h))) hcap

/-- A request leaves a level between nothing and the cap. -/
theorem request_level_mem (hcap : 0 ≤ cap) (hrate : 0 ≤ rate) (hlevel : 0 ≤ b.level)
    (h : b.time ≤ t) :
    0 ≤ (b.request cap rate t).1.level ∧ (b.request cap rate t).1.level ≤ cap := by
  by_cases hone : 1 ≤ b.levelAt cap rate t
  · rw [request_of_le hone]
    exact ⟨sub_nonneg.mpr hone, (sub_le_self _ zero_le_one).trans levelAt_le⟩
  · rw [request_of_lt (not_le.mp hone)]
    exact ⟨levelAt_nonneg hcap hrate hlevel h, levelAt_le⟩

/-- **When a request is accepted**: once the time since the last one has brought the level
to one. -/
theorem request_isOk_iff (hcap : 1 ≤ cap) (hrate : 0 < rate) :
    (b.request cap rate t).2 = .ok () ↔ (1 - b.level) / rate ≤ t - b.time := by
  rw [request_eq_ok_iff, levelAt, le_min_iff, and_iff_left hcap, div_le_iff₀ hrate]
  constructor <;> intro h <;> linarith

/-- Full buckets give the same answers, whenever they were last written. -/
theorem answers_full (hrate : 0 ≤ rate) {s s' : K} {ts : List K} (h : ∀ t ∈ ts, s ≤ t)
    (h' : ∀ t ∈ ts, s' ≤ t) : answers cap rate ⟨s, cap⟩ ts = answers cap rate ⟨s', cap⟩ ts := by
  have hfull {s t : K} (hst : s ≤ t) : levelAt cap rate ⟨s, cap⟩ t = cap :=
    min_eq_right (le_add_of_nonneg_right (mul_nonneg hrate (sub_nonneg.mpr hst)))
  cases ts with
  | nil => rfl
  | cons t ts =>
    rw [← answers_cons_eq, hfull (h t List.mem_cons_self), ← answers_cons_eq (b := ⟨s', cap⟩),
      hfull (h' t List.mem_cons_self)]

section Bound

omit [IsStrictOrderedRing K] in
/-- What the answers to the requests never are is not among them. -/
theorem countP_answers_eq_zero {p : K × Except K Unit → Bool} {ts : List K}
    (h : ∀ t ∈ ts, ∀ a, p (t, a) = false) : (b.answers cap rate ts).countP p = 0 := by
  rw [List.countP_eq_zero]
  intro d hd
  have htimes : (b.answers cap rate ts).map Prod.fst = ts := map_fst_answers ts
  have hmem : d.1 ∈ ts := htimes ▸ List.mem_map_of_mem hd
  simp [h d.1 hmem d.2]

variable (hcap : 0 ≤ cap) (hrate : 0 ≤ rate)

include hcap hrate in
/-- **The level is a potential**: up to a time no more requests are accepted than the level
now and the refill until then. -/
theorem countP_until_le {e : K} {ts : List K} (hlevel : 0 ≤ b.level)
    (hts : (b.time :: ts).Pairwise (· ≤ ·)) (he : b.time ≤ e) :
    ((b.answers cap rate ts).countP fun d => d.2.isOk && decide (d.1 ≤ e) : K) ≤
      b.level + rate * (e - b.time) := by
  induction ts generalizing b with
  | nil => simpa [answers] using add_nonneg hlevel (mul_nonneg hrate (sub_nonneg.mpr he))
  | cons t ts ih =>
    obtain ⟨hfirst, hrest⟩ := List.pairwise_cons.mp hts
    have hbt : b.time ≤ t := hfirst t List.mem_cons_self
    have hlater : ∀ t' ∈ t :: ts, t ≤ t' :=
      List.forall_mem_cons.mpr ⟨le_rfl, (List.pairwise_cons.mp hrest).1⟩
    rcases lt_or_ge e t with hlt | hte
    · -- the requests from here on come after the interval
      have hzero : ∀ t' ∈ t :: ts, ∀ a : Except K Unit, (a.isOk && decide (t' ≤ e)) = false := by
        intro t' ht' a
        simp [(hlt.trans_le (hlater t' ht')).not_ge]
      rw [countP_answers_eq_zero hzero, Nat.cast_zero]
      exact add_nonneg hlevel (mul_nonneg hrate (sub_nonneg.mpr he))
    · have hnext := ih (b := (b.request cap rate t).1)
        (request_level_mem hcap hrate hlevel hbt).1 (by simpa using hrest) (by simpa using hte)
      have hrefill : b.levelAt cap rate t ≤ b.level + rate * (t - b.time) := min_le_left _ _
      rw [request_time] at hnext
      rw [answers, List.countP_cons, Nat.cast_add]
      by_cases hone : 1 ≤ b.levelAt cap rate t
      · rw [request_of_le hone] at hnext ⊢
        simp only [Except.isOk, Except.toBool, hte, decide_true, Bool.and_self, if_true,
          Nat.cast_one] at hnext ⊢
        linarith
      · rw [request_of_lt (not_le.mp hone)] at hnext ⊢
        simp only [Except.isOk, Except.toBool, Bool.false_and, Bool.false_eq_true, if_false,
          Nat.cast_zero] at hnext ⊢
        linarith

include hcap hrate in
/-- **The rate bound**: between two times no more requests are accepted than the cap and the
refill between them. -/
theorem countP_between_le {a e : K} {ts : List K} (hlevel : 0 ≤ b.level)
    (hts : (b.time :: ts).Pairwise (· ≤ ·)) (hae : a ≤ e) :
    ((b.answers cap rate ts).countP fun d =>
        d.2.isOk && (decide (a ≤ d.1) && decide (d.1 ≤ e)) : K) ≤ cap + rate * (e - a) := by
  have hbound : 0 ≤ cap + rate * (e - a) := add_nonneg hcap (mul_nonneg hrate (sub_nonneg.mpr hae))
  induction ts generalizing b with
  | nil => simpa [answers] using hbound
  | cons t ts ih =>
    obtain ⟨hfirst, hrest⟩ := List.pairwise_cons.mp hts
    have hbt : b.time ≤ t := hfirst t List.mem_cons_self
    have hlater : ∀ t' ∈ t :: ts, t ≤ t' :=
      List.forall_mem_cons.mpr ⟨le_rfl, (List.pairwise_cons.mp hrest).1⟩
    rcases lt_or_ge t a with hta | hat
    · -- a request before the interval is not counted and leaves a bucket of the same kind
      have hnext := ih (b := (b.request cap rate t).1)
        (request_level_mem hcap hrate hlevel hbt).1 (by simpa using hrest)
      simpa [answers, hta.not_ge] using hnext
    rcases lt_or_ge e t with hlt | hte
    · have hzero : ∀ t' ∈ t :: ts, ∀ r : Except K Unit,
          (r.isOk && (decide (a ≤ t') && decide (t' ≤ e))) = false := by
        intro t' ht' r
        simp [(hlt.trans_le (hlater t' ht')).not_ge]
      rw [countP_answers_eq_zero hzero, Nat.cast_zero]
      exact hbound
    -- the first request of the interval finds at most the cap, and the potential takes over
    rw [← answers_cons_eq]
    have hcount := countP_until_le hcap hrate (b := ⟨t, b.levelAt cap rate t⟩)
      (levelAt_nonneg hcap hrate hlevel hbt) (List.pairwise_cons.mpr ⟨hlater, hrest⟩) hte
    have hmono : ∀ d ∈ answers cap rate ⟨t, b.levelAt cap rate t⟩ (t :: ts),
        (d.2.isOk && (decide (a ≤ d.1) && decide (d.1 ≤ e))) = true →
          (d.2.isOk && decide (d.1 ≤ e)) = true := by
      intro d _ h
      simp only [Bool.and_eq_true] at h ⊢
      exact ⟨h.1, h.2.2⟩
    refine (Nat.cast_le.mpr (List.countP_mono_left hmono)).trans (hcount.trans ?_)
    exact add_le_add levelAt_le (mul_le_mul_of_nonneg_left (sub_le_sub_left hat e) hrate)

end Bound

end Bucket
