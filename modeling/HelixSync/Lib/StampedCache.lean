import Mathlib.Data.Option.Basic
import Mathlib.Order.Nat

/-!
# Caches with stamps

A cache holds, for a key, a value and a stamp: a time as of which the value is known. A value is
written only over one with an older stamp, read only while it is younger than the time to live, and
removed by a sweep only after that.

A key is refuted as of a stamp (`StampedCache.Refuted`) when no good value as of that stamp or later
is in the cache, and either an entry as of that stamp or later is, or the time to live has passed
since. Then no good value is read (`StampedCache.Refuted.read`), and that lasts: whatever is written
that is good has an older stamp, so it either loses against the entry, or comes when it is too old to
be read (`StampedCache.Refuted.write`, `StampedCache.Refuted.sweep`).

`CheckedCache` is a cache with the checks that use it. A check looks the key up; if nothing is found
there, it takes a stamp, asks the source, and writes what it was told under the stamp. Other checks
and revocations run between any two of these. `CheckedCache.Invariant` says what holds if a
revocation takes its stamp when the source already denies its keys.
-/

/-- A cache: for a key, a stamp and a value. -/
abbrev StampedCache (κ V : Type) := κ → Option (ℕ × V)

namespace StampedCache

variable {κ V : Type} [DecidableEq κ]

/-- The cache with nothing in it. -/
def empty : StampedCache κ V := fun _ => none

/-- A value is written, unless there is one with a stamp that is not older. -/
def write (cache : StampedCache κ V) (k : κ) (asOf : ℕ) (v : V) : StampedCache κ V :=
  Function.update cache k (match cache k with
    | some entry => if entry.1 < asOf then some (asOf, v) else some entry
    | none => some (asOf, v))

/-- The value of a key, while it is younger than the time to live. -/
def read (cache : StampedCache κ V) (ttl now : ℕ) (k : κ) : Option V :=
  ((cache k).filter fun entry => now < entry.1 + ttl).map Prod.snd

/-- What is not younger than the time to live is removed. -/
def sweep (cache : StampedCache κ V) (ttl now : ℕ) : StampedCache κ V :=
  fun k => (cache k).filter fun entry => now < entry.1 + ttl

variable {cache : StampedCache κ V} {k : κ} {asOf ttl now t : ℕ} {v : V}

theorem write_of_ne {k' : κ} (h : k' ≠ k) : cache.write k asOf v k' = cache k' :=
  Function.update_of_ne h _ _

/-- After a write there is an entry that is not older: the new one, or the one there was. -/
theorem write_self : ∃ entry, cache.write k asOf v k = some entry ∧
    (entry = (asOf, v) ∧ (∀ old, cache k = some old → old.1 < asOf) ∨
      cache k = some entry ∧ asOf ≤ entry.1) := by
  rw [write, Function.update_self]
  split
  · rename_i old hold
    split
    · rename_i hlt
      refine ⟨_, rfl, .inl ⟨rfl, fun other hother => ?_⟩⟩
      obtain rfl : old = other := Option.some_injective _ (hold.symm.trans hother)
      exact hlt
    · rename_i hle
      exact ⟨old, rfl, .inr ⟨hold, not_lt.mp hle⟩⟩
  · rename_i hnone
    exact ⟨_, rfl, .inl ⟨rfl, fun other hother => nomatch hnone.symm.trans hother⟩⟩

omit [DecidableEq κ] in
theorem read_eq_some : cache.read ttl now k = some v ↔
    ∃ stamp, cache k = some (stamp, v) ∧ now < stamp + ttl := by
  simp only [read, Option.map_eq_some_iff, Option.filter_eq_some_iff, decide_eq_true_eq]
  constructor
  · rintro ⟨⟨stamp, value⟩, ⟨hentry, hlt⟩, rfl⟩
    exact ⟨stamp, hentry, hlt⟩
  · rintro ⟨stamp, hentry, hlt⟩
    exact ⟨(stamp, v), ⟨hentry, hlt⟩, rfl⟩

omit [DecidableEq κ] in
theorem sweep_eq_some {entry : ℕ × V} :
    cache.sweep ttl now k = some entry ↔ cache k = some entry ∧ now < entry.1 + ttl := by
  simp [sweep, Option.filter_eq_some_iff]

/-! ### Refuted keys -/

/-- No good value as of a stamp or later is in the cache. -/
def NoneGoodSince (good : V → Prop) (cache : StampedCache κ V) (k : κ) (t : ℕ) : Prop :=
  ∀ entry, cache k = some entry → t ≤ entry.1 → ¬good entry.2

/-- **A key is refuted** as of a stamp: no good value since then is in the cache, and what was known
before is not there or not read any more. -/
def Refuted (good : V → Prop) (cache : StampedCache κ V) (ttl now : ℕ) (k : κ) (t : ℕ) : Prop :=
  NoneGoodSince good cache k t ∧
    ((∃ entry, cache k = some entry ∧ t ≤ entry.1) ∨ t + ttl ≤ now)

variable {good : V → Prop}

theorem NoneGoodSince.write (h : NoneGoodSince good cache k t) {k' : κ}
    (hv : k' = k → t ≤ asOf → ¬good v) : NoneGoodSince good (cache.write k' asOf v) k t := by
  rintro entry hentry hle
  by_cases hk : k = k'
  · subst hk
    obtain ⟨entry', hentry', hcases⟩ := @write_self κ V _ cache k asOf v
    obtain rfl : entry' = entry := Option.some_injective _ (hentry'.symm.trans hentry)
    rcases hcases with ⟨rfl, -⟩ | ⟨hold, -⟩
    · exact hv rfl hle
    · exact h entry' hold hle
  · rw [write_of_ne hk] at hentry
    exact h entry hentry hle

omit [DecidableEq κ] in
theorem NoneGoodSince.sweep (h : NoneGoodSince good cache k t) :
    NoneGoodSince good (cache.sweep ttl now) k t :=
  fun entry hentry => h entry (sweep_eq_some.mp hentry).1

/-- **Writing what is not good** refutes the key, if nothing good since then was there. -/
theorem refuted_write (h : NoneGoodSince good cache k t) (hv : ¬good v) :
    Refuted good (cache.write k t v) ttl now k t := by
  refine ⟨h.write fun _ _ => hv, .inl ?_⟩
  obtain ⟨entry, hentry, hcases⟩ := @write_self κ V _ cache k t v
  refine ⟨entry, hentry, ?_⟩
  rcases hcases with ⟨rfl, -⟩ | ⟨-, hle⟩
  · exact le_rfl
  · exact hle

omit [DecidableEq κ] in
theorem Refuted.mono (h : Refuted good cache ttl now k t) {now' : ℕ} (hnow : now ≤ now') :
    Refuted good cache ttl now' k t :=
  ⟨h.1, h.2.imp_right fun hle => hle.trans hnow⟩

/-- A later write does not change that, if what it writes is good only as of an earlier stamp. -/
theorem Refuted.write (h : Refuted good cache ttl now k t) {k' : κ}
    (hv : k' = k → t ≤ asOf → ¬good v) : Refuted good (cache.write k' asOf v) ttl now k t := by
  refine ⟨h.1.write hv, h.2.imp_left ?_⟩
  rintro ⟨old, hold, hle⟩
  by_cases hk : k = k'
  · subst hk
    obtain ⟨entry, hentry, hcases⟩ := @write_self κ V _ cache k asOf v
    refine ⟨entry, hentry, ?_⟩
    rcases hcases with ⟨rfl, holder⟩ | ⟨hkept, -⟩
    · exact hle.trans (holder old hold).le
    · exact Option.some_injective _ (hkept.symm.trans hold) ▸ hle
  · exact ⟨old, (write_of_ne hk).trans hold, hle⟩

omit [DecidableEq κ] in
/-- Nor does a sweep: it removes an entry only when the time to live has passed. -/
theorem Refuted.sweep (h : Refuted good cache ttl now k t) :
    Refuted good (cache.sweep ttl now) ttl now k t := by
  refine ⟨h.1.sweep, ?_⟩
  rcases h.2 with ⟨old, hold, hle⟩ | hpast
  · by_cases hyoung : now < old.1 + ttl
    · exact .inl ⟨old, sweep_eq_some.mpr ⟨hold, hyoung⟩, hle⟩
    · exact .inr (by omega)
  · exact .inr hpast

omit [DecidableEq κ] in
/-- **Nothing good is read** at a key that is refuted. -/
theorem Refuted.read (h : Refuted good cache ttl now k t) (hread : cache.read ttl now k = some v) :
    ¬good v := by
  obtain ⟨stamp, hentry, hyoung⟩ := read_eq_some.mp hread
  rcases Nat.lt_or_ge stamp t with holder | hle
  · rcases h.2 with ⟨entry, hentry', hle⟩ | hpast
    · rw [hentry] at hentry'
      obtain rfl := Option.some_injective _ hentry'
      omega
    · omega
  · exact h.1 _ hentry hle

end StampedCache

/-! ### Checks that use a cache -/

/-- How far a check has come: it has found nothing, taken its stamp, or asked the source. -/
inductive CheckStage (V : Type) where
  | missed
  | stamped (startedAt : ℕ)
  | answered (startedAt : ℕ) (v : V)

/-- A check under way. -/
structure CacheCheck (κ V : Type) where
  key : κ
  begunAt : ℕ
  stage : CheckStage V

/-- A check that ended well. -/
structure Acceptance (κ V : Type) where
  key : κ
  begunAt : ℕ
  value : V

/-- A write of a revocation: its key, its stamp, and when it was made. -/
structure Refutation (κ : Type) where
  key : κ
  stamp : ℕ
  writtenAt : ℕ

/-- A cache, the checks under way in numbered slots, and what happened so far: which checks ended
well, which stamps revocations took, and which of them were written. -/
structure CheckedCache (κ V : Type) where
  cache : StampedCache κ V
  checks : ℕ → Option (CacheCheck κ V)
  accepted : List (Acceptance κ V)
  stamps : List (κ × ℕ)
  refutations : List (Refutation κ)

namespace CheckedCache

variable {κ V : Type} [DecidableEq κ] (good : V → Prop) [DecidablePred good] (ttl now : ℕ)
  (c : CheckedCache κ V)

/-- Nothing is cached or under way. -/
def empty : CheckedCache κ V := ⟨StampedCache.empty, fun _ => none, [], [], []⟩

/-- A check goes on. -/
def goto (slot : ℕ) (check : CacheCheck κ V) : CheckedCache κ V :=
  { c with checks := Function.update c.checks slot (some check) }

/-- A check is over, or cut off. -/
def drop (slot : ℕ) : CheckedCache κ V := { c with checks := Function.update c.checks slot none }

/-- A check ends with a value. -/
def conclude (slot : ℕ) (k : κ) (begunAt : ℕ) (v : V) : CheckedCache κ V :=
  if good v then { c.drop slot with accepted := c.accepted ++ [⟨k, begunAt, v⟩] } else c.drop slot

/-- A check begins with a look at the cache. -/
def lookup (slot : ℕ) (k : κ) : CheckedCache κ V :=
  match c.cache.read ttl now k with
  | some v => c.conclude good slot k now v
  | none => c.goto slot ⟨k, now, .missed⟩

/-- It takes its stamp. -/
def start (slot : ℕ) (check : CacheCheck κ V) : CheckedCache κ V :=
  c.goto slot { check with stage := .stamped now }

/-- It is told what the source says. -/
def answer (slot : ℕ) (check : CacheCheck κ V) (startedAt : ℕ) (v : V) : CheckedCache κ V :=
  c.goto slot { check with stage := .answered startedAt v }

/-- It writes that, and ends with it. -/
def store (slot : ℕ) (check : CacheCheck κ V) (startedAt : ℕ) (v : V) : CheckedCache κ V :=
  conclude good { c with cache := c.cache.write check.key startedAt v } slot check.key check.begunAt v

/-- A check executes its next step; the source, if it asks that, says `v`. -/
def advance (slot : ℕ) (v : V) : CheckedCache κ V :=
  match c.checks slot with
  | none => c
  | some check =>
    match check.stage with
    | .missed => c.start now slot check
    | .stamped startedAt => c.answer slot check startedAt v
    | .answered startedAt v => c.store good slot check startedAt v

/-- A revocation takes its stamp, for the keys it revokes. -/
def stamp (keys : List κ) : CheckedCache κ V :=
  { c with stamps := c.stamps ++ keys.map fun k => (k, now) }

/-- A revocation writes an entry. -/
def refute (k : κ) (t : ℕ) (v : V) : CheckedCache κ V :=
  { c with
    cache := c.cache.write k t v
    refutations := c.refutations ++ [⟨k, t, now⟩] }

/-- The cache is swept. -/
def sweep : CheckedCache κ V := { c with cache := c.cache.sweep ttl now }

end CheckedCache

/-! ### What holds throughout -/

namespace CheckedCache

open StampedCache

section Stamps

variable {κ V : Type} (good : V → Prop) [DecidablePred good] (ttl now slot : ℕ)
  (c : CheckedCache κ V)

/-! No check takes a stamp for a revocation. -/

@[simp]
theorem conclude_stamps (k : κ) (begunAt : ℕ) (v : V) :
    (c.conclude good slot k begunAt v).stamps = c.stamps := by
  unfold conclude
  split <;> rfl

@[simp]
theorem lookup_stamps (k : κ) : (c.lookup good ttl now slot k).stamps = c.stamps := by
  unfold lookup
  split
  · exact conclude_stamps good slot c k now _
  · rfl

@[simp]
theorem advance_stamps [DecidableEq κ] (v : V) : (c.advance good now slot v).stamps = c.stamps := by
  unfold advance
  split
  · rfl
  · split
    · rfl
    · rfl
    · exact conclude_stamps good slot _ _ _ _

end Stamps

variable {κ V : Type} {good : V → Prop} {ttl now now' : ℕ} {dead dead' : κ → Prop}
  {c : CheckedCache κ V}

/-- What holds of a check under way: what it was told is not good if it took its stamp after a
revocation of its key did, or began after such a revocation was written. -/
structure CheckOk (good : V → Prop) (now : ℕ) (stamps : List (κ × ℕ)) (refutations : List (Refutation κ))
    (check : CacheCheck κ V) : Prop where
  begunAt : check.begunAt ≤ now
  startedAt : ∀ startedAt, check.stage = .stamped startedAt → startedAt ≤ now
  answered : ∀ startedAt v, check.stage = .answered startedAt v → startedAt ≤ now ∧
    (∀ st ∈ stamps, st.1 = check.key → st.2 ≤ startedAt → ¬good v) ∧
    ∀ w ∈ refutations, w.key = check.key → w.writtenAt < check.begunAt → ¬good v

/-- **What holds throughout**, if the source denies what is dead. -/
structure Invariant (good : V → Prop) (ttl now : ℕ) (dead : κ → Prop) (c : CheckedCache κ V) :
    Prop where
  entries : ∀ k entry, c.cache k = some entry → entry.1 ≤ now
  checks : ∀ slot check, c.checks slot = some check →
    CheckOk good now c.stamps c.refutations check
  stamps : ∀ st ∈ c.stamps, dead st.1 ∧ st.2 ≤ now ∧ NoneGoodSince good c.cache st.1 st.2
  refutations : ∀ w ∈ c.refutations, (w.key, w.stamp) ∈ c.stamps ∧ w.writtenAt ≤ now ∧
    Refuted good c.cache ttl now w.key w.stamp
  accepted : ∀ a ∈ c.accepted, a.begunAt ≤ now ∧
    ∀ w ∈ c.refutations, w.key = a.key → a.begunAt ≤ w.writtenAt

theorem invariant_empty : Invariant good ttl now dead (empty : CheckedCache κ V) where
  entries _ _ h := nomatch h
  checks _ _ h := nomatch h
  stamps _ h := nomatch h
  refutations _ h := nomatch h
  accepted _ h := nomatch h

theorem CheckOk.mono {stamps : List (κ × ℕ)} {refutations : List (Refutation κ)}
    {check : CacheCheck κ V} (h : CheckOk good now stamps refutations check) (hnow : now ≤ now') :
    CheckOk good now' stamps refutations check where
  begunAt := h.begunAt.trans hnow
  startedAt t ht := (h.startedAt t ht).trans hnow
  answered t v ht := (h.answered t v ht).imp_left fun hle => hle.trans hnow

/-- Time passes, and more is dead. -/
theorem Invariant.mono (h : Invariant good ttl now dead c) (hnow : now ≤ now')
    (hdead : ∀ k, dead k → dead' k) : Invariant good ttl now' dead' c where
  entries k entry hentry := (h.entries k entry hentry).trans hnow
  checks slot check hcheck := (h.checks slot check hcheck).mono hnow
  stamps st hst := by
    obtain ⟨hdead', hle, hnone⟩ := h.stamps st hst
    exact ⟨hdead _ hdead', hle.trans hnow, hnone⟩
  refutations w hw := by
    obtain ⟨hst, hle, hrefuted⟩ := h.refutations w hw
    exact ⟨hst, hle.trans hnow, hrefuted.mono hnow⟩
  accepted a ha := (h.accepted a ha).imp_left fun hle => hle.trans hnow

/-- The source denies what a revocation has taken its stamp for, or written. -/
theorem Invariant.dead_of_refutation (h : Invariant good ttl now dead c) {w : Refutation κ}
    (hw : w ∈ c.refutations) : dead w.key :=
  (h.stamps _ (h.refutations w hw).1).1

section Steps

variable (h : Invariant good ttl now dead c) (hnow : now < now') {slot : ℕ}

include h

theorem Invariant.drop : Invariant good ttl now dead (c.drop slot) where
  entries := h.entries
  checks slot' check hcheck := by
    have hne : slot' ≠ slot := by
      rintro rfl
      simp [CheckedCache.drop] at hcheck
    exact h.checks slot' check ((Function.update_of_ne hne _ _).symm.trans hcheck)
  stamps := h.stamps
  refutations := h.refutations
  accepted := h.accepted

theorem Invariant.goto {check : CacheCheck κ V}
    (hok : CheckOk good now c.stamps c.refutations check) :
    Invariant good ttl now dead (c.goto slot check) where
  entries := h.entries
  checks slot' check' hcheck := by
    by_cases hslot : slot' = slot
    · subst hslot
      obtain rfl : check = check' := by simpa [CheckedCache.goto] using hcheck
      exact hok
    · exact h.checks slot' check' ((Function.update_of_ne hslot _ _).symm.trans hcheck)
  stamps := h.stamps
  refutations := h.refutations
  accepted := h.accepted

/-- A check ends with a good value only if it began before a revocation of its key was written. -/
theorem Invariant.conclude [DecidablePred good] {k : κ} {begunAt : ℕ} {v : V} (hle : begunAt ≤ now)
    (hv : ∀ w ∈ c.refutations, w.key = k → w.writtenAt < begunAt → ¬good v) :
    Invariant good ttl now dead (c.conclude good slot k begunAt v) := by
  unfold CheckedCache.conclude
  split
  · rename_i hgood
    refine ⟨h.entries, h.drop.checks, h.stamps, h.refutations, fun a ha => ?_⟩
    rcases List.mem_append.mp ha with ha | ha
    · exact h.accepted a ha
    · obtain rfl := List.mem_singleton.mp ha
      refine ⟨hle, fun w hw hkey => ?_⟩
      by_contra hlt
      exact hv w hw hkey (Nat.lt_of_not_le hlt) hgood
  · exact h.drop

variable [DecidableEq κ]

/-- A write of a value that is good only as of an earlier stamp than any revocation of its key. -/
theorem Invariant.write {k : κ} {asOf : ℕ} {v : V} (hasOf : asOf ≤ now)
    (hv : ∀ st ∈ c.stamps, st.1 = k → st.2 ≤ asOf → ¬good v) :
    Invariant good ttl now dead { c with cache := c.cache.write k asOf v } where
  entries k' entry hentry := by
    by_cases hk : k' = k
    · subst hk
      obtain ⟨entry', hentry', hcases⟩ := @write_self κ V _ c.cache k' asOf v
      obtain rfl := Option.some_injective _ (hentry'.symm.trans hentry)
      rcases hcases with ⟨rfl, -⟩ | ⟨hold, -⟩
      · exact hasOf
      · exact h.entries k' entry' hold
    · exact h.entries k' entry ((write_of_ne hk).symm.trans hentry)
  checks := h.checks
  stamps st hst := by
    obtain ⟨hdead, hle, hnone⟩ := h.stamps st hst
    exact ⟨hdead, hle, hnone.write fun hk => hv st hst hk.symm⟩
  refutations w hw := by
    obtain ⟨hst, hle, hrefuted⟩ := h.refutations w hw
    exact ⟨hst, hle, hrefuted.write fun hk => hv _ hst hk.symm⟩
  accepted := h.accepted

omit [DecidableEq κ] in
theorem Invariant.sweep : Invariant good ttl now dead (c.sweep ttl now) where
  entries k entry hentry := h.entries k entry (sweep_eq_some.mp hentry).1
  checks := h.checks
  stamps st hst := by
    obtain ⟨hdead, hle, hnone⟩ := h.stamps st hst
    exact ⟨hdead, hle, hnone.sweep⟩
  refutations w hw := by
    obtain ⟨hst, hle, hrefuted⟩ := h.refutations w hw
    exact ⟨hst, hle, hrefuted.sweep⟩
  accepted := h.accepted

include hnow

omit [DecidableEq κ] in
/-- **A check begins**: what it reads was not good when a revocation had been written before. -/
theorem Invariant.lookup [DecidablePred good] (k : κ) :
    Invariant good ttl now' dead (c.lookup good ttl now' slot k) := by
  have h' := h.mono hnow.le fun _ hk => hk
  unfold CheckedCache.lookup
  split
  · rename_i v hread
    refine h'.conclude le_rfl fun w hw hkey _ => ?_
    exact (hkey ▸ (h'.refutations w hw).2.2).read hread
  · exact h'.goto ⟨le_rfl, nofun, nofun⟩

/-- **A check goes on**: the source does not tell it anything good of what is dead. -/
theorem Invariant.advance [DecidablePred good] {v : V}
    (hv : ∀ check, c.checks slot = some check → dead check.key → ¬good v) :
    Invariant good ttl now' dead (c.advance good now' slot v) := by
  have h' := h.mono hnow.le fun _ hk => hk
  unfold CheckedCache.advance
  split
  · exact h'
  · rename_i check hcheck
    have hok := h'.checks slot check hcheck
    split
    · refine h'.goto ⟨hok.begunAt, ?_, nofun⟩
      rintro _ ⟨⟩
      exact le_rfl
    · rename_i startedAt hstage
      refine h'.goto ⟨hok.begunAt, nofun, ?_⟩
      rintro _ _ ⟨⟩
      refine ⟨hok.startedAt _ hstage, fun st hst hkey _ => ?_, fun w hw hkey _ => ?_⟩
      · exact hv check hcheck (hkey ▸ (h.stamps st hst).1)
      · exact hv check hcheck (hkey ▸ h.dead_of_refutation hw)
    · rename_i startedAt told hstage
      obtain ⟨hle, hstamps, hrefutations⟩ := hok.answered _ _ hstage
      exact (h'.write hle hstamps).conclude hok.begunAt hrefutations

omit [DecidableEq κ] in
/-- **A revocation takes its stamp**: it is later than that of any entry or check. -/
theorem Invariant.stamp {keys : List κ} (hkeys : ∀ k ∈ keys, dead k) :
    Invariant good ttl now' dead (c.stamp now' keys) := by
  have hnew : ∀ st ∈ keys.map fun k => (k, now'), dead st.1 ∧ st.2 = now' := by
    rintro st hst
    obtain ⟨k, hk, rfl⟩ := List.mem_map.mp hst
    exact ⟨hkeys k hk, rfl⟩
  have h' := h.mono hnow.le fun _ hk => hk
  refine ⟨h'.entries, fun slot check hcheck => ?_, fun st hst => ?_, fun w hw => ?_, h'.accepted⟩
  · have hok := h.checks slot check hcheck
    refine ⟨(hok.mono hnow.le).begunAt, (hok.mono hnow.le).startedAt, fun startedAt v hstage => ?_⟩
    obtain ⟨hle, hstamps, hrefutations⟩ := hok.answered startedAt v hstage
    refine ⟨hle.trans hnow.le, fun st hst hkey hst_le => ?_, hrefutations⟩
    rcases List.mem_append.mp hst with hst | hst
    · exact hstamps st hst hkey hst_le
    · have := (hnew st hst).2
      omega
  · rcases List.mem_append.mp hst with hst | hst
    · exact h'.stamps st hst
    · obtain ⟨hdead, heq⟩ := hnew st hst
      refine ⟨hdead, heq.le, fun entry hentry hle => ?_⟩
      have := h.entries _ entry hentry
      omega
  · obtain ⟨hst, hrest⟩ := h'.refutations w hw
    exact ⟨List.mem_append_left _ hst, hrest⟩

/-- **A revocation writes an entry**: no check that ended well began after this. -/
theorem Invariant.refute {k : κ} {t : ℕ} {v : V} (hst : (k, t) ∈ c.stamps) (hv : ¬good v) :
    Invariant good ttl now' dead (c.refute now' k t v) := by
  have h' := h.mono hnow.le fun _ hk => hk
  obtain ⟨-, hle, hnone⟩ := h.stamps _ hst
  obtain ⟨hentries, -, hstamps, hrefutations, -⟩ :=
    h'.write (hle.trans hnow.le) fun _ _ _ _ => hv
  refine ⟨hentries, fun slot check hcheck => ?_, hstamps, fun w hw => ?_, fun a ha => ?_⟩
  · have hok := h.checks slot check hcheck
    refine ⟨(hok.mono hnow.le).begunAt, (hok.mono hnow.le).startedAt, fun startedAt told hstage => ?_⟩
    obtain ⟨hle, hstamps, hold⟩ := hok.answered startedAt told hstage
    refine ⟨hle.trans hnow.le, hstamps, fun w hw hkey hlt => ?_⟩
    rcases List.mem_append.mp hw with hw | hw
    · exact hold w hw hkey hlt
    · obtain rfl := List.mem_singleton.mp hw
      have := hok.begunAt
      have hlt : now' < check.begunAt := hlt
      omega
  · rcases List.mem_append.mp hw with hw | hw
    · exact hrefutations w hw
    · obtain rfl := List.mem_singleton.mp hw
      exact ⟨hst, le_rfl, refuted_write hnone hv⟩
  · obtain ⟨hbegun, hold⟩ := h.accepted a ha
    refine ⟨hbegun.trans hnow.le, fun w hw hkey => ?_⟩
    rcases List.mem_append.mp hw with hw | hw
    · exact hold w hw hkey
    · obtain rfl := List.mem_singleton.mp hw
      exact hbegun.trans hnow.le

end Steps

end CheckedCache
