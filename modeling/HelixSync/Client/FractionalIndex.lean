import Mathlib.Data.List.GetD
import Mathlib.Tactic.Common
import HelixSync.Lib.CodeUnits

/-!
# Keys between keys

`extension/src/util/fractional-index.ts`: the position of a bookmark among its siblings is
a string, and a new one between two neighbours is found by `keyBetween`, so that nothing
else has to be renumbered.

`keyBetween` walks its two bounds digit by digit and stops at the first place where there
is room. What it has left to walk at any moment are the rests of the two bounds, and all
that is needed of them is that the one is below the other: the digits already written are
a common beginning, or a beginning below the upper bound, which is then forgotten
(`HelixSync.Client.keyBetweenLoop_spec`). No digit is walked twice, so the walk ends.

A key never ends in the first digit (`HelixSync.Client.IsKey`): nothing fits between a key
and the same key with that digit appended.
-/

namespace HelixSync

namespace Client

open CodeUnits

/-- `DIGITS`. -/
def digits : List Char := "0123456789ABCDEFGHIJKLMNOPQRSTUVWXYZabcdefghijklmnopqrstuvwxyz".toList

/-- `BASE`. -/
def base : ℕ := digits.length

/-- `DIGITS[v]`. -/
def digit (v : ℕ) : Char := digits.getD v '0'

/-- `START_KEY`. -/
def startDigit : Char := digit (base / 2)

/-- The ways `keyBetween` throws. -/
inductive KeyError where
  /-- A character that is no digit. -/
  | invalidCharacter (c : Char)
  /-- Bounds that leave nothing between them. -/
  | unordered (lo hi : String)
  /-- The walk has not ended in the number of turns it was given. -/
  | unfinished
  deriving DecidableEq, Repr

/-- `digitIndex`. -/
def digitIndex (c : Char) : Except KeyError ℕ :=
  match digits.idxOf? c with
  | some v => .ok v
  | none => .error (.invalidCharacter c)

/-- `loDigit`, with `none` for `-1`: the lower bound is not there, or it has ended. -/
def loDigitAt (lo : Option (List Char)) (i : ℕ) : Except KeyError (Option ℕ) :=
  match lo.bind (·[i]?) with
  | some c => (digitIndex c).map some
  | none => .ok none

/-- `hiDigit`: a bound that is not there counts as a digit above all others. -/
def hiDigitAt (hi : Option (List Char)) (i : ℕ) : Except KeyError (Option ℕ) :=
  match hi with
  | none => .ok (some base)
  | some hi =>
    match hi[i]? with
    | some c => (digitIndex c).map some
    | none => .ok none

/-- The loop of `keyBetween`, with what it has written and the place it has come to. -/
def keyBetweenLoop : ℕ → Option (List Char) → Option (List Char) → List Char → ℕ →
    Except KeyError (List Char)
  | 0, _, _, _, _ => .error .unfinished
  | fuel + 1, lo, hi, written, i => do
    let loDigit ← loDigitAt lo i
    let hiDigit ← hiDigitAt hi i
    match loDigit, hiDigit with
    | none, none => pure (written ++ [startDigit])
    | none, some hiDigit =>
      -- The lower bound has ended: any digit below the upper one will do, but the key must
      -- not end in the first digit.
      if 1 < hiDigit then pure (written ++ [digit (hiDigit / 2)])
      else if hiDigit = 1 then pure (written ++ [digit 0, startDigit])
      else keyBetweenLoop fuel lo hi (written ++ [digit 0]) (i + 1)
    | some loDigit, none =>
      let chosen := if loDigit + 1 < base then (loDigit + 1 + base) / 2 else loDigit
      if loDigit < chosen then pure (written ++ [digit chosen])
      else keyBetweenLoop fuel lo hi (written ++ [digit loDigit]) (i + 1)
    | some loDigit, some hiDigit =>
      if 1 < hiDigit - loDigit then
        pure (written ++ [digit (loDigit + (hiDigit - loDigit) / 2)])
      else if hiDigit - loDigit = 1 then
        -- Adjacent digits: whatever follows this one is below the upper bound.
        keyBetweenLoop fuel (lo.map (·.drop (i + 1))) none (written ++ [digit loDigit]) 0
      else keyBetweenLoop fuel lo hi (written ++ [digit loDigit]) (i + 1)

/-- The number of characters of a bound that may not be there. -/
def boundLength (bound : Option String) : ℕ := bound.elim 0 String.length

/-- `keyBetween`. -/
def keyBetween (lo hi : Option String) : Except KeyError String :=
  match lo, hi with
  | none, none => .ok (String.ofList [startDigit])
  | some lo, some hi =>
    if codeUnits lo < codeUnits hi then
      (keyBetweenLoop (lo.length + hi.length + 1) (some lo.toList) (some hi.toList) [] 0).map
        String.ofList
    else .error (.unordered lo hi)
  | lo, hi =>
    (keyBetweenLoop (boundLength lo + boundLength hi + 1) (lo.map String.toList)
      (hi.map String.toList) [] 0).map String.ofList

/-! ### Digits -/

@[simp] theorem base_eq : base = 62 := by decide

theorem digits_sorted : digits.Pairwise (· < ·) := by decide

theorem digit_mem {v : ℕ} (hv : v < base) : digit v ∈ digits := by
  rw [digit, List.getD_eq_getElem _ _ hv]
  exact List.getElem_mem hv

theorem exists_digit {c : Char} (hc : c ∈ digits) : ∃ v < base, digit v = c := by
  obtain ⟨v, hv, rfl⟩ := List.getElem_of_mem hc
  exact ⟨v, hv, List.getD_eq_getElem _ _ hv⟩

/-- **Digits are in the order of their values.** -/
theorem digit_lt_digit {v w : ℕ} (hvw : v < w) (hw : w < base) : digit v < digit w := by
  rw [digit, digit, List.getD_eq_getElem _ _ (hvw.trans hw), List.getD_eq_getElem _ _ hw]
  exact List.pairwise_iff_getElem.mp digits_sorted v w (hvw.trans hw) hw hvw

theorem digit_injOn {v w : ℕ} (hv : v < base) (hw : w < base) (h : digit v = digit w) : v = w := by
  rcases lt_trichotomy v w with hlt | heq | hgt
  · exact absurd h (digit_lt_digit hlt hw).ne
  · exact heq
  · exact absurd h (digit_lt_digit hgt hv).ne'

theorem digitIndex_digit {v : ℕ} (hv : v < base) : digitIndex (digit v) = .ok v := by
  have hall : ∀ v < 62, digitIndex (digit v) = .ok v := by decide
  exact hall v (base_eq ▸ hv)

theorem isAscii_of_mem_digits {c : Char} (hc : c ∈ digits) : IsAscii c := by
  have hall : digits.all (fun c => decide (IsAscii c)) = true := by decide
  exact of_decide_eq_true (List.all_eq_true.mp hall c hc)

/-! ### Keys -/

/-- What may be left of a bound: digits, of which the last is not the first of all. -/
def IsRest (l : List Char) : Prop := (∀ c ∈ l, c ∈ digits) ∧ l.getLast? ≠ some '0'

instance : DecidablePred IsRest := fun l =>
  @instDecidableAnd _ _ (List.decidableBAll (fun c => c ∈ digits) l) inferInstance

/-- A valid key. -/
def IsKey (s : String) : Prop := s.toList ≠ [] ∧ IsRest s.toList

instance : DecidablePred IsKey := fun s =>
  inferInstanceAs (Decidable (s.toList ≠ [] ∧ IsRest s.toList))

theorem IsKey.ne_empty {s : String} (h : IsKey s) : s ≠ "" := by
  rintro rfl
  exact h.1 rfl

theorem isRest_nil : IsRest [] := ⟨by simp, by simp⟩

theorem IsRest.tail {c : Char} {l : List Char} (h : IsRest (c :: l)) : IsRest l := by
  refine ⟨fun d hd => h.1 d (List.mem_cons_of_mem _ hd), fun hlast => h.2 ?_⟩
  rw [List.getLast?_cons, hlast]
  rfl

theorem isRest_cons {v : ℕ} {l : List Char} (hv : v < base) (hne : l ≠ []) (h : IsRest l) :
    IsRest (digit v :: l) := by
  refine ⟨fun c hc => ?_, ?_⟩
  · rcases List.mem_cons.mp hc with rfl | hmem
    · exact digit_mem hv
    · exact h.1 c hmem
  · rw [List.getLast?_cons_of_ne_nil hne]
    exact h.2

theorem isRest_singleton {v : ℕ} (hpos : 0 < v) (hv : v < base) : IsRest [digit v] := by
  refine ⟨fun c hc => ?_, fun hlast => ?_⟩
  · rw [List.mem_singleton.mp hc]
    exact digit_mem hv
  · have hzero : digit v = digit 0 := Option.some.inj hlast
    exact absurd (digit_injOn hv (by simp) hzero) hpos.ne'

/-- **Nothing ends in the first digit**: what follows it is not nothing. -/
theorem IsRest.ne_nil_of_zero {l : List Char} (h : IsRest (digit 0 :: l)) : l ≠ [] := by
  rintro rfl
  exact h.2 rfl

/-! ### One turn of the loop -/

/-- Whether something is below what is left of the upper bound. -/
def Room (t : List Char) (hi : Option (List Char)) (i : ℕ) : Prop :=
  ∀ h ∈ hi, t < h.drop i

/-- What is left of the upper bound begins with a digit, or there is none. -/
def StartsAt (hi : Option (List Char)) (i w : ℕ) : Prop :=
  w ≤ base ∧ hiDigitAt hi i = .ok (some w) ∧
    ∀ h ∈ hi, w < base ∧ ∃ rest, h.drop i = digit w :: rest

theorem StartsAt.room {hi : Option (List Char)} {i v w : ℕ} {t : List Char} (hw : StartsAt hi i w)
    (hvw : v < w) : Room (digit v :: t) hi i := by
  intro h hh
  obtain ⟨hwb, rest, hrest⟩ := hw.2.2 h hh
  rw [hrest]
  exact List.cons_lt_cons_iff.mpr (Or.inl (digit_lt_digit hvw hwb))

theorem drop_succ_of_cons {l rest : List Char} {c : Char} {i : ℕ} (h : l.drop i = c :: rest) :
    l.drop (i + 1) = rest := by
  rw [← List.tail_drop, h, List.tail_cons]

theorem StartsAt.room_cons {hi : Option (List Char)} {i w : ℕ} {t : List Char}
    (hw : StartsAt hi i w) (ht : Room t hi (i + 1)) : Room (digit w :: t) hi i := by
  intro h hh
  obtain ⟨-, rest, hrest⟩ := hw.2.2 h hh
  have hlt := ht h hh
  rw [drop_succ_of_cons hrest] at hlt
  rw [hrest]
  exact List.cons_lt_cons_iff.mpr (Or.inr ⟨rfl, hlt⟩)

/-- A digit that can be shared is that of a bound which is there. -/
theorem StartsAt.exists_drop {hi : Option (List Char)} {i w : ℕ} (hw : StartsAt hi i w)
    (hb : w < base) : ∃ h rest, hi = some h ∧ h.drop i = digit w :: rest := by
  cases hi with
  | none =>
    have hbase : some base = some w := Except.ok.inj hw.2.1
    exact absurd (Option.some.inj hbase).symm hb.ne
  | some hi =>
    obtain ⟨-, rest, hrest⟩ := hw.2.2 hi rfl
    exact ⟨hi, rest, rfl, hrest⟩

/-- The digits of the bounds are in their order. -/
theorem StartsAt.le_of_room {lo : List Char} {hi : Option (List Char)} {i v w : ℕ}
    {l : List Char} (hw : StartsAt hi i w) (hv : v < 62) (hl : lo = digit v :: l)
    (hroom : Room lo hi i) : v ≤ w := by
  by_contra hlt
  have hb : w < base := by
    rw [base_eq]
    omega
  obtain ⟨h, rest, hh, hrest⟩ := hw.exists_drop hb
  have hroom := hroom h hh
  rw [hl, hrest, List.cons_lt_cons_iff] at hroom
  rcases hroom with hlt' | ⟨heq, -⟩
  · exact absurd (digit_lt_digit (by omega : w < v) (by rw [base_eq]; exact hv)) hlt'.asymm
  · have := digit_injOn (by rw [base_eq]; exact hv) hb heq
    omega

theorem loDigitAt_of_nil {lo : Option (List Char)} {i : ℕ} (h : (lo.getD []).drop i = []) :
    loDigitAt lo i = .ok none := by
  have hget : lo.bind (·[i]?) = none := by
    cases lo with
    | none => rfl
    | some lo => exact List.getElem?_eq_none (List.drop_eq_nil_iff.mp h)
  rw [loDigitAt, hget]

theorem loDigitAt_of_cons {lo : Option (List Char)} {i v : ℕ} {l : List Char} (hv : v < base)
    (h : (lo.getD []).drop i = digit v :: l) : loDigitAt lo i = .ok (some v) := by
  have hget : lo.bind (·[i]?) = some (digit v) := by
    cases lo with
    | none => simp at h
    | some lo =>
      rw [Option.getD_some] at h
      rw [Option.bind_some, ← List.head?_drop, h, List.head?_cons]
  rw [loDigitAt, hget]
  simp only [digitIndex_digit hv]
  rfl

/-- The upper bound has not ended where something is below what is left of it. -/
theorem exists_startsAt {l : List Char} {hi : Option (List Char)} {i : ℕ} (hroom : Room l hi i)
    (hrest : ∀ h ∈ hi, IsRest (h.drop i)) : ∃ w, StartsAt hi i w := by
  cases hi with
  | none => exact ⟨base, le_rfl, rfl, by simp⟩
  | some hi =>
    rcases hd : hi.drop i with _ | ⟨c, rest⟩
    · have hlt := hroom hi rfl
      rw [hd] at hlt
      exact absurd hlt (List.not_lt_nil _)
    · have hc := (hrest hi rfl).1 c (by rw [hd]; exact List.mem_cons_self)
      obtain ⟨w, hw, rfl⟩ := exists_digit hc
      have hget : hi[i]? = some (digit w) := by rw [← List.head?_drop, hd, List.head?_cons]
      refine ⟨w, hw.le, ?_, ?_⟩
      · simp only [hiDigitAt, hget, digitIndex_digit hw]
        rfl
      · rintro h ⟨⟩
        exact ⟨hw, rest, hd⟩

/-! ### The whole walk -/

/-- What the walk needs of the rests of its bounds. -/
structure Bounded (lo hi : Option (List Char)) (i : ℕ) : Prop where
  lo_isRest : IsRest ((lo.getD []).drop i)
  hi_isRest : ∀ h ∈ hi, IsRest (h.drop i)
  room : Room ((lo.getD []).drop i) hi i

/-- The number of digits left to walk. -/
def leftToWalk (lo hi : Option (List Char)) (i : ℕ) : ℕ :=
  ((lo.getD []).drop i).length + ((hi.getD []).drop i).length

/-- What the loop returns: what it had written, and a rest between those of its bounds. -/
def FindsBetween (fuel : ℕ) (lo hi : Option (List Char)) (written : List Char) (i : ℕ) : Prop :=
  ∃ t, keyBetweenLoop fuel lo hi written i = .ok (written ++ t) ∧ t ≠ [] ∧ IsRest t ∧
    (lo.getD []).drop i < t ∧ Room t hi i

theorem nil_lt {l : List Char} (h : l ≠ []) : [] < l := by
  obtain ⟨c, rest, rfl⟩ := List.exists_cons_of_ne_nil h
  exact List.nil_lt_cons _ _

/-- **The lower bound has ended**: half the upper digit, or one digit further on. -/
theorem findsBetween_of_nil {fuel i w : ℕ} {lo hi : Option (List Char)} {written : List Char}
    (hl : (lo.getD []).drop i = []) (hb : Bounded lo hi i) (hw : StartsAt hi i w)
    (hfuel : leftToWalk lo hi i < fuel + 1)
    (ih : ∀ written, Bounded lo hi (i + 1) → leftToWalk lo hi (i + 1) < fuel →
      FindsBetween fuel lo hi written (i + 1)) :
    FindsBetween (fuel + 1) lo hi written i := by
  have hloop : keyBetweenLoop (fuel + 1) lo hi written i =
      if 1 < w then pure (written ++ [digit (w / 2)])
      else if w = 1 then pure (written ++ [digit 0, startDigit])
      else keyBetweenLoop fuel lo hi (written ++ [digit 0]) (i + 1) := by
    rw [keyBetweenLoop, loDigitAt_of_nil hl, hw.2.1]
    rfl
  have hwb := hw.1
  rw [base_eq] at hwb
  rcases lt_trichotomy 1 w with hgt | rfl | hlt
  · refine ⟨[digit (w / 2)], ?_, by simp, isRest_singleton (by omega) (by rw [base_eq]; omega), ?_,
      hw.room (by omega)⟩
    · rw [hloop, if_pos hgt]
      rfl
    · rw [hl]
      exact List.nil_lt_cons _ _
  · refine ⟨[digit 0, startDigit], ?_, by simp, ?_, ?_, hw.room Nat.zero_lt_one⟩
    · rw [hloop, if_neg (lt_irrefl 1), if_pos rfl]
      rfl
    · exact isRest_cons (by simp) (by simp) (isRest_singleton (by simp) (by simp))
    · rw [hl]
      exact List.nil_lt_cons _ _
  · obtain rfl : w = 0 := Nat.lt_one_iff.mp hlt
    obtain ⟨h, rest, rfl, hrest⟩ := hw.exists_drop (by simp)
    have hisRest := hb.hi_isRest h rfl
    rw [hrest] at hisRest
    have hnext : h.drop (i + 1) = rest := drop_succ_of_cons hrest
    have hlnext : (lo.getD []).drop (i + 1) = [] := by
      rw [List.drop_eq_nil_iff] at hl ⊢
      omega
    have hbounded : Bounded lo (some h) (i + 1) := by
      refine ⟨by rw [hlnext]; exact isRest_nil, ?_, ?_⟩
      · rintro _ ⟨⟩
        rw [hnext]
        exact hisRest.tail
      · rintro _ ⟨⟩
        rw [hlnext, hnext]
        exact nil_lt hisRest.ne_nil_of_zero
    obtain ⟨t, hok, hne, ht, -, hroom⟩ := ih (written ++ [digit 0]) hbounded (by
      simp only [leftToWalk, hl, hlnext, hrest, hnext, Option.getD_some, List.length_nil,
        List.length_cons] at hfuel ⊢
      omega)
    refine ⟨digit 0 :: t, ?_, by simp, isRest_cons (by simp) hne ht, ?_, hw.room_cons hroom⟩
    · rw [hloop, if_neg (by omega), if_neg (by omega), hok, List.append_assoc]
      rfl
    · rw [hl]
      exact List.nil_lt_cons _ _

/-- **Both bounds go on**: the middle of the two digits, or the lower one and further on,
with the upper bound forgotten if it is above the digit written. -/
theorem findsBetween_of_cons {fuel i v w : ℕ} {lo hi : Option (List Char)} {written l : List Char}
    (hl : (lo.getD []).drop i = digit v :: l) (hv : v < base) (hb : Bounded lo hi i)
    (hw : StartsAt hi i w) (hfuel : leftToWalk lo hi i < fuel + 1)
    (ih : ∀ lo hi written i, Bounded lo hi i → leftToWalk lo hi i < fuel →
      FindsBetween fuel lo hi written i) :
    FindsBetween (fuel + 1) lo hi written i := by
  have hloop : keyBetweenLoop (fuel + 1) lo hi written i =
      if 1 < w - v then pure (written ++ [digit (v + (w - v) / 2)])
      else if w - v = 1 then
        keyBetweenLoop fuel (lo.map (·.drop (i + 1))) none (written ++ [digit v]) 0
      else keyBetweenLoop fuel lo hi (written ++ [digit v]) (i + 1) := by
    rw [keyBetweenLoop, loDigitAt_of_cons hv hl, hw.2.1]
    rfl
  have hwb := hw.1
  rw [base_eq] at hwb hv
  have hlrest := hb.lo_isRest
  rw [hl] at hlrest
  have hlnext : (lo.getD []).drop (i + 1) = l := drop_succ_of_cons hl
  rcases lt_or_ge 1 (w - v) with hgt | hle
  · refine ⟨[digit (v + (w - v) / 2)], ?_, by simp,
      isRest_singleton (by omega) (by rw [base_eq]; omega), ?_, hw.room (by omega)⟩
    · rw [hloop, if_pos hgt]
      rfl
    · rw [hl]
      exact List.cons_lt_cons_iff.mpr
        (Or.inl (digit_lt_digit (by omega) (by rw [base_eq]; omega)))
  rcases eq_or_ne (w - v) 1 with hone | hne
  · have hdrop : ((lo.map (·.drop (i + 1))).getD []).drop 0 = l := by
      cases lo with
      | none => simpa using hlnext
      | some lo => exact hlnext
    have hbounded : Bounded (lo.map (·.drop (i + 1))) none 0 := by
      refine ⟨by rw [hdrop]; exact hlrest.tail, ?_, ?_⟩
      · rintro h ⟨⟩
      · rintro h ⟨⟩
    obtain ⟨t, hok, hne, ht, hlt, -⟩ := ih _ none (written ++ [digit v]) 0 hbounded (by
      simp only [leftToWalk, hl, hdrop, List.length_cons] at hfuel ⊢
      simp only [Option.getD_none, List.drop_nil, List.length_nil]
      omega)
    rw [hdrop] at hlt
    refine ⟨digit v :: t, ?_, by simp, isRest_cons (by rw [base_eq]; exact hv) hne ht, ?_,
      hw.room (by omega)⟩
    · rw [hloop, if_neg (by omega), if_pos hone, hok, List.append_assoc]
      rfl
    · rw [hl]
      exact List.cons_lt_cons_iff.mpr (Or.inr ⟨rfl, hlt⟩)
  · obtain rfl : v = w := le_antisymm (hw.le_of_room hv hl hb.room) (by omega)
    obtain ⟨h, rest, rfl, hrest⟩ := hw.exists_drop (by rw [base_eq]; exact hv)
    have hnext : h.drop (i + 1) = rest := drop_succ_of_cons hrest
    have hbounded : Bounded lo (some h) (i + 1) := by
      refine ⟨by rw [hlnext]; exact hlrest.tail, ?_, ?_⟩
      · rintro _ ⟨⟩
        have hisRest := hb.hi_isRest h rfl
        rw [hrest] at hisRest
        rw [hnext]
        exact hisRest.tail
      · rintro _ ⟨⟩
        have hlt := hb.room h rfl
        rw [hl, hrest, List.cons_lt_cons_iff] at hlt
        rw [hlnext, hnext]
        exact hlt.elim (fun h => absurd h (lt_irrefl _)) And.right
    obtain ⟨t, hok, hne, ht, hlt, hroom⟩ := ih lo (some h) (written ++ [digit v]) (i + 1)
      hbounded (by
        simp only [leftToWalk, hl, hlnext, hrest, hnext, Option.getD_some, List.length_cons]
          at hfuel ⊢
        omega)
    rw [hlnext] at hlt
    refine ⟨digit v :: t, ?_, by simp, isRest_cons (by rw [base_eq]; exact hv) hne ht, ?_,
      hw.room_cons hroom⟩
    · rw [hloop, if_neg (by omega), if_neg (by omega), hok, List.append_assoc]
      rfl
    · rw [hl]
      exact List.cons_lt_cons_iff.mpr (Or.inr ⟨rfl, hlt⟩)

/-- **The walk finds a key between the rests** of its two bounds. -/
theorem keyBetweenLoop_spec (fuel : ℕ) : ∀ (lo hi : Option (List Char)) (written : List Char)
    (i : ℕ), Bounded lo hi i → leftToWalk lo hi i < fuel → FindsBetween fuel lo hi written i := by
  induction fuel with
  | zero => exact fun _ _ _ _ _ h => absurd h (Nat.not_lt_zero _)
  | succ fuel ih =>
    intro lo hi written i hb hfuel
    obtain ⟨w, hw⟩ := exists_startsAt hb.room hb.hi_isRest
    rcases hl : (lo.getD []).drop i with _ | ⟨c, l⟩
    · exact findsBetween_of_nil hl hb hw hfuel fun written => ih lo hi written (i + 1)
    · obtain ⟨v, hv, rfl⟩ := exists_digit
        (hb.lo_isRest.1 c (by rw [hl]; exact List.mem_cons_self))
      exact findsBetween_of_cons hl hv hb hw hfuel ih

/-! ### `keyBetween` -/

/-- Whether a key is between two bounds, of which either may not be there. -/
def Between (lo hi : Option String) (k : String) : Prop :=
  (∀ l ∈ lo, codeUnits l < codeUnits k) ∧ ∀ h ∈ hi, codeUnits k < codeUnits h

instance (lo hi : Option String) (k : String) : Decidable (Between lo hi k) :=
  inferInstanceAs (Decidable (_ ∧ _))

theorem IsKey.isAscii {s : String} (h : IsKey s) : ∀ c ∈ s.toList, IsAscii c :=
  fun c hc => isAscii_of_mem_digits (h.2.1 c hc)

theorem length_getD_map (bound : Option String) :
    ((bound.map String.toList).getD []).length = boundLength bound := by
  cases bound with
  | none => rfl
  | some s => exact String.length_toList

/-- Two bounds in order, or one of them: the loop decides. -/
theorem keyBetween_eq {lo hi : Option String} (hne : lo ≠ none ∨ hi ≠ none)
    (hlt : ∀ l ∈ lo, ∀ h ∈ hi, codeUnits l < codeUnits h) :
    keyBetween lo hi = (keyBetweenLoop (boundLength lo + boundLength hi + 1)
      (lo.map String.toList) (hi.map String.toList) [] 0).map String.ofList := by
  rcases lo with _ | l <;> rcases hi with _ | h
  · simp at hne
  · rfl
  · rfl
  · exact if_pos (hlt l rfl h rfl)

/-- **A key between two keys.** -/
theorem exists_keyBetween {lo hi : Option String} (hlo : ∀ l ∈ lo, IsKey l)
    (hhi : ∀ h ∈ hi, IsKey h) (hlt : ∀ l ∈ lo, ∀ h ∈ hi, codeUnits l < codeUnits h) :
    ∃ k, keyBetween lo hi = .ok k ∧ IsKey k ∧ Between lo hi k := by
  by_cases hne : lo ≠ none ∨ hi ≠ none
  · have hbounded : Bounded (lo.map String.toList) (hi.map String.toList) 0 := by
      refine ⟨?_, ?_, ?_⟩
      · cases lo with
        | none => exact isRest_nil
        | some l => exact (hlo l rfl).2
      · rintro h hh
        obtain ⟨k, hk, rfl⟩ := Option.map_eq_some_iff.mp hh
        exact (hhi k hk).2
      · rintro h hh
        obtain ⟨k, hk, rfl⟩ := Option.map_eq_some_iff.mp hh
        cases lo with
        | none => exact nil_lt (hhi k hk).1
        | some l => exact (codeUnits_lt_iff (hlo l rfl).isAscii (hhi k hk).isAscii).mp (hlt l rfl k hk)
    obtain ⟨t, hok, htne, ht, hlow, hroom⟩ := keyBetweenLoop_spec
      (boundLength lo + boundLength hi + 1) (lo.map String.toList) (hi.map String.toList) [] 0
      hbounded (by
        rw [leftToWalk, List.drop_zero, List.drop_zero, length_getD_map, length_getD_map]
        exact Nat.lt_succ_self _)
    have hkey : IsKey (String.ofList t) := by
      rw [IsKey, String.toList_ofList]
      exact ⟨htne, ht⟩
    refine ⟨String.ofList t, by rw [keyBetween_eq hne hlt, hok]; rfl, hkey, ?_, ?_⟩
    · rintro l rfl
      rw [codeUnits_lt_iff (hlo l rfl).isAscii hkey.isAscii, String.toList_ofList]
      exact hlow
    · rintro h rfl
      rw [codeUnits_lt_iff hkey.isAscii (hhi h rfl).isAscii, String.toList_ofList]
      exact hroom h.toList rfl
  · obtain ⟨rfl, rfl⟩ : lo = none ∧ hi = none := by simpa using hne
    exact ⟨_, rfl, by decide, by decide⟩

/-! ### Lists of keys -/

/-- A list of keys in order. -/
structure Ascending (keys : List String) : Prop where
  isKey : ∀ k ∈ keys, IsKey k
  sorted : keys.Pairwise (codeUnits · < codeUnits ·)

theorem ascending_nil : Ascending [] := ⟨by simp, List.Pairwise.nil⟩

theorem Ascending.cons {k : String} {keys : List String} (h : Ascending keys) (hk : IsKey k)
    (hlt : ∀ k' ∈ keys, codeUnits k < codeUnits k') : Ascending (k :: keys) :=
  ⟨fun c hc => (List.mem_cons.mp hc).elim (fun heq => heq ▸ hk) (h.isKey c),
    List.pairwise_cons.mpr ⟨hlt, h.sorted⟩⟩

/-- **A key between the neighbours of a place** is in order with all the others. -/
theorem Ascending.exists_insert {before after : List String} (h : Ascending (before ++ after)) :
    ∃ k, keyBetween before.getLast? after.head? = .ok k ∧ Ascending (before ++ k :: after) := by
  obtain ⟨hbefore, hafter, hcross⟩ := List.pairwise_append.mp h.sorted
  obtain ⟨k, hok, hkey, hlow, hhigh⟩ := @exists_keyBetween before.getLast? after.head?
    (fun l hl => h.isKey l (List.mem_append_left _ (List.mem_of_getLast? hl)))
    (fun u hu => h.isKey u (List.mem_append_right _ (List.mem_of_head? hu)))
    (fun l hl u hu => hcross l (List.mem_of_getLast? hl) u (List.mem_of_head? hu))
  refine ⟨k, hok, fun c hc => ?_, List.pairwise_append.mpr ⟨hbefore, ?_, fun b hb c hc => ?_⟩⟩
  · rcases List.mem_append.mp hc with hmem | hmem
    · exact h.isKey c (List.mem_append_left _ hmem)
    · rcases List.mem_cons.mp hmem with rfl | hmem
      · exact hkey
      · exact h.isKey c (List.mem_append_right _ hmem)
  · refine List.pairwise_cons.mpr ⟨fun u hu => ?_, hafter⟩
    -- Above the first of those that follow, which is below the rest of them.
    obtain ⟨first, rest, rfl⟩ := List.exists_cons_of_ne_nil (List.ne_nil_of_mem hu)
    have hfirst := hhigh first rfl
    rcases List.mem_cons.mp hu with rfl | hmem
    · exact hfirst
    · exact hfirst.trans (List.rel_of_pairwise_cons hafter hmem)
  · rcases List.mem_cons.mp hc with rfl | hmem
    · obtain ⟨start, last, rfl⟩ : ∃ start last, before = start ++ [last] :=
        ⟨_, _, (List.dropLast_append_getLast (List.ne_nil_of_mem hb)).symm⟩
      have hlast := hlow last (by simp)
      rcases List.mem_append.mp hb with hmem | hmem
      · exact ((List.pairwise_append.mp hbefore).2.2 b hmem last (by simp)).trans hlast
      · rw [List.mem_singleton.mp hmem]
        exact hlast
    · exact hcross b hb c hmem

/-- A list with one more key, inserted at a place between its neighbours there. -/
def insertAt (sequence : List String) (place : ℕ) : Except KeyError (List String) := do
  let lo := if place = 0 then none else sequence[place - 1]?
  let hi := if place = sequence.length then none else sequence[place]?
  let k ← keyBetween lo hi
  pure (sequence.take place ++ k :: sequence.drop place)

theorem insertAt_eq {sequence : List String} {place : ℕ} (h : place ≤ sequence.length) :
    insertAt sequence place = (keyBetween (sequence.take place).getLast?
      (sequence.drop place).head?).map fun k => sequence.take place ++ k :: sequence.drop place := by
  have hlo : (if place = 0 then none else sequence[place - 1]?) =
      (sequence.take place).getLast? := by
    split
    · simp_all
    · rename_i hne
      rw [List.getLast?_take, if_neg hne, List.getElem?_eq_getElem (by omega)]
      rfl
  have hhi : (if place = sequence.length then none else sequence[place]?) =
      (sequence.drop place).head? := by
    rw [List.head?_drop]
    split
    · rw [List.getElem?_eq_none (by omega)]
    · rfl
  rw [insertAt, hlo, hhi]
  rfl

/-- **One insertion**, at any place. -/
theorem Ascending.exists_insertAt {sequence : List String} {place : ℕ} (h : Ascending sequence)
    (hplace : place ≤ sequence.length) :
    ∃ next, insertAt sequence place = .ok next ∧ Ascending next ∧ sequence.Sublist next ∧
      next.length = sequence.length + 1 := by
  rw [← List.take_append_drop place sequence] at h
  obtain ⟨k, hok, hnext⟩ := h.exists_insert
  refine ⟨_, by rw [insertAt_eq hplace, hok]; rfl, hnext, ?_, ?_⟩
  · conv_lhs => rw [← List.take_append_drop place sequence]
    exact (List.sublist_cons_self k _).append_left _
  · simp
    omega

/-- **`keyBetween` is correct**: it finds a valid key strictly between any two valid bounds,
and so any number of insertions, each at any place, can be made one after the other. -/
theorem keyBetween_correct :
    (∀ lo hi : Option String, (∀ l ∈ lo, IsKey l) → (∀ h ∈ hi, IsKey h) →
      (∀ l ∈ lo, ∀ h ∈ hi, codeUnits l < codeUnits h) →
      ∃ k, keyBetween lo hi = .ok k ∧ IsKey k ∧ Between lo hi k) ∧
    ∀ (places : List ℕ) (sequence : List String), Ascending sequence →
      (∀ n (hn : n < places.length), places[n] ≤ sequence.length + n) →
      ∃ final, places.foldlM insertAt sequence = .ok final ∧ Ascending final ∧
        sequence.Sublist final ∧ final.length = sequence.length + places.length := by
  refine ⟨fun lo hi hlo hhi hlt => exists_keyBetween hlo hhi hlt, fun places => ?_⟩
  induction places with
  | nil => exact fun sequence h _ => ⟨sequence, rfl, h, List.Sublist.refl _, rfl⟩
  | cons place places ih =>
    intro sequence h hplaces
    have hplace : place ≤ sequence.length := hplaces 0 (by simp)
    obtain ⟨next, hok, hnext, hsub, hlen⟩ := h.exists_insertAt hplace
    obtain ⟨final, hfinal, hasc, hsub', hlen'⟩ := ih next hnext fun n hn => by
      have hle := hplaces (n + 1) (by simpa using hn)
      rw [List.getElem_cons_succ] at hle
      omega
    refine ⟨final, ?_, hasc, hsub.trans hsub', by rw [hlen', hlen, List.length_cons]; omega⟩
    rw [List.foldlM_cons, hok]
    exact hfinal

/-- Two adjacent digits, and three insertions at the end, the front and the middle. -/
theorem keyBetween_correct_adjacent :
    (∃ k, keyBetween (some "V") (some "W") = .ok k ∧ IsKey k ∧ Between (some "V") (some "W") k) ∧
    ∃ final, [0, 0, 1].foldlM insertAt [] = .ok final ∧ Ascending final ∧
      [].Sublist final ∧ final.length = 0 + 3 :=
  ⟨keyBetween_correct.1 (some "V") (some "W") (by decide) (by decide) (by decide),
    keyBetween_correct.2 [0, 0, 1] [] ascending_nil (by decide)⟩

end Client

end HelixSync
