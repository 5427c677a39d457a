import Mathlib.Algebra.BigOperators.Group.List.Basic
import Mathlib.Tactic.IntervalCases
import Mathlib.Algebra.Order.Ring.Int

/-!
# Civil time

Instants as milliseconds since the epoch, and as dates and times of day in the proleptic Gregorian
calendar (`Civil`), with the text both have in common (`Civil.text`, RFC 3339 with milliseconds; a
year of more than four digits has a sign and six).

* `CivilTime.yearOfDay_spec` – a day lies in its year;
* `Civil.toMillis_ofMillis`, `Civil.valid_ofMillis` – an instant is that of its date and time;
* `Civil.readText_text` – a text can be read back.
-/

namespace CivilTime

/-! ### Years -/

/-- The day a year begins on. -/
def dayFromYear (y : ℤ) : ℤ :=
  365 * (y - 1970) + (y - 1969) / 4 - (y - 1901) / 100 + (y - 1601) / 400

/-- Whether a year has a leap day. -/
def isLeap (y : ℤ) : Bool := y % 4 = 0 && (y % 100 ≠ 0 || y % 400 = 0)

/-- The last year that begins no later than a day. -/
def yearOfDay (day : ℤ) : ℤ :=
  let y := 1971 + 400 * day / 146097
  if dayFromYear y ≤ day then y else if dayFromYear (y - 1) ≤ day then y - 1 else y - 2

theorem dayFromYear_succ (y : ℤ) :
    dayFromYear (y + 1) = dayFromYear y + if isLeap y then 366 else 365 := by
  simp only [dayFromYear, isLeap, Bool.and_eq_true, Bool.or_eq_true, decide_eq_true_eq]
  split_ifs <;> omega

/-- **A day lies in its year.** -/
theorem yearOfDay_spec (day : ℤ) :
    dayFromYear (yearOfDay day) ≤ day ∧ day < dayFromYear (yearOfDay day + 1) := by
  obtain ⟨y, hy⟩ : ∃ y, 1971 + 400 * day / 146097 = y := ⟨_, rfl⟩
  rw [yearOfDay, hy]
  -- the guess is off by less than two years
  by_cases hfirst : dayFromYear y ≤ day
  · rw [if_pos hfirst]
    refine ⟨hfirst, ?_⟩
    rw [dayFromYear]
    omega
  · rw [if_neg hfirst]
    by_cases hsecond : dayFromYear (y - 1) ≤ day
    · rw [if_pos hsecond, Int.sub_add_cancel]
      exact ⟨hsecond, not_le.mp hfirst⟩
    · rw [if_neg hsecond, show y - 2 + 1 = y - 1 by omega]
      refine ⟨?_, not_le.mp hsecond⟩
      rw [dayFromYear]
      omega

theorem yearOfDay_mono {day y : ℤ} (h : day < dayFromYear (y + 1)) : yearOfDay day ≤ y := by
  have hstart := (yearOfDay_spec day).1
  simp only [dayFromYear] at h hstart
  omega

/-! ### Months -/

/-- The lengths of the months of a year. -/
def monthLengths (leap : Bool) : List ℕ :=
  [31, if leap then 29 else 28, 31, 30, 31, 30, 31, 31, 30, 31, 30, 31]

/-- The stretch a position falls into, and the position in it. -/
def locate : List ℕ → ℕ → ℕ × ℕ
  | [], n => (0, n)
  | length :: lengths, n =>
    if n < length then (0, n)
    else ((locate lengths (n - length)).1 + 1, (locate lengths (n - length)).2)

/-- The position at which a stretch begins, and a position in it. -/
theorem sum_take_locate (lengths : List ℕ) (n : ℕ) :
    (lengths.take (locate lengths n).1).sum + (locate lengths n).2 = n := by
  induction lengths generalizing n with
  | nil => simp [locate]
  | cons length lengths ih =>
    rw [locate]
    split_ifs with hlt
    · simp
    · have := ih (n - length)
      rw [List.take_succ_cons, List.sum_cons]
      omega

/-- A position before the end falls into a stretch. -/
theorem locate_lt (lengths : List ℕ) {n : ℕ} (h : n < lengths.sum) :
    ∃ length, lengths[(locate lengths n).1]? = some length ∧ (locate lengths n).2 < length := by
  induction lengths generalizing n with
  | nil => simp at h
  | cons length lengths ih =>
    rw [List.sum_cons] at h
    rw [locate]
    split_ifs with hlt
    · exact ⟨length, rfl, hlt⟩
    · exact ih (by omega)

theorem sum_monthLengths (leap : Bool) : (monthLengths leap).sum = if leap then 366 else 365 := by
  cases leap <;> rfl

end CivilTime

open CivilTime

/-- A date and a time of day. -/
structure Civil where
  year : ℤ
  month : ℕ
  day : ℕ
  hour : ℕ
  minute : ℕ
  second : ℕ
  milli : ℕ
  deriving DecidableEq

namespace Civil

/-- The date exists, and so does the time of day. -/
structure Valid (c : Civil) : Prop where
  month : 1 ≤ c.month
  day : 1 ≤ c.day
  date : ∃ length, (monthLengths (isLeap c.year))[c.month - 1]? = some length ∧ c.day ≤ length
  hour : c.hour < 24
  minute : c.minute < 60
  second : c.second < 60
  milli : c.milli < 1000

/-- The milliseconds since the epoch. -/
def toMillis (c : Civil) : ℤ :=
  (dayFromYear c.year + ((monthLengths (isLeap c.year)).take (c.month - 1)).sum + (c.day - 1 : ℕ)) *
      86400000 +
    (c.hour * 3600000 + c.minute * 60000 + c.second * 1000 + c.milli)

/-- The date and time of an instant. -/
def ofMillis (ms : ℤ) : Civil :=
  let day := ms / 86400000
  let ofDay := (ms % 86400000).toNat
  let year := yearOfDay day
  let monthDay := locate (monthLengths (isLeap year)) (day - dayFromYear year).toNat
  { year := year
    month := monthDay.1 + 1
    day := monthDay.2 + 1
    hour := ofDay / 3600000
    minute := ofDay / 60000 % 60
    second := ofDay / 1000 % 60
    milli := ofDay % 1000 }

/-- **An instant is that of its date and time.** -/
theorem toMillis_ofMillis (ms : ℤ) : (ofMillis ms).toMillis = ms := by
  obtain ⟨hstart, -⟩ := yearOfDay_spec (ms / 86400000)
  have hlocate := sum_take_locate (monthLengths (isLeap (yearOfDay (ms / 86400000))))
    (ms / 86400000 - dayFromYear (yearOfDay (ms / 86400000))).toNat
  simp only [toMillis, ofMillis, Nat.add_sub_cancel]
  omega

/-- The date and time of an instant are valid. -/
theorem valid_ofMillis (ms : ℤ) : (ofMillis ms).Valid := by
  obtain ⟨hstart, hend⟩ := yearOfDay_spec (ms / 86400000)
  have hin : (ms / 86400000 - dayFromYear (yearOfDay (ms / 86400000))).toNat <
      (monthLengths (isLeap (yearOfDay (ms / 86400000)))).sum := by
    rw [dayFromYear_succ] at hend
    rw [sum_monthLengths]
    split_ifs at hend ⊢ <;> omega
  obtain ⟨length, hmonth, hday⟩ := locate_lt _ hin
  have hofDay : (ms % 86400000).toNat < 86400000 := by omega
  constructor
  · exact Nat.le_add_left 1 _
  · exact Nat.le_add_left 1 _
  · exact ⟨length, hmonth, hday⟩
  · exact Nat.div_lt_of_lt_mul hofDay
  · exact Nat.mod_lt _ (by decide)
  · exact Nat.mod_lt _ (by decide)
  · exact Nat.mod_lt _ (by decide)

/-! ### Texts -/

/-- A decimal digit. -/
def digit (n : ℕ) : Char := Nat.digitChar (n % 10)

theorem toNat_digit (n : ℕ) : (digit n).toNat = 48 + n % 10 := by
  have hlt : n % 10 < 10 := Nat.mod_lt _ (by decide)
  rw [digit]
  generalize n % 10 = d at hlt
  interval_cases d <;> rfl

/-- The last digits of a number. -/
def digits : ℕ → ℕ → List Char
  | 0, _ => []
  | width + 1, n => digits width (n / 10) ++ [digit n]

/-- The number some digits spell. -/
def readDigits (text : List Char) : ℕ := text.foldl (fun n c => 10 * n + (c.toNat - 48)) 0

theorem readDigits_digits (width n : ℕ) : readDigits (digits width n) = n % 10 ^ width := by
  induction width generalizing n with
  | zero => rw [digits, readDigits, List.foldl_nil, pow_zero, Nat.mod_one]
  | succ width ih =>
    have hlast : readDigits (digits width (n / 10) ++ [digit n]) =
        10 * readDigits (digits width (n / 10)) + n % 10 := by
      simp [readDigits, toNat_digit]
    rw [digits, hlast, ih, Nat.pow_succ', Nat.mod_mul]
    omega

@[simp] theorem length_digits (width n : ℕ) : (digits width n).length = width := by
  induction width generalizing n with
  | zero => rfl
  | succ width ih => rw [digits, List.length_append, ih, List.length_singleton]

/-- A year: four digits, or a sign and six. -/
def yearText (year : ℤ) : List Char :=
  if 0 ≤ year ∧ year ≤ 9999 then digits 4 year.toNat
  else (if year < 0 then '-' else '+') :: digits 6 year.natAbs

/-- The text of a date and time, in UTC. -/
def text (c : Civil) : String :=
  String.ofList (yearText c.year ++ '-' :: digits 2 c.month ++ '-' :: digits 2 c.day ++
    'T' :: digits 2 c.hour ++ ':' :: digits 2 c.minute ++ ':' :: digits 2 c.second ++
    '.' :: digits 3 c.milli ++ ['Z'])

/-- The date and time of a text. -/
def readText (text : String) : Civil :=
  let chars := text.toList
  let signed := chars.head? = some '-' ∨ chars.head? = some '+'
  let year : ℤ := readDigits (if signed then chars.tail.take 6 else chars.take 4)
  let rest := chars.drop (if signed then 7 else 4)
  { year := if chars.head? = some '-' then -year else year
    month := readDigits ((rest.drop 1).take 2)
    day := readDigits ((rest.drop 4).take 2)
    hour := readDigits ((rest.drop 7).take 2)
    minute := readDigits ((rest.drop 10).take 2)
    second := readDigits ((rest.drop 13).take 2)
    milli := readDigits ((rest.drop 16).take 3) }

/-- A digit is no sign. -/
theorem digit_ne_sign (n : ℕ) : digit n ≠ '-' ∧ digit n ≠ '+' := by
  have h := toNat_digit n
  constructor <;>
  · intro hsign
    rw [hsign] at h
    change (_ : ℕ) = _ at h
    simp at h
    omega

/-- Everything after the year. -/
def restText (c : Civil) : List Char :=
  '-' :: digits 2 c.month ++ '-' :: digits 2 c.day ++ 'T' :: digits 2 c.hour ++
    ':' :: digits 2 c.minute ++ ':' :: digits 2 c.second ++ '.' :: digits 3 c.milli ++ ['Z']

theorem toList_text (c : Civil) : c.text.toList = yearText c.year ++ restText c := by
  rw [text, String.toList_ofList, restText]
  simp only [List.append_assoc, List.cons_append]

/-- The year, and where the rest begins. -/
theorem readYear_text {year : ℤ} (h : year.natAbs < 1000000) (rest : List Char) :
    let chars := yearText year ++ rest
    let signed := chars.head? = some '-' ∨ chars.head? = some '+'
    (if chars.head? = some '-' then
        -(readDigits (if signed then chars.tail.take 6 else chars.take 4) : ℤ)
      else readDigits (if signed then chars.tail.take 6 else chars.take 4)) = year ∧
      chars.drop (if signed then 7 else 4) = rest := by
  by_cases hfour : 0 ≤ year ∧ year ≤ 9999
  · have hhead : (yearText year ++ rest).head? = some (digit (year.toNat / 1000)) := by
      rw [yearText, if_pos hfour]
      simp only [digits, Nat.div_div_eq_div_mul]
      rfl
    obtain ⟨hminus, hplus⟩ := digit_ne_sign (year.toNat / 1000)
    simp only [hhead, Option.some.injEq, hminus, hplus, or_self, if_false]
    rw [yearText, if_pos hfour, List.take_left' (length_digits 4 _), readDigits_digits,
      List.drop_left' (length_digits 4 _)]
    exact ⟨by omega, rfl⟩
  · have hmod : year.natAbs % 10 ^ 6 = year.natAbs := Nat.mod_eq_of_lt h
    rw [yearText, if_neg hfour]
    by_cases hneg : year < 0
    · simp only [hneg, if_true, List.cons_append, List.head?_cons, List.tail_cons, true_or,
        List.drop_succ_cons, List.take_left' (length_digits 6 _),
        List.drop_left' (length_digits 6 _), readDigits_digits, hmod, and_true]
      omega
    · simp only [hneg, if_false, List.cons_append, List.head?_cons, List.tail_cons, or_true, if_true,
        List.drop_succ_cons, List.take_left' (length_digits 6 _),
        List.drop_left' (length_digits 6 _), readDigits_digits, hmod, and_true, Option.some.injEq,
        show ('+' : Char) ≠ '-' by decide]
      omega

/-- **A text can be read back.** -/
theorem readText_text {c : Civil} (h : c.Valid) (hyear : c.year.natAbs < 1000000) :
    readText c.text = c := by
  obtain ⟨hmonth, -, ⟨length, hlength, hday⟩, hhour, hminute, hsecond, hmilli⟩ := h
  obtain ⟨hread, hdrop⟩ := readYear_text hyear (restText c)
  have hmonthLt : c.month < 100 := by
    have := (List.getElem?_eq_some_iff.mp hlength).1
    simp only [monthLengths, List.length_cons, List.length_nil] at this
    omega
  have hdayLt : c.day < 100 := by
    have hmem := List.mem_of_getElem? hlength
    have : ∀ leap, ∀ length ∈ monthLengths leap, length ≤ 31 := by decide
    have := this _ _ hmem
    omega
  rw [readText]
  simp only [toList_text, hread, hdrop]
  have htwo : ∀ n, n < 100 → readDigits (digits 2 n) = n := fun n hn =>
    (readDigits_digits 2 n).trans (Nat.mod_eq_of_lt hn)
  have hthree : readDigits (digits 3 c.milli) = c.milli :=
    (readDigits_digits 3 c.milli).trans (Nat.mod_eq_of_lt hmilli)
  obtain ⟨year, month, day, hour, minute, second, milli⟩ := c
  rw [Civil.mk.injEq]
  exact ⟨rfl, htwo month hmonthLt, htwo day hdayLt, htwo hour (hhour.trans (by decide)),
    htwo minute (hminute.trans (by decide)), htwo second (hsecond.trans (by decide)), hthree⟩

end Civil
