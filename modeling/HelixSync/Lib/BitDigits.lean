import Mathlib.Data.Nat.Digits.Defs
import Mathlib.Data.Nat.Digits.Lemmas
import Mathlib.Tactic.Ring

/-!
# Regrouping the bits of a number

The digits of a number in base `2 ^ w`, most significant first, are read one at a time and written in
base `2 ^ v`. The reader shifts each digit into an accumulator, and takes the top `v` bits of what
is still owed as soon as there are that many.

What has to hold in between is `Owes`: the number read is the number written, followed by the low
bits of the accumulator that are still owed. Of the bits above them nothing is asked, so an
accumulator may keep bits that have been written, drop them, or run over.

* `Owes.push`, `Owes.emit`, `Owes.congr` – the steps of a regrouping;
* `Owes.number_eq_of_even` – where no bit is owed at the end, both numbers are the same;
* `eq_of_number_eq` – the digits of one length are determined by their number;
* `toNat_shiftIn_mod`, `toNat_field` – an accumulator of fixed width holds the low bits of what it
  should, and a field of them is a digit.
-/

namespace BitDigits

/-- The number that digits of `w` bits spell, the most significant first. -/
def number (w : ℕ) (digits : List ℕ) : ℕ := Nat.ofDigits (2 ^ w) digits.reverse

@[simp] theorem number_nil (w : ℕ) : number w [] = 0 := rfl

@[simp] theorem number_concat (w : ℕ) (digits : List ℕ) (d : ℕ) :
    number w (digits ++ [d]) = number w digits * 2 ^ w + d := by
  rw [number, List.reverse_append, List.reverse_singleton, List.singleton_append,
    Nat.ofDigits_cons, ← number]
  ring

/-- Digits of one length that spell one number are the same. -/
theorem eq_of_number_eq {w : ℕ} (hw : 0 < w) {digits digits' : List ℕ}
    (hlength : digits.length = digits'.length) (hlt : ∀ d ∈ digits, d < 2 ^ w)
    (hlt' : ∀ d ∈ digits', d < 2 ^ w) (h : number w digits = number w digits') :
    digits = digits' := by
  refine List.reverse_injective (Nat.ofDigits_inj_of_len_eq (Nat.one_lt_two_pow hw.ne') ?_ ?_ ?_ h)
  · rw [List.length_reverse, List.length_reverse, hlength]
  · exact fun d hd => hlt d (List.mem_reverse.mp hd)
  · exact fun d hd => hlt' d (List.mem_reverse.mp hd)

/-- The state of a regrouping: of what was read, the low `bits` bits of the accumulator are still to
be written. -/
structure Owes (w v : ℕ) (read written : List ℕ) (bits value : ℕ) : Prop where
  length_eq : w * read.length = v * written.length + bits
  number_eq : number w read = number v written * 2 ^ bits + value % 2 ^ bits
  written_lt : ∀ d ∈ written, d < 2 ^ v

variable {w v bits value : ℕ} {read written : List ℕ}

/-- At the start nothing is owed, whatever the accumulator holds. -/
theorem owes_nil (w v value : ℕ) : Owes w v [] [] 0 value where
  length_eq := rfl
  number_eq := by simp [Nat.mod_one]
  written_lt := fun _ hd => absurd hd List.not_mem_nil

/-- The bits above those that are owed do not matter. -/
theorem Owes.congr (h : Owes w v read written bits value) {value' : ℕ}
    (hvalue : value' % 2 ^ bits = value % 2 ^ bits) : Owes w v read written bits value' where
  length_eq := h.length_eq
  number_eq := hvalue ▸ h.number_eq
  written_lt := h.written_lt

/-- A digit is shifted into the accumulator. -/
theorem Owes.push (h : Owes w v read written bits value) {d : ℕ} (hd : d < 2 ^ w) :
    Owes w v (read ++ [d]) written (bits + w) (value * 2 ^ w + d) where
  length_eq := by
    rw [List.length_append, List.length_singleton, Nat.mul_add, h.length_eq, Nat.mul_one]
    ring
  number_eq := by
    -- the digit fills the low bits, the ones owed before move up
    have hmod : (value * 2 ^ w + d) % 2 ^ (bits + w) = value % 2 ^ bits * 2 ^ w + d := by
      have hdiv : (value * 2 ^ w + d) / 2 ^ w = value := by
        rw [Nat.add_comm, Nat.add_mul_div_right _ _ (Nat.two_pow_pos w), Nat.div_eq_of_lt hd,
          Nat.zero_add]
      rw [Nat.add_comm bits w, pow_add, Nat.mod_mul, Nat.mul_add_mod_of_lt hd, hdiv]
      ring
    rw [number_concat, h.number_eq, hmod, pow_add]
    ring
  written_lt := h.written_lt

/-- The top digit of what is owed is written. -/
theorem Owes.emit (h : Owes w v read written bits value) (hbits : v ≤ bits) :
    Owes w v read (written ++ [value / 2 ^ (bits - v) % 2 ^ v]) (bits - v) value where
  length_eq := by
    rw [h.length_eq, List.length_append, List.length_singleton, Nat.mul_add]
    omega
  number_eq := by
    have hmod : value % 2 ^ bits =
        value / 2 ^ (bits - v) % 2 ^ v * 2 ^ (bits - v) + value % 2 ^ (bits - v) := by
      conv_lhs => rw [← Nat.sub_add_cancel hbits, pow_add, Nat.mod_mul]
      ring
    have hpow : 2 ^ bits = 2 ^ v * 2 ^ (bits - v) := by
      rw [← pow_add, Nat.add_sub_cancel' hbits]
    rw [h.number_eq, number_concat, hmod, hpow]
    ring
  written_lt := by
    intro d hd
    rcases List.mem_append.mp hd with hd | hd
    · exact h.written_lt d hd
    · rw [List.mem_singleton.mp hd]
      exact Nat.mod_lt _ (Nat.two_pow_pos v)

/-- Where no bit is left to write, what was written is what was read. -/
theorem Owes.number_eq_of_even (h : Owes w v read written 0 value) :
    number w read = number v written := by
  rw [h.number_eq, pow_zero, Nat.mod_one, Nat.mul_one, Nat.add_zero]

/-! ### Accumulators of fixed width -/

/-- The bits that a digit leaves room for are those of the digit. -/
theorem shiftLeft_mod_or {n w d : ℕ} (hw : w ≤ n) (hd : d < 2 ^ w) (x : ℕ) :
    x * 2 ^ w % 2 ^ n ||| d = x * 2 ^ w % 2 ^ n + d := by
  have hshift : x * 2 ^ w % 2 ^ n = (x % 2 ^ (n - w)) <<< w := by
    rw [Nat.shiftLeft_eq, ← Nat.mul_mod_mul_right, ← pow_add, Nat.sub_add_cancel hw]
  rw [hshift, Nat.shiftLeft_add_eq_or_of_lt hd]

/-- What runs over at the top does not change the low bits. -/
theorem toNat_shiftIn_mod {n w k d : ℕ} (hw : w ≤ n) (hk : k ≤ n) (hd : d < 2 ^ w)
    (x : BitVec n) :
    (x <<< w ||| BitVec.ofNat n d).toNat % 2 ^ k = (x.toNat * 2 ^ w + d) % 2 ^ k := by
  have hdn : d < 2 ^ n := hd.trans_le (Nat.pow_le_pow_right Nat.two_pos hw)
  rw [BitVec.toNat_or, BitVec.toNat_shiftLeft, BitVec.toNat_ofNat, Nat.mod_eq_of_lt hdn,
    Nat.shiftLeft_eq, shiftLeft_mod_or hw hd, Nat.add_mod, Nat.mod_mod_of_dvd _ (pow_dvd_pow 2 hk),
    ← Nat.add_mod]

/-- A mask keeps the low bits. -/
theorem toNat_mask {n w : ℕ} (hw : w ≤ n) (x : BitVec n) :
    (x &&& BitVec.ofNat n (2 ^ w - 1)).toNat = x.toNat % 2 ^ w := by
  have hmask : 2 ^ w - 1 < 2 ^ n :=
    (Nat.sub_lt (Nat.two_pow_pos w) Nat.one_pos).trans_le (Nat.pow_le_pow_right Nat.two_pos hw)
  rw [BitVec.toNat_and, BitVec.toNat_ofNat, Nat.mod_eq_of_lt hmask, Nat.and_two_pow_sub_one_eq_mod]

/-- The digit that starts at a bit. -/
theorem toNat_field {n w : ℕ} (hw : w ≤ n) (x : BitVec n) (start : ℕ) :
    (x >>> start &&& BitVec.ofNat n (2 ^ w - 1)).toNat = x.toNat / 2 ^ start % 2 ^ w := by
  rw [toNat_mask hw, BitVec.toNat_ushiftRight, Nat.shiftRight_eq_div_pow]

end BitDigits
