import HelixSync.Lib.BitDigits
import HelixSync.Lib.CodeUnits
import Mathlib.Data.List.GetD

/-!
# Recovery codes and phrases

A recovery code is 20 random bytes, written with 32 digits of Crockford's base 32 in groups of four
(`web/src/crypto/index.ts`). What the user types back is read leniently: in either case, with
spaces and dashes anywhere, an I or an L for a 1 and an O for a 0. The extension writes
fingerprints with a loop of its own (`extension/src/crypto/index.ts`).

All loops keep the bits they have not written yet in an accumulator of 32 bits. The encoders never
clear it, so bits that were written long ago run over at the top; the parser keeps the low twelve.
Both are regroupings of one number (`BitDigits.Owes`), and so a text spells bytes
(`HelixSync.Client.SpellsBytes`) exactly if it is what the encoder writes, and what the parser
reads.
-/

namespace HelixSync

namespace Client

/-! ### Writing -/

/-- `CROCKFORD_ALPHABET`. -/
def crockfordAlphabet : List Char := "0123456789ABCDEFGHJKMNPQRSTVWXYZ".toList

/-- The character at an index of the alphabet. -/
def crockfordDigit (v : ℕ) : Char := crockfordAlphabet.getD v '0'

/-- The variables of the encoding loop. -/
structure Encoding where
  bits : ℕ
  value : BitVec 32
  out : List Char

/-- The inner loop: a digit for every five bits. A shift counts modulo 32. -/
def writeDigits (value : BitVec 32) : ℕ → List Char → ℕ × List Char
  | bits + 5, out =>
    writeDigits value bits (out ++ [crockfordDigit (value >>> (bits % 32) &&& 31).toNat])
  | bits, out => (bits, out)

/-- One byte of the encoding loop. -/
def Encoding.step (s : Encoding) (byte : UInt8) : Encoding :=
  let value := s.value <<< 8 ||| BitVec.ofNat 32 byte.toNat
  let written := writeDigits value (s.bits + 8) s.out
  ⟨written.1, value, written.2⟩

def toCrockford (bytes : List UInt8) : List Char := (bytes.foldl Encoding.step ⟨0, 0, []⟩).out

/-- The matches of `/.{1,4}/g` in a text without line breaks. -/
def matchUpToFour : List Char → List (List Char)
  | a :: b :: c :: d :: rest => [a, b, c, d] :: matchUpToFour rest
  | [] => []
  | rest => [rest]

/-- The matches of `/.{4}/g` in a text without line breaks. -/
def matchFour : List Char → List (List Char)
  | a :: b :: c :: d :: rest => [a, b, c, d] :: matchFour rest
  | _ => []

/-- `match(…)!.join("-")`, which throws if there is no match. -/
def joinMatches : List (List Char) → Option (List Char)
  | [] => none
  | groups => some (['-'].intercalate groups)

def groupsOfFour (text : List Char) : Option (List Char) := joinMatches (matchUpToFour text)

def formatRecoveryCode (bytes : List UInt8) : Option (List Char) := groupsOfFour (toCrockford bytes)

/-- The extension's phrase, which has the loop of `toCrockford` inside. -/
def crockfordPhrase (bytes : List UInt8) : Option (List Char) :=
  joinMatches (matchFour ((bytes.take 10).foldl Encoding.step ⟨0, 0, []⟩).out)

/-! ### Reading -/

/-- `RECOVERY_CODE_BYTES`. -/
def recoveryCodeBytes : ℕ := 20

/-- `RECOVERY_CODE_CHARS`. -/
def recoveryCodeChars : ℕ := recoveryCodeBytes * 8 / 5

/-- `LocalizedError`, with the character that it may name. -/
structure LocalizedError where
  key : String
  char : Option Char
  deriving DecidableEq

/-- `\s` of a regular expression. -/
def isSpace (c : Char) : Bool :=
  [0x09, 0x0A, 0x0B, 0x0C, 0x0D, 0x20, 0xA0, 0x1680, 0x2000, 0x2001, 0x2002, 0x2003, 0x2004, 0x2005,
    0x2006, 0x2007, 0x2008, 0x2009, 0x200A, 0x2028, 0x2029, 0x202F, 0x205F, 0x3000, 0xFEFF].contains
    c.toNat

/-- `[\s-]`. -/
def isSeparator (c : Char) : Bool := isSpace c || c == '-'

/-- What a code is compared in: upper case, without separators, with digits for the letters that
look like them. -/
def normalized (toUpperCase : List Char → List Char) (input : List Char) : List Char :=
  (((toUpperCase input).filter fun c => !isSeparator c).map
    fun c => if c = 'I' ∨ c = 'L' then '1' else c).map fun c => if c = 'O' then '0' else c

/-- The variables of the parsing loop. -/
structure Decoding where
  bits : ℕ
  value : BitVec 32
  index : ℕ
  bytes : List UInt8

/-- One digit of the parsing loop. -/
def Decoding.step (s : Decoding) (digit : ℕ) : Decoding :=
  let value := (s.value <<< 5 ||| BitVec.ofNat 32 digit) &&& 0xfff
  let bits := s.bits + 5
  if 8 ≤ bits then
    ⟨bits - 8, value, s.index + 1,
      s.bytes.set s.index (UInt8.ofNat (value >>> ((bits - 8) % 32) &&& 0xff).toNat)⟩
  else ⟨bits, value, s.index, s.bytes⟩

/-- The parsing loop. -/
def readDigits : Decoding → List Char → Except LocalizedError Decoding
  | s, [] => .ok s
  | s, char :: chars =>
    match crockfordAlphabet.idxOf? char with
    | none => .error ⟨"errors.codeChar", some char⟩
    | some digit => readDigits (s.step digit) chars

/-- `length` of a string, which counts code units. -/
def codeUnitLength (text : List Char) : ℕ := (text.flatMap CodeUnits.utf16).length

def parseRecoveryCode (toUpperCase : List Char → List Char) (input : List Char) :
    Except LocalizedError (List UInt8) :=
  if codeUnitLength (normalized toUpperCase input) ≠ recoveryCodeChars then
    .error ⟨"errors.codeLength", none⟩
  else
    match readDigits ⟨0, 0, 0, List.replicate recoveryCodeBytes 0⟩ (normalized toUpperCase input) with
    | .error e => .error e
    | .ok s => .ok s.bytes

/-! ### What a text spells -/

/-- The text is the big-endian numeral of the bytes in base 32. -/
def SpellsBytes (text : List Char) (bytes : List UInt8) : Prop :=
  ∃ digits : List ℕ, text = digits.map crockfordDigit ∧ (∀ d ∈ digits, d < 32) ∧
    5 * digits.length = 8 * bytes.length ∧
    Nat.ofDigits 32 digits.reverse = Nat.ofDigits 256 (bytes.map UInt8.toNat).reverse

theorem crockfordDigit_eq {v : ℕ} (h : v < crockfordAlphabet.length) :
    crockfordDigit v = crockfordAlphabet[v] :=
  List.getD_eq_getElem _ _ h

theorem crockfordDigit_mem {v : ℕ} (h : v < 32) : crockfordDigit v ∈ crockfordAlphabet := by
  rw [crockfordDigit_eq h]
  exact List.getElem_mem _

/-- What holds of the 32 digits holds of the characters of the alphabet. -/
theorem forall_crockfordDigit {P : Char → Prop} (h : ∀ v < 32, P (crockfordDigit v)) :
    ∀ c ∈ crockfordAlphabet, P c := by
  intro c hc
  obtain ⟨v, hv, rfl⟩ := List.mem_iff_getElem.mp hc
  exact crockfordDigit_eq hv ▸ h v hv

theorem idxOf_crockfordDigit {v : ℕ} (h : v < 32) :
    crockfordAlphabet.idxOf? (crockfordDigit v) = some v :=
  (show ∀ v < 32, crockfordAlphabet.idxOf? (crockfordDigit v) = some v by decide +kernel) v h

/-- A character of the alphabet is the digit at its index. -/
theorem crockfordDigit_of_idxOf {c : Char} {v : ℕ} (h : crockfordAlphabet.idxOf? c = some v) :
    v < 32 ∧ crockfordDigit v = c := by
  have hmem : c ∈ crockfordAlphabet := by
    by_contra hnot
    rw [List.idxOf?_eq_none_iff.mpr hnot] at h
    exact absurd h (by simp)
  refine forall_crockfordDigit (P := fun c => crockfordAlphabet.idxOf? c = some v →
    v < 32 ∧ crockfordDigit v = c) (fun v' hv' h => ?_) c hmem h
  rw [idxOf_crockfordDigit hv', Option.some.injEq] at h
  exact h ▸ ⟨hv', rfl⟩

/-- The digits of a text are determined. -/
theorem map_crockfordDigit_inj {digits digits' : List ℕ} (h : ∀ d ∈ digits, d < 32)
    (h' : ∀ d ∈ digits', d < 32) (heq : digits.map crockfordDigit = digits'.map crockfordDigit) :
    digits = digits' := by
  have hread {digits : List ℕ} (h : ∀ d ∈ digits, d < 32) :
      (digits.map crockfordDigit).map crockfordAlphabet.idxOf? = digits.map some := by
    rw [List.map_map]
    exact List.map_congr_left fun d hd => idxOf_crockfordDigit (h d hd)
  have hsome := (hread h).symm.trans ((congrArg _ heq).trans (hread h'))
  exact List.map_injective_iff.mpr (Option.some_injective ℕ) hsome

/-- A text spells one sequence of bytes at most. -/
theorem SpellsBytes.bytes_unique {text : List Char} {bytes bytes' : List UInt8}
    (h : SpellsBytes text bytes) (h' : SpellsBytes text bytes') : bytes = bytes' := by
  obtain ⟨digits, htext, hlt, hlength, hnumber⟩ := h
  obtain ⟨digits', htext', hlt', hlength', hnumber'⟩ := h'
  obtain rfl := map_crockfordDigit_inj hlt hlt' (htext.symm.trans htext')
  have hbytes {bytes : List UInt8} : ∀ d ∈ bytes.map UInt8.toNat, d < 2 ^ 8 := by
    intro d hd
    obtain ⟨b, -, rfl⟩ := List.mem_map.mp hd
    exact b.toNat_lt
  refine List.map_injective_iff.mpr (fun _ _ => UInt8.toNat_inj.mp)
    (BitDigits.eq_of_number_eq (w := 8) (by decide) ?_ hbytes hbytes (hnumber.symm.trans hnumber'))
  rw [List.length_map, List.length_map]
  omega

/-- Bytes are spelt by one text at most. -/
theorem SpellsBytes.text_unique {text text' : List Char} {bytes : List UInt8}
    (h : SpellsBytes text bytes) (h' : SpellsBytes text' bytes) : text = text' := by
  obtain ⟨digits, rfl, hlt, hlength, hnumber⟩ := h
  obtain ⟨digits', rfl, hlt', hlength', hnumber'⟩ := h'
  refine congrArg (List.map crockfordDigit)
    (BitDigits.eq_of_number_eq (w := 5) (by decide) ?_ hlt hlt' (hnumber.trans hnumber'.symm))
  omega

/-! ### The encoding loop -/

/-- Between two bytes: what has been written, and the bits that are owed, are what has been read. -/
def Encoding.Follows (s : Encoding) (read : List UInt8) : Prop :=
  s.bits < 5 ∧ ∃ digits, s.out = digits.map crockfordDigit ∧
    BitDigits.Owes 8 5 (read.map UInt8.toNat) digits s.bits s.value.toNat

/-- The inner loop writes digits as long as five bits are owed. -/
theorem writeDigits_owes {value : BitVec 32} {read : List ℕ} {bits : ℕ} {digits : List ℕ}
    (hbits : bits ≤ 32) (h : BitDigits.Owes 8 5 read digits bits value.toNat) :
    ∃ digits', (writeDigits value bits (digits.map crockfordDigit)).2 =
        digits'.map crockfordDigit ∧
      (writeDigits value bits (digits.map crockfordDigit)).1 < 5 ∧
      BitDigits.Owes 8 5 read digits'
        (writeDigits value bits (digits.map crockfordDigit)).1 value.toNat := by
  induction bits using Nat.strong_induction_on generalizing digits with
  | _ bits ih =>
    by_cases hmore : 5 ≤ bits
    · obtain ⟨left, rfl⟩ := Nat.exists_eq_add_of_le' hmore
      have hemit := h.emit (by omega)
      rw [Nat.add_sub_cancel] at hemit
      have hwrite : writeDigits value (left + 5) (digits.map crockfordDigit) =
          writeDigits value left
            ((digits ++ [value.toNat / 2 ^ left % 2 ^ 5]).map crockfordDigit) := by
        have hfield := BitDigits.toNat_field (w := 5) (by decide) value left
        rw [writeDigits, Nat.mod_eq_of_lt (show left < 32 by omega), List.map_append,
          List.map_singleton, ← hfield]
        rfl
      rw [hwrite]
      exact ih left (by omega) (by omega) hemit
    · have hstop : writeDigits value bits (digits.map crockfordDigit) =
          (bits, digits.map crockfordDigit) := by
        rw [writeDigits]
        rintro left rfl
        omega
      rw [hstop]
      exact ⟨digits, rfl, by omega, h⟩

/-- **One byte of the encoding loop.** The shift may push bits out at the top: they have been
written. -/
theorem Encoding.Follows.step {s : Encoding} {read : List UInt8} (h : s.Follows read)
    (byte : UInt8) : (s.step byte).Follows (read ++ [byte]) := by
  obtain ⟨hbits, digits, hout, howes⟩ := h
  have hpush : BitDigits.Owes 8 5 ((read ++ [byte]).map UInt8.toNat) digits (s.bits + 8)
      (s.value <<< 8 ||| BitVec.ofNat 32 byte.toNat).toNat := by
    rw [List.map_append, List.map_singleton]
    exact (howes.push byte.toNat_lt).congr
      (BitDigits.toNat_shiftIn_mod (by omega) (by omega) byte.toNat_lt s.value)
  obtain ⟨digits', hwritten, hleft, howes'⟩ := writeDigits_owes (by omega) hpush
  rw [Encoding.step, hout]
  exact ⟨hleft, digits', hwritten, howes'⟩

theorem follows_foldl (bytes : List UInt8) :
    (bytes.foldl Encoding.step ⟨0, 0, []⟩).Follows bytes := by
  induction bytes using List.reverseRecOn with
  | nil => exact ⟨by decide, [], rfl, BitDigits.owes_nil 8 5 _⟩
  | append_singleton bytes byte ih =>
    rw [List.foldl_append]
    exact ih.step byte

/-- **The encoder writes the numeral of the bytes** where their bits are a multiple of five. -/
theorem toCrockford_spells {bytes : List UInt8} (h : 5 ∣ 8 * bytes.length) :
    SpellsBytes (toCrockford bytes) bytes := by
  obtain ⟨hbits, digits, hout, howes⟩ := follows_foldl bytes
  have hlength := howes.length_eq
  rw [List.length_map] at hlength
  have hnone : (bytes.foldl Encoding.step ⟨0, 0, []⟩).bits = 0 := by omega
  rw [hnone] at howes hlength
  refine ⟨digits, hout, howes.written_lt, by omega, ?_⟩
  exact howes.number_eq_of_even.symm

/-! ### The parsing loop -/

/-- Between two digits: the bytes that are full, in front of those still zero. -/
structure Decoding.Follows (s : Decoding) (read : List ℕ) : Prop where
  bits_lt : s.bits < 8
  bytes_eq : ∃ written : List ℕ, s.index = written.length ∧
    s.bytes = written.map UInt8.ofNat ++ List.replicate (recoveryCodeBytes - written.length) 0 ∧
    BitDigits.Owes 5 8 read written s.bits s.value.toNat

/-- The accumulator keeps twelve bits, and no more are owed. -/
theorem toNat_masked_mod {k digit : ℕ} (hk : k ≤ 12) (hdigit : digit < 2 ^ 5) (value : BitVec 32) :
    ((value <<< 5 ||| BitVec.ofNat 32 digit) &&& 0xfff).toNat % 2 ^ k =
      (value.toNat * 2 ^ 5 + digit) % 2 ^ k := by
  have hmask := BitDigits.toNat_mask (w := 12) (by decide)
    (value <<< 5 ||| BitVec.ofNat 32 digit)
  calc ((value <<< 5 ||| BitVec.ofNat 32 digit) &&& 0xfff).toNat % 2 ^ k
      = (value <<< 5 ||| BitVec.ofNat 32 digit).toNat % 2 ^ 12 % 2 ^ k :=
        congrArg (· % 2 ^ k) hmask
    _ = (value <<< 5 ||| BitVec.ofNat 32 digit).toNat % 2 ^ k :=
        Nat.mod_mod_of_dvd _ (pow_dvd_pow 2 hk)
    _ = (value.toNat * 2 ^ 5 + digit) % 2 ^ k :=
        BitDigits.toNat_shiftIn_mod (by omega) (by omega) hdigit value

/-- The next byte takes the place of the first zero. -/
theorem set_replicate {α : Type} (front : List α) (x zero : α) {n : ℕ} (h : front.length < n) :
    (front ++ List.replicate (n - front.length) zero).set front.length x =
      front ++ [x] ++ List.replicate (n - (front.length + 1)) zero := by
  obtain ⟨left, hleft⟩ := Nat.exists_eq_add_of_lt h
  rw [show n - front.length = left + 1 by omega, show n - (front.length + 1) = left by omega,
    List.replicate_succ, List.set_append_right _ _ (le_refl _), Nat.sub_self, List.set_cons_zero,
    List.append_assoc, List.singleton_append]

/-- **One digit of the parsing loop**, up to the last one. -/
theorem Decoding.Follows.step {s : Decoding} {read : List ℕ} (h : s.Follows read) {digit : ℕ}
    (hdigit : digit < 2 ^ 5) (hroom : read.length < recoveryCodeChars) :
    (s.step digit).Follows (read ++ [digit]) := by
  obtain ⟨hbits, written, hindex, hbytes, howes⟩ := h
  have hlength := howes.length_eq
  have hchars : recoveryCodeChars = 32 := rfl
  have hpush : BitDigits.Owes 5 8 (read ++ [digit]) written (s.bits + 5)
      ((s.value <<< 5 ||| BitVec.ofNat 32 digit) &&& 0xfff).toNat :=
    (howes.push hdigit).congr (toNat_masked_mod (by omega) hdigit s.value)
  rw [Decoding.step]
  split_ifs with hfull
  · -- a byte is full: there is room for it
    have hspace : (written.map UInt8.ofNat).length < recoveryCodeBytes := by
      rw [List.length_map, recoveryCodeBytes]
      omega
    have hfield := BitDigits.toNat_field (w := 8) (by decide)
      ((s.value <<< 5 ||| BitVec.ofNat 32 digit) &&& 0xfff) (s.bits + 5 - 8)
    refine ⟨by dsimp only; omega, written ++ [_], ?_, ?_, hpush.emit hfull⟩
    · rw [List.length_append, List.length_singleton, ← hindex]
    · dsimp only
      rw [hbytes, hindex, List.length_append, List.length_singleton, List.map_append,
        List.map_singleton, Nat.mod_eq_of_lt (show s.bits + 5 - 8 < 32 by omega), ← hfield]
      have hset := set_replicate (written.map UInt8.ofNat) (UInt8.ofNat
        (((s.value <<< 5 ||| BitVec.ofNat 32 digit) &&& 0xfff) >>> (s.bits + 5 - 8) &&&
          BitVec.ofNat 32 (2 ^ 8 - 1)).toNat) 0 hspace
      rwa [List.length_map] at hset
  · exact ⟨by dsimp only; omega, written, hindex, hbytes, hpush⟩

theorem decoding_follows {digits : List ℕ} (hlt : ∀ d ∈ digits, d < 32)
    (hlength : digits.length ≤ recoveryCodeChars) :
    (digits.foldl Decoding.step ⟨0, 0, 0, List.replicate recoveryCodeBytes 0⟩).Follows digits := by
  induction digits using List.reverseRecOn with
  | nil => exact ⟨by decide, [], rfl, rfl, BitDigits.owes_nil 5 8 _⟩
  | append_singleton digits digit ih =>
    rw [List.length_append, List.length_singleton] at hlength
    have hbefore := ih (fun d hd => hlt d (List.mem_append_left _ hd)) (by omega)
    rw [List.foldl_append]
    exact hbefore.step (hlt digit (by simp)) hlength

/-- **The parser reads the numeral** that 32 digits are. -/
theorem decoding_spells {digits : List ℕ} (hlt : ∀ d ∈ digits, d < 32)
    (hlength : digits.length = recoveryCodeChars) :
    (digits.foldl Decoding.step ⟨0, 0, 0, List.replicate recoveryCodeBytes 0⟩).bytes.length =
        recoveryCodeBytes ∧
      SpellsBytes (digits.map crockfordDigit)
        (digits.foldl Decoding.step ⟨0, 0, 0, List.replicate recoveryCodeBytes 0⟩).bytes := by
  obtain ⟨hbits, written, -, hbytes, howes⟩ := decoding_follows hlt hlength.le
  have hcount := howes.length_eq
  have hchars : recoveryCodeChars = 32 := rfl
  have hsize : recoveryCodeBytes = 20 := rfl
  -- 32 digits are 20 bytes, and no bit is left
  have hwritten : written.length = recoveryCodeBytes := by omega
  have hnone :
      (digits.foldl Decoding.step ⟨0, 0, 0, List.replicate recoveryCodeBytes 0⟩).bits = 0 := by
    omega
  rw [hwritten, Nat.sub_self, List.replicate_zero, List.append_nil] at hbytes
  rw [hnone] at howes
  have hvalues : (written.map UInt8.ofNat).map UInt8.toNat = written := by
    rw [List.map_map]
    refine (List.map_congr_left fun d hd => ?_).trans (List.map_id _)
    exact UInt8.toNat_ofNat_of_lt' (howes.written_lt d hd)
  rw [hbytes, List.length_map]
  refine ⟨hwritten, digits, rfl, hlt, ?_, ?_⟩
  · rw [List.length_map, hwritten, hlength]
    rfl
  · rw [hvalues]
    exact howes.number_eq_of_even

/-- The parsing loop accepts the digits of the alphabet and nothing else. -/
theorem readDigits_eq_ok_iff {chars : List Char} {s s' : Decoding} :
    readDigits s chars = .ok s' ↔
      ∃ digits : List ℕ, chars = digits.map crockfordDigit ∧ (∀ d ∈ digits, d < 32) ∧
        s' = digits.foldl Decoding.step s := by
  induction chars generalizing s with
  | nil =>
    constructor
    · intro h
      exact ⟨[], rfl, by simp, (Except.ok.inj h).symm⟩
    · rintro ⟨digits, hchars, -, rfl⟩
      rw [List.map_eq_nil_iff.mp hchars.symm]
      rfl
  | cons char chars ih =>
    rw [readDigits]
    constructor
    · intro h
      cases hindex : crockfordAlphabet.idxOf? char with
      | none =>
        rw [hindex] at h
        exact absurd h (by simp)
      | some digit =>
        rw [hindex] at h
        obtain ⟨digits, rfl, hlt, rfl⟩ := ih.mp h
        obtain ⟨hdigit, rfl⟩ := crockfordDigit_of_idxOf hindex
        refine ⟨digit :: digits, rfl, ?_, rfl⟩
        rw [List.forall_mem_cons]
        exact ⟨hdigit, hlt⟩
    · rintro ⟨digits, hchars, hlt, rfl⟩
      cases digits with
      | nil => exact absurd hchars (by simp)
      | cons digit digits =>
        rw [List.forall_mem_cons] at hlt
        obtain ⟨rfl, rfl⟩ := List.cons.inj hchars
        rw [idxOf_crockfordDigit hlt.1]
        exact ih.mpr ⟨digits, rfl, hlt.2, rfl⟩

/-! ### What may be typed for a code -/

/-- What a typed character stands for: nothing if it separates, else a character in upper case,
with the letters that look like digits read as digits. -/
def canonicalChar (c : Char) : Option Char :=
  if isSeparator c then none
  else if c.toUpper = 'I' ∨ c.toUpper = 'L' then some '1'
  else if c.toUpper = 'O' then some '0'
  else some c.toUpper

/-- The canonical spelling of a typed code. -/
def canonicalSpelling (input : List Char) : Option (List Char) :=
  groupsOfFour (input.filterMap canonicalChar)

/-- What may be typed for a character of a code: the character, in lower case too, an I or an L for
a 1, and an O for a 0. -/
def typedFor (c : Char) : List Char :=
  [c, c.toLower] ++ (if c = '1' then "ILil".toList else []) ++ if c = '0' then "Oo".toList else []

/-- What may be typed for a code: its characters in one of their forms, with separators put in and
left out anywhere. -/
inductive Respelling : List Char → List Char → Prop where
  | nil : Respelling [] []
  | char {code typed : List Char} {c c' : Char} (hc : c' ∈ typedFor c) (h : Respelling code typed) :
      Respelling (c :: code) (c' :: typed)
  | insert {code typed : List Char} {c : Char} (hsep : isSeparator c = true)
      (hascii : CodeUnits.IsAscii c) (h : Respelling code typed) : Respelling code (c :: typed)
  | remove {code typed : List Char} {c : Char} (hsep : isSeparator c = true)
      (h : Respelling code typed) : Respelling (c :: code) typed

/-- What `toUpperCase` does to ASCII strings. -/
def UppercasesAscii (toUpperCase : List Char → List Char) : Prop :=
  ∀ s, (∀ c ∈ s, CodeUnits.IsAscii c) → toUpperCase s = s.map Char.toUpper

/-- What holds of the first 128 characters holds of all that are ASCII. -/
theorem forall_ascii {P : Char → Prop} (h : ∀ n < 128, P (Char.ofNat n)) {c : Char}
    (hc : CodeUnits.IsAscii c) : P c := by
  have hofNat := h c.toNat hc
  rwa [Char.ofNat_toNat] at hofNat

theorem canonicalChar_of_isSeparator {c : Char} (h : isSeparator c = true) :
    canonicalChar c = none :=
  if_pos h

/-- On one ASCII character, all the replacements of the parser together. -/
theorem canonicalChar_eq {c : Char} (hc : CodeUnits.IsAscii c) :
    canonicalChar c = if isSeparator c.toUpper then none
      else some (if (if c.toUpper = 'I' ∨ c.toUpper = 'L' then '1' else c.toUpper) = 'O' then '0'
        else if c.toUpper = 'I' ∨ c.toUpper = 'L' then '1' else c.toUpper) :=
  forall_ascii (P := fun c => canonicalChar c = if isSeparator c.toUpper then none
    else some (if (if c.toUpper = 'I' ∨ c.toUpper = 'L' then '1' else c.toUpper) = 'O' then '0'
      else if c.toUpper = 'I' ∨ c.toUpper = 'L' then '1' else c.toUpper)) (by decide +kernel) hc

/-- The parser compares codes character by character. -/
theorem normalized_eq {toUpperCase : List Char → List Char} (hupper : UppercasesAscii toUpperCase)
    {input : List Char} (hascii : ∀ c ∈ input, CodeUnits.IsAscii c) :
    normalized toUpperCase input = input.filterMap canonicalChar := by
  rw [normalized, hupper input hascii]
  clear hupper
  induction input with
  | nil => rfl
  | cons c input ih =>
    rw [List.forall_mem_cons] at hascii
    rw [List.map_cons, List.filter_cons, List.filterMap_cons, canonicalChar_eq hascii.1]
    cases isSeparator c.toUpper
    · exact congrArg (_ :: ·) (ih hascii.2)
    · exact ih hascii.2

/-- The characters of a code. -/
def codeChars : List Char := '-' :: crockfordAlphabet

/-- What may be typed for a character is read as the character. -/
theorem canonicalChar_of_typedFor {c c' : Char} (hc : c ∈ codeChars) (hc' : c' ∈ typedFor c) :
    canonicalChar c' = canonicalChar c ∧ CodeUnits.IsAscii c' := by
  have hall (c : Char) (h : (typedFor c).all (fun c' =>
      decide (canonicalChar c' = canonicalChar c ∧ CodeUnits.IsAscii c')) = true) :
      ∀ c' ∈ typedFor c, canonicalChar c' = canonicalChar c ∧ CodeUnits.IsAscii c' :=
    fun c' hc' => of_decide_eq_true (List.all_eq_true.mp h c' hc')
  rcases List.mem_cons.mp hc with rfl | hc
  · exact hall '-' (by decide +kernel) c' hc'
  · exact forall_crockfordDigit (P := fun c => ∀ c' ∈ typedFor c,
      canonicalChar c' = canonicalChar c ∧ CodeUnits.IsAscii c')
      (fun v hv => hall _ ((show ∀ v < 32, (typedFor (crockfordDigit v)).all (fun c' =>
        decide (canonicalChar c' = canonicalChar (crockfordDigit v) ∧ CodeUnits.IsAscii c')) = true
        by decide +kernel) v hv)) c hc c' hc'

/-- **A respelling is read as the code.** -/
theorem Respelling.filterMap_eq {code typed : List Char} (h : Respelling code typed)
    (hcode : ∀ c ∈ code, c ∈ codeChars) :
    typed.filterMap canonicalChar = code.filterMap canonicalChar ∧
      ∀ c ∈ typed, CodeUnits.IsAscii c := by
  induction h with
  | nil => exact ⟨rfl, by simp⟩
  | char hc h ih =>
    rw [List.forall_mem_cons] at hcode
    obtain ⟨hsame, hascii⟩ := canonicalChar_of_typedFor hcode.1 hc
    obtain ⟨hrest, hrestascii⟩ := ih hcode.2
    refine ⟨?_, List.forall_mem_cons.mpr ⟨hascii, hrestascii⟩⟩
    rw [List.filterMap_cons, List.filterMap_cons, hsame, hrest]
  | insert hsep hascii h ih =>
    obtain ⟨hrest, hrestascii⟩ := ih hcode
    refine ⟨?_, List.forall_mem_cons.mpr ⟨hascii, hrestascii⟩⟩
    rw [List.filterMap_cons_none (canonicalChar_of_isSeparator hsep), hrest]
  | remove hsep h ih =>
    rw [List.forall_mem_cons] at hcode
    rw [List.filterMap_cons_none (canonicalChar_of_isSeparator hsep)]
    exact ih hcode.2

/-! ### Groups -/

theorem flatten_matchUpToFour (text : List Char) : (matchUpToFour text).flatten = text := by
  fun_induction matchUpToFour text with
  | case1 a b c d rest ih => rw [List.flatten_cons, ih]; rfl
  | case2 => rfl
  | case3 rest => exact List.append_nil _

/-- Where the length is a multiple of four, no match is shorter. -/
theorem matchFour_eq {text : List Char} (h : 4 ∣ text.length) :
    matchFour text = matchUpToFour text := by
  fun_induction matchUpToFour text with
  | case1 a b c d rest ih =>
    rw [matchFour, ih]
    simp only [List.length_cons] at h
    omega
  | case2 => rfl
  | case3 rest hlong hne =>
    rcases rest with _ | ⟨a, _ | ⟨b, _ | ⟨c, _ | ⟨d, rest⟩⟩⟩⟩
    · exact absurd rfl hne
    · exact absurd h (by simp)
    · exact absurd h (by simp)
    · exact absurd h (by simp)
    · exact absurd rfl (hlong a b c d rest)

/-- The dashes between groups are separators. -/
theorem filterMap_intercalate (groups : List (List Char)) :
    (['-'].intercalate groups).filterMap canonicalChar =
      groups.flatten.filterMap canonicalChar := by
  induction groups with
  | nil => rfl
  | cons first groups ih =>
    cases groups with
    | nil => simp [List.intercalate]
    | cons second groups =>
      have hdash : canonicalChar '-' = none := by decide
      rw [List.intercalate_cons_cons, List.flatten_cons, List.filterMap_append,
        List.filterMap_append, List.filterMap_append, ih]
      simp [hdash]

theorem mem_intercalate {groups : List (List Char)} {c : Char}
    (h : c ∈ ['-'].intercalate groups) : c = '-' ∨ c ∈ groups.flatten := by
  induction groups with
  | nil => exact absurd h (by simp [List.intercalate])
  | cons first groups ih =>
    cases groups with
    | nil => exact Or.inr (by simpa [List.intercalate] using h)
    | cons second groups =>
      rw [List.intercalate_cons_cons, List.mem_append, List.mem_append] at h
      rw [List.flatten_cons, List.mem_append]
      rcases h with (h | h) | h
      · exact Or.inr (Or.inl h)
      · exact Or.inl (List.mem_singleton.mp h)
      · exact (ih h).imp_right Or.inr

/-- The groups of a text of digits are a code, and it is read as the text. -/
theorem groupsOfFour_eq_some {text : List Char} (hne : text ≠ [])
    (hdigits : ∀ c ∈ text, c ∈ crockfordAlphabet) :
    ∃ code, groupsOfFour text = some code ∧ code.filterMap canonicalChar = text ∧
      ∀ c ∈ code, c ∈ codeChars := by
  have hflat := flatten_matchUpToFour text
  have hgroups : groupsOfFour text = some (['-'].intercalate (matchUpToFour text)) := by
    rw [groupsOfFour]
    cases hmatch : matchUpToFour text with
    | nil =>
      rw [hmatch] at hflat
      exact absurd hflat.symm hne
    | cons first groups => rfl
  have hsome : ∀ c ∈ crockfordAlphabet, canonicalChar c = some c :=
    forall_crockfordDigit (by decide +kernel)
  refine ⟨_, hgroups, ?_, fun c hc => ?_⟩
  · rw [filterMap_intercalate, hflat]
    exact (List.filterMap_congr fun c hc => hsome c (hdigits c hc)).trans (List.filterMap_some)
  · rcases mem_intercalate hc with rfl | hmem
    · exact List.mem_cons_self
    · rw [hflat] at hmem
      exact List.mem_cons_of_mem _ (hdigits c hmem)

/-! ### Round trips -/

theorem SpellsBytes.mem_alphabet {text : List Char} {bytes : List UInt8}
    (h : SpellsBytes text bytes) : ∀ c ∈ text, c ∈ crockfordAlphabet := by
  obtain ⟨digits, rfl, hlt, -⟩ := h
  intro c hc
  obtain ⟨d, hd, rfl⟩ := List.mem_map.mp hc
  exact crockfordDigit_mem (hlt d hd)

/-- A digit is one code unit. -/
theorem codeUnitLength_digits {digits : List ℕ} (hlt : ∀ d ∈ digits, d < 32) :
    codeUnitLength (digits.map crockfordDigit) = digits.length := by
  have hascii : ∀ c ∈ crockfordAlphabet, CodeUnits.IsAscii c :=
    forall_crockfordDigit (by decide +kernel)
  rw [codeUnitLength, CodeUnits.flatMap_utf16, List.length_map, List.length_map]
  intro c hc
  obtain ⟨d, hd, rfl⟩ := List.mem_map.mp hc
  exact hascii _ (crockfordDigit_mem (hlt d hd))

/-- **What the parser accepts and what it reads**: the numerals of 20 bytes. -/
theorem parseRecoveryCode_eq_ok_iff {toUpperCase : List Char → List Char} {input : List Char}
    {bytes : List UInt8} :
    parseRecoveryCode toUpperCase input = .ok bytes ↔
      bytes.length = recoveryCodeBytes ∧ SpellsBytes (normalized toUpperCase input) bytes := by
  have hchars : recoveryCodeChars = 32 := rfl
  have hsize : recoveryCodeBytes = 20 := rfl
  rw [parseRecoveryCode]
  constructor
  · intro h
    split_ifs at h with hlength
    · rw [not_not] at hlength
      split at h
      · exact absurd h (by simp)
      · rename_i s hread
        obtain rfl := Except.ok.inj h
        obtain ⟨digits, hdigits, hlt, rfl⟩ := readDigits_eq_ok_iff.mp hread
        rw [hdigits, codeUnitLength_digits hlt] at hlength
        rw [hdigits]
        exact decoding_spells hlt hlength
  · rintro ⟨hlength, hspells⟩
    obtain ⟨digits, hdigits, hlt, hcount, -⟩ := id hspells
    have hthirtytwo : digits.length = recoveryCodeChars := by omega
    rw [hdigits, if_neg (by rw [codeUnitLength_digits hlt, not_not]; exact hthirtytwo),
      readDigits_eq_ok_iff.mpr ⟨digits, rfl, hlt, rfl⟩]
    -- two numerals of one text
    have hread := (decoding_spells hlt hthirtytwo).2
    rw [← hdigits] at hread
    exact congrArg Except.ok (hread.bytes_unique hspells)

/-- **Recovery codes are read back**, however they are typed; what is read is written as the
canonical spelling of what was typed; and the phrase of the extension is the one of the web, the
base-32 numeral of the first ten bytes. -/
theorem recoveryCodes_roundTrip {toUpperCase : List Char → List Char}
    (hupper : UppercasesAscii toUpperCase) :
    (∀ b : List UInt8, b.length = 20 → ∃ code, formatRecoveryCode b = some code ∧
      ∀ typed, Respelling code typed → parseRecoveryCode toUpperCase typed = .ok b) ∧
    (∀ (input : List Char) (b : List UInt8), (∀ c ∈ input, CodeUnits.IsAscii c) →
      parseRecoveryCode toUpperCase input = .ok b →
      formatRecoveryCode b = canonicalSpelling input) ∧
    ∀ bytes : List UInt8, 10 ≤ bytes.length →
      crockfordPhrase bytes = groupsOfFour (toCrockford (bytes.take 10)) ∧
      SpellsBytes (toCrockford (bytes.take 10)) (bytes.take 10) := by
  refine ⟨?_, ?_, ?_⟩
  · intro b hlength
    have hspells : SpellsBytes (toCrockford b) b := toCrockford_spells (by omega)
    have hne : toCrockford b ≠ [] := by
      obtain ⟨digits, hdigits, -, hcount, -⟩ := hspells
      intro hnil
      rw [hdigits, List.map_eq_nil_iff] at hnil
      rw [hnil, hlength] at hcount
      exact absurd hcount (by decide)
    obtain ⟨code, hcode, hread, hchars⟩ := groupsOfFour_eq_some hne hspells.mem_alphabet
    refine ⟨code, hcode, fun typed htyped => ?_⟩
    obtain ⟨hsame, hascii⟩ := htyped.filterMap_eq hchars
    rw [parseRecoveryCode_eq_ok_iff, normalized_eq hupper hascii, hsame, hread]
    exact ⟨hlength, hspells⟩
  · intro input b hascii hparse
    obtain ⟨hlength, hspells⟩ := parseRecoveryCode_eq_ok_iff.mp hparse
    rw [normalized_eq hupper hascii] at hspells
    have hwritten : SpellsBytes (toCrockford b) b :=
      toCrockford_spells (by rw [hlength]; decide)
    rw [formatRecoveryCode, canonicalSpelling, hwritten.text_unique hspells]
  · intro bytes hlength
    have hten : (bytes.take 10).length = 10 := List.length_take_of_le hlength
    have hspells : SpellsBytes (toCrockford (bytes.take 10)) (bytes.take 10) :=
      toCrockford_spells (by rw [hten]; decide)
    have hfour : 4 ∣ (toCrockford (bytes.take 10)).length := by
      obtain ⟨digits, hdigits, -, hcount, -⟩ := hspells
      rw [hdigits, List.length_map]
      omega
    exact ⟨congrArg joinMatches (matchFour_eq hfour), hspells⟩

/-- A code typed with the letters that look like digits. -/
theorem recoveryCodes_roundTrip_lookalikes :
    formatRecoveryCode (List.replicate 19 0 ++ [1]) =
      canonicalSpelling "oooo OOOO 0000-0000-0000-0000-0000-000i".toList := by
  have hascii : "oooo OOOO 0000-0000-0000-0000-0000-000i".toList.all
      (fun c => decide (CodeUnits.IsAscii c)) = true := by decide +kernel
  refine (@recoveryCodes_roundTrip (List.map Char.toUpper) fun _ _ => rfl).2.1 _ _ ?_
    (by decide +kernel)
  exact fun c hc => of_decide_eq_true (List.all_eq_true.mp hascii c hc)

end Client

end HelixSync
