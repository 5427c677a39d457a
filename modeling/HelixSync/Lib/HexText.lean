import Mathlib.Data.Char
import Mathlib.Data.List.GetD
import Mathlib.Data.List.Lex
import Mathlib.Order.Fin.Basic
import Mathlib.Tactic.Linarith
import Mathlib.Tactic.Ring

/-!
# Bytes written in hexadecimal

A sequence of bytes is written with two lower-case hexadecimal digits a byte, and a hyphen
before some of them: the layout says before which. What is written can be read back
(`HexText.read_text`), and because two texts of one layout have their hyphens at the same
places and the digits are in the order of their values, the texts are ordered as the bytes
are (`HexText.text_lt_iff`). Sequences of bytes of one length are in turn ordered as the
numbers they are the digits of (`HexText.number_lt_iff`).
-/

namespace HexText

/-- A byte. -/
abbrev Byte := Fin 256

/-- The hexadecimal digits. -/
def hexDigits : List Char := "0123456789abcdef".toList

/-- The digit with a value. -/
def hexDigit (v : ℕ) : Char := hexDigits.getD v '0'

/-- The value of a digit, of either case. -/
def hexValue (c : Char) : Option ℕ := hexDigits.idxOf? c.toLower

/-- The two digits of a byte. -/
def byteText (b : Byte) : List Char := [hexDigit (b.val / 16), hexDigit (b.val % 16)]

/-- A byte with the hyphen before it, if it has one. -/
def piece (hyphen : Bool) (b : Byte) : List Char :=
  if hyphen then '-' :: byteText b else byteText b

/-- Bytes in a layout. -/
def text (layout : List Bool) (bytes : List Byte) : List Char :=
  (List.zipWith piece layout bytes).flatten

/-- The text after the hyphen, where there has to be one. -/
def afterHyphen : Bool → List Char → Option (List Char)
  | false, text => some text
  | true, c :: text => if c = '-' then some text else none
  | true, [] => none

/-- The bytes a text in a layout spells, or `none`. -/
def read : List Bool → List Char → Option (List Byte)
  | [], text => if text.isEmpty then some [] else none
  | hyphen :: layout, text =>
    match afterHyphen hyphen text with
    | some (hi :: lo :: rest) => do
      let h ← hexValue hi
      let l ← hexValue lo
      let bytes ← read layout rest
      pure (Fin.ofNat 256 (16 * h + l) :: bytes)
    | _ => none

/-- The number a sequence of bytes is the digits of, the most significant first. -/
def number (bytes : List Byte) : ℕ := bytes.foldl (fun n b => 256 * n + b.val) 0

/-! ### Reading what is written -/

theorem hexValue_hexDigit {v : ℕ} (hv : v < 16) : hexValue (hexDigit v) = some v := by
  have hall : ∀ v < 16, hexValue (hexDigit v) = some v := by decide
  exact hall v hv

theorem afterHyphen_piece (hyphen : Bool) (b : Byte) (rest : List Char) :
    afterHyphen hyphen (piece hyphen b ++ rest) = some (byteText b ++ rest) := by
  cases hyphen <;> rfl

/-- **What is written is read back.** -/
theorem read_text {layout : List Bool} {bytes : List Byte} (h : bytes.length = layout.length) :
    read layout (text layout bytes) = some bytes := by
  induction layout generalizing bytes with
  | nil =>
    rw [List.length_eq_zero_iff.mp h]
    rfl
  | cons hyphen layout ih =>
    obtain ⟨b, bytes, rfl⟩ := List.exists_cons_of_length_eq_add_one h
    have hrest : read layout (text layout bytes) = some bytes := ih (by simpa using h)
    rw [text, List.zipWith_cons_cons, List.flatten_cons, read, afterHyphen_piece]
    have hlt := b.isLt
    simp only [byteText, List.cons_append, List.nil_append,
      hexValue_hexDigit (show b.val / 16 < 16 by omega),
      hexValue_hexDigit (show b.val % 16 < 16 by omega)]
    have hbyte : Fin.ofNat 256 (16 * (b.val / 16) + b.val % 16) = b := by
      rw [Nat.div_add_mod]
      exact Fin.ofNat_val_eq_self b
    rw [← text, hrest]
    exact congrArg (fun c => some (c :: bytes)) hbyte

theorem length_of_read {layout : List Bool} {text : List Char} {bytes : List Byte}
    (h : read layout text = some bytes) : bytes.length = layout.length := by
  induction layout generalizing text bytes with
  | nil =>
    unfold read at h
    split at h
    · obtain rfl := Option.some.inj h
      rfl
    · exact absurd h nofun
  | cons hyphen layout ih =>
    unfold read at h
    split at h
    · obtain ⟨_, _, h⟩ := Option.bind_eq_some_iff.mp h
      obtain ⟨_, _, h⟩ := Option.bind_eq_some_iff.mp h
      obtain ⟨rest, hrest, h⟩ := Option.bind_eq_some_iff.mp h
      obtain rfl := Option.some.inj h
      rw [List.length_cons, ih hrest, List.length_cons]
    · exact absurd h nofun

theorem hexDigit_mem {v : ℕ} (hv : v < 16) : hexDigit v ∈ hexDigits := by
  rw [hexDigit, List.getD_eq_getElem _ _ (show v < hexDigits.length from hv)]
  exact List.getElem_mem _

/-- Nothing but hyphens and digits is written. -/
theorem mem_text {layout : List Bool} {bytes : List Byte} {c : Char}
    (hc : c ∈ text layout bytes) : c = '-' ∨ c ∈ hexDigits := by
  obtain ⟨written, hwritten, hc⟩ := List.mem_flatten.mp hc
  rw [← List.map_uncurry_zip_eq_zipWith] at hwritten
  obtain ⟨⟨hyphen, b⟩, -, rfl⟩ := List.mem_map.mp hwritten
  have hb := b.isLt
  have hbyte : c ∈ byteText b → c ∈ hexDigits := by
    intro hc
    rcases List.mem_pair.mp hc with rfl | rfl
    · exact hexDigit_mem (by omega)
    · exact hexDigit_mem (by omega)
  cases hyphen with
  | false => exact Or.inr (hbyte hc)
  | true => exact (List.mem_cons.mp hc).imp_right hbyte

/-! ### The order of texts -/

theorem hexDigits_sorted : hexDigits.Pairwise (· < ·) := by decide

theorem hexDigit_lt_iff {v w : ℕ} (hv : v < 16) (hw : w < 16) :
    hexDigit v < hexDigit w ↔ v < w := by
  have hlt : ∀ {v w : ℕ}, v < 16 → w < 16 → v < w → hexDigit v < hexDigit w := by
    intro v w hv hw hvw
    rw [hexDigit, hexDigit, List.getD_eq_getElem _ _ (show v < hexDigits.length from hv),
      List.getD_eq_getElem _ _ (show w < hexDigits.length from hw)]
    exact List.pairwise_iff_getElem.mp hexDigits_sorted v w hv hw hvw
  refine ⟨fun h => ?_, hlt hv hw⟩
  rcases lt_trichotomy v w with hvw | rfl | hgt
  · exact hvw
  · exact absurd h (lt_irrefl _)
  · exact absurd h (hlt hw hv hgt).asymm

theorem hexDigit_inj {v w : ℕ} (hv : v < 16) (hw : w < 16) : hexDigit v = hexDigit w ↔ v = w := by
  refine ⟨fun h => ?_, congrArg hexDigit⟩
  have heq := (hexValue_hexDigit hv).symm.trans ((congrArg hexValue h).trans (hexValue_hexDigit hw))
  exact Option.some.inj heq

theorem byteText_lt_iff {b c : Byte} : byteText b < byteText c ↔ b < c := by
  have hb := b.isLt
  have hc := c.isLt
  rw [byteText, byteText, List.cons_lt_cons_iff, List.cons_lt_cons_iff,
    hexDigit_lt_iff (by omega) (by omega), hexDigit_lt_iff (by omega) (by omega),
    hexDigit_inj (by omega) (by omega), Fin.lt_def]
  simp only [List.not_lt_nil, and_false, or_false]
  omega

theorem byteText_inj {b c : Byte} : byteText b = byteText c ↔ b = c := by
  refine ⟨fun h => ?_, congrArg byteText⟩
  rcases lt_trichotomy b c with hlt | heq | hgt
  · exact absurd h (byteText_lt_iff.mpr hlt).ne
  · exact heq
  · exact absurd h (byteText_lt_iff.mpr hgt).ne'

theorem piece_lt_iff {hyphen : Bool} {b c : Byte} : piece hyphen b < piece hyphen c ↔ b < c := by
  cases hyphen with
  | false => exact byteText_lt_iff
  | true =>
    rw [← byteText_lt_iff]
    exact List.cons_lt_cons_iff.trans (by simp)

theorem piece_inj {hyphen : Bool} {b c : Byte} : piece hyphen b = piece hyphen c ↔ b = c := by
  cases hyphen with
  | false => exact byteText_inj
  | true =>
    rw [← byteText_inj]
    exact List.cons_inj_right _

/-- Beginnings of one length decide first. -/
theorem append_lt_append_iff {x x' y y' : List Char} (h : x.length = x'.length) :
    x ++ y < x' ++ y' ↔ x < x' ∨ x = x' ∧ y < y' := by
  induction x generalizing x' with
  | nil =>
    rw [List.length_eq_zero_iff.mp h.symm]
    simp
  | cons c x ih =>
    obtain ⟨c', x', rfl⟩ := List.exists_cons_of_length_eq_add_one h.symm
    rw [List.cons_append, List.cons_append, List.cons_lt_cons_iff, List.cons_lt_cons_iff,
      ih (by simpa using h), List.cons.injEq]
    tauto

/-- **Texts of one layout are ordered as their bytes.** -/
theorem text_lt_iff {layout : List Bool} {bytes bytes' : List Byte}
    (h : bytes.length = layout.length) (h' : bytes'.length = layout.length) :
    text layout bytes < text layout bytes' ↔ bytes < bytes' := by
  induction layout generalizing bytes bytes' with
  | nil =>
    rw [List.length_eq_zero_iff.mp h, List.length_eq_zero_iff.mp h']
    exact iff_of_false (List.not_lt_nil _) (List.not_lt_nil _)
  | cons hyphen layout ih =>
    obtain ⟨b, bytes, rfl⟩ := List.exists_cons_of_length_eq_add_one h
    obtain ⟨b', bytes', rfl⟩ := List.exists_cons_of_length_eq_add_one h'
    have hrest : text layout bytes < text layout bytes' ↔ bytes < bytes' :=
      ih (by simpa using h) (by simpa using h')
    have hlen : (piece hyphen b).length = (piece hyphen b').length := by
      cases hyphen <;> rfl
    rw [text, text, List.zipWith_cons_cons, List.zipWith_cons_cons, List.flatten_cons,
      List.flatten_cons, append_lt_append_iff hlen, piece_lt_iff, piece_inj,
      List.cons_lt_cons_iff]
    exact or_congr_right (and_congr_right fun _ => hrest)

/-! ### The order of numbers -/

theorem foldl_number (bytes : List Byte) :
    ∀ n : ℕ, bytes.foldl (fun n b => 256 * n + b.val) n = 256 ^ bytes.length * n + number bytes := by
  induction bytes with
  | nil => simp [number]
  | cons b bytes ih =>
    intro n
    rw [number, List.foldl_cons, List.foldl_cons, ih, ih, List.length_cons, pow_succ]
    ring

theorem number_cons (b : Byte) (bytes : List Byte) :
    number (b :: bytes) = 256 ^ bytes.length * b.val + number bytes := by
  rw [number, List.foldl_cons, foldl_number, Nat.mul_zero, Nat.zero_add]

theorem number_lt (bytes : List Byte) : number bytes < 256 ^ bytes.length := by
  induction bytes with
  | nil => exact Nat.one_pos
  | cons b bytes ih =>
    rw [number_cons, List.length_cons, pow_succ]
    have hb := b.isLt
    nlinarith

/-- **Bytes are ordered as the number they spell.** -/
theorem number_lt_iff {bytes bytes' : List Byte} (h : bytes.length = bytes'.length) :
    number bytes < number bytes' ↔ bytes < bytes' := by
  induction bytes generalizing bytes' with
  | nil =>
    rw [List.length_eq_zero_iff.mp h.symm]
    exact iff_of_false (lt_irrefl _) (List.not_lt_nil _)
  | cons b bytes ih =>
    obtain ⟨b', bytes', rfl⟩ := List.exists_cons_of_length_eq_add_one h.symm
    have hlen : bytes.length = bytes'.length := by simpa using h
    have hlt := number_lt bytes
    have hlt' := number_lt bytes'
    rw [number_cons, number_cons, List.cons_lt_cons_iff, ← ih hlen]
    rw [hlen] at hlt ⊢
    rcases lt_trichotomy b b' with hb | rfl | hb
    · refine iff_of_true ?_ (Or.inl hb)
      have hstep : b.val + 1 ≤ b'.val := hb
      nlinarith
    · simp
    · refine iff_of_false ?_ ?_
      · have hstep : b'.val + 1 ≤ b.val := hb
        nlinarith
      · simp [hb.asymm, hb.ne']

end HexText
