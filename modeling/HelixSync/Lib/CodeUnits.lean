import Mathlib.Data.List.Lex
import Mathlib.Data.String.Basic

/-!
# The order of UTF-16 strings

A string language whose strings are sequences of UTF-16 code units compares them code unit
by code unit, a shorter one below what extends it. This is not the order of the characters:
one outside the basic plane is written with two code units, both below `0xE000`.

`CodeUnits.codeUnits` is what a string is in such a language, and two strings are compared
by comparing these. Different strings have different code units, so this is a linear order
(`CodeUnits.codeUnits_inj`). On strings of ASCII characters the order is that of the characters
(`CodeUnits.codeUnits_lt_iff`), so there it can be argued about one character at a time.
-/

namespace CodeUnits

/-- The UTF-16 code units of a character. -/
def utf16 (c : Char) : List ℕ :=
  if c.toNat < 0x10000 then [c.toNat]
  else [0xD800 + (c.toNat - 0x10000) / 0x400, 0xDC00 + (c.toNat - 0x10000) % 0x400]

/-- The UTF-16 code units of a string. -/
def codeUnits (s : String) : List ℕ := s.toList.flatMap utf16

/-- The first code unit says how many there are: a character written with two begins with a
surrogate, and no character is one. -/
theorem utf16_append_inj {c d : Char} {l l' : List ℕ} (h : utf16 c ++ l = utf16 d ++ l') :
    c = d ∧ l = l' := by
  have hvalid : ∀ e : Char, e.toNat < 0xD800 ∨ 0xDFFF < e.toNat ∧ e.toNat < 0x110000 :=
    fun e => e.valid
  have hc := hvalid c
  have hd := hvalid d
  rw [utf16, utf16] at h
  split_ifs at h with h₁ h₂ h₂ <;>
    simp only [List.cons_append, List.nil_append, List.cons.injEq] at h
  · exact ⟨Char.toNat_inj.mp h.1, h.2⟩
  · omega
  · omega
  · exact ⟨Char.toNat_inj.mp (by omega), h.2.2⟩

theorem utf16_ne_nil (c : Char) : utf16 c ≠ [] := by
  rw [utf16]
  split_ifs <;> exact List.cons_ne_nil _ _

theorem flatMap_utf16_inj {l l' : List Char} (h : l.flatMap utf16 = l'.flatMap utf16) : l = l' := by
  induction l generalizing l' with
  | nil =>
    cases l' with
    | nil => rfl
    | cons d l' => exact absurd (List.append_eq_nil_iff.mp h.symm).1 (utf16_ne_nil d)
  | cons c l ih =>
    cases l' with
    | nil => exact absurd (List.append_eq_nil_iff.mp h).1 (utf16_ne_nil c)
    | cons d l' =>
      obtain ⟨rfl, hrest⟩ := utf16_append_inj h
      rw [ih hrest]

/-- **Different strings** have different code units. -/
theorem codeUnits_inj {s t : String} : codeUnits s = codeUnits t ↔ s = t :=
  ⟨fun h => String.toList_injective (flatMap_utf16_inj h), fun h => h ▸ rfl⟩

/-- The characters written with one code unit below the surrogates. -/
def IsAscii (c : Char) : Prop := c.toNat < 0x80

instance : DecidablePred IsAscii := fun c => inferInstanceAs (Decidable (c.toNat < 0x80))

theorem utf16_of_isAscii {c : Char} (h : IsAscii c) : utf16 c = [c.toNat] :=
  if_pos (lt_trans h (by decide))

theorem flatMap_utf16 {l : List Char} (h : ∀ c ∈ l, IsAscii c) :
    l.flatMap utf16 = l.map Char.toNat := by
  induction l with
  | nil => rfl
  | cons c l ih =>
    rw [List.flatMap_cons, utf16_of_isAscii (h c List.mem_cons_self),
      ih fun d hd => h d (List.mem_cons_of_mem _ hd)]
    rfl

theorem toNat_lt_toNat {c d : Char} : c.toNat < d.toNat ↔ c < d := Iff.rfl

theorem map_toNat_lt_iff {l l' : List Char} : l.map Char.toNat < l'.map Char.toNat ↔ l < l' := by
  induction l generalizing l' with
  | nil =>
    cases l' with
    | nil => exact iff_of_false (List.not_lt_nil _) (List.not_lt_nil _)
    | cons c l' => exact iff_of_true (List.nil_lt_cons _ _) (List.nil_lt_cons _ _)
  | cons c l ih =>
    cases l' with
    | nil => exact iff_of_false (List.not_lt_nil _) (List.not_lt_nil _)
    | cons d l' =>
      rw [List.map_cons, List.map_cons, List.cons_lt_cons_iff, List.cons_lt_cons_iff, ih,
        toNat_lt_toNat, Char.toNat_inj]

/-- **ASCII strings** are ordered as their characters are. -/
theorem codeUnits_lt_iff {s t : String} (hs : ∀ c ∈ s.toList, IsAscii c)
    (ht : ∀ c ∈ t.toList, IsAscii c) : codeUnits s < codeUnits t ↔ s.toList < t.toList := by
  rw [codeUnits, codeUnits, flatMap_utf16 hs, flatMap_utf16 ht, map_toNat_lt_iff]

end CodeUnits
