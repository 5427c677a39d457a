import HelixSync.Lib.HexText

/-!
# Quoted strings

`JSON.stringify` puts a string between quotation marks and escapes what may not stand there.

* `JsonText.quote_append_inj`: such a text says where the string ends, and which one it is.
-/

namespace JsonText

/-- If every text tells by which word of a code it begins, and no word begins with `stop`, then it
tells by which words, up to the first `stop`. -/
theorem flatMap_append_inj {α β : Type} {f : α → List β} {stop : β}
    (hword : ∀ a b x y, f a ++ x = f b ++ y → a = b ∧ x = y)
    (hstop : ∀ a x y, f a ++ x ≠ stop :: y) {l m : List α} {x y : List β}
    (h : l.flatMap f ++ stop :: x = m.flatMap f ++ stop :: y) : l = m ∧ x = y := by
  induction l generalizing m with
  | nil =>
    cases m with
    | nil => exact ⟨rfl, List.tail_eq_of_cons_eq h⟩
    | cons b m =>
      rw [List.flatMap_cons, List.append_assoc] at h
      exact absurd h.symm (hstop b _ _)
  | cons a l ih =>
    rw [List.flatMap_cons, List.append_assoc] at h
    cases m with
    | nil => exact absurd h (hstop a _ _)
    | cons b m =>
      rw [List.flatMap_cons, List.append_assoc] at h
      obtain ⟨rfl, hrest⟩ := hword a b _ _ h
      obtain ⟨rfl, rfl⟩ := ih hrest
      exact ⟨rfl, rfl⟩

/-- The characters with an escape of their own, and its letter. -/
def shortEscapes : List (Char × Char) :=
  [('\x08', 'b'), ('\t', 't'), ('\n', 'n'), ('\x0c', 'f'), ('\r', 'r'), ('"', '"'), ('\\', '\\')]

/-- A character in a quoted string. -/
def escape (c : Char) : List Char :=
  match shortEscapes.find? (·.1 = c) with
  | some entry => ['\\', entry.2]
  | none =>
    if c.toNat < 0x20 then
      ['\\', 'u', '0', '0', HexText.hexDigit (c.toNat / 16), HexText.hexDigit (c.toNat % 16)]
    else [c]

/-- A quoted string. -/
def quote (s : String) : List Char := '"' :: s.toList.flatMap escape ++ ['"']

/-- The character a quoted string goes on with, and the rest of it. -/
def readChar : List Char → Option (Char × List Char)
  | '\\' :: 'u' :: '0' :: '0' :: d₁ :: d₀ :: rest => do
    let hi ← HexText.hexValue d₁
    let lo ← HexText.hexValue d₀
    return (Char.ofNat (16 * hi + lo), rest)
  | '\\' :: letter :: rest =>
    (shortEscapes.find? (·.2 = letter)).map fun entry => (entry.1, rest)
  | c :: rest => some (c, rest)
  | [] => none

theorem readChar_escape (c : Char) (rest : List Char) :
    readChar (escape c ++ rest) = some (c, rest) := by
  unfold escape
  split
  case h_1 entry h =>
    have hall : ∀ entry ∈ shortEscapes,
        readChar ('\\' :: entry.2 :: rest) = some (entry.1, rest) := by
      simp [shortEscapes, readChar]
    obtain rfl : entry.1 = c := by simpa using List.find?_some h
    exact hall entry (List.mem_of_find?_eq_some h)
  case h_2 h =>
    split
    case isTrue hlt =>
      have hhi : HexText.hexValue (HexText.hexDigit (c.toNat / 16)) = some (c.toNat / 16) :=
        HexText.hexValue_hexDigit (by omega)
      have hlo : HexText.hexValue (HexText.hexDigit (c.toNat % 16)) = some (c.toNat % 16) :=
        HexText.hexValue_hexDigit (by omega)
      simp [readChar, hhi, hlo, Nat.div_add_mod]
    case isFalse hge =>
      have hne : c ≠ '\\' := by
        rintro rfl
        exact absurd h (by decide)
      simp [readChar, hne]

/-- A quotation mark does not stand in a string unescaped. -/
theorem escape_append_ne (c : Char) (x y : List Char) : escape c ++ x ≠ '"' :: y := by
  intro h
  have hread := readChar_escape c x
  rw [h, show readChar ('"' :: y) = some ('"', y) from rfl] at hread
  obtain rfl : '"' = c := congrArg Prod.fst (Option.some.inj hread)
  exact absurd h (by simp [escape, shortEscapes])

/-- **A quoted string is read back** from any text that begins with it. -/
theorem quote_append_inj {s t : String} {x y : List Char} (h : quote s ++ x = quote t ++ y) :
    s = t ∧ x = y := by
  have hword : ∀ c d x y, escape c ++ x = escape d ++ y → c = d ∧ x = y := by
    intro c d x y heq
    have hread := readChar_escape c x
    rw [heq, readChar_escape, Option.some.injEq, Prod.mk.injEq] at hread
    exact ⟨hread.1.symm, hread.2.symm⟩
  simp only [quote, List.cons_append, List.append_assoc, List.cons.injEq, true_and,
    List.nil_append] at h
  obtain ⟨hlist, hrest⟩ := flatMap_append_inj hword escape_append_ne h
  exact ⟨String.toList_inj.mp hlist, hrest⟩

end JsonText
