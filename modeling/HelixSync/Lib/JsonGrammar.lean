import Mathlib.Data.List.Basic

/-!
# The grammar of JSON texts

The texts of RFC 8259 as strings of bytes, by the derivations of the grammar. Each symbol of
the grammar that may hold a value (`Symbol`) derives texts together with the number of values
in them (`Derives`): a number, a string and a literal are one value, an array or an object is
one more than what is inside of it. The name of a member is no value.

Numbers and strings are symbols without values inside, and have predicates of their own
(`IsNumber`, `IsString`). A byte of a string from 128 on belongs to the encoding of some
character; which sequences of those are well formed is not asked, so that every text is
among the texts here.
-/

namespace JsonGrammar

/-- The bytes of an ASCII text. -/
def ascii (text : String) : List UInt8 := text.toList.map Char.toUInt8

def isWhitespace (b : UInt8) : Bool := (ascii " \t\n\r").contains b

def isDigit (b : UInt8) : Bool := (ascii "0123456789").contains b

def isHexDigit (b : UInt8) : Bool := (ascii "0123456789abcdefABCDEF").contains b

/-- The bytes that stand for a character after a backslash. -/
def isEscape (b : UInt8) : Bool := (ascii "\"\\/bfnrt").contains b

def IsWhitespace (text : List UInt8) : Prop := ∀ b ∈ text, isWhitespace b = true

def IsDigits (text : List UInt8) : Prop := text ≠ [] ∧ ∀ b ∈ text, isDigit b = true

/-- The integer part of a number: no leading zero but for zero itself. -/
def IsInteger (text : List UInt8) : Prop :=
  text = ascii "0" ∨ IsDigits text ∧ text.head? ≠ some '0'.toUInt8

/-- The fraction of a number, which may be absent. -/
def IsFraction (text : List UInt8) : Prop :=
  text = [] ∨ ∃ digits, IsDigits digits ∧ text = '.'.toUInt8 :: digits

/-- The exponent of a number, which may be absent. -/
def IsExponent (text : List UInt8) : Prop :=
  text = [] ∨ ∃ e sign digits, e ∈ ascii "eE" ∧ (sign = [] ∨ sign = ascii "+" ∨ sign = ascii "-") ∧
    IsDigits digits ∧ text = e :: (sign ++ digits)

def IsNumber (text : List UInt8) : Prop :=
  ∃ sign integer fraction exponent, (sign = [] ∨ sign = ascii "-") ∧ IsInteger integer ∧
    IsFraction fraction ∧ IsExponent exponent ∧ text = sign ++ integer ++ fraction ++ exponent

/-- What stands between the quotes of a string. -/
inductive IsStringBody : List UInt8 → Prop where
  | nil : IsStringBody []
  | unescaped {b : UInt8} {rest : List UInt8} (hcontrol : 0x20 ≤ b) (hquote : b ≠ '"'.toUInt8)
      (hbackslash : b ≠ '\\'.toUInt8) (hrest : IsStringBody rest) : IsStringBody (b :: rest)
  | escaped {b : UInt8} {rest : List UInt8} (hescape : isEscape b = true)
      (hrest : IsStringBody rest) : IsStringBody ('\\'.toUInt8 :: b :: rest)
  | unicode {digits rest : List UInt8} (hlength : digits.length = 4)
      (hdigits : ∀ b ∈ digits, isHexDigit b = true) (hrest : IsStringBody rest) :
      IsStringBody ('\\'.toUInt8 :: 'u'.toUInt8 :: (digits ++ rest))

def IsString (text : List UInt8) : Prop :=
  ∃ body, IsStringBody body ∧ text = '"'.toUInt8 :: (body ++ ['"'.toUInt8])

def IsLiteral (text : List UInt8) : Prop :=
  text = ascii "true" ∨ text = ascii "false" ∨ text = ascii "null"

/-- The symbols of the grammar that have values in them. -/
inductive Symbol where
  | value
  /-- A value with whitespace around it. -/
  | element
  | elements
  | member
  | members
  deriving DecidableEq

/-- The texts derived from a symbol, with the number of values in each. -/
inductive Derives : Symbol → List UInt8 → ℕ → Prop where
  | literal {text : List UInt8} (h : IsLiteral text) : Derives .value text 1
  | number {text : List UInt8} (h : IsNumber text) : Derives .value text 1
  | string {text : List UInt8} (h : IsString text) : Derives .value text 1
  | emptyArray {ws : List UInt8} (hws : IsWhitespace ws) :
      Derives .value ('['.toUInt8 :: (ws ++ [']'.toUInt8])) 1
  | array {text : List UInt8} {n : ℕ} (h : Derives .elements text n) :
      Derives .value ('['.toUInt8 :: (text ++ [']'.toUInt8])) (n + 1)
  | emptyObject {ws : List UInt8} (hws : IsWhitespace ws) :
      Derives .value ('{'.toUInt8 :: (ws ++ ['}'.toUInt8])) 1
  | object {text : List UInt8} {n : ℕ} (h : Derives .members text n) :
      Derives .value ('{'.toUInt8 :: (text ++ ['}'.toUInt8])) (n + 1)
  | element {before text after : List UInt8} {n : ℕ} (hbefore : IsWhitespace before)
      (h : Derives .value text n) (hafter : IsWhitespace after) :
      Derives .element (before ++ text ++ after) n
  | lastElement {text : List UInt8} {n : ℕ} (h : Derives .element text n) :
      Derives .elements text n
  | elements {first rest : List UInt8} {n m : ℕ} (hfirst : Derives .element first n)
      (hrest : Derives .elements rest m) :
      Derives .elements (first ++ ','.toUInt8 :: rest) (n + m)
  | member {before name after text : List UInt8} {n : ℕ} (hbefore : IsWhitespace before)
      (hname : IsString name) (hafter : IsWhitespace after) (h : Derives .element text n) :
      Derives .member (before ++ name ++ after ++ ':'.toUInt8 :: text) n
  | lastMember {text : List UInt8} {n : ℕ} (h : Derives .member text n) :
      Derives .members text n
  | members {first rest : List UInt8} {n m : ℕ} (hfirst : Derives .member first n)
      (hrest : Derives .members rest m) :
      Derives .members (first ++ ','.toUInt8 :: rest) (n + m)

/-- A JSON text, with the number of values in it. -/
def IsText (text : List UInt8) (values : ℕ) : Prop := Derives .element text values

/-! ### Classes of bytes -/

/-- What holds of all bytes of a class holds of each byte in it. -/
theorem of_contains {bytes : List UInt8} {p : UInt8 → Bool} (h : bytes.all p = true) {b : UInt8}
    (hb : bytes.contains b = true) : p b = true :=
  List.all_eq_true.mp h b (List.contains_iff_mem.mp hb)

/-- The bytes a number can be written with. -/
def isNumberByte (b : UInt8) : Bool := (ascii "0123456789+-.eE").contains b

theorem isNumberByte_of_isDigit {b : UInt8} (h : isDigit b = true) : isNumberByte b = true :=
  of_contains (by decide) h

theorem IsDigits.isNumberByte {digits : List UInt8} (h : IsDigits digits) :
    ∀ b ∈ digits, isNumberByte b = true :=
  fun b hb => isNumberByte_of_isDigit (h.2 b hb)

theorem IsInteger.isNumberByte {integer : List UInt8} (h : IsInteger integer) :
    ∀ b ∈ integer, isNumberByte b = true := by
  rcases h with rfl | ⟨hdigits, -⟩
  · exact List.all_eq_true.mp (by decide)
  · exact hdigits.isNumberByte

theorem IsFraction.isNumberByte {fraction : List UInt8} (h : IsFraction fraction) :
    ∀ b ∈ fraction, isNumberByte b = true := by
  rcases h with rfl | ⟨digits, hdigits, rfl⟩
  · simp
  · rw [List.forall_mem_cons]
    exact ⟨by decide, hdigits.isNumberByte⟩

theorem IsExponent.isNumberByte {exponent : List UInt8} (h : IsExponent exponent) :
    ∀ b ∈ exponent, isNumberByte b = true := by
  rcases h with rfl | ⟨e, sign, digits, he, hsign, hdigits, rfl⟩
  · simp
  · rw [List.forall_mem_cons, List.forall_mem_append]
    refine ⟨?_, ?_, hdigits.isNumberByte⟩
    · exact of_contains (by decide) (List.contains_iff_mem.mpr he)
    · rcases hsign with rfl | rfl | rfl
      · simp
      · exact List.all_eq_true.mp (by decide)
      · exact List.all_eq_true.mp (by decide)

theorem IsNumber.isNumberByte {text : List UInt8} (h : IsNumber text) :
    ∀ b ∈ text, isNumberByte b = true := by
  obtain ⟨sign, integer, fraction, exponent, hsign, hinteger, hfraction, hexponent, rfl⟩ := h
  simp only [List.forall_mem_append]
  refine ⟨⟨⟨?_, hinteger.isNumberByte⟩, hfraction.isNumberByte⟩, hexponent.isNumberByte⟩
  rcases hsign with rfl | rfl
  · simp
  · exact List.all_eq_true.mp (by decide)

end JsonGrammar
