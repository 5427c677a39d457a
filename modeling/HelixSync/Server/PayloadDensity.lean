import HelixSync.Lib.JsonGrammar
import HelixSync.Server.Shape

/-!
# The density of a payload

The density check of an operation (`HelixSync.jsonNodeDensityTooHigh`) counts brackets and
commas without parsing the payload. The scan follows the grammar: over a text derived from
any symbol it starts and ends outside of strings, and what it counts, plus one, bounds the
number of values in the text (`HelixSync.exists_counts`). So an operation that passes the
check cannot blow up when its payload is parsed.
-/

namespace HelixSync

open JsonGrammar

/-- What the density check counts: the brackets that open and the commas, outside of strings. -/
def countedNodes (raw : List UInt8) : ℕ := (raw.foldl DensityScan.step ⟨0, false, false⟩).nodes

/-- The scan counts `k` nodes over a text, from outside of a string to outside of a string. -/
def Counts (text : List UInt8) (k : ℕ) : Prop :=
  ∀ n, text.foldl DensityScan.step ⟨n, false, false⟩ = ⟨n + k, false, false⟩

variable {text text' : List UInt8} {k k' : ℕ}

theorem Counts.countedNodes_eq (h : Counts text k) : countedNodes text = k := by
  rw [countedNodes, h 0, Nat.zero_add]

theorem Counts.append (h : Counts text k) (h' : Counts text' k') :
    Counts (text ++ text') (k + k') := by
  intro n
  rw [List.foldl_append, h n, h' (n + k), Nat.add_assoc]

theorem Counts.cons {b : UInt8} (h : Counts [b] k) (h' : Counts text k') :
    Counts (b :: text) (k + k') :=
  h.append h'

/-! ### Bytes -/

/-- A byte that neither counts nor opens a string. -/
def isPlain (b : UInt8) : Bool := !(ascii "\"[\x7b,").contains b

theorem counts_plain {b : UInt8} (h : isPlain b = true) : Counts [b] 0 := by
  intro n
  have hplain : b ≠ '"'.toUInt8 ∧ b ≠ '['.toUInt8 ∧ b ≠ '{'.toUInt8 ∧ b ≠ ','.toUInt8 := by
    simpa [isPlain, ascii] using h
  simp [DensityScan.step, hplain]

/-- The scan passes over a text without quotes, brackets and commas. -/
theorem counts_of_plain (h : ∀ b ∈ text, isPlain b = true) : Counts text 0 := by
  induction text with
  | nil => exact fun n => rfl
  | cons b text ih =>
    rw [List.forall_mem_cons] at h
    exact (counts_plain h.1).cons (ih h.2)

theorem counts_structural {b : UInt8} (h : b = '['.toUInt8 ∨ b = '{'.toUInt8 ∨ b = ','.toUInt8) :
    Counts [b] 1 := by
  intro n
  rcases h with rfl | rfl | rfl <;> rfl

theorem counts_whitespace (h : IsWhitespace text) : Counts text 0 :=
  counts_of_plain fun b hb => of_contains (by decide) (h b hb)

theorem counts_number (h : IsNumber text) : Counts text 0 :=
  counts_of_plain fun b hb => of_contains (by decide) (h.isNumberByte b hb)

theorem counts_literal (h : IsLiteral text) : Counts text 0 := by
  refine counts_of_plain (List.all_eq_true.mp ?_)
  rcases h with rfl | rfl | rfl <;> decide

/-! ### Strings -/

/-- A byte that is not special inside of a string leaves the scan as it is. -/
theorem step_inString {b : UInt8} (hquote : b ≠ '"'.toUInt8) (hbackslash : b ≠ '\\'.toUInt8)
    (n : ℕ) : DensityScan.step ⟨n, true, false⟩ b = ⟨n, true, false⟩ := by
  simp [DensityScan.step, hquote, hbackslash]

theorem foldl_hexDigits {digits : List UInt8} (h : ∀ b ∈ digits, isHexDigit b = true) (n : ℕ) :
    digits.foldl DensityScan.step ⟨n, true, false⟩ = ⟨n, true, false⟩ := by
  induction digits with
  | nil => rfl
  | cons b digits ih =>
    rw [List.forall_mem_cons] at h
    have hdigit : (b != '"'.toUInt8 && b != '\\'.toUInt8) = true :=
      of_contains (p := fun b => b != '"'.toUInt8 && b != '\\'.toUInt8) (by decide) h.1
    rw [Bool.and_eq_true, bne_iff_ne, bne_iff_ne] at hdigit
    rw [List.foldl_cons, step_inString hdigit.1 hdigit.2, ih h.2]

/-- **The scan of a string stays inside of it**, past quotes and brackets and runs of
backslashes: an escaped quote does not end it, and an escaped backslash escapes nothing. -/
theorem foldl_stringBody {body : List UInt8} (h : IsStringBody body) (n : ℕ) :
    body.foldl DensityScan.step ⟨n, true, false⟩ = ⟨n, true, false⟩ := by
  induction h with
  | nil => rfl
  | unescaped hcontrol hquote hbackslash hrest ih =>
    rw [List.foldl_cons, step_inString hquote hbackslash, ih]
  | @escaped b rest hescape hrest ih =>
    -- the byte behind the backslash is skipped, whatever it is
    calc ('\\'.toUInt8 :: b :: rest).foldl DensityScan.step ⟨n, true, false⟩
        = rest.foldl DensityScan.step ⟨n, true, false⟩ := rfl
      _ = ⟨n, true, false⟩ := ih
  | @unicode digits rest hlength hdigits hrest ih =>
    calc ('\\'.toUInt8 :: 'u'.toUInt8 :: (digits ++ rest)).foldl DensityScan.step ⟨n, true, false⟩
        = (digits ++ rest).foldl DensityScan.step ⟨n, true, false⟩ := rfl
      _ = ⟨n, true, false⟩ := by rw [List.foldl_append, foldl_hexDigits hdigits, ih]

theorem counts_string (h : IsString text) : Counts text 0 := by
  obtain ⟨body, hbody, rfl⟩ := h
  intro n
  calc ('"'.toUInt8 :: (body ++ ['"'.toUInt8])).foldl DensityScan.step ⟨n, false, false⟩
      = (body ++ ['"'.toUInt8]).foldl DensityScan.step ⟨n, true, false⟩ := rfl
    _ = ⟨n, false, false⟩ := by rw [List.foldl_append, foldl_stringBody hbody]; rfl

/-! ### Documents -/

/-- The brackets around a text count the one that opens. -/
theorem Counts.bracketed {opening closing : UInt8} (h : Counts text k)
    (hopening : opening = '['.toUInt8 ∨ opening = '{'.toUInt8) (hclosing : isPlain closing = true) :
    Counts (opening :: (text ++ [closing])) (k + 1) := by
  have hinside : Counts (text ++ [closing]) k := h.append (counts_plain hclosing)
  rw [Nat.add_comm]
  refine (counts_structural ?_).cons hinside
  exact hopening.imp_right Or.inl

/-- A comma between two texts counts. -/
theorem Counts.comma (h : Counts text k) (h' : Counts text' k') :
    Counts (text ++ ','.toUInt8 :: text') (k + (1 + k')) :=
  h.append ((counts_structural (Or.inr (Or.inr rfl))).cons h')

/-- **The scan follows the grammar**, and counts all values but one at least: the bracket of an
array makes up for the array, and each comma for a value behind it. -/
theorem exists_counts {symbol : Symbol} {n : ℕ} (h : Derives symbol text n) :
    ∃ k, Counts text k ∧ n ≤ 1 + k := by
  induction h with
  | literal h => exact ⟨0, counts_literal h, le_rfl⟩
  | number h => exact ⟨0, counts_number h, le_rfl⟩
  | string h => exact ⟨0, counts_string h, le_rfl⟩
  | emptyArray hws =>
    exact ⟨1, (counts_whitespace hws).bracketed (Or.inl rfl) (by decide), by omega⟩
  | emptyObject hws =>
    exact ⟨1, (counts_whitespace hws).bracketed (Or.inr rfl) (by decide), by omega⟩
  | array h ih =>
    obtain ⟨k, hcounts, hle⟩ := ih
    exact ⟨k + 1, hcounts.bracketed (Or.inl rfl) (by decide), by omega⟩
  | object h ih =>
    obtain ⟨k, hcounts, hle⟩ := ih
    exact ⟨k + 1, hcounts.bracketed (Or.inr rfl) (by decide), by omega⟩
  | element hbefore h hafter ih =>
    obtain ⟨k, hcounts, hle⟩ := ih
    refine ⟨0 + k + 0, ?_, by omega⟩
    exact ((counts_whitespace hbefore).append hcounts).append (counts_whitespace hafter)
  | member hbefore hname hafter h ih =>
    obtain ⟨k, hcounts, hle⟩ := ih
    refine ⟨0 + 0 + 0 + (0 + k), ?_, by omega⟩
    exact (((counts_whitespace hbefore).append (counts_string hname)).append
      (counts_whitespace hafter)).append ((counts_plain (by decide)).cons hcounts)
  | lastElement h ih => exact ih
  | lastMember h ih => exact ih
  | elements hfirst hrest ihfirst ihrest =>
    obtain ⟨k, hcounts, hle⟩ := ihfirst
    obtain ⟨k', hcounts', hle'⟩ := ihrest
    exact ⟨k + (1 + k'), hcounts.comma hcounts', by omega⟩
  | members hfirst hrest ihfirst ihrest =>
    obtain ⟨k, hcounts, hle⟩ := ihfirst
    obtain ⟨k', hcounts', hle'⟩ := ihrest
    exact ⟨k + (1 + k'), hcounts.comma hcounts', by omega⟩

theorem values_le_countedNodes {values : ℕ} (h : IsText text values) :
    values ≤ 1 + countedNodes text := by
  obtain ⟨k, hcounts, hle⟩ := exists_counts h
  rwa [hcounts.countedNodes_eq]

/-- A payload that passes the check has counted nodes for an eighth of its bytes at most. -/
theorem countedNodes_le (hlarge : densityCheckThresholdBytes < text.length)
    (h : jsonNodeDensityTooHigh text = false) :
    countedNodes text ≤ text.length / minBytesPerJsonNode := by
  rw [jsonNodeDensityTooHigh, if_neg (not_le.mpr hlarge), decide_eq_false_iff_not, not_lt] at h
  exact h

/-- An operation with a good shape has passed the density check. -/
theorem ShapeOk.not_tooDense {now : DateTime} {require : Bool} {op : OperationIn}
    (hok : ShapeOk now require op) : jsonNodeDensityTooHigh op.payload.text = false := by
  unfold ShapeOk checkOpShape at hok
  split_ifs at hok with hknown hallowed hversion henc hlarge hdense
  exact Bool.not_eq_true _ ▸ hdense

/-- **The density check bounds the values of a payload**: a JSON text has at most one value more
than the check counts, so that a large payload of an accepted operation has one value for
eight of its bytes at most, and one more. -/
theorem values_le_of_density :
    (∀ text values, IsText text values → values ≤ 1 + countedNodes text) ∧
    ∀ (now : DateTime) (requireEncryption : Bool) (op : OperationIn) (values : ℕ),
      IsText op.payload.text values → 64 * 1024 < op.payload.text.length →
      checkOpShape now requireEncryption op = .ok () →
      values ≤ 1 + op.payload.text.length / 8 := by
  constructor
  · exact fun text values h => values_le_countedNodes h
  · intro now requireEncryption op values htext hlarge hok
    have hnodes := countedNodes_le hlarge (ShapeOk.not_tooDense hok)
    exact (values_le_countedNodes htext).trans (Nat.add_le_add_left hnodes 1)

/-! ### A padded payload -/

/-- A short array behind whitespace past the threshold of the check. -/
def paddedText : List UInt8 := List.replicate 65536 ' '.toUInt8 ++ ascii "[1]"

theorem length_paddedText : paddedText.length = 65539 := by
  rw [paddedText, List.length_append, List.length_replicate]
  rfl

theorem isText_paddedText : IsText paddedText 2 := by
  have hone : Derives .element ([] ++ ascii "1" ++ []) 1 := by
    refine .element (by simp [IsWhitespace]) (.number ?_) (by simp [IsWhitespace])
    have hdigits : IsDigits (ascii "1") := ⟨by decide, List.all_eq_true.mp (by decide)⟩
    exact ⟨[], ascii "1", [], [], Or.inl rfl, Or.inr ⟨hdigits, by decide⟩, Or.inl rfl, Or.inl rfl,
      rfl⟩
  have hspaces : IsWhitespace (List.replicate 65536 ' '.toUInt8) := by
    intro b hb
    rw [List.eq_of_mem_replicate hb]
    rfl
  have helement := Derives.element hspaces (.array (.lastElement hone))
    (show IsWhitespace [] by simp [IsWhitespace])
  rwa [List.append_nil] at helement

def paddedOperation : OperationIn where
  operationId := 1
  deviceSequence := 1
  lamportTimestamp := 1
  objectType := .bookmark
  objectId := 2
  operationType := .create
  encryptionVersion := 1
  payload := ⟨paddedText, .array [.number "1"], true, List.ne_nil_of_length_pos (by
    rw [length_paddedText]; decide)⟩
  visitCount := none
  visitHours := none

theorem checkOpShape_paddedOperation : checkOpShape 0 true paddedOperation = .ok () := by
  have hspaces : Counts (List.replicate 65536 ' '.toUInt8) 0 := counts_of_plain fun b hb => by
    rw [List.eq_of_mem_replicate hb]
    rfl
  have hcounted : countedNodes paddedText = 1 :=
    (hspaces.append (fun n => rfl : Counts (ascii "[1]") 1)).countedNodes_eq
  have hsparse : jsonNodeDensityTooHigh paddedText = false := by
    rw [jsonNodeDensityTooHigh, if_neg (by rw [length_paddedText]; decide), length_paddedText]
    exact decide_eq_false (by rw [← countedNodes, hcounted]; decide)
  have hsize : ¬paddedOperation.payload.text.length > payloadCap paddedOperation := by
    change ¬paddedText.length > maxPayloadBytes
    rw [length_paddedText]
    decide
  have hdense : ¬jsonNodeDensityTooHigh paddedOperation.payload.text = true :=
    Bool.not_eq_true _ ▸ hsparse
  rw [checkOpShape, if_neg hsize, if_neg hdense]
  rfl

theorem values_le_of_density_padded : 2 ≤ 1 + paddedOperation.payload.text.length / 8 :=
  values_le_of_density.2 0 true paddedOperation 2 isText_paddedText
    (by
      change 64 * 1024 < paddedText.length
      rw [length_paddedText]
      decide)
    checkOpShape_paddedOperation

end HelixSync
