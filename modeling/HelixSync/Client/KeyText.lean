import Mathlib.Data.Prod.Lex
import HelixSync.Lib.CodeUnits
import HelixSync.Lib.HexText
import HelixSync.Client.Conflict

/-!
# Ordering keys as text and as bytes

On the wire an ordering key holds its two UUIDs as strings, and that is how the extension
compares them (`compareOrderingKey`, `extension/src/sync/conflict.ts`); the server parses
them and compares sixteen bytes (`OrderingKey`, `server/src/sync/conflict.rs`). The two
orders are one as long as the strings are the canonical ones, which are hyphenated, of
thirty-six characters and in lower case (`HelixSync.Client.compareOrderingKey_agrees`).
Both are the order of the numbers the UUIDs spell, which is what the rest of the development
compares (`HelixSync.Client.WireKey.compareOrderingKey_eq`).

A number of the wire is an integer below `2 ^ 53`: there the subtraction of two of them is
exact, and they fit the server's `i64`.
-/

namespace HelixSync

namespace Client

open CodeUnits HexText

/-! ### UUIDs -/

/-- Which of the sixteen bytes of a UUID have a hyphen before them. -/
def uuidLayout : List Bool :=
  [false, false, false, false, true, false, true, false, true, false, true, false, false, false,
    false, false]

/-- The bytes of a UUID. -/
structure UuidBytes where
  bytes : List Byte
  length_eq : bytes.length = uuidLayout.length
  deriving DecidableEq

/-- A UUID as it is printed. -/
def UuidBytes.text (u : UuidBytes) : String := String.ofList (HexText.text uuidLayout u.bytes)

/-- A UUID as it is parsed. -/
def parseUuid (s : String) : Option UuidBytes :=
  match h : read uuidLayout s.toList with
  | some bytes => some ⟨bytes, length_of_read h⟩
  | none => none

/-- Whether a string is what the UUID it spells is printed as. -/
def IsCanonicalUuid (s : String) : Prop := (parseUuid s).map UuidBytes.text = some s

instance : DecidablePred IsCanonicalUuid := fun s =>
  inferInstanceAs (Decidable ((parseUuid s).map UuidBytes.text = some s))

theorem UuidBytes.number_lt (u : UuidBytes) : number u.bytes < 2 ^ 128 := by
  have hlt := HexText.number_lt u.bytes
  rw [u.length_eq] at hlt
  exact hlt

/-- The number a UUID is. -/
def UuidBytes.toUuid (u : UuidBytes) : Uuid := ⟨number u.bytes, u.number_lt⟩

/-! ### Keys -/

/-- `OrderingKey` of the extension: the key as it is on the wire. -/
structure WireKey where
  lamportTimestamp : ℤ
  deviceId : String
  operationId : String
  deriving DecidableEq

/-- `OrderingKey` of the server: the key parsed. -/
structure ParsedKey where
  lamportTimestamp : Int64
  deviceId : UuidBytes
  operationId : UuidBytes

namespace WireKey

/-- `compareOrderingKey`. -/
def compareOrderingKey (a b : WireKey) : ℤ :=
  if a.lamportTimestamp ≠ b.lamportTimestamp then a.lamportTimestamp - b.lamportTimestamp
  else if a.deviceId ≠ b.deviceId then
    if codeUnits a.deviceId < codeUnits b.deviceId then -1 else 1
  else if a.operationId ≠ b.operationId then
    if codeUnits a.operationId < codeUnits b.operationId then -1 else 1
  else 0

/-- The key as the server parses it. -/
def parse (a : WireKey) : Option ParsedKey := do
  let deviceId ← parseUuid a.deviceId
  let operationId ← parseUuid a.operationId
  pure ⟨Int64.ofInt a.lamportTimestamp, deviceId, operationId⟩

/-- What the keys of operations are: a number that the wire holds exactly, and UUIDs in
their canonical spelling. -/
structure IsWellFormed (a : WireKey) : Prop where
  nonneg : 0 ≤ a.lamportTimestamp
  lt : a.lamportTimestamp < 2 ^ 53
  deviceId : IsCanonicalUuid a.deviceId
  operationId : IsCanonicalUuid a.operationId

end WireKey

namespace ParsedKey

/-- The derived `Ord`: the fields in turn, the bytes of a UUID in turn. -/
def cmp (a b : ParsedKey) : Ordering :=
  (compareOfLessAndEq a.lamportTimestamp b.lamportTimestamp).then
    ((compareOfLessAndEq a.deviceId.bytes b.deviceId.bytes).then
      (compareOfLessAndEq a.operationId.bytes b.operationId.bytes))

/-- The key with its UUIDs as numbers. -/
def toOrderingKey (a : ParsedKey) : OrderingKey :=
  ⟨a.lamportTimestamp.toInt, a.deviceId.toUuid, a.operationId.toUuid⟩

end ParsedKey

/-! ### The order of UUIDs -/

theorem UuidBytes.isAscii (u : UuidBytes) : ∀ c ∈ u.text.toList, IsAscii c := by
  intro c hc
  rw [UuidBytes.text, String.toList_ofList] at hc
  have hdigits : hexDigits.all (fun c => decide (IsAscii c)) = true := by decide
  rcases mem_text hc with rfl | hmem
  · decide
  · exact of_decide_eq_true (List.all_eq_true.mp hdigits c hmem)

/-- **Printed UUIDs are in the order of the numbers.** -/
theorem UuidBytes.text_lt_iff {u v : UuidBytes} :
    codeUnits u.text < codeUnits v.text ↔ u.toUuid < v.toUuid := by
  rw [codeUnits_lt_iff u.isAscii v.isAscii, UuidBytes.text, UuidBytes.text,
    String.toList_ofList, String.toList_ofList, HexText.text_lt_iff u.length_eq v.length_eq,
    ← number_lt_iff (u.length_eq.trans v.length_eq.symm)]
  rfl

/-- **The bytes of UUIDs are in the order of the numbers.** -/
theorem UuidBytes.bytes_lt_iff {u v : UuidBytes} : u.bytes < v.bytes ↔ u.toUuid < v.toUuid := by
  rw [← number_lt_iff (u.length_eq.trans v.length_eq.symm)]
  rfl

theorem UuidBytes.toUuid_inj {u v : UuidBytes} : u.toUuid = v.toUuid ↔ u = v := by
  refine ⟨fun h => ?_, congrArg UuidBytes.toUuid⟩
  rcases lt_trichotomy u.bytes v.bytes with hlt | heq | hgt
  · exact absurd h (bytes_lt_iff.mp hlt).ne
  · obtain ⟨bytes, _⟩ := u
    obtain ⟨bytes', _⟩ := v
    obtain rfl : bytes = bytes' := heq
    rfl
  · exact absurd h (bytes_lt_iff.mp hgt).ne'

theorem parseUuid_text (u : UuidBytes) : parseUuid u.text = some u := by
  have hread : read uuidLayout u.text.toList = some u.bytes := by
    rw [UuidBytes.text, String.toList_ofList, read_text u.length_eq]
  unfold parseUuid
  split
  · rename_i bytes hbytes
    obtain ⟨bytes', _⟩ := u
    obtain rfl : bytes' = bytes := Option.some.inj (hread.symm.trans hbytes)
    rfl
  · rename_i hnone
    exact absurd (hread.symm.trans hnone) nofun

theorem IsCanonicalUuid.exists_text {s : String} (h : IsCanonicalUuid s) :
    ∃ u : UuidBytes, parseUuid s = some u ∧ u.text = s :=
  Option.map_eq_some_iff.mp h

theorem UuidBytes.text_inj {u v : UuidBytes} : u.text = v.text ↔ u = v := by
  refine ⟨fun h => ?_, congrArg UuidBytes.text⟩
  have hparse := parseUuid_text u
  rw [h, parseUuid_text v] at hparse
  exact (Option.some.inj hparse).symm

/-! ### The order of keys -/

theorem compareOrderingKey_swap (a b : OrderingKey) :
    compareOrderingKey b a = -compareOrderingKey a b := by
  unfold compareOrderingKey
  rcases lt_trichotomy a.lamportTimestamp b.lamportTimestamp with hl | hl | hl
  · rw [if_pos hl.ne', if_pos hl.ne, neg_sub]
  · rw [if_neg (not_not.mpr hl.symm), if_neg (not_not.mpr hl)]
    rcases lt_trichotomy a.deviceId b.deviceId with hd | hd | hd
    · rw [if_pos hd.ne', if_pos hd.ne, if_neg hd.asymm, if_pos hd, neg_neg]
    · rw [if_neg (not_not.mpr hd.symm), if_neg (not_not.mpr hd)]
      rcases lt_trichotomy a.operationId b.operationId with ho | ho | ho
      · rw [if_pos ho.ne', if_pos ho.ne, if_neg ho.asymm, if_pos ho, neg_neg]
      · rw [if_neg (not_not.mpr ho.symm), if_neg (not_not.mpr ho), neg_zero]
      · rw [if_pos ho.ne, if_pos ho.ne', if_pos ho, if_neg ho.asymm]
    · rw [if_pos hd.ne, if_pos hd.ne', if_pos hd, if_neg hd.asymm]
  · rw [if_pos hl.ne, if_pos hl.ne', neg_sub]

theorem compareOrderingKey_neg {a b : OrderingKey} : compareOrderingKey a b < 0 ↔ a < b := by
  rw [← compareOrderingKey_pos, compareOrderingKey_swap a b]
  exact neg_pos.symm

namespace ParsedKey

theorem toOrderingKey_inj {a b : ParsedKey} :
    a.toOrderingKey = b.toOrderingKey ↔ a = b := by
  refine ⟨fun h => ?_, congrArg toOrderingKey⟩
  obtain ⟨l, d, o⟩ := a
  obtain ⟨l', d', o'⟩ := b
  obtain ⟨hl, hd, ho⟩ : l.toInt = l'.toInt ∧ d.toUuid = d'.toUuid ∧ o.toUuid = o'.toUuid := by
    simpa [toOrderingKey] using h
  rw [Int64.toInt_inj.mp hl, UuidBytes.toUuid_inj.mp hd, UuidBytes.toUuid_inj.mp ho]

theorem compareOfLessAndEq_bytes (u v : UuidBytes) :
    compareOfLessAndEq u.bytes v.bytes = compareOfLessAndEq u.toUuid v.toUuid := by
  have heq : u.bytes = v.bytes ↔ u.toUuid = v.toUuid := by
    rw [UuidBytes.toUuid_inj, UuidBytes.mk.injEq]
  simp only [compareOfLessAndEq, UuidBytes.bytes_lt_iff, heq]

theorem compareOfLessAndEq_toInt (a b : Int64) :
    compareOfLessAndEq a b = compareOfLessAndEq a.toInt b.toInt := by
  simp only [compareOfLessAndEq, Int64.lt_iff_toInt_lt, Int64.toInt_inj]

/-- **The derived order** is that of the keys with their UUIDs as numbers. -/
theorem cmp_eq (a b : ParsedKey) :
    a.cmp b = compare (compareOrderingKey a.toOrderingKey b.toOrderingKey) 0 := by
  rw [cmp, compareOfLessAndEq_toInt, compareOfLessAndEq_bytes, compareOfLessAndEq_bytes]
  unfold compareOrderingKey toOrderingKey compareOfLessAndEq
  rcases lt_trichotomy a.lamportTimestamp.toInt b.lamportTimestamp.toInt with hl | hl | hl
  · have hneg := compare_lt_iff_lt.mpr (sub_neg.mpr hl)
    simp only [if_pos hl, hl.ne, ne_eq, not_false_eq_true, if_true, hneg, Ordering.then]
  · rw [if_neg (by omega), if_pos hl, if_neg (not_not.mpr hl)]
    rcases lt_trichotomy a.deviceId.toUuid b.deviceId.toUuid with hd | hd | hd
    · simp only [if_pos hd, hd.ne, ne_eq, not_false_eq_true, if_true]
      rfl
    · rw [if_neg (not_lt_of_ge hd.ge), if_pos hd, if_neg (not_not.mpr hd)]
      rcases lt_trichotomy a.operationId.toUuid b.operationId.toUuid with ho | ho | ho
      · simp only [if_pos ho, ho.ne, ne_eq, not_false_eq_true, if_true]
        rfl
      · rw [if_neg (not_lt_of_ge ho.ge), if_pos ho, if_neg (not_not.mpr ho)]
        rfl
      · simp only [if_neg ho.asymm, ho.ne', ne_eq, not_false_eq_true, if_true, if_false]
        rfl
    · simp only [if_neg hd.asymm, hd.ne', ne_eq, not_false_eq_true, if_true, if_false]
      rfl
  · have hpos := compare_gt_iff_gt.mpr (sub_pos.mpr hl)
    simp only [if_neg hl.asymm, hl.ne', ne_eq, not_false_eq_true, if_true, if_false, hpos,
      Ordering.then]

end ParsedKey

namespace WireKey

/-- A well-formed key is parsed, and is what its parts are printed as. -/
theorem IsWellFormed.exists_parse {a : WireKey} (h : a.IsWellFormed) :
    ∃ k : ParsedKey, a.parse = some k ∧ k.lamportTimestamp.toInt = a.lamportTimestamp ∧
      k.deviceId.text = a.deviceId ∧ k.operationId.text = a.operationId := by
  obtain ⟨d, hd, hdtext⟩ := h.deviceId.exists_text
  obtain ⟨o, ho, hotext⟩ := h.operationId.exists_text
  refine ⟨⟨Int64.ofInt a.lamportTimestamp, d, o⟩, by rw [parse, hd, ho]; rfl, ?_, hdtext, hotext⟩
  have hnonneg := h.nonneg
  have hlt := h.lt
  exact Int64.toInt_ofInt_of_le (by omega) (by omega)

/-- **The comparison of the strings** is that of the numbers the UUIDs are. -/
theorem compareOrderingKey_eq {a b : WireKey} {ka kb : ParsedKey}
    (hal : ka.lamportTimestamp.toInt = a.lamportTimestamp) (had : ka.deviceId.text = a.deviceId)
    (hao : ka.operationId.text = a.operationId)
    (hbl : kb.lamportTimestamp.toInt = b.lamportTimestamp) (hbd : kb.deviceId.text = b.deviceId)
    (hbo : kb.operationId.text = b.operationId) :
    a.compareOrderingKey b =
      Client.compareOrderingKey ka.toOrderingKey kb.toOrderingKey := by
  obtain ⟨al, ad, ao⟩ := a
  obtain ⟨bl, bd, bo⟩ := b
  subst hal had hao hbl hbd hbo
  simp only [compareOrderingKey, Client.compareOrderingKey, ParsedKey.toOrderingKey,
    UuidBytes.text_lt_iff, ne_eq, UuidBytes.text_inj, UuidBytes.toUuid_inj]
  split_ifs <;> simp only [*, if_true, if_false]

end WireKey

/-- **Client and server order operations the same way.** The sign of the extension's
comparison of two keys is the server's comparison of the keys it parses them to, and below
zero is a strict total order: no key is below itself, one of two different keys is below
the other, and not the other way, and below is transitive. -/
theorem compareOrderingKey_agrees :
    (∀ a b : WireKey, a.IsWellFormed → b.IsWellFormed →
      ∃ ka kb, a.parse = some ka ∧ b.parse = some kb ∧
        compare (a.compareOrderingKey b) 0 = ka.cmp kb) ∧
    (∀ a : WireKey, a.IsWellFormed → ¬ a.compareOrderingKey a < 0) ∧
    (∀ a b : WireKey, a.IsWellFormed → b.IsWellFormed → a ≠ b →
      (a.compareOrderingKey b < 0 ∨ b.compareOrderingKey a < 0) ∧
        (a.compareOrderingKey b < 0 ↔ 0 < b.compareOrderingKey a)) ∧
    ∀ a b c : WireKey, a.IsWellFormed → b.IsWellFormed → c.IsWellFormed →
      a.compareOrderingKey b < 0 → b.compareOrderingKey c < 0 → a.compareOrderingKey c < 0 := by
  refine ⟨fun a b ha hb => ?_, fun a ha => ?_, fun a b ha hb hne => ?_,
    fun a b c ha hb hc hab hbc => ?_⟩
  · obtain ⟨ka, hka, hal, had, hao⟩ := ha.exists_parse
    obtain ⟨kb, hkb, hbl, hbd, hbo⟩ := hb.exists_parse
    refine ⟨ka, kb, hka, hkb, ?_⟩
    rw [WireKey.compareOrderingKey_eq hal had hao hbl hbd hbo, ParsedKey.cmp_eq]
  · obtain ⟨ka, -, hal, had, hao⟩ := ha.exists_parse
    rw [WireKey.compareOrderingKey_eq hal had hao hal had hao, compareOrderingKey_neg]
    exact lt_irrefl _
  · obtain ⟨ka, -, hal, had, hao⟩ := ha.exists_parse
    obtain ⟨kb, -, hbl, hbd, hbo⟩ := hb.exists_parse
    rw [WireKey.compareOrderingKey_eq hal had hao hbl hbd hbo,
      WireKey.compareOrderingKey_eq hbl hbd hbo hal had hao, compareOrderingKey_neg,
      compareOrderingKey_neg, compareOrderingKey_pos]
    refine ⟨lt_or_gt_of_ne fun heq => hne ?_, Iff.rfl⟩
    obtain rfl := ParsedKey.toOrderingKey_inj.mp heq
    obtain ⟨al, ad, ao⟩ := a
    obtain ⟨bl, bd, bo⟩ := b
    subst hal had hao hbl hbd hbo
    rfl
  · obtain ⟨ka, -, hal, had, hao⟩ := ha.exists_parse
    obtain ⟨kb, -, hbl, hbd, hbo⟩ := hb.exists_parse
    obtain ⟨kc, -, hcl, hcd, hco⟩ := hc.exists_parse
    rw [WireKey.compareOrderingKey_eq hal had hao hbl hbd hbo, compareOrderingKey_neg] at hab
    rw [WireKey.compareOrderingKey_eq hbl hbd hbo hcl hcd hco, compareOrderingKey_neg] at hbc
    rw [WireKey.compareOrderingKey_eq hal had hao hcl hcd hco, compareOrderingKey_neg]
    exact hab.trans hbc

/-- Two operations of one device, as the wire has their keys. -/
def exampleKey (operationId : String) : WireKey :=
  ⟨7, "9b2d5b0e-70a1-4a5c-8d5e-0f1a2b3c4d5e", operationId⟩

/-- Two keys that differ in the last byte of the operation's id, a digit in the one and a
letter in the other. -/
theorem compareOrderingKey_agrees_last_byte :
    ∃ ka kb, (exampleKey "00000000-0000-4000-8000-000000000009").parse = some ka ∧
      (exampleKey "00000000-0000-4000-8000-00000000000a").parse = some kb ∧
      compare ((exampleKey "00000000-0000-4000-8000-000000000009").compareOrderingKey
        (exampleKey "00000000-0000-4000-8000-00000000000a")) 0 = ka.cmp kb :=
  compareOrderingKey_agrees.1 _ _
    ⟨by decide, by decide, by decide +kernel, by decide +kernel⟩
    ⟨by decide, by decide, by decide +kernel, by decide +kernel⟩

end Client

end HelixSync
