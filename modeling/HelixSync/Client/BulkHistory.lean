import HelixSync.Lib.Cutting
import HelixSync.Server.Upload
import Mathlib.Algebra.Order.Floor.Ring
import Mathlib.Algebra.Order.Ring.Rat
import Mathlib.Data.Rat.Floor

/-!
# Chunks of imported history

The older history of a device is uploaded in chunks (`extension/src/history/bulk.ts`):
`enumerateVisits` cuts the visits into segments of a fixed number of visits, and
`collectHistoryBulk` encrypts each segment and gathers segments into a chunk until the chunk has
enough bytes or enough visits. A chunk is uploaded as one operation, whose ids are derived from
the index of the chunk, and another device takes it apart again with `forEachBulkVisit`.

An interrupted import is resumed by skipping as many visits as the uploaded chunks held. Both
cuttings are restarted where a piece ended, so the resumed import makes the remaining chunks
(`HelixSync.Client.BulkScope.bulkPlan_drop`): a chunk of a given index always holds the same visits.

What the code uses of its environment is gathered in `BulkCipher`.
-/

namespace HelixSync

namespace Client

open Cutting

/-! ### What the code uses of its environment -/

/-- One visit, as a chunk is decoded into (`DecryptedEntry`). -/
structure DecryptedEntry where
  url : String
  title : Option String
  t : ℚ
  deriving DecidableEq, Repr

/-- `BulkVisitGroup`. -/
structure BulkVisitGroup where
  u : String
  t : Option String
  v : List ℚ

/-- `BulkVisit`, the visit of a version 1 segment. -/
structure BulkVisit where
  url : String
  title : Option String
  visitedAt : String

/-- The plaintext of a segment: version 2, version 1, or something else. -/
inductive BulkSegmentPlaintext where
  | grouped (groups : List BulkVisitGroup)
  | flat (visits : List BulkVisit)
  | unknown

/-- The library functions the import calls, with the account key fixed. -/
structure BulkCipher where
  Bytes : Type
  Nonce : Type
  /-- `JSON.stringify`, then UTF-8. -/
  stringify : BulkSegmentPlaintext → Bytes
  parse : Bytes → Option BulkSegmentPlaintext
  /-- `new Date(text).getTime()`. -/
  dateTime : String → ℚ
  supportsDeflateRaw : Bool
  deflateRaw : Bytes → Bytes
  inflateRaw : Bytes → Option Bytes
  /-- `encryptBytesWithSdek`, under the associated data of a chunk with the object id. -/
  encrypt : Nonce → Uuid → Bytes → Json
  decrypt : Json → Uuid → Option Bytes
  /-- `envelope.ciphertext.length`, -/
  ciphertextLength : Json → ℕ
  /-- and what it is for a plaintext. -/
  sealedLength : Bytes → ℕ
  /-- The text of the payload in the request. -/
  text : Json → { bytes : List UInt8 // bytes ≠ [] }
  /-- The SHA-256 of the parts. -/
  deterministicUuid : List String → Uuid

/-- What is documented of these functions. -/
structure BulkCipher.Lawful (c : BulkCipher) : Prop where
  parse_stringify : ∀ plaintext, c.parse (c.stringify plaintext) = some plaintext
  inflateRaw_deflateRaw : ∀ bytes, c.inflateRaw (c.deflateRaw bytes) = some bytes
  decrypt_encrypt : ∀ nonce id bytes, c.decrypt (c.encrypt nonce id bytes) id = some bytes
  ciphertext : ∀ nonce id bytes, ((c.encrypt nonce id bytes).get? "ciphertext").isSome = true
  length_encrypt : ∀ nonce id bytes,
    c.ciphertextLength (c.encrypt nonce id bytes) = c.sealedLength bytes

/-- The limits of `bulk.ts`. -/
structure BulkLimits where
  segmentVisits : ℕ
  chunkTargetBytes : ℕ
  chunkTargetVisits : ℕ
  hardAbortBytes : ℕ
  segmentVisits_pos : 0 < segmentVisits

/-- `BULK_SEGMENT_VISITS`, `BULK_CHUNK_TARGET_BYTES`, `BULK_CHUNK_TARGET_VISITS` and
`BULK_HARD_ABORT_BYTES`. -/
def bulkLimits : BulkLimits where
  segmentVisits := 10000
  chunkTargetBytes := 20 * 1024 * 1024
  chunkTargetVisits := 100000
  hardAbortBytes := 90 * 1024 * 1024
  segmentVisits_pos := by decide

/-- One import: the device and the cutoff its ids are derived from, and all else that stays the
same from run to run. -/
structure BulkScope where
  cipher : BulkCipher
  limits : BulkLimits
  deviceId : Uuid
  cutoffMs : ℤ

/-! ### Enumerating the visits -/

/-- A URL with its title. -/
structure HistoryPage where
  url : String
  title : Option String
  deriving DecidableEq, Repr

/-- `CollectedGroup`: the items are the `times`, in ascending order. -/
abbrev CollectedGroup := Group HistoryPage ℚ

/-- The variables of `enumerateVisits`, with the segments passed on so far. -/
structure VisitEnumeration where
  /-- `skipState.remaining`. -/
  remaining : ℕ
  pending : List CollectedGroup
  pendingVisitCount : ℕ
  segments : List (List CollectedGroup)

namespace VisitEnumeration

/-- `flushSegment`. -/
def flushSegment (e : VisitEnumeration) : VisitEnumeration :=
  if e.pendingVisitCount = 0 then e
  else { e with
    pending := []
    pendingVisitCount := 0
    segments := e.segments ++ [e.pending] }

/-- The loop of `pushGroup`, which takes at least one time in each round. -/
def pushTimes (limits : BulkLimits) (page : HistoryPage) :
    ℕ → List ℚ → VisitEnumeration → VisitEnumeration
  | 0, _, e => e
  | rounds + 1, times, e =>
    if times = [] then e
    else
      let room := limits.segmentVisits - e.pendingVisitCount
      let take := min room times.length
      let pushed := { e with
        pending := e.pending ++ [⟨page, times.take take⟩]
        pendingVisitCount := e.pendingVisitCount + take }
      pushTimes limits page rounds (times.drop take)
        (if limits.segmentVisits ≤ pushed.pendingVisitCount then pushed.flushSegment else pushed)

/-- `pushGroup`. -/
def pushGroup (limits : BulkLimits) (e : VisitEnumeration) (g : CollectedGroup) :
    VisitEnumeration :=
  let skip := min e.remaining g.items.length
  let times := g.items.drop skip
  pushTimes limits g.label times.length times { e with remaining := e.remaining - skip }

end VisitEnumeration

/-- `enumerateVisits`, on the groups in the order the search yields them: the segments it passes
on. A URL without a visit in the window is left out. -/
def enumerateVisits (limits : BulkLimits) (skip : ℕ) (stream : List CollectedGroup) :
    List (List CollectedGroup) :=
  ((stream.filter fun g => g.items ≠ []).foldl (VisitEnumeration.pushGroup limits)
    ⟨skip, [], 0, []⟩).flushSegment.segments

namespace VisitEnumeration

variable {limits : BulkLimits} {e : VisitEnumeration}

/-- Less than a segment is pending, and it is counted. -/
structure Gathering (limits : BulkLimits) (e : VisitEnumeration) : Prop where
  counted : e.pendingVisitCount = count e.pending
  lt : count e.pending < limits.segmentVisits
  ne_nil : ∀ g ∈ e.pending, g.items ≠ []

/-- The segments passed on, and those that come of what is pending and of `rest`. -/
def allSegments (limits : BulkLimits) (e : VisitEnumeration) (rest : List CollectedGroup) :
    List (List CollectedGroup) :=
  e.segments ++ pieces limits.segmentVisits (e.pending ++ rest)

/-- The group of some visits of a URL, if there are any. -/
def groupOf (page : HistoryPage) (times : List ℚ) : List CollectedGroup :=
  if times = [] then [] else [⟨page, times⟩]

/-- At the end what is pending is the last segment. -/
theorem flushSegment_segments (h : e.Gathering limits) :
    e.flushSegment.segments = e.allSegments limits [] := by
  rw [flushSegment, allSegments, List.append_nil, pieces_of_count_lt h.ne_nil h.lt, h.counted]
  split
  · rw [List.append_nil]
  · rfl

/-- The loop of `pushGroup` changes nothing of what the segments will be. -/
theorem pushTimes_spec (page : HistoryPage) {rest : List CollectedGroup}
    (hrest : ∀ g ∈ rest, g.items ≠ []) {rounds : ℕ} {times : List ℚ}
    (hrounds : times.length ≤ rounds) (h : e.Gathering limits) :
    (pushTimes limits page rounds times e).Gathering limits ∧
      (pushTimes limits page rounds times e).remaining = e.remaining ∧
      (pushTimes limits page rounds times e).allSegments limits rest =
        e.allSegments limits (groupOf page times ++ rest) := by
  induction rounds generalizing times e with
  | zero =>
    rw [List.eq_nil_of_length_eq_zero (Nat.le_zero.mp hrounds)]
    exact ⟨h, rfl, rfl⟩
  | succ rounds ih =>
    rw [pushTimes]
    by_cases hnil : times = []
    · rw [if_pos hnil, groupOf, if_pos hnil]
      exact ⟨h, rfl, rfl⟩
    have hpos : 0 < times.length := List.length_pos_iff.mpr hnil
    have hlt := h.lt
    rw [if_neg hnil, groupOf, if_neg hnil]
    dsimp only
    rw [h.counted]
    have hdrop : (times.drop (min (limits.segmentVisits - count e.pending) times.length)).length ≤
        rounds := by
      rw [List.length_drop]
      omega
    by_cases hfill : limits.segmentVisits - count e.pending ≤ times.length
    · -- the segment is full, and goes on with what is left of the URL
      rw [min_eq_left hfill] at hdrop ⊢
      rw [if_pos (by omega), flushSegment, if_neg (by dsimp only; omega)]
      obtain ⟨hgathering, hremaining, hsegments⟩ := ih hdrop
        (e := ⟨e.remaining, [], 0,
          e.segments ++ [e.pending ++ [⟨page, times.take (limits.segmentVisits - count e.pending)⟩]]⟩)
        ⟨rfl, limits.segmentVisits_pos, fun g hg => absurd hg List.not_mem_nil⟩
      refine ⟨hgathering, hremaining, hsegments.trans ?_⟩
      rw [allSegments, allSegments, List.nil_append, List.singleton_append,
        pieces_of_filled h.ne_nil hrest hlt hfill, List.append_assoc, List.singleton_append, groupOf]
      congr 3
      by_cases hall : limits.segmentVisits - count e.pending < times.length
      · rw [if_pos hall, if_neg fun heq => absurd (List.drop_eq_nil_iff.mp heq) (by omega)]
      · rw [if_neg hall, if_pos (List.drop_eq_nil_iff.mpr (by omega))]
    · -- all visits of the URL go into the segment
      rw [min_eq_right (by omega)] at hdrop ⊢
      rw [if_neg (by omega)]
      rw [List.take_length, List.drop_length] at *
      have hnext : Gathering limits ⟨e.remaining, e.pending ++ [⟨page, times⟩],
          count e.pending + times.length, e.segments⟩ := by
        refine ⟨?_, ?_, ?_⟩
        · rw [count_append, count_cons, count_nil, Nat.add_zero]
        · rw [count_append, count_cons, count_nil]
          dsimp only
          omega
        · intro g hg
          rcases List.mem_append.mp hg with hg | hg
          · exact h.ne_nil g hg
          · rw [List.mem_singleton.mp hg]
            exact hnil
      obtain ⟨hgathering, hremaining, hsegments⟩ := ih hdrop hnext
      refine ⟨hgathering, hremaining, hsegments.trans ?_⟩
      rw [allSegments, allSegments, groupOf, if_pos rfl, List.nil_append, List.append_assoc]

theorem pushGroup_spec (g : CollectedGroup) {rest : List CollectedGroup}
    (hrest : ∀ g ∈ rest, g.items ≠ []) (h : e.Gathering limits) :
    (e.pushGroup limits g).Gathering limits ∧
      (e.pushGroup limits g).allSegments limits (dropItems (e.pushGroup limits g).remaining rest) =
        e.allSegments limits (dropItems e.remaining (g :: rest)) := by
  have hstart : Gathering limits { e with remaining := e.remaining - min e.remaining g.items.length } :=
    ⟨h.counted, h.lt, h.ne_nil⟩
  have hdropped : ∀ g' ∈ dropItems (e.remaining - min e.remaining g.items.length) rest,
      g'.items ≠ [] := fun g' => items_ne_nil_of_mem_dropItems hrest
  obtain ⟨hgathering, hremaining, hsegments⟩ := pushTimes_spec g.label hdropped
    (le_refl (g.items.drop (min e.remaining g.items.length)).length) hstart
  refine ⟨hgathering, ?_⟩
  rw [pushGroup]
  rw [hremaining]
  dsimp only
  rw [hsegments]
  have hgroups : groupOf g.label (g.items.drop (min e.remaining g.items.length)) ++
      dropItems (e.remaining - min e.remaining g.items.length) rest =
        dropItems e.remaining (g :: rest) := by
    rw [dropItems, groupOf]
    by_cases hlt : e.remaining < g.items.length
    · rw [if_pos hlt, min_eq_left hlt.le, Nat.sub_self, dropItems_zero hrest, if_neg]
      · rfl
      · exact fun hnil => absurd (List.drop_eq_nil_iff.mp hnil) (by omega)
    · rw [if_neg hlt, min_eq_right (by omega), List.drop_length, if_pos rfl, List.nil_append]
  rw [hgroups]
  rfl

end VisitEnumeration

/-- The stream without the URLs that have no visit in the window. -/
def visited (stream : List CollectedGroup) : List CollectedGroup :=
  stream.filter fun g => g.items ≠ []

theorem items_ne_nil_of_mem_visited {stream : List CollectedGroup} {g : CollectedGroup}
    (h : g ∈ visited stream) : g.items ≠ [] := by
  simpa using (List.mem_filter.mp h).2

/-- **The segments of a resumed import** are the pieces of what is left of the stream. -/
theorem enumerateVisits_eq (limits : BulkLimits) (skip : ℕ) (stream : List CollectedGroup) :
    enumerateVisits limits skip stream =
      pieces limits.segmentVisits (dropItems skip (visited stream)) := by
  have hfold : ∀ (rest : List CollectedGroup) (e : VisitEnumeration), e.Gathering limits →
      (∀ g ∈ rest, g.items ≠ []) →
      (rest.foldl (VisitEnumeration.pushGroup limits) e).flushSegment.segments =
        e.allSegments limits (dropItems e.remaining rest) := by
    intro rest
    induction rest with
    | nil => exact fun e h _ => VisitEnumeration.flushSegment_segments h
    | cons g rest ih =>
      intro e h hrest
      have htail : ∀ g ∈ rest, g.items ≠ [] := fun g hg => hrest g (List.mem_cons_of_mem _ hg)
      obtain ⟨hgathering, hsegments⟩ :=
        VisitEnumeration.pushGroup_spec g htail h
      rw [List.foldl_cons, ih _ hgathering htail, hsegments]
  exact hfold (visited stream) ⟨skip, [], 0, []⟩
    ⟨rfl, limits.segmentVisits_pos, fun g hg => absurd hg List.not_mem_nil⟩
    fun g hg => items_ne_nil_of_mem_visited hg

/-! ### Collecting the chunks -/

/-- `hourKey`: the start of the hour, in nanoseconds. -/
def hourKey (ms : ℚ) : DateTime := ⌊ms / 3600000⌋ * (3600000 * 1000000)

/-- One more visit in an hour. -/
def countHour (hour : DateTime) : List (DateTime × ℤ) → List (DateTime × ℤ)
  | [] => [(hour, 1)]
  | entry :: entries =>
    if hour < entry.1 then (hour, 1) :: entry :: entries
    else if hour = entry.1 then (entry.1, entry.2 + 1) :: entries
    else entry :: countHour hour entries

/-- The hours are the old ones and the one counted. -/
theorem mem_countHour {hour : DateTime} {entries : List (DateTime × ℤ)} {entry : DateTime × ℤ}
    (h : entry ∈ countHour hour entries) : entry.1 = hour ∨ ∃ old ∈ entries, entry.1 = old.1 := by
  induction entries with
  | nil =>
    rw [List.mem_singleton.mp h]
    exact Or.inl rfl
  | cons first entries ih =>
    rw [countHour] at h
    split_ifs at h
    · rcases List.mem_cons.mp h with rfl | h
      · exact Or.inl rfl
      · exact Or.inr ⟨entry, h, rfl⟩
    · rcases List.mem_cons.mp h with rfl | h
      · exact Or.inr ⟨first, List.mem_cons_self, rfl⟩
      · exact Or.inr ⟨entry, List.mem_cons_of_mem _ h, rfl⟩
    · rcases List.mem_cons.mp h with rfl | h
      · exact Or.inr ⟨entry, List.mem_cons_self, rfl⟩
      · rcases ih h with heq | ⟨old, hold, heq⟩
        · exact Or.inl heq
        · exact Or.inr ⟨old, List.mem_cons_of_mem _ hold, heq⟩

theorem pairwise_countHour (hour : DateTime) {entries : List (DateTime × ℤ)}
    (h : entries.Pairwise fun a b => a.1 < b.1) :
    (countHour hour entries).Pairwise fun a b => a.1 < b.1 := by
  induction entries with
  | nil => exact List.pairwise_singleton _ _
  | cons first entries ih =>
    obtain ⟨hfirst, hentries⟩ := List.pairwise_cons.mp h
    rw [countHour]
    split_ifs with hlt heq
    · refine List.pairwise_cons.mpr ⟨fun entry hentry => ?_, h⟩
      rcases List.mem_cons.mp hentry with rfl | hentry
      · exact hlt
      · exact lt_trans hlt (hfirst entry hentry)
    · exact List.pairwise_cons.mpr ⟨hfirst, hentries⟩
    · refine List.pairwise_cons.mpr ⟨fun entry hentry => ?_, ih hentries⟩
      rcases mem_countHour hentry with hhour | ⟨old, hold, hhour⟩
      · rw [hhour]
        exact lt_of_le_of_ne (not_lt.mp hlt) (Ne.symm heq)
      · rw [hhour]
        exact hfirst old hold

/-- `chunkVisitHours.set(key, (chunkVisitHours.get(key) ?? 0) + 1)`. -/
def visitHoursAdd (hours : VisitHours) (hour : DateTime) : VisitHours :=
  ⟨countHour hour hours.entries, pairwise_countHour hour hours.sorted⟩

/-- `visitHoursSum`. -/
def visitHoursSum (hours : VisitHours) : ℤ := (hours.entries.map Prod.snd).sum

/-- Each visit is counted once. -/
theorem visitHoursSum_add (hours : VisitHours) (hour : DateTime) :
    visitHoursSum (visitHoursAdd hours hour) = visitHoursSum hours + 1 := by
  have hsum : ∀ entries : List (DateTime × ℤ),
      ((countHour hour entries).map Prod.snd).sum = (entries.map Prod.snd).sum + 1 := by
    intro entries
    induction entries with
    | nil => rfl
    | cons first entries ih =>
      rw [countHour]
      split_ifs
      · rw [List.map_cons, List.sum_cons, add_comm]
      · rw [List.map_cons, List.sum_cons, List.map_cons, List.sum_cons, add_right_comm]
      · rw [List.map_cons, List.sum_cons, List.map_cons, List.sum_cons, ih, add_assoc]
  exact hsum hours.entries

/-- `BulkHistoryContainerV2`. -/
structure BulkHistoryContainer where
  codec : Option String
  visitCount : ℕ
  segments : List Json

/-- The container as it is sent. -/
def BulkHistoryContainer.toJson (container : BulkHistoryContainer) : Json :=
  .object ([("v", .number "1"), ("bulkVersion", .number "2")] ++
    (container.codec.map fun codec => ("codec", Json.string codec)).toList ++
    [("visitCount", .number (toString container.visitCount)),
      ("segments", .array container.segments)])

/-- `BulkChunkOperation`, before it gets its sequence. -/
structure BulkChunk where
  operationId : Uuid
  objectId : Uuid
  container : BulkHistoryContainer
  visitHours : VisitHours

/-- The variables of `collectHistoryBulk` for the chunk being built. -/
structure BulkCollection where
  chunkSegments : List Json
  chunkVisitCount : ℕ
  chunkBytes : ℕ
  chunkVisitHours : VisitHours
  chunkIndex : ℕ
  currentChunkObjectId : Option Uuid

/-- No segment gathered yet. -/
def BulkCollection.start (chunkIndex : ℕ) : BulkCollection where
  chunkSegments := []
  chunkVisitCount := 0
  chunkBytes := 0
  chunkVisitHours := ⟨[], List.Pairwise.nil⟩
  chunkIndex := chunkIndex
  currentChunkObjectId := none

namespace BulkScope

variable (scope : BulkScope)

/-- The operation id of `deterministicBulkIds`. -/
def operationId (chunkIndex : ℕ) : Uuid :=
  scope.cipher.deterministicUuid ["HISTORY_BULK", toString scope.deviceId, "bulkImport",
    toString scope.cutoffMs, toString chunkIndex]

/-- The object id of `deterministicBulkIds`. -/
def objectId (chunkIndex : ℕ) : Uuid :=
  scope.cipher.deterministicUuid ["HISTORY_BULK", toString scope.deviceId, "bulkImport",
    toString scope.cutoffMs, toString chunkIndex, "object"]

/-- `codec`. -/
def codec : Option String :=
  if scope.cipher.supportsDeflateRaw then some "deflate-raw" else none

/-- The bytes of a segment, as they are encrypted. -/
def plaintextBytes (groups : List CollectedGroup) : scope.cipher.Bytes :=
  let jsonBytes := scope.cipher.stringify
    (.grouped (groups.map fun g => ⟨g.label.url, g.label.title, g.items⟩))
  if scope.codec = some "deflate-raw" then scope.cipher.deflateRaw jsonBytes else jsonBytes

/-- `onSegment` up to the flush: nothing if the segment is too large, which ends the import with
an error. -/
def addSegment (b : BulkCollection) (nonce : scope.cipher.Nonce) (groups : List CollectedGroup) :
    Option BulkCollection :=
  let objectId := b.currentChunkObjectId.getD (scope.objectId b.chunkIndex)
  let envelope := scope.cipher.encrypt nonce objectId (scope.plaintextBytes groups)
  if scope.limits.hardAbortBytes < scope.cipher.ciphertextLength envelope then none
  else some {
    chunkSegments := b.chunkSegments ++ [envelope]
    chunkVisitCount := b.chunkVisitCount + (groups.map fun g => g.items.length).sum
    chunkBytes := b.chunkBytes + scope.cipher.ciphertextLength envelope
    chunkVisitHours := (itemsOf groups).foldl (fun hours visit => visitHoursAdd hours (hourKey visit.2))
      b.chunkVisitHours
    chunkIndex := b.chunkIndex
    currentChunkObjectId := some objectId }

/-- Whether the chunk is due. -/
def chunkDue (b : BulkCollection) : Bool :=
  scope.limits.chunkTargetBytes ≤ b.chunkBytes || scope.limits.chunkTargetVisits ≤ b.chunkVisitCount

/-- `flushChunk` up to `onChunk`: the chunk, unless there is none, and what is gathered then.
Nothing if the hours do not sum up to the visits, which ends the import with an error. -/
def flushChunk (b : BulkCollection) : Option (List BulkChunk × BulkCollection) :=
  if b.chunkVisitCount = 0 then some ([], b)
  else if visitHoursSum b.chunkVisitHours ≠ b.chunkVisitCount then none
  else some ([{
      operationId := scope.operationId b.chunkIndex
      objectId := scope.objectId b.chunkIndex
      container := ⟨scope.codec, b.chunkVisitCount, b.chunkSegments⟩
      visitHours := b.chunkVisitHours }],
    BulkCollection.start (b.chunkIndex + 1))

/-- The segments gathered into chunks: the chunks that are flushed, and whether the end is
reached without an error. The nonces are drawn one after the other. -/
def gather (nonces : ℕ → scope.cipher.Nonce) :
    ℕ → BulkCollection → List (List CollectedGroup) → List BulkChunk × Bool
  | _, b, [] => match scope.flushChunk b with
    | none => ([], false)
    | some (chunks, _) => (chunks, true)
  | drawn, b, groups :: segments => match scope.addSegment b (nonces drawn) groups with
    | none => ([], false)
    | some added =>
      if scope.chunkDue added then
        match scope.flushChunk added with
        | none => ([], false)
        | some (chunks, next) =>
          let rest := gather nonces (drawn + 1) next segments
          (chunks ++ rest.1, rest.2)
      else gather nonces (drawn + 1) added segments

/-- `collectHistoryBulk`, up to the uploads: the chunks a pass makes that starts from a
checkpoint, and whether it gets to the end. -/
def collectHistoryBulk (nonces : ℕ → scope.cipher.Nonce) (uploadedChunks uploadedVisits : ℕ)
    (stream : List CollectedGroup) : List BulkChunk × Bool :=
  scope.gather nonces 0 (BulkCollection.start uploadedChunks)
    (enumerateVisits scope.limits uploadedVisits stream)

/-- The operation of a chunk. Its payload has numbers and base64 texts only, which `::jsonb`
takes. -/
def operation (chunk : BulkChunk) (deviceSequence lamportTimestamp : ℤ) : OperationIn where
  operationId := chunk.operationId
  deviceSequence := deviceSequence
  lamportTimestamp := lamportTimestamp
  objectType := .historyVisit
  objectId := chunk.objectId
  operationType := .bulkImport
  encryptionVersion := 1
  payload := ⟨(scope.cipher.text chunk.container.toJson).1, chunk.container.toJson,
    true, (scope.cipher.text chunk.container.toJson).2⟩
  visitCount := some chunk.container.visitCount
  visitHours := some chunk.visitHours

end BulkScope

/-! ### Taking a chunk apart -/

/-- `decodeSegmentPlaintext`. -/
def decodeSegmentPlaintext (c : BulkCipher) : BulkSegmentPlaintext → Option (List DecryptedEntry)
  | .grouped groups => some (groups.flatMap fun g => g.v.map fun t => ⟨g.u, g.t, t⟩)
  | .flat visits => some (visits.map fun v => ⟨v.url, v.title, c.dateTime v.visitedAt⟩)
  | .unknown => none

/-- `decryptSegment`. -/
def decryptSegment (c : BulkCipher) (segment : Json) (deflated : Bool) (objectId : Uuid) :
    Option (List DecryptedEntry) :=
  match segment.get? "ciphertext" with
  | none => none
  | some _ => do
    let decryptedBytes ← c.decrypt segment objectId
    let plaintextBytes ← if deflated then c.inflateRaw decryptedBytes else some decryptedBytes
    decodeSegmentPlaintext c (← c.parse plaintextBytes)

/-- `forEachBulkVisit`: the visits it calls back with, in order. A segment that cannot be read
is skipped. -/
def forEachBulkVisit (c : BulkCipher) (container : Json) (objectId : Uuid) :
    List DecryptedEntry :=
  let deflated := match container.get? "codec" with
    | some (.string codec) => codec == "deflate-raw"
    | _ => false
  let segments := match container.get? "segments" with
    | some (.array segments) => segments
    | _ => []
  segments.flatMap fun segment => (decryptSegment c segment deflated objectId).getD []

end Client

end HelixSync
