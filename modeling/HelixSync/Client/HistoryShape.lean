import HelixSync.Client.BulkPlan
import HelixSync.Lib.CivilTime
import HelixSync.Lib.OrderedStore
import HelixSync.Server.VisitHours

/-!
# The server takes the history a device uploads

Two programs in two languages have to agree on the histogram of a history operation: the device
counts its visits by the text of their hour, and the server reads the texts back as times and checks
each of them, their number and their sum. A live visit is one visit in one hour. A chunk of an
imported history is made of whole segments, of which all but the last have the same number of
visits, so that it never has more visits, and hence more hours, than the chunk target
(`HelixSync.Client.BulkScope.Countable`).

The texts are those of `toISOString`; what the server's time library reads is given by
`HelixSync.Client.ReadsRfc3339`.
-/

namespace HelixSync

namespace Client

open Cutting OrderedStore

/-! ### Hours as texts -/

/-- `new Date(ms).toISOString()`. -/
def toISOString (ms : ℤ) : String := (Civil.ofMillis ms).text

/-- `hourKey`, as a text. -/
def hourKeyText (ms : ℚ) : String := toISOString (⌊ms / 3600000⌋ * 3600000)

/-- The last instant the server's time type can represent. -/
def maxUtc : DateTime := CivilTime.dayFromYear 262143 * (86400 * DateTime.second) - 1

/-- What is documented of the library that parses the server's timestamps: it reads RFC 3339, with a
sign before a year of more than four digits, for all years that it represents. -/
def ReadsRfc3339 (parse : String → Option DateTime) : Prop :=
  ∀ c : Civil, c.Valid → -262143 ≤ c.year → c.year ≤ 262142 →
    parse c.text = some (c.toMillis * 1000000)

/-- The text of a time on a full millisecond. -/
def isoText (t : DateTime) : String := toISOString (t / 1000000)

theorem isoText_hourKey (ms : ℚ) : isoText (hourKey ms) = hourKeyText ms := by
  have hmillis : ⌊ms / 3600000⌋ * (3600000 * 1000000) / 1000000 = ⌊ms / 3600000⌋ * 3600000 := by
    omega
  rw [isoText, hourKey, hmillis, hourKeyText]

/-- **A text of an hour parses** as the hour, from the epoch to the end of the server's times. -/
theorem parse_isoText {parse : String → Option DateTime} (hparse : ReadsRfc3339 parse) {k : ℤ}
    (hk : 0 ≤ k) (hmax : k * (3600000 * 1000000) ≤ maxUtc) :
    parse (isoText (k * (3600000 * 1000000))) = some (k * (3600000 * 1000000)) := by
  have hmillis : k * (3600000 * 1000000) / 1000000 = k * 3600000 := by omega
  have hday : k * 3600000 / 86400000 < CivilTime.dayFromYear (262142 + 1) := by
    simp only [maxUtc, DateTime.second, CivilTime.dayFromYear] at hmax ⊢
    omega
  have hafter : (1970 : ℤ) ≤ CivilTime.yearOfDay (k * 3600000 / 86400000) := by
    obtain ⟨-, hend⟩ := CivilTime.yearOfDay_spec (k * 3600000 / 86400000)
    by_contra hbefore
    simp only [CivilTime.dayFromYear] at hend
    omega
  rw [isoText, hmillis, toISOString]
  refine (hparse _ (Civil.valid_ofMillis _) ?_ ?_).trans ?_
  · exact (by decide : (-262143 : ℤ) ≤ 1970).trans hafter
  · exact CivilTime.yearOfDay_mono hday
  · rw [Civil.toMillis_ofMillis, mul_assoc]

/-! ### Reading a histogram -/

theorem sorted_noHours : ([] : List (DateTime × ℤ)).Pairwise fun a b => a.1 < b.1 :=
  List.Pairwise.nil

/-- The `visitHours` of a request as the server reads it: nothing if a key does not parse. -/
def readVisitHours (parse : String → Option DateTime) (fields : List (String × ℤ)) :
    Option VisitHours :=
  fields.foldlM (fun hours field => (parse field.1).map fun hour =>
    ⟨insertEntry hour field.2 hours.entries, sorted_insertEntry hour field.2 hours.sorted⟩)
    ⟨[], sorted_noHours⟩

/-- **A histogram is read back**, in whatever order the request has its fields. -/
theorem readVisitHours_perm {parse : String → Option DateTime} {hours : VisitHours}
    (hparse : ∀ entry ∈ hours.entries, parse (isoText entry.1) = some entry.1)
    {entries : List (DateTime × ℤ)} (hperm : entries.Perm hours.entries) :
    readVisitHours parse (entries.map fun entry => (isoText entry.1, entry.2)) = some hours := by
  have hread : ∀ (rest : List (DateTime × ℤ)) (start : VisitHours),
      (∀ entry ∈ rest, parse (isoText entry.1) = some entry.1) →
      ((start.entries ++ rest).map Prod.fst).Nodup →
      ∃ result : VisitHours, (rest.map fun entry => (isoText entry.1, entry.2)).foldlM
        (fun (hours : VisitHours) field => (parse field.1).map fun hour =>
          (⟨insertEntry hour field.2 hours.entries, sorted_insertEntry hour field.2 hours.sorted⟩ :
            VisitHours)) start = some result ∧ result.entries.Perm (start.entries ++ rest) := by
    intro rest
    induction rest with
    | nil => exact fun start _ _ => ⟨start, rfl, by rw [List.append_nil]⟩
    | cons entry rest ih =>
      intro start hrest hnodup
      have hnew : entry.1 ∉ start.entries.map Prod.fst := by
        rw [List.map_append, List.nodup_append] at hnodup
        exact fun hmem => hnodup.2.2 _ hmem _ (List.mem_map_of_mem List.mem_cons_self) rfl
      have hinsert := insertEntry_perm (v := entry.2) hnew
      have hall : (insertEntry entry.1 entry.2 start.entries ++ rest).Perm
          (start.entries ++ entry :: rest) :=
        (hinsert.append_right rest).trans List.perm_middle.symm
      obtain ⟨result, hresult, hentries⟩ := ih
        ⟨insertEntry entry.1 entry.2 start.entries, sorted_insertEntry _ _ start.sorted⟩
        (fun other hother => hrest other (List.mem_cons_of_mem _ hother))
        ((hall.map Prod.fst).nodup_iff.mpr hnodup)
      refine ⟨result, ?_, hentries.trans hall⟩
      rw [List.map_cons, List.foldlM_cons, hrest entry List.mem_cons_self]
      exact hresult
  have hnodup : (hours.entries.map Prod.fst).Nodup :=
    List.pairwise_map.mpr (hours.sorted.imp fun h => ne_of_lt h)
  obtain ⟨result, hresult, hentries⟩ := hread entries ⟨[], List.Pairwise.nil⟩
    (fun entry hentry => hparse entry (hperm.subset hentry))
    ((hperm.map Prod.fst).nodup_iff.mpr hnodup)
  have hsame : result.entries = hours.entries :=
    (hentries.trans hperm).eq_of_pairwise
      (fun a b _ _ hab hba => absurd (lt_trans hab hba) (lt_irrefl _)) result.sorted hours.sorted
  rw [readVisitHours, hresult]
  obtain ⟨entries', sorted'⟩ := result
  obtain ⟨entries'', sorted''⟩ := hours
  obtain rfl : entries' = entries'' := hsame
  rfl

/-! ### Checking a histogram -/

/-- Every entry passes its own checks, and is about an hour since the epoch. -/
def GoodHours (now : DateTime) (hours : VisitHours) : Prop :=
  ∀ entry ∈ hours.entries, (∃ k : ℤ, 0 ≤ k ∧ entry.1 = k * (3600000 * 1000000)) ∧
    entry.1 ≤ now + DateTime.days 1 ∧ 1 ≤ entry.2

/-- A time between the epoch and a day from now. -/
def Recent (now : DateTime) (ms : ℚ) : Prop :=
  0 ≤ ms ∧ ms * 1000000 ≤ ((now + DateTime.days 1 : ℤ) : ℚ)

variable {now : DateTime} {hours : VisitHours} {ms : ℚ}

theorem goodHours_empty : GoodHours now ⟨[], List.Pairwise.nil⟩ :=
  fun _ h => absurd h List.not_mem_nil

/-- The hour of a visit passes the checks. -/
theorem hourKey_le (h : Recent now ms) : hourKey ms ≤ now + DateTime.days 1 := by
  have hfloor : ((⌊ms / 3600000⌋ : ℤ) : ℚ) ≤ ms / 3600000 := Int.floor_le _
  have hcast : ((hourKey ms : ℤ) : ℚ) ≤ ((now + DateTime.days 1 : ℤ) : ℚ) := by
    refine le_trans ?_ h.2
    rw [hourKey]
    push_cast
    linarith
  exact_mod_cast hcast

theorem mem_countHour_cases {hour : DateTime} {entries : List (DateTime × ℤ)}
    {entry : DateTime × ℤ} (h : entry ∈ countHour hour entries) :
    entry ∈ entries ∨ entry = (hour, 1) ∨ ∃ old ∈ entries, entry = (hour, old.2 + 1) := by
  induction entries with
  | nil => exact Or.inr (Or.inl (List.mem_singleton.mp h))
  | cons first entries ih =>
    rw [countHour] at h
    split_ifs at h with hlt heq
    · rcases List.mem_cons.mp h with rfl | h
      · exact Or.inr (Or.inl rfl)
      · exact Or.inl h
    · rcases List.mem_cons.mp h with rfl | h
      · exact Or.inr (Or.inr ⟨first, List.mem_cons_self, by rw [heq]⟩)
      · exact Or.inl (List.mem_cons_of_mem _ h)
    · rcases List.mem_cons.mp h with rfl | h
      · exact Or.inl List.mem_cons_self
      · rcases ih h with hold | hone | ⟨old, hold, heq⟩
        · exact Or.inl (List.mem_cons_of_mem _ hold)
        · exact Or.inr (Or.inl hone)
        · exact Or.inr (Or.inr ⟨old, List.mem_cons_of_mem _ hold, heq⟩)

/-- One more visit keeps the entries good. -/
theorem GoodHours.add (h : GoodHours now hours) (hms : Recent now ms) :
    GoodHours now (visitHoursAdd hours (hourKey ms)) := by
  have hhour : (∃ k : ℤ, 0 ≤ k ∧ hourKey ms = k * (3600000 * 1000000)) :=
    ⟨_, Int.floor_nonneg.mpr (div_nonneg hms.1 (by norm_num)), rfl⟩
  intro entry hentry
  rcases mem_countHour_cases hentry with hold | rfl | ⟨old, hold, rfl⟩
  · exact h entry hold
  · exact ⟨hhour, hourKey_le hms, le_rfl⟩
  · exact ⟨hhour, hourKey_le hms, by have := (h old hold).2.2; omega⟩

theorem GoodHours.foldl {visits : List (HistoryPage × ℚ)} (h : GoodHours now hours)
    (hvisits : ∀ visit ∈ visits, Recent now visit.2) :
    GoodHours now (visits.foldl (fun hours visit => visitHoursAdd hours (hourKey visit.2)) hours) := by
  induction visits generalizing hours with
  | nil => exact h
  | cons visit visits ih =>
    exact ih (h.add (hvisits visit List.mem_cons_self))
      fun other hother => hvisits other (List.mem_cons_of_mem _ hother)

/-- There are no more hours than visits. -/
theorem GoodHours.length_le (h : GoodHours now hours) :
    (hours.entries.length : ℤ) ≤ visitHoursSum hours := by
  rw [visitHoursSum]
  have hpos : ∀ entry ∈ hours.entries, 1 ≤ entry.2 := fun entry hentry => (h entry hentry).2.2
  generalize hours.entries = entries at hpos
  induction entries with
  | nil => exact le_rfl
  | cons entry entries ih =>
    have hfirst := hpos entry List.mem_cons_self
    have hrest := ih fun other hother => hpos other (List.mem_cons_of_mem _ hother)
    rw [List.length_cons, List.map_cons, List.sum_cons]
    push_cast
    omega

/-- A sum of positive counts that fits an `i64` does not overflow on the way. -/
theorem foldlM_checkedAdd_of_le {counts : List ℤ} {start : ℤ} (hcounts : ∀ count ∈ counts, 1 ≤ count)
    (hmax : start + counts.sum ≤ i64Max) :
    counts.foldlM checkedAdd start = some (start + counts.sum) := by
  induction counts generalizing start with
  | nil => rw [List.sum_nil, add_zero]; rfl
  | cons count counts ih =>
    have hrest : ∀ count ∈ counts, 1 ≤ count :=
      fun other hother => hcounts other (List.mem_cons_of_mem _ hother)
    have hsum : 0 ≤ counts.sum := List.sum_nonneg fun other hother => by
      have := hrest other hother
      omega
    rw [List.sum_cons, ← add_assoc] at hmax ⊢
    rw [List.foldlM_cons, checkedAdd, if_pos (by omega)]
    exact ih hrest hmax

/-- **The check of a histogram** that is good, within the limits, and adds up. -/
theorem checkVisitHours_of_good {op : OperationIn} (h : GoodHours now hours)
    (hhours : op.visitHours = some hours) (htype : op.objectType = .historyVisit)
    (hlimit : visitHoursSum hours ≤ maxVisitHoursEntries)
    (hsum : op.operationType = .bulkImport ∧ op.visitCount = some (visitHoursSum hours) ∨
      op.operationType = .visit ∧ hours.entries.length = 1 ∧ visitHoursSum hours = 1) :
    checkVisitHours now op = .ok () := by
  have hlength := h.length_le
  have hfew : ¬hours.entries.length > maxVisitHoursEntries := by omega
  have hvalid : hours.entries.all (hourEntryValid (now + DateTime.days 1)) = true := by
    refine List.all_eq_true.mpr fun entry hentry => ?_
    obtain ⟨⟨k, -, hk⟩, hceiling, hcount⟩ := h entry hentry
    have hminute : DateTime.minuteOf entry.1 = 0 := by
      rw [hk, DateTime.minuteOf, DateTime.second]
      omega
    have hsecond : DateTime.secondOf entry.1 = 0 := by
      rw [hk, DateTime.secondOf, DateTime.second]
      omega
    have hnano : DateTime.nanosecondOf entry.1 = 0 := by
      rw [hk, DateTime.nanosecondOf, DateTime.second]
      omega
    simp [hourEntryValid, hminute, hsecond, hnano, hceiling, hcount]
  have hadd : (hours.entries.map Prod.snd).foldlM checkedAdd 0 = some (visitHoursSum hours) := by
    rw [foldlM_checkedAdd_of_le, zero_add, visitHoursSum]
    · exact List.forall_mem_map.mpr fun entry hentry => (h entry hentry).2.2
    · rw [zero_add]
      exact hlimit.trans (by decide)
  simp only [checkVisitHours, htype, hhours, hfew, hvalid, hadd, ne_eq, not_true, if_false,
    Bool.not_true, Bool.false_eq_true]
  rcases hsum with ⟨hbulk, hcount⟩ | ⟨hvisit, hone, hsum⟩
  · simp [hbulk, hcount]
  · simp [hvisit, hone, hsum]

theorem GoodHours.parse {parse : String → Option DateTime} (h : GoodHours now hours)
    (hparse : ReadsRfc3339 parse) (hnow : now + DateTime.days 1 ≤ maxUtc) :
    ∀ entry ∈ hours.entries, parse (isoText entry.1) = some entry.1 := by
  intro entry hentry
  obtain ⟨⟨k, hk, hhour⟩, hceiling, -⟩ := h entry hentry
  rw [hhour] at hceiling ⊢
  exact parse_isoText hparse hk (hceiling.trans hnow)

/-! ### Live visits -/

/-- `makeVisitOperation`, as the server reads the operation. -/
def visitOperation (parse : String → Option DateTime) (operationId objectId : Uuid)
    (deviceSequence lamportTimestamp : ℤ) (payload : RawValue) (visitTimeMs : ℚ) :
    Option OperationIn :=
  (readVisitHours parse [(hourKeyText visitTimeMs, 1)]).map fun hours => {
    operationId := operationId
    deviceSequence := deviceSequence
    lamportTimestamp := lamportTimestamp
    objectType := .historyVisit
    objectId := objectId
    operationType := .visit
    encryptionVersion := 1
    payload := payload
    visitCount := none
    visitHours := some hours }

/-- A live visit passes the checks of its count and its hour. -/
theorem visitOperation_accepted {parse : String → Option DateTime} (hparse : ReadsRfc3339 parse)
    (hnow : now + DateTime.days 1 ≤ maxUtc) (hms : Recent now ms) (operationId objectId : Uuid)
    (deviceSequence lamportTimestamp : ℤ) (payload : RawValue) :
    ∃ op, visitOperation parse operationId objectId deviceSequence lamportTimestamp payload ms =
      some op ∧ checkVisitCount op = .ok () ∧ checkVisitHours now op = .ok () := by
  have hgood : GoodHours now (visitHoursAdd ⟨[], List.Pairwise.nil⟩ (hourKey ms)) :=
    goodHours_empty.add hms
  have hread := readVisitHours_perm (hgood.parse hparse hnow) (List.Perm.refl _)
  have hone : (visitHoursAdd ⟨[], List.Pairwise.nil⟩ (hourKey ms)).entries = [(hourKey ms, 1)] := rfl
  rw [hone, List.map_singleton, isoText_hourKey] at hread
  rw [visitOperation, hread]
  refine ⟨_, rfl, rfl, checkVisitHours_of_good hgood rfl rfl ?_ (Or.inr ⟨rfl, rfl, rfl⟩)⟩
  exact (by decide : (1 : ℤ) ≤ maxVisitHoursEntries)

/-! ### Chunks -/

namespace BulkScope

variable {scope : BulkScope}

/-- What is gathered for a chunk is in the limits of the checks, and short of a whole chunk by at
least a segment. -/
structure Countable (now : DateTime) (b : BulkCollection) : Prop where
  good : GoodHours now b.chunkVisitHours
  sum : visitHoursSum b.chunkVisitHours = b.chunkVisitCount
  whole : bulkLimits.segmentVisits ∣ b.chunkVisitCount
  short : b.chunkVisitCount < bulkLimits.chunkTargetVisits

/-- A chunk passes the checks of its count and its hours. -/
def ChunkAccepted (parse : String → Option DateTime) (now : DateTime) (scope : BulkScope)
    (chunk : BulkChunk) : Prop :=
  ∀ (deviceSequence lamportTimestamp : ℤ) (entries : List (DateTime × ℤ)),
    entries.Perm chunk.visitHours.entries →
    readVisitHours parse (entries.map fun entry => (isoText entry.1, entry.2)) =
        some chunk.visitHours ∧
      checkVisitCount (scope.operation chunk deviceSequence lamportTimestamp) = .ok () ∧
      checkVisitHours now (scope.operation chunk deviceSequence lamportTimestamp) = .ok ()

theorem countable_start (k : ℕ) : Countable now (BulkCollection.start k) :=
  ⟨goodHours_empty, rfl, dvd_zero _, show 0 < bulkLimits.chunkTargetVisits by decide⟩

variable {parse : String → Option DateTime} {b : BulkCollection}

/-- **A flushed chunk is accepted**, as long as it has no more visits than the target. -/
theorem accepted_of_flushChunk (hparse : ReadsRfc3339 parse) (hnow : now + DateTime.days 1 ≤ maxUtc)
    (hgood : GoodHours now b.chunkVisitHours)
    (hsum : visitHoursSum b.chunkVisitHours = b.chunkVisitCount)
    (hmax : b.chunkVisitCount ≤ bulkLimits.chunkTargetVisits) {chunks : List BulkChunk}
    {next : BulkCollection} (hflush : scope.flushChunk b = some (chunks, next)) :
    (∀ chunk ∈ chunks, ChunkAccepted parse now scope chunk) ∧
      (b.chunkVisitCount ≠ 0 → ∃ k, next = BulkCollection.start k) := by
  rw [flushChunk] at hflush
  split_ifs at hflush with hzero hmismatch
  · obtain ⟨rfl, rfl⟩ := Prod.mk.inj (Option.some_injective _ hflush)
    exact ⟨fun _ h => absurd h List.not_mem_nil, fun h => absurd hzero h⟩
  · obtain ⟨rfl, rfl⟩ := Prod.mk.inj (Option.some_injective _ hflush)
    refine ⟨List.forall_mem_singleton.mpr ?_, fun _ => ⟨_, rfl⟩⟩
    intro deviceSequence lamportTimestamp entries hperm
    refine ⟨readVisitHours_perm (hgood.parse hparse hnow) hperm, ?_, ?_⟩
    · have hcount : (1 : ℤ) ≤ b.chunkVisitCount ∧ (b.chunkVisitCount : ℤ) ≤ maxVisitCountPerOp := by
        simp only [bulkLimits, maxVisitCountPerOp] at hmax ⊢
        omega
      simp [checkVisitCount, operation, OperationIn.isBulkHistoryImport, hcount]
    · refine checkVisitHours_of_good hgood rfl rfl ?_ (Or.inl ⟨rfl, ?_⟩)
      · rw [hsum]
        simp only [bulkLimits, maxVisitHoursEntries] at hmax ⊢
        omega
      · rw [hsum]
        rfl

/-- At the end what is left is flushed. -/
theorem accepted_gather_nil (hparse : ReadsRfc3339 parse) (hnow : now + DateTime.days 1 ≤ maxUtc)
    (hgood : GoodHours now b.chunkVisitHours)
    (hsum : visitHoursSum b.chunkVisitHours = b.chunkVisitCount)
    (hmax : b.chunkVisitCount ≤ bulkLimits.chunkTargetVisits) (nonces : ℕ → scope.cipher.Nonce)
    (drawn : ℕ) : ∀ chunk ∈ (scope.gather nonces drawn b []).1, ChunkAccepted parse now scope chunk := by
  intro chunk hchunk
  rw [gather] at hchunk
  cases hflush : scope.flushChunk b with
  | none =>
    rw [hflush] at hchunk
    exact absurd hchunk List.not_mem_nil
  | some flushed =>
    rw [hflush] at hchunk
    exact (accepted_of_flushChunk hparse hnow hgood hsum hmax hflush).1 chunk hchunk

/-- What a segment adds. -/
theorem addSegment_eq_some {nonce : scope.cipher.Nonce} {groups : List CollectedGroup}
    {added : BulkCollection} (h : scope.addSegment b nonce groups = some added) :
    added.chunkVisitCount = b.chunkVisitCount + count groups ∧
      added.chunkVisitHours = (itemsOf groups).foldl
        (fun hours visit => visitHoursAdd hours (hourKey visit.2)) b.chunkVisitHours := by
  rw [addSegment] at h
  split_ifs at h
  rw [← Option.some_injective _ h]
  exact ⟨rfl, rfl⟩

/-- **Every chunk that is gathered is accepted**: segments are whole but for the last, so a chunk is
short of its target by at least a segment until its last one. -/
theorem accepted_gather (hparse : ReadsRfc3339 parse) (hnow : now + DateTime.days 1 ≤ maxUtc)
    (hlimits : scope.limits = bulkLimits) (nonces : ℕ → scope.cipher.Nonce) (drawn : ℕ)
    {segments : List (List CollectedGroup)}
    (hrecent : ∀ groups ∈ segments, ∀ visit ∈ itemsOf groups, Recent now visit.2)
    (hwhole : ∀ groups ∈ segments.dropLast, count groups = bulkLimits.segmentVisits)
    (hsize : ∀ groups ∈ segments, 0 < count groups ∧ count groups ≤ bulkLimits.segmentVisits)
    (hb : Countable now b) :
    ∀ chunk ∈ (scope.gather nonces drawn b segments).1, ChunkAccepted parse now scope chunk := by
  induction segments generalizing drawn b with
  | nil => exact accepted_gather_nil hparse hnow hb.good hb.sum hb.short.le nonces drawn
  | cons groups segments ih =>
    obtain ⟨hpos, hle⟩ := hsize groups List.mem_cons_self
    have hwholeRest : ∀ other ∈ segments.dropLast, count other = bulkLimits.segmentVisits := by
      intro other hother
      refine hwhole other ?_
      rw [List.dropLast_cons_of_ne_nil fun hnil => by simp [hnil] at hother]
      exact List.mem_cons_of_mem _ hother
    have hrest : ∀ (drawn : ℕ) {b : BulkCollection}, Countable now b →
        ∀ chunk ∈ (scope.gather nonces drawn b segments).1, ChunkAccepted parse now scope chunk :=
      fun drawn _ hb => ih drawn
        (fun other hother => hrecent other (List.mem_cons_of_mem _ hother)) hwholeRest
        (fun other hother => hsize other (List.mem_cons_of_mem _ hother)) hb
    rw [gather]
    cases hadd : scope.addSegment b (nonces drawn) groups with
    | none => exact fun _ h => absurd h List.not_mem_nil
    | some added =>
      obtain ⟨hcount, hhours⟩ := addSegment_eq_some hadd
      have hgood : GoodHours now added.chunkVisitHours := by
        rw [hhours]
        exact hb.good.foldl (hrecent groups List.mem_cons_self)
      have hsum : visitHoursSum added.chunkVisitHours = added.chunkVisitCount := by
        rw [hhours, visitHoursSum_foldl, length_itemsOf, hb.sum, hcount]
        push_cast
        rfl
      -- the chunk was short by a segment, so it is not past its target now
      have hmax : added.chunkVisitCount ≤ bulkLimits.chunkTargetVisits := by
        obtain ⟨n, hn⟩ := hb.whole
        have hshort := hb.short
        simp only [bulkLimits] at hn hshort hle ⊢
        omega
      dsimp only
      by_cases hdue : scope.chunkDue added = true
      · rw [if_pos hdue]
        cases hflush : scope.flushChunk added with
        | none => exact fun _ h => absurd h List.not_mem_nil
        | some flushed =>
          obtain ⟨chunks, next⟩ := flushed
          obtain ⟨hchunks, hnext⟩ := accepted_of_flushChunk hparse hnow hgood hsum hmax hflush
          obtain ⟨k, rfl⟩ := hnext (by omega)
          intro chunk hchunk
          rcases List.mem_append.mp hchunk with hchunk | hchunk
          · exact hchunks chunk hchunk
          · exact hrest (drawn + 1) (countable_start k) chunk hchunk
      · rw [if_neg hdue]
        have hshort : added.chunkVisitCount < bulkLimits.chunkTargetVisits := by
          simp only [chunkDue, hlimits, Bool.or_eq_true, decide_eq_true_eq, not_or, not_le] at hdue
          exact hdue.2
        cases segments with
        | nil => exact accepted_gather_nil hparse hnow hgood hsum hmax nonces (drawn + 1)
        | cons next segments =>
          refine hrest (drawn + 1) ⟨hgood, hsum, ?_, hshort⟩
          rw [hcount, hwhole groups List.mem_cons_self]
          exact hb.whole.add (dvd_refl _)

end BulkScope

/-- **The server takes every history operation the device makes.** For visits between the epoch and
a day from now, the operation of a live visit, and every chunk an import makes from any point of any
stream, is read and passes the checks of its count and its hours. -/
theorem historyOperations_accepted {parse : String → Option DateTime} (hparse : ReadsRfc3339 parse)
    (hnow : now + DateTime.days 1 ≤ maxUtc) :
    (∀ (operationId objectId : Uuid) (deviceSequence lamportTimestamp : ℤ) (payload : RawValue)
        (visitTimeMs : ℚ), Recent now visitTimeMs →
      ∃ op, visitOperation parse operationId objectId deviceSequence lamportTimestamp payload
          visitTimeMs = some op ∧
        checkVisitCount op = .ok () ∧ checkVisitHours now op = .ok ()) ∧
      ∀ (scope : BulkScope) (nonces : ℕ → scope.cipher.Nonce) (uploadedChunks uploadedVisits : ℕ)
        (stream : List CollectedGroup), scope.limits = bulkLimits →
        (∀ visit ∈ itemsOf stream, Recent now visit.2) →
        ∀ chunk ∈ (scope.collectHistoryBulk nonces uploadedChunks uploadedVisits stream).1,
          BulkScope.ChunkAccepted parse now scope chunk := by
  refine ⟨fun operationId objectId deviceSequence lamportTimestamp payload visitTimeMs hms =>
    visitOperation_accepted hparse hnow hms _ _ _ _ _, ?_⟩
  intro scope nonces uploadedChunks uploadedVisits stream hlimits hrecent
  rw [BulkScope.collectHistoryBulk, enumerateVisits_eq, hlimits]
  refine BulkScope.accepted_gather hparse hnow hlimits nonces 0 ?_
    (fun _ => count_of_mem_dropLast_pieces) (fun groups hgroups => ?_)
    (BulkScope.countable_start uploadedChunks)
  · intro groups hgroups visit hvisit
    refine hrecent visit ?_
    have hmem : visit ∈ (pieces bulkLimits.segmentVisits
        (dropItems uploadedVisits (visited stream))).flatMap itemsOf :=
      List.mem_flatMap.mpr ⟨groups, hgroups, hvisit⟩
    have hitems : visit ∈ itemsOf (visited stream) := by
      rw [itemsOf_pieces bulkLimits.segmentVisits_pos, itemsOf_dropItems] at hmem
      exact List.mem_of_mem_drop hmem
    obtain ⟨group, hgroup, hin⟩ := List.mem_flatMap.mp hitems
    exact List.mem_flatMap.mpr ⟨group, List.mem_of_mem_filter hgroup, hin⟩
  · exact ⟨count_pos_of_mem_pieces hgroups, count_le_of_mem_pieces hgroups⟩

/-- A parser of the timestamps. -/
def parseIso (text : String) : Option DateTime :=
  if (Civil.readText text).text = text then some ((Civil.readText text).toMillis * 1000000) else none

theorem readsRfc3339_parseIso : ReadsRfc3339 parseIso := by
  intro c hc hfirst hlast
  have hread : Civil.readText c.text = c := Civil.readText_text hc (by omega)
  rw [parseIso, hread, if_pos rfl]

/-- A cipher that keeps nothing. -/
def emptyCipher : BulkCipher where
  Bytes := Unit
  Nonce := Unit
  stringify _ := ()
  parse _ := none
  dateTime _ := 0
  supportsDeflateRaw := false
  deflateRaw _ := ()
  inflateRaw _ := none
  encrypt _ _ _ := .object []
  decrypt _ _ := none
  ciphertextLength _ := 0
  sealedLength _ := 0
  text _ := ⟨[123, 125], by decide⟩
  deterministicUuid _ := 1

theorem historyOperations_accepted_oneVisit :
    (∃ op, visitOperation parseIso 1 2 3 4 ⟨[123, 125], .object [], true, by decide⟩ 1700000000123 =
        some op ∧
      checkVisitCount op = .ok () ∧ checkVisitHours (1700000000 * DateTime.second) op = .ok ()) ∧
    (BulkScope.collectHistoryBulk ⟨emptyCipher, bulkLimits, 5, 0⟩ (fun _ => ()) 0 0
        [⟨⟨"https://example.org/", none⟩, [0, 1700000000123]⟩]).1.length = 1 ∧
    ∀ chunk ∈ (BulkScope.collectHistoryBulk ⟨emptyCipher, bulkLimits, 5, 0⟩ (fun _ => ()) 0 0
        [⟨⟨"https://example.org/", none⟩, [0, 1700000000123]⟩]).1,
      BulkScope.ChunkAccepted parseIso (1700000000 * DateTime.second)
        ⟨emptyCipher, bulkLimits, 5, 0⟩ chunk := by
  have hrecent : ∀ ms ∈ [(0 : ℚ), 1700000000123],
      Recent (1700000000 * DateTime.second) ms := by
    intro ms hms
    simp only [List.mem_cons, List.not_mem_nil, or_false] at hms
    rcases hms with rfl | rfl <;>
      norm_num [Recent, DateTime.second, DateTime.days]
  have hnow : 1700000000 * DateTime.second + DateTime.days 1 ≤ maxUtc := by decide
  obtain ⟨hlive, hchunks⟩ := historyOperations_accepted readsRfc3339_parseIso hnow
  refine ⟨hlive 1 2 3 4 _ _ (hrecent _ (by simp)), by decide +kernel, hchunks _ _ 0 0 _ rfl ?_⟩
  intro visit hvisit
  refine hrecent visit.2 ?_
  simp only [itemsOf, List.flatMap_cons, List.flatMap_nil, List.append_nil, List.mem_map] at hvisit
  obtain ⟨ms, hms, rfl⟩ := hvisit
  exact hms

end Client

end HelixSync
