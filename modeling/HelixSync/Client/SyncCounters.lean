import HelixSync.Lib.Runs
import Mathlib.Data.Int.Order.Basic
import Mathlib.Data.List.Pairwise
import Mathlib.Tactic.Common

/-!
# The counters of a device

The `sync_state` store (`extension/src/storage/db.ts`) holds one record, and with it the two
counters from which a device numbers its operations: `deviceSequence`, which is never to be
reused, and the Lamport clock, which is to be past everything the device has seen.

`updateSyncState`, `tickLamportClock` and `reserveSequenceBatch` read and write the record in
one transaction each. `getSyncState` does not: it reads in one transaction, and if it found
nothing it stores the initial record in another. Whatever ran in between is undone.

The clock is moved past a page or a snapshot in a transaction of its own, some time after it
was received, so numbers may also be reserved before that.

* `HelixSync.Client.SyncCounters.Correct` – what the counters are for;
* `HelixSync.Client.SyncCounters.correct_iff` – it holds throughout exactly the runs in which
  no initial record replaces one that has counted, and nothing is reserved while the clock is
  behind a page or a snapshot received;
* `HelixSync.Client.SyncCounters.not_correct` – a run in which a sequence number is reused.
-/

namespace HelixSync

namespace Client

/-- The record under `"self"`. -/
structure SyncStateRecord where
  cursor : ℤ
  lamportClock : ℤ
  deviceSequence : ℤ
  lastSyncAt : Option String
  lastMaintenanceAt : Option String
  deriving DecidableEq

/-- The record of a device that has done nothing. -/
def initialSyncState : SyncStateRecord where
  cursor := 0
  lamportClock := 0
  deviceSequence := 0
  lastSyncAt := none
  lastMaintenanceAt := none

/-- The patch of `updateSyncState`, which leaves the counters out. -/
structure SyncStatePatch where
  cursor : Option ℤ
  lastSyncAt : Option String
  lastMaintenanceAt : Option String

/-- `{ ...state, ...patch }`. -/
def SyncStatePatch.apply (patch : SyncStatePatch) (state : SyncStateRecord) : SyncStateRecord :=
  { state with
    cursor := patch.cursor.getD state.cursor
    lastSyncAt := patch.lastSyncAt <|> state.lastSyncAt
    lastMaintenanceAt := patch.lastMaintenanceAt <|> state.lastMaintenanceAt }

/-- The numbers of one operation, with the timestamps the device had received when they were
reserved. -/
structure ReservedNumbers where
  deviceSequence : ℤ
  lamportTimestamp : ℤ
  received : List ℤ
  deriving DecidableEq

/-- The store, the calls and pages under way, and what has been handed out so far. -/
structure SyncCounters where
  record : Option SyncStateRecord
  /-- How many calls of `getSyncState` have found no record and are about to store one. -/
  reading : ℕ
  /-- The newest timestamp of each page or snapshot the clock is yet to be moved past. -/
  unobserved : List ℤ
  /-- The timestamps of all operations received. -/
  received : List ℤ
  reserved : List ReservedNumbers
  /-- Every value of the clock handed out, by a tick or a reservation. -/
  lamports : List ℤ
  /-- Every record there was. -/
  past : List SyncStateRecord
  deriving DecidableEq

/-- A transaction, or the arrival of a page or a snapshot. -/
inductive CounterEvent where
  /-- `getSyncState` reads the record. -/
  | getSyncState
  /-- A call that found none stores the initial one. -/
  | storeInitial
  | updateSyncState (patch : SyncStatePatch)
  | tickLamportClock (observed : Option ℤ)
  | reserveSequenceBatch (count : ℕ)
  /-- A page of `downloadAndApply` arrives. -/
  | receivePage (lamportTimestamps : List ℤ)
  /-- The snapshot of `applySnapshot` arrives. -/
  | receiveSnapshot (lamportTimestamps : List (Option ℤ))
  /-- The tick for one that has arrived. -/
  | observe (index : ℕ)

namespace SyncCounters

/-- An empty store. -/
def start : SyncCounters where
  record := none
  reading := 0
  unobserved := []
  received := []
  reserved := []
  lamports := []
  past := []

/-- `(await store.get("self")) ?? initialSyncState()`. -/
def current (s : SyncCounters) : SyncStateRecord := s.record.getD initialSyncState

/-- `store.put`. -/
def put (s : SyncCounters) (record : SyncStateRecord) : SyncCounters :=
  { s with record := some record, past := s.past ++ [record] }

/-- `Math.max(state.lamportClock, observed ?? 0) + 1`. -/
def ticked (s : SyncCounters) (observed : Option ℤ) : ℤ :=
  max s.current.lamportClock (observed.getD 0) + 1

/-- `tickLamportClock`. -/
def tickLamportClock (s : SyncCounters) (observed : Option ℤ) : SyncCounters :=
  { s.put { s.current with lamportClock := s.ticked observed } with
    lamports := s.lamports ++ [s.ticked observed] }

/-- The numbers the callers of `reserveSequenceBatch` give their operations: `start + 1` to
`start + count`. -/
def numbers (s : SyncCounters) (count : ℕ) : List ReservedNumbers :=
  (List.range count).map fun i : ℕ =>
    { deviceSequence := s.current.deviceSequence + i + 1
      lamportTimestamp := s.current.lamportClock + i + 1
      received := s.received }

/-- `reserveSequenceBatch`. -/
def reserveSequenceBatch (s : SyncCounters) (count : ℕ) : SyncCounters :=
  { s.put { s.current with
      deviceSequence := s.current.deviceSequence + count
      lamportClock := s.current.lamportClock + count } with
    reserved := s.reserved ++ s.numbers count
    lamports := s.lamports ++ (s.numbers count).map (·.lamportTimestamp) }

/-- `reduce((max, op) => Math.max(max, op.lamportTimestamp), 0)`. -/
def newestReceived (lamportTimestamps : List ℤ) : ℤ := lamportTimestamps.foldl max 0

/-- One event. -/
def step (s : SyncCounters) : CounterEvent → SyncCounters
  | .getSyncState => if s.record = none then { s with reading := s.reading + 1 } else s
  | .storeInitial =>
      if s.reading = 0 then s else { s.put initialSyncState with reading := s.reading - 1 }
  | .updateSyncState patch => s.put (patch.apply s.current)
  | .tickLamportClock observed => s.tickLamportClock observed
  | .reserveSequenceBatch count => s.reserveSequenceBatch count
  | .receivePage lamportTimestamps =>
      { s with
        received := s.received ++ lamportTimestamps
        unobserved :=
          -- a page with nothing in it moves no clock
          if 0 < newestReceived lamportTimestamps then
            s.unobserved ++ [newestReceived lamportTimestamps]
          else s.unobserved }
  | .receiveSnapshot lamportTimestamps =>
      { s with
        received := s.received ++ lamportTimestamps.filterMap id
        unobserved := s.unobserved ++ [newestReceived (lamportTimestamps.map (·.getD 0))] }
  | .observe index =>
      match s.unobserved[index]? with
      | none => s
      | some newest =>
          { s.tickLamportClock (some newest) with unobserved := s.unobserved.eraseIdx index }

/-- **What the counters are for.** -/
structure Correct (s : SyncCounters) : Prop where
  /-- No sequence number is handed out twice, -/
  sequences_nodup : (s.reserved.map (·.deviceSequence)).Nodup
  /-- nor a value of the clock. -/
  lamports_nodup : s.lamports.Nodup
  /-- No counter has decreased. -/
  never_lowered : ∀ record ∈ s.past, record.deviceSequence ≤ s.current.deviceSequence ∧
    record.lamportClock ≤ s.current.lamportClock
  /-- An operation is newer than all that was received before its numbers were reserved, -/
  above_received : ∀ op ∈ s.reserved, ∀ lamport ∈ op.received, lamport < op.lamportTimestamp
  /-- and than those the device made before. -/
  above_earlier : s.reserved.Pairwise fun a b => a.lamportTimestamp < b.lamportTimestamp

/-- An event that undoes nothing: an initial record is stored over one that has not counted
yet, and numbers are reserved with the clock past all that was received. -/
def UndoesNothing (s : SyncCounters) : CounterEvent → Prop
  | .storeInitial => s.reading = 0 ∨ s.current.deviceSequence = 0 ∧ s.current.lamportClock = 0
  | .reserveSequenceBatch count =>
      count = 0 ∨ ∀ newest ∈ s.unobserved, newest ≤ s.current.lamportClock
  | _ => True

instance (s : SyncCounters) : (event : CounterEvent) → Decidable (s.UndoesNothing event)
  | .storeInitial =>
      inferInstanceAs
        (Decidable (s.reading = 0 ∨ s.current.deviceSequence = 0 ∧ s.current.lamportClock = 0))
  | .reserveSequenceBatch count =>
      inferInstanceAs
        (Decidable (count = 0 ∨ ∀ newest ∈ s.unobserved, newest ≤ s.current.lamportClock))
  | .getSyncState | .updateSyncState _ | .tickLamportClock _ | .receivePage _
  | .receiveSnapshot _ | .observe _ => inferInstanceAs (Decidable True)

/-! ### The numbers of a reservation -/

section Numbers

variable {s : SyncCounters} {count : ℕ} {op : ReservedNumbers}

theorem mem_numbers : op ∈ s.numbers count ↔ ∃ i : ℕ, i < count ∧
    { deviceSequence := s.current.deviceSequence + i + 1
      lamportTimestamp := s.current.lamportClock + i + 1
      received := s.received } = op := by
  simp only [numbers, List.mem_map, List.mem_range]

/-- The numbers reserved lie above both counters, and not above what these are raised to. -/
theorem bounds_of_mem_numbers (hop : op ∈ s.numbers count) :
    s.current.deviceSequence < op.deviceSequence ∧
      op.deviceSequence ≤ s.current.deviceSequence + count ∧
      s.current.lamportClock < op.lamportTimestamp ∧
      op.lamportTimestamp ≤ s.current.lamportClock + count ∧ op.received = s.received := by
  obtain ⟨i, hi, rfl⟩ := mem_numbers.mp hop
  refine ⟨?_, ?_, ?_, ?_, rfl⟩ <;> dsimp only <;> omega

/-- They rise from one operation to the next. -/
theorem numbers_pairwise (s : SyncCounters) (count : ℕ) :
    (s.numbers count).Pairwise fun a b =>
      a.deviceSequence < b.deviceSequence ∧ a.lamportTimestamp < b.lamportTimestamp := by
  rw [numbers, List.pairwise_map]
  refine List.pairwise_lt_range.imp fun hlt => ?_
  constructor <;> dsimp only <;> omega

end Numbers

/-! ### The newest timestamp of a page -/

section Newest

variable {lamportTimestamps : List ℤ}

theorem newestReceived_spec (lamportTimestamps : List ℤ) :
    newestReceived lamportTimestamps ∈ 0 :: lamportTimestamps ∧
      ∀ lamport ∈ 0 :: lamportTimestamps, lamport ≤ newestReceived lamportTimestamps :=
  List.max?_eq_some_iff.mp List.max?_cons'

theorem le_newestReceived {lamport : ℤ} (hmem : lamport ∈ lamportTimestamps) :
    lamport ≤ newestReceived lamportTimestamps :=
  (newestReceived_spec lamportTimestamps).2 lamport (List.mem_cons_of_mem _ hmem)

/-- It is a timestamp of the page, unless no timestamp is positive. -/
theorem newestReceived_mem (hpos : 0 < newestReceived lamportTimestamps) :
    newestReceived lamportTimestamps ∈ lamportTimestamps :=
  List.mem_of_ne_of_mem hpos.ne' (newestReceived_spec lamportTimestamps).1

end Newest

/-! ### The invariant -/

/-- All that was handed out lies at or below the counters, and all that was received lies
below the clock or waits for its tick. -/
structure Ordered (s : SyncCounters) : Prop where
  counters_nonneg : 0 ≤ s.current.deviceSequence ∧ 0 ≤ s.current.lamportClock
  record_mem : ∀ record ∈ s.record, record ∈ s.past
  past_le : ∀ record ∈ s.past, record.deviceSequence ≤ s.current.deviceSequence ∧
    record.lamportClock ≤ s.current.lamportClock
  sequences_le : ∀ op ∈ s.reserved, op.deviceSequence ≤ s.current.deviceSequence
  lamports_le : ∀ lamport ∈ s.lamports, lamport ≤ s.current.lamportClock
  reserved_mem : ∀ op ∈ s.reserved, op.lamportTimestamp ∈ s.lamports
  reserved_rising : s.reserved.Pairwise fun a b =>
    a.deviceSequence < b.deviceSequence ∧ a.lamportTimestamp < b.lamportTimestamp
  lamports_rising : s.lamports.Pairwise (· < ·)
  above_received : ∀ op ∈ s.reserved, ∀ lamport ∈ op.received, lamport < op.lamportTimestamp
  received_le : ∀ lamport ∈ s.received,
    lamport ≤ s.current.lamportClock ∨ ∃ newest ∈ s.unobserved, lamport ≤ newest
  unobserved_mem : ∀ newest ∈ s.unobserved, 0 < newest → newest ∈ s.received

theorem Ordered.start : start.Ordered where
  counters_nonneg := ⟨le_refl _, le_refl _⟩
  record_mem := by simp [SyncCounters.start]
  past_le := by simp [SyncCounters.start]
  sequences_le := by simp [SyncCounters.start]
  lamports_le := by simp [SyncCounters.start]
  reserved_mem := by simp [SyncCounters.start]
  reserved_rising := List.Pairwise.nil
  lamports_rising := List.Pairwise.nil
  above_received := by simp [SyncCounters.start]
  received_le := by simp [SyncCounters.start]
  unobserved_mem := by simp [SyncCounters.start]

/-- What is handed out in rising order is handed out once. -/
theorem Ordered.correct {s : SyncCounters} (h : s.Ordered) : s.Correct where
  sequences_nodup :=
    List.Pairwise.imp (fun hlt => ne_of_lt hlt)
      (List.pairwise_map.mpr (h.reserved_rising.imp fun hlt => hlt.1))
  lamports_nodup := h.lamports_rising.imp fun hlt => ne_of_lt hlt
  never_lowered := h.past_le
  above_received := h.above_received
  above_earlier := h.reserved_rising.imp fun hlt => hlt.2

section Steps

variable {s : SyncCounters}

/-- **A record whose counters are not lower** may replace the one there is. -/
theorem Ordered.put (h : s.Ordered) {record : SyncStateRecord}
    (hsequence : s.current.deviceSequence ≤ record.deviceSequence)
    (hclock : s.current.lamportClock ≤ record.lamportClock) : (s.put record).Ordered := by
  have hsequence_nonneg := h.counters_nonneg.1
  have hclock_nonneg := h.counters_nonneg.2
  refine { h with
    counters_nonneg := ⟨hsequence_nonneg.trans hsequence, hclock_nonneg.trans hclock⟩
    record_mem := fun r hr => ?_
    past_le := fun r hr => ?_
    sequences_le := fun op hop => (h.sequences_le op hop).trans hsequence
    lamports_le := fun lamport hlamport => (h.lamports_le lamport hlamport).trans hclock
    received_le := fun lamport hlamport =>
      (h.received_le lamport hlamport).imp_left fun hle => hle.trans hclock }
  · obtain rfl := Option.some.inj hr
    exact List.mem_append_right _ List.mem_cons_self
  · rcases List.mem_append.mp hr with hr | hr
    · exact ⟨(h.past_le r hr).1.trans hsequence, (h.past_le r hr).2.trans hclock⟩
    · obtain rfl := List.mem_singleton.mp hr
      exact ⟨le_refl _, le_refl _⟩

theorem lt_ticked (s : SyncCounters) (observed : Option ℤ) :
    s.current.lamportClock < s.ticked observed ∧ observed.getD 0 < s.ticked observed := by
  have hclock := le_max_left s.current.lamportClock (observed.getD 0)
  have hobserved := le_max_right s.current.lamportClock (observed.getD 0)
  rw [ticked]
  constructor <;> omega

theorem Ordered.tickLamportClock (h : s.Ordered) (observed : Option ℤ) :
    (s.tickLamportClock observed).Ordered := by
  obtain ⟨hlt, -⟩ := s.lt_ticked observed
  have hput : (s.put { s.current with lamportClock := s.ticked observed }).Ordered :=
    h.put (le_refl _) hlt.le
  refine { hput with
    lamports_le := fun lamport hlamport => ?_
    reserved_mem := fun op hop => List.mem_append_left _ (hput.reserved_mem op hop)
    lamports_rising := ?_ }
  · rcases List.mem_append.mp hlamport with hlamport | hlamport
    · exact hput.lamports_le lamport hlamport
    · exact (List.mem_singleton.mp hlamport).le
  · refine List.pairwise_append.mpr ⟨h.lamports_rising, List.pairwise_singleton _ _, ?_⟩
    rintro earlier hearlier lamport hlamport
    rw [List.mem_singleton.mp hlamport]
    exact (h.lamports_le earlier hearlier).trans_lt hlt

/-- **A reservation**, with the clock past all that was received. -/
theorem Ordered.reserveSequenceBatch (h : s.Ordered) {count : ℕ}
    (hok : s.UndoesNothing (.reserveSequenceBatch count)) :
    (s.reserveSequenceBatch count).Ordered := by
  have hput : (s.put { s.current with
      deviceSequence := s.current.deviceSequence + count
      lamportClock := s.current.lamportClock + count }).Ordered := by
    refine h.put ?_ ?_ <;> dsimp only <;> omega
  -- unless nothing is reserved, nothing received is ahead of the clock
  have hreceived (hpos : 0 < count) : ∀ lamport ∈ s.received, lamport ≤ s.current.lamportClock := by
    intro lamport hlamport
    rcases hok with hzero | hobserved
    · omega
    · rcases h.received_le lamport hlamport with hle | ⟨newest, hnewest, hle⟩
      · exact hle
      · exact hle.trans (hobserved newest hnewest)
  refine { hput with
    sequences_le := fun op hop => ?_
    lamports_le := fun lamport hlamport => ?_
    reserved_mem := fun op hop => ?_
    reserved_rising := ?_
    lamports_rising := ?_
    above_received := fun op hop => ?_ }
  · rcases List.mem_append.mp hop with hop | hop
    · exact hput.sequences_le op hop
    · exact (bounds_of_mem_numbers hop).2.1
  · rcases List.mem_append.mp hlamport with hlamport | hlamport
    · exact hput.lamports_le lamport hlamport
    · obtain ⟨op, hop, rfl⟩ := List.mem_map.mp hlamport
      exact (bounds_of_mem_numbers hop).2.2.2.1
  · rcases List.mem_append.mp hop with hop | hop
    · exact List.mem_append_left _ (h.reserved_mem op hop)
    · exact List.mem_append_right _ (List.mem_map_of_mem hop)
  · refine List.pairwise_append.mpr ⟨h.reserved_rising, s.numbers_pairwise count, ?_⟩
    intro earlier hearlier op hop
    obtain ⟨hsequence, -, hlamport, -⟩ := bounds_of_mem_numbers hop
    exact ⟨(h.sequences_le earlier hearlier).trans_lt hsequence,
      (h.lamports_le _ (h.reserved_mem earlier hearlier)).trans_lt hlamport⟩
  · refine List.pairwise_append.mpr ⟨h.lamports_rising, ?_, ?_⟩
    · exact List.pairwise_map.mpr ((s.numbers_pairwise count).imp fun hlt => hlt.2)
    · intro earlier hearlier lamport hlamport
      obtain ⟨op, hop, rfl⟩ := List.mem_map.mp hlamport
      exact (h.lamports_le earlier hearlier).trans_lt (bounds_of_mem_numbers hop).2.2.1
  · rcases List.mem_append.mp hop with hop | hop
    · exact h.above_received op hop
    · intro lamport hlamport
      obtain ⟨-, -, hlt, -, hsame⟩ := bounds_of_mem_numbers hop
      obtain ⟨i, hi, -⟩ := mem_numbers.mp hop
      rw [hsame] at hlamport
      exact (hreceived (by omega) lamport hlamport).trans_lt hlt

/-- **An arrival**: its newest timestamp waits for its tick, if it has a positive one. -/
theorem Ordered.receive (h : s.Ordered) (lamportTimestamps waiting : List ℤ)
    (hcovered : ∀ lamport ∈ lamportTimestamps, lamport ≤ 0 ∨ ∃ newest ∈ waiting, lamport ≤ newest)
    (hmem : ∀ newest ∈ waiting, 0 < newest → newest ∈ lamportTimestamps) :
    ({ s with
      received := s.received ++ lamportTimestamps
      unobserved := s.unobserved ++ waiting } : SyncCounters).Ordered := by
  refine { h with
    received_le := fun lamport hlamport => ?_
    unobserved_mem := fun newest hnewest hpos => ?_ }
  · rcases List.mem_append.mp hlamport with hlamport | hlamport
    · rcases h.received_le lamport hlamport with hle | ⟨newest, hnewest, hle⟩
      · exact Or.inl hle
      · exact Or.inr ⟨newest, List.mem_append_left _ hnewest, hle⟩
    · rcases hcovered lamport hlamport with hle | ⟨newest, hnewest, hle⟩
      · exact Or.inl (hle.trans h.counters_nonneg.2)
      · exact Or.inr ⟨newest, List.mem_append_right _ hnewest, hle⟩
  · rcases List.mem_append.mp hnewest with hnewest | hnewest
    · exact List.mem_append_left _ (h.unobserved_mem newest hnewest hpos)
    · exact List.mem_append_right _ (hmem newest hnewest hpos)

theorem Ordered.receivePage (h : s.Ordered) (lamportTimestamps : List ℤ) :
    (s.step (.receivePage lamportTimestamps)).Ordered := by
  by_cases hpos : 0 < newestReceived lamportTimestamps
  · have hstep := h.receive lamportTimestamps [newestReceived lamportTimestamps]
      (fun lamport hlamport => Or.inr ⟨_, List.mem_cons_self, le_newestReceived hlamport⟩)
      (fun newest hnewest _ => by
        rw [List.mem_singleton.mp hnewest]
        exact newestReceived_mem hpos)
    simpa only [step, if_pos hpos] using hstep
  · have hstep := h.receive lamportTimestamps []
      (fun lamport hlamport => Or.inl ((le_newestReceived hlamport).trans (not_lt.mp hpos)))
      (by simp)
    simpa only [step, if_neg hpos, List.append_nil] using hstep

theorem Ordered.receiveSnapshot (h : s.Ordered) (lamportTimestamps : List (Option ℤ)) :
    (s.step (.receiveSnapshot lamportTimestamps)).Ordered := by
  refine h.receive _ _ (fun lamport hlamport => Or.inr ⟨_, List.mem_cons_self, ?_⟩)
    fun newest hnewest hpos => ?_
  · obtain ⟨timestamp, htimestamp, heq⟩ := List.mem_filterMap.mp hlamport
    obtain rfl : timestamp = some lamport := heq
    exact le_newestReceived (List.mem_map.mpr ⟨_, htimestamp, rfl⟩)
  · obtain rfl := List.mem_singleton.mp hnewest
    obtain ⟨timestamp, htimestamp, heq⟩ := List.mem_map.mp (newestReceived_mem hpos)
    refine List.mem_filterMap.mpr ⟨timestamp, htimestamp, ?_⟩
    -- an object without a timestamp counts as zero
    cases timestamp with
    | none => exact absurd heq (ne_of_lt hpos)
    | some lamport => exact congrArg some heq

/-- **The tick for an arrival**: what it brought is below the clock. -/
theorem Ordered.observe (h : s.Ordered) (index : ℕ) : (s.step (.observe index)).Ordered := by
  rcases hindex : s.unobserved[index]? with _ | newest
  · simpa only [step, hindex] using h
  · have htick := h.tickLamportClock (some newest)
    obtain ⟨-, hnewest⟩ := s.lt_ticked (some newest)
    have hclock : (s.tickLamportClock (some newest)).current.lamportClock = s.ticked (some newest) :=
      rfl
    have hstep : s.step (.observe index) =
        { s.tickLamportClock (some newest) with unobserved := s.unobserved.eraseIdx index } := by
      simp only [step, hindex]
    rw [hstep]
    refine { htick with
      received_le := fun lamport hlamport => ?_
      unobserved_mem := fun other hother hpos =>
        htick.unobserved_mem other (List.mem_of_mem_eraseIdx hother) hpos }
    rcases htick.received_le lamport hlamport with hle | ⟨other, hother, hle⟩
    · exact Or.inl hle
    · rcases List.mem_iff_getElem?.mp hother with ⟨position, hposition⟩
      by_cases hsame : position = index
      · subst hsame
        obtain rfl : newest = other := Option.some.inj (hindex.symm.trans hposition)
        left
        change lamport ≤ s.ticked (some newest)
        exact hle.trans hnewest.le
      · exact Or.inr ⟨other, List.mem_eraseIdx_iff_getElem?.mpr ⟨position, hsame, hposition⟩, hle⟩

/-- **One event** that undoes nothing. -/
theorem Ordered.step (h : s.Ordered) {event : CounterEvent} (hok : s.UndoesNothing event) :
    (s.step event).Ordered := by
  cases event with
  | getSyncState =>
    change (if s.record = none then _ else s : SyncCounters).Ordered
    split
    · exact { h with }
    · exact h
  | storeInitial =>
    change (if s.reading = 0 then s else _ : SyncCounters).Ordered
    split
    · exact h
    · rename_i hreading
      obtain ⟨hsequence, hclock⟩ := hok.resolve_left hreading
      have hput : (s.put initialSyncState).Ordered := h.put hsequence.le hclock.le
      exact { hput with }
  | updateSyncState patch => exact h.put (le_refl _) (le_refl _)
  | tickLamportClock observed => exact h.tickLamportClock observed
  | reserveSequenceBatch count => exact h.reserveSequenceBatch hok
  | receivePage lamportTimestamps => exact h.receivePage lamportTimestamps
  | receiveSnapshot lamportTimestamps => exact h.receiveSnapshot lamportTimestamps
  | observe index => exact h.observe index

/-- An initial record stored over one that has counted lowers a counter, and numbers reserved
with the clock behind an arrival are no newer than it. -/
theorem Ordered.not_correct (h : s.Ordered) {event : CounterEvent}
    (hbad : ¬s.UndoesNothing event) : ¬(s.step event).Correct := by
  intro hcorrect
  cases event with
  | storeInitial =>
    obtain ⟨hreading, hcounted⟩ := not_or.mp hbad
    have hstep : s.step .storeInitial =
        { s.put initialSyncState with reading := s.reading - 1 } := if_neg hreading
    rw [hstep] at hcorrect
    rcases hrecord : s.record with _ | record
    · rw [current, hrecord] at hcounted
      exact hcounted ⟨rfl, rfl⟩
    · have hcurrent : s.current = record := by rw [current, hrecord]; rfl
      have hpast : record ∈ s.past ++ [initialSyncState] :=
        List.mem_append_left _ (h.record_mem record hrecord)
      obtain ⟨hsequence, hclock⟩ := hcorrect.never_lowered record hpast
      have hnonneg := h.counters_nonneg
      rw [hcurrent] at hcounted hnonneg
      exact hcounted ⟨le_antisymm hsequence hnonneg.1, le_antisymm hclock hnonneg.2⟩
  | reserveSequenceBatch count =>
    simp only [UndoesNothing, not_or, not_forall, not_le] at hbad
    obtain ⟨hcount, newest, hnewest, hahead⟩ := hbad
    have hreceived : newest ∈ s.received :=
      h.unobserved_mem newest hnewest (h.counters_nonneg.2.trans_lt hahead)
    -- the first of the operations carries the value after the clock
    have hfirst := (mem_numbers (s := s)).mpr ⟨0, Nat.pos_of_ne_zero hcount, rfl⟩
    have hlt := hcorrect.above_received _ (List.mem_append_right _ hfirst) newest hreceived
    dsimp only at hlt
    omega
  | getSyncState => exact hbad trivial
  | updateSyncState _ => exact hbad trivial
  | tickLamportClock _ => exact hbad trivial
  | receivePage _ => exact hbad trivial
  | receiveSnapshot _ => exact hbad trivial
  | observe _ => exact hbad trivial

end Steps

/-- **The counters are right** in every state of a run exactly if no initial record is stored
over one that has counted, and no numbers are reserved with the clock behind a page or a
snapshot received. -/
theorem correct_iff (events : List CounterEvent) :
    Runs.Always step Correct start events ↔ Runs.Meets step UndoesNothing start events :=
  Runs.always_iff_meets (I := Ordered) (fun _ h => h.correct) (fun _ _ h hok => h.step hok)
    (fun _ _ h hbad => h.not_correct hbad) Ordered.start

/-- The status of the extension is asked for while its first bookmark is captured. -/
def statusDuringCapture : List CounterEvent :=
  [.getSyncState, .reserveSequenceBatch 1, .storeInitial, .reserveSequenceBatch 1]

/-- The second operation is given the numbers of the first. -/
theorem not_correct :
    (Runs.run step start statusDuringCapture).reserved =
        [⟨1, 1, []⟩, ⟨1, 1, []⟩] ∧
      ¬Runs.Always step Correct start statusDuringCapture := by
  have hreserved : (Runs.run step start statusDuringCapture).reserved =
      [⟨1, 1, []⟩, ⟨1, 1, []⟩] := by decide
  refine ⟨hreserved, fun hcorrect => ?_⟩
  have hlast := (Runs.always_iff_take.mp hcorrect 4).sequences_nodup
  change ((Runs.run step start statusDuringCapture).reserved.map _).Nodup at hlast
  rw [hreserved] at hlast
  exact absurd hlast (by decide)

end SyncCounters

end Client

end HelixSync
