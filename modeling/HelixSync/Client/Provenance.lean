import HelixSync.Server.System
import HelixSync.Client.Queue
import HelixSync.Client.FieldConvergence

/-!
# Provenance of local changes

A local change is captured in steps (`flushBookmarkEvents`, `flushTabEvents`,
`createLocalOperationsBatch`, `reissueRestoresAsCreate`): its Lamport value is taken from the
clock, its operation is built and put into the queue, and only then are its slots of the
`field_state` store written. The last step is `putFieldStatesBatch`, which does not look at
what the slots hold. Remote operations move the clock past themselves when they are received
(`tickLamportClock`) and are arbitrated slot by slot afterwards.

So a capture reserves a key above everything stored at that moment, and its put lowers a
slot exactly if something greater has been stored there in between
(`HelixSync.Client.Replica.not_forward_after_disturbance`). In a run without such a
transaction no key outside `liveness` ever decreases
(`HelixSync.Client.Replica.forward_of_undisturbed`); with one it does
(`HelixSync.Client.Replica.not_forward`).
-/

namespace HelixSync

namespace Client

/-! ### The puts -/

/-- `putFieldStatesBatch`: unconditional puts, in order. -/
def putFieldStatesBatch (store : FieldStore) (records : List BatchFieldResolution) : FieldStore :=
  records.foldl (fun store record => Function.update store record.slot (some record.incoming)) store

/-- A staged change: what is uploaded, and the slots it is recorded in. -/
structure StagedOp where
  item : PendingLocalOperation
  fields : List (Field × Option Json)

/-- A capture between its reservation and its put. The ids and wire payloads of the
operations are chosen with the reservation; nothing reads them before the queue does. -/
structure Capture where
  staged : List (StagedOp × Sealed)
  startDeviceSequence : ℤ
  startLamport : ℤ
  enqueued : Bool

namespace Capture

variable (c : Capture)

/-- The operations of a capture. -/
def operations : List OperationIn :=
  buildOperations (c.staged.map fun e => (e.1.item, e.2)) c.startDeviceSequence c.startLamport

/-- The records of one operation. -/
def entriesOf (deviceId : Uuid) (staged : StagedOp) (operation : OperationIn) :
    List BatchFieldResolution :=
  staged.fields.map fun f =>
    ⟨staged.item.objectId, f.1, ⟨⟨operation.lamportTimestamp, deviceId, operation.operationId⟩,
      staged.item.operationType, f.2⟩⟩

/-- `fieldStateEntries`: the records a capture puts. -/
def fieldStateEntries (deviceId : Uuid) : List BatchFieldResolution :=
  (c.staged.zip c.operations).flatMap fun e => entriesOf deviceId e.1.1 e.2

/-- What a capture leaves in a slot. -/
def lands (deviceId : Uuid) : FieldStore :=
  putFieldStatesBatch emptyStore (c.fieldStateEntries deviceId)

end Capture

/-! ### The device -/

/-- A device: its counters, its queue, its `field_state` store, the captures under way and the
remote operations received and not yet given up. -/
structure Replica where
  deviceId : Uuid
  deviceSequence : ℤ
  lamportClock : ℤ
  pending : List PendingOperationRecord
  store : FieldStore
  captures : List Capture
  received : List RemoteItem

/-- What may happen next. An index picks one of the captures under way, or a received
operation. -/
inductive ReplicaEvent where
  | reserve (staged : List (StagedOp × Sealed))
  | enqueue (index : ℕ)
  | record (index : ℕ)
  | receive (operations : List RemoteItem)
  | resolve (indices : List ℕ)
  /-- The worker stops, and what it had in memory is gone. -/
  | stop

namespace Replica

/-- A device that has recorded nothing. -/
def start (deviceId : Uuid) : Replica where
  deviceId := deviceId
  deviceSequence := 0
  lamportClock := 0
  pending := []
  store := emptyStore
  captures := []
  received := []

/-- `reserveSequenceBatch`, the first transaction of a capture. -/
def reserve (s : Replica) (staged : List (StagedOp × Sealed)) : Replica :=
  if staged.isEmpty then s
  else
    { s with
      deviceSequence := s.deviceSequence + staged.length
      lamportClock := s.lamportClock + staged.length
      captures := s.captures ++ [⟨staged, s.deviceSequence, s.lamportClock, false⟩] }

/-- `enqueueOperationsBatch`, the second. -/
def enqueue (s : Replica) (index : ℕ) : Replica :=
  match s.captures[index]? with
  | none => s
  | some c =>
    if c.enqueued then s
    else
      { s with
        pending := enqueueOperationsBatch s.pending c.operations
        captures := s.captures.set index { c with enqueued := true } }

/-- `recordLocalFieldStatesBatch`, the last. -/
def record (s : Replica) (index : ℕ) : Replica :=
  match s.captures[index]? with
  | none => s
  | some c =>
    if c.enqueued then
      { s with
        store := putFieldStatesBatch s.store (c.fieldStateEntries s.deviceId)
        captures := s.captures.eraseIdx index }
    else s

/-- `newestReceived`. -/
def newestReceived (operations : List RemoteItem) : ℤ :=
  operations.foldl (fun newest item => max newest item.1.lamportTimestamp) 0

/-- A page arrives, and the clock moves past it (`tickLamportClock`). -/
def receive (s : Replica) (operations : List RemoteItem) : Replica :=
  { s with
    lamportClock :=
      if 0 < newestReceived operations then max s.lamportClock (newestReceived operations) + 1
      else s.lamportClock
    received := s.received ++ operations }

/-- The received operations that a call is about. -/
def itemsAt (s : Replica) (indices : List ℕ) : List RemoteItem :=
  indices.filterMap fun index => s.received[index]?

/-- A transaction of an applier. -/
def resolve (s : Replica) (indices : List ℕ) : Replica :=
  { s with store := (resolveFieldsBatch s.store (callEntries (s.itemsAt indices))).2 }

/-- One step. -/
def step (s : Replica) : ReplicaEvent → Replica
  | .reserve staged => s.reserve staged
  | .enqueue index => s.enqueue index
  | .record index => s.record index
  | .receive operations => s.receive operations
  | .resolve indices => s.resolve indices
  | .stop => { s with captures := [], received := [] }

/-- The state after a run. -/
abbrev run (s : Replica) (events : List ReplicaEvent) : Replica := Runs.run step s events

/-- No key outside `liveness` is lower in the second store than in the first. -/
def NeverBack (before after : FieldStore) : Prop :=
  ∀ slot : SlotKey, slot.2 ≠ .liveness → ∀ held, before slot = some held →
    ∃ next, after slot = some next ∧ held.key ≤ next.key

/-- A step that takes no key back. -/
def Forward (s : Replica) (event : ReplicaEvent) : Prop := NeverBack s.store (s.step event).store

/-- The records a step writes, or hands to the arbitration. -/
def writesOf (s : Replica) : ReplicaEvent → List BatchFieldResolution
  | .resolve indices => callEntries (s.itemsAt indices)
  | .record index =>
    match s.captures[index]? with
    | some c => if c.enqueued then c.fieldStateEntries s.deviceId else []
    | none => []
  | _ => []

/-- The captures under way during a step that are not the one it completes. -/
def bystanders (s : Replica) : ReplicaEvent → List Capture
  | .record index => s.captures.eraseIdx index
  | _ => s.captures

/-- A step that writes nothing above what a capture under way will put into the same slot. -/
def Undisturbed (s : Replica) (event : ReplicaEvent) : Prop :=
  ∀ entry ∈ s.writesOf event, entry.field ≠ .liveness → ∀ c ∈ s.bystanders event,
    ∀ r ∈ c.lands s.deviceId entry.slot, entry.incoming.key ≤ r.key

instance (s : Replica) (event : ReplicaEvent) : Decidable (s.Undisturbed event) :=
  inferInstanceAs (Decidable (∀ entry ∈ s.writesOf event, entry.field ≠ .liveness →
    ∀ c ∈ s.bystanders event, ∀ r ∈ c.lands s.deviceId entry.slot, entry.incoming.key ≤ r.key))

end Replica

/-! ### What puts leave in a slot -/

section Puts

variable {store : FieldStore} {records : List BatchFieldResolution} {record : BatchFieldResolution}
  {slot : SlotKey} {r : FieldStateRecord}

theorem putFieldStatesBatch_snoc : putFieldStatesBatch store (records ++ [record]) =
    Function.update (putFieldStatesBatch store records) record.slot (some record.incoming) :=
  List.foldl_append

/-- **Puts over a store**: a slot holds what was put there, or what it held. -/
theorem putFieldStatesBatch_apply (store : FieldStore) (records : List BatchFieldResolution)
    (slot : SlotKey) : putFieldStatesBatch store records slot =
      (putFieldStatesBatch emptyStore records slot).orElse fun _ => store slot := by
  induction records using List.reverseRecOn with
  | nil => rfl
  | append_singleton records record ih =>
    rw [putFieldStatesBatch_snoc, putFieldStatesBatch_snoc, Function.update_apply,
      Function.update_apply]
    split
    · rfl
    · exact ih

theorem mem_of_put (h : putFieldStatesBatch emptyStore records slot = some r) :
    ∃ entry ∈ records, entry.slot = slot ∧ entry.incoming = r := by
  induction records using List.reverseRecOn with
  | nil => exact absurd h (by simp [putFieldStatesBatch, emptyStore])
  | append_singleton records record ih =>
    rw [putFieldStatesBatch_snoc, Function.update_apply] at h
    split at h
    · rename_i hslot
      exact ⟨record, by simp, hslot.symm, Option.some.inj h⟩
    · obtain ⟨entry, hentry, hrest⟩ := ih h
      exact ⟨entry, List.mem_append_left _ hentry, hrest⟩

/-- Records in the order of their keys leave the greatest key in each slot. -/
theorem le_of_put (hsorted : records.Pairwise fun a b => a.incoming.key ≤ b.incoming.key)
    (hmem : record ∈ records) : ∃ r, putFieldStatesBatch emptyStore records record.slot = some r ∧
      record.incoming.key ≤ r.key := by
  induction records using List.reverseRecOn with
  | nil => exact absurd hmem List.not_mem_nil
  | append_singleton records last ih =>
    obtain ⟨hrecords, -, hlast⟩ := List.pairwise_append.mp hsorted
    rw [putFieldStatesBatch_snoc, Function.update_apply]
    rcases List.mem_append.mp hmem with hmem | hmem
    · split
      · exact ⟨last.incoming, rfl, hlast record hmem last (List.mem_singleton.mpr rfl)⟩
      · exact ih hrecords hmem
    · rw [List.mem_singleton.mp hmem, if_pos rfl]
      exact ⟨last.incoming, rfl, le_refl _⟩

end Puts

/-! ### The keys of a capture -/

namespace Capture

variable {c : Capture} {deviceId : Uuid} {entry : BatchFieldResolution} {slot : SlotKey}
  {r : FieldStateRecord}

theorem fieldStateEntries_cons (e : StagedOp × Sealed) (staged : List (StagedOp × Sealed))
    (seq lamport : ℤ) (enqueued : Bool) :
    (⟨e :: staged, seq, lamport, enqueued⟩ : Capture).fieldStateEntries deviceId =
      entriesOf deviceId e.1 (buildOperation e.1.item e.2 (seq + 1) (lamport + 1)) ++
        (⟨staged, seq + 1, lamport + 1, enqueued⟩ : Capture).fieldStateEntries deviceId :=
  rfl

theorem key_of_mem_entriesOf {staged : StagedOp} {operation : OperationIn}
    (h : entry ∈ entriesOf deviceId staged operation) :
    entry.incoming.key = ⟨operation.lamportTimestamp, deviceId, operation.operationId⟩ := by
  obtain ⟨f, -, rfl⟩ := List.mem_map.mp h
  rfl

/-- The Lamport values of a capture are those reserved for it, -/
theorem lamport_of_mem_fieldStateEntries (h : entry ∈ c.fieldStateEntries deviceId) :
    c.startLamport < entry.incoming.key.lamportTimestamp ∧
      entry.incoming.key.lamportTimestamp ≤ c.startLamport + c.staged.length := by
  obtain ⟨staged, seq, lamport, enqueued⟩ := c
  induction staged generalizing seq lamport with
  | nil => exact absurd h List.not_mem_nil
  | cons e staged ih =>
    rw [fieldStateEntries_cons] at h
    rw [List.length_cons]
    push_cast
    rcases List.mem_append.mp h with h | h
    · rw [key_of_mem_entriesOf h]
      change lamport < lamport + 1 ∧ lamport + 1 ≤ lamport + (staged.length + 1)
      omega
    · have hrest := ih _ _ h
      dsimp only at hrest ⊢
      omega

/-- and its records are in the order of their keys. -/
theorem pairwise_fieldStateEntries : (c.fieldStateEntries deviceId).Pairwise fun a b =>
    a.incoming.key ≤ b.incoming.key := by
  obtain ⟨staged, seq, lamport, enqueued⟩ := c
  induction staged generalizing seq lamport with
  | nil => exact List.Pairwise.nil
  | cons e staged ih =>
    rw [fieldStateEntries_cons, List.pairwise_append]
    refine ⟨?_, ih _ _, fun a ha b hb => ?_⟩
    · rw [List.pairwise_iff_forall_sublist]
      intro a b hab
      rw [key_of_mem_entriesOf (hab.subset List.mem_cons_self),
        key_of_mem_entriesOf (hab.subset (by simp))]
    · have hlamport := (lamport_of_mem_fieldStateEntries hb).1
      refine le_of_lt (OrderingKey.lt_iff.mpr (Or.inl ?_))
      rw [key_of_mem_entriesOf ha]
      exact hlamport

/-- What a capture leaves in a slot has one of its keys, -/
theorem lamport_of_lands (h : c.lands deviceId slot = some r) :
    c.startLamport < r.key.lamportTimestamp ∧
      r.key.lamportTimestamp ≤ c.startLamport + c.staged.length := by
  obtain ⟨entry, hentry, -, rfl⟩ := mem_of_put h
  exact lamport_of_mem_fieldStateEntries hentry

/-- the greatest of those for the slot. -/
theorem le_lands (h : entry ∈ c.fieldStateEntries deviceId) :
    ∃ r, c.lands deviceId entry.slot = some r ∧ entry.incoming.key ≤ r.key :=
  le_of_put pairwise_fieldStateEntries h

end Capture

/-! ### A transaction of an applier -/

section Resolve

variable {store : FieldStore} {entries : List BatchFieldResolution} {slot : SlotKey}
  {held : FieldStateRecord}

/-- Outside `liveness`, a batch writes the register of each slot. -/
theorem resolveFieldsBatch_slot (h : slot.2 ≠ .liveness) (store : FieldStore)
    (entries : List BatchFieldResolution) : (resolveFieldsBatch store entries).2 slot =
      ((entries.filter fun e => e.slot = slot).map BatchFieldResolution.incoming).foldl
        (MaxRegister.write IncomingField.key) (store slot) := by
  have hwrite : resolveSlot slot.2 = MaxRegister.write IncomingField.key := by
    funext current incoming
    exact resolveSlot_eq_write h current incoming
  rw [resolveFieldsBatch_snd, foldl_resolveEntry_apply, hwrite]

/-- It holds what it held, or a value of the batch. -/
theorem mem_of_resolveFieldsBatch (h : slot.2 ≠ .liveness)
    (hheld : (resolveFieldsBatch store entries).2 slot = some held) :
    store slot = some held ∨ ∃ entry ∈ entries, entry.slot = slot ∧ entry.incoming = held := by
  rw [resolveFieldsBatch_slot h] at hheld
  refine (MaxRegister.mem_of_foldl hheld).imp_right fun hmem => ?_
  obtain ⟨entry, hentry, rfl⟩ := List.mem_map.mp hmem
  have hfilter := List.mem_filter.mp hentry
  exact ⟨entry, hfilter.1, by simpa using hfilter.2, rfl⟩

theorem neverBack_resolveFieldsBatch (store : FieldStore) (entries : List BatchFieldResolution) :
    Replica.NeverBack store (resolveFieldsBatch store entries).2 := by
  intro slot hslot held hheld
  rw [resolveFieldsBatch_slot hslot]
  obtain ⟨next, hnext⟩ := Option.ne_none_iff_exists'.mp
    (MaxRegister.foldl_some_ne_none IncomingField.key
      ((entries.filter fun e => e.slot = slot).map BatchFieldResolution.incoming) held)
  rw [← hheld] at hnext
  exact ⟨next, hnext, MaxRegister.mono_foldl hheld hnext⟩

/-- It holds at least the key of each value of the batch for the slot. -/
theorem le_of_resolveFieldsBatch {entry : BatchFieldResolution} (h : entry.field ≠ .liveness)
    (hentry : entry ∈ entries) : ∃ next, (resolveFieldsBatch store entries).2 entry.slot = some next ∧
      entry.incoming.key ≤ next.key := by
  rw [resolveFieldsBatch_slot h]
  have hmem : entry.incoming ∈
      (entries.filter fun e => e.slot = entry.slot).map BatchFieldResolution.incoming :=
    List.mem_map_of_mem (List.mem_filter.mpr ⟨hentry, by simp⟩)
  obtain ⟨next, hnext⟩ := Option.ne_none_iff_exists'.mp
    (@MaxRegister.foldl_ne_none _ _ _ IncomingField.key (store entry.slot) _ _ hmem)
  exact ⟨next, hnext, MaxRegister.le_of_foldl hmem hnext⟩

end Resolve

namespace Replica

variable {s : Replica} {event : ReplicaEvent}

/-! ### The invariant -/

/-- **The captures are ahead.** Outside `liveness` nothing stored has a Lamport value above
the clock, and nothing stored in a slot has a key above what a capture under way will put
there. -/
structure Ahead (s : Replica) : Prop where
  clock_nonneg : 0 ≤ s.lamportClock
  store_le : ∀ slot : SlotKey, slot.2 ≠ .liveness → ∀ held, s.store slot = some held →
    held.key.lamportTimestamp ≤ s.lamportClock
  received_le : ∀ item ∈ s.received, item.1.lamportTimestamp ≤ s.lamportClock
  reserved_le : ∀ c ∈ s.captures, c.startLamport + c.staged.length ≤ s.lamportClock
  ahead : ∀ c ∈ s.captures, ∀ slot : SlotKey, slot.2 ≠ .liveness →
    ∀ held, s.store slot = some held → ∀ r, c.lands s.deviceId slot = some r → held.key ≤ r.key

theorem ahead_start (deviceId : Uuid) : (start deviceId).Ahead where
  clock_nonneg := le_refl 0
  store_le := fun _ _ _ h => absurd h (by simp [start, emptyStore])
  received_le := fun _ h => absurd h List.not_mem_nil
  reserved_le := fun _ h => absurd h List.not_mem_nil
  ahead := fun _ h => absurd h List.not_mem_nil

theorem Ahead.reserve (h : s.Ahead) (staged : List (StagedOp × Sealed)) :
    (s.reserve staged).Ahead := by
  unfold Replica.reserve
  split
  · exact h
  have hgrow : s.lamportClock ≤ s.lamportClock + staged.length := by omega
  refine ⟨le_trans h.clock_nonneg hgrow,
    fun slot hslot held hheld => le_trans (h.store_le slot hslot held hheld) hgrow,
    fun item hitem => le_trans (h.received_le item hitem) hgrow, fun c hc => ?_,
    fun c hc slot hslot held hheld r hr => ?_⟩
  · rcases List.mem_append.mp hc with hc | hc
    · exact le_trans (h.reserved_le c hc) hgrow
    · rw [List.mem_singleton.mp hc]
  · rcases List.mem_append.mp hc with hc | hc
    · exact h.ahead c hc slot hslot held hheld r hr
    · -- the new capture is above the clock, hence above all that is stored
      rw [List.mem_singleton.mp hc] at hr
      have hclock := h.store_le slot hslot held hheld
      have hreserved : s.lamportClock < r.key.lamportTimestamp := (Capture.lamport_of_lands hr).1
      exact le_of_lt (OrderingKey.lt_iff.mpr (Or.inl (lt_of_le_of_lt hclock hreserved)))

theorem Ahead.enqueue (h : s.Ahead) (index : ℕ) : (s.enqueue index).Ahead := by
  unfold Replica.enqueue
  split
  · exact h
  rename_i c hc
  split
  · exact h
  have hmem : c ∈ s.captures := List.mem_of_getElem? hc
  refine ⟨h.clock_nonneg, h.store_le, h.received_le, fun c' hc' => ?_,
    fun c' hc' slot hslot held hheld r hr => ?_⟩
  · rcases List.mem_or_eq_of_mem_set hc' with hc' | rfl
    · exact h.reserved_le c' hc'
    · exact h.reserved_le c hmem
  · rcases List.mem_or_eq_of_mem_set hc' with hc' | rfl
    · exact h.ahead c' hc' slot hslot held hheld r hr
    · exact h.ahead c hmem slot hslot held hheld r hr

theorem Ahead.record (h : s.Ahead) {index : ℕ} (hok : s.Undisturbed (.record index)) :
    (s.record index).Ahead := by
  unfold Replica.record
  split
  · exact h
  rename_i c hc
  split
  · rename_i henq
    have hmem : c ∈ s.captures := List.mem_of_getElem? hc
    have hsub := (s.captures.eraseIdx_sublist index).subset
    have hwrites : s.writesOf (.record index) = c.fieldStateEntries s.deviceId := by
      simp [writesOf, hc, henq]
    -- what a slot holds now was put there by the capture, or was there before
    have hcases : ∀ slot held,
        putFieldStatesBatch s.store (c.fieldStateEntries s.deviceId) slot = some held →
          c.lands s.deviceId slot = some held ∨ s.store slot = some held := by
      intro slot held hheld
      rw [putFieldStatesBatch_apply] at hheld
      rcases hlands : c.lands s.deviceId slot with _ | r
      · rw [Capture.lands] at hlands
        rw [hlands] at hheld
        exact Or.inr hheld
      · rw [Capture.lands] at hlands
        rw [hlands] at hheld
        exact Or.inl hheld
    refine ⟨h.clock_nonneg, fun slot hslot held hheld => ?_, h.received_le,
      fun c' hc' => h.reserved_le c' (hsub hc'), fun c' hc' slot hslot held hheld r hr => ?_⟩
    · rcases hcases slot held hheld with hlands | hstore
      · exact le_trans (Capture.lamport_of_lands hlands).2 (h.reserved_le c hmem)
      · exact h.store_le slot hslot held hstore
    · rcases hcases slot held hheld with hlands | hstore
      · obtain ⟨entry, hentry, rfl, rfl⟩ := mem_of_put hlands
        exact hok entry (hwrites ▸ hentry) hslot c' hc' r hr
      · exact h.ahead c' (hsub hc') slot hslot held hstore r hr
  · exact h

theorem le_newestReceived {operations : List RemoteItem} {item : RemoteItem}
    (h : item ∈ operations) : item.1.lamportTimestamp ≤ newestReceived operations := by
  have hfold : ∀ (operations : List RemoteItem) (newest : ℤ),
      newest ≤ operations.foldl (fun newest item => max newest item.1.lamportTimestamp) newest ∧
        ∀ item ∈ operations, item.1.lamportTimestamp ≤
          operations.foldl (fun newest item => max newest item.1.lamportTimestamp) newest := by
    intro operations
    induction operations with
    | nil => exact fun newest => ⟨le_refl _, fun item h => absurd h List.not_mem_nil⟩
    | cons first operations ih =>
      intro newest
      obtain ⟨hstart, hrest⟩ := ih (max newest first.1.lamportTimestamp)
      refine ⟨le_trans (le_max_left _ _) hstart, fun item hitem => ?_⟩
      rcases List.mem_cons.mp hitem with rfl | hitem
      · exact le_trans (le_max_right _ _) hstart
      · exact hrest item hitem
  exact (hfold operations 0).2 item h

theorem Ahead.receive (h : s.Ahead) (operations : List RemoteItem) :
    (s.receive operations).Ahead := by
  have hgrow : s.lamportClock ≤ (s.receive operations).lamportClock := by
    unfold Replica.receive
    dsimp only
    split <;> omega
  have hnewest : newestReceived operations ≤ (s.receive operations).lamportClock := by
    have hclock := h.clock_nonneg
    unfold Replica.receive
    dsimp only
    split <;> omega
  refine ⟨le_trans h.clock_nonneg hgrow,
    fun slot hslot held hheld => le_trans (h.store_le slot hslot held hheld) hgrow,
    fun item hitem => ?_, fun c hc => le_trans (h.reserved_le c hc) hgrow, h.ahead⟩
  rcases List.mem_append.mp hitem with hitem | hitem
  · exact le_trans (h.received_le item hitem) hgrow
  · exact le_trans (le_newestReceived hitem) hnewest

/-- The values of a call carry keys of received operations. -/
theorem exists_of_mem_callEntries {indices : List ℕ} {entry : BatchFieldResolution}
    (h : entry ∈ callEntries (s.itemsAt indices)) :
    ∃ item ∈ s.received, entry.incoming.key = item.1.key := by
  obtain ⟨item, hitem, hentry⟩ := List.mem_flatMap.mp h
  obtain ⟨f, hf, rfl⟩ := List.mem_map.mp hentry
  obtain ⟨index, -, hindex⟩ := List.mem_filterMap.mp hitem
  exact ⟨item, List.mem_of_getElem? hindex, key_of_mem_fieldResolutions hf⟩

theorem Ahead.resolve (h : s.Ahead) {indices : List ℕ} (hok : s.Undisturbed (.resolve indices)) :
    (s.resolve indices).Ahead := by
  refine ⟨h.clock_nonneg, fun slot hslot held hheld => ?_, h.received_le, h.reserved_le,
    fun c hc slot hslot held hheld r hr => ?_⟩
  · rcases mem_of_resolveFieldsBatch hslot hheld with hstore | ⟨entry, hentry, rfl, rfl⟩
    · exact h.store_le slot hslot held hstore
    · obtain ⟨item, hitem, hkey⟩ := exists_of_mem_callEntries hentry
      rw [hkey]
      exact h.received_le item hitem
  · rcases mem_of_resolveFieldsBatch hslot hheld with hstore | ⟨entry, hentry, rfl, rfl⟩
    · exact h.ahead c hc slot hslot held hstore r hr
    · exact hok entry hentry hslot c hc r hr

theorem Ahead.step (h : s.Ahead) (hok : s.Undisturbed event) : (s.step event).Ahead := by
  cases event with
  | reserve staged => exact h.reserve staged
  | enqueue index => exact h.enqueue index
  | record index => exact h.record hok
  | receive operations => exact h.receive operations
  | resolve indices => exact h.resolve hok
  | stop =>
    exact ⟨h.clock_nonneg, h.store_le, fun _ hitem => absurd hitem List.not_mem_nil,
      fun _ hc => absurd hc List.not_mem_nil, fun _ hc => absurd hc List.not_mem_nil⟩

/-! ### What a put does -/

theorem store_record {index : ℕ} {c : Capture} (hc : s.captures[index]? = some c)
    (henq : c.enqueued = true) (slot : SlotKey) :
    (s.record index).store slot = (c.lands s.deviceId slot).orElse fun _ => s.store slot := by
  simp only [Replica.record, hc, henq, if_true]
  exact putFieldStatesBatch_apply _ _ _

/-- **Ahead means forward**: no step takes a key back. -/
theorem Ahead.forward (h : s.Ahead) : s.Forward event := by
  have hsame : NeverBack s.store s.store := fun _ _ held hheld => ⟨held, hheld, le_refl _⟩
  cases event with
  | reserve staged =>
    have hstore : (s.reserve staged).store = s.store := by
      unfold Replica.reserve
      split <;> rfl
    rw [Forward, Replica.step, hstore]
    exact hsame
  | enqueue index =>
    have hstore : (s.enqueue index).store = s.store := by
      unfold Replica.enqueue
      split
      · rfl
      · split <;> rfl
    rw [Forward, Replica.step, hstore]
    exact hsame
  | record index =>
    rw [Forward, Replica.step]
    rcases hc : s.captures[index]? with _ | c
    · simp only [Replica.record, hc]
      exact hsame
    by_cases henq : c.enqueued = true
    · intro slot hslot held hheld
      rw [store_record hc henq, hheld]
      rcases hlands : c.lands s.deviceId slot with _ | r
      · exact ⟨held, rfl, le_refl _⟩
      · exact ⟨r, rfl, h.ahead c (List.mem_of_getElem? hc) slot hslot held hheld r hlands⟩
    · simp only [Replica.record, hc, if_neg henq]
      exact hsame
  | receive operations => exact hsame
  | resolve indices => exact neverBack_resolveFieldsBatch _ _
  | stop => exact hsame

/-- A capture behind what one of its slots holds takes it back when it completes. -/
theorem not_forward_of_behind {c : Capture} (hc : c ∈ s.captures) {slot : SlotKey}
    (hslot : slot.2 ≠ .liveness) {r held : FieldStateRecord}
    (hr : c.lands s.deviceId slot = some r) (hheld : s.store slot = some held)
    (hlt : r.key < held.key) :
    ∃ index, ¬Runs.Meets Replica.step Forward s [.enqueue index, .record index] := by
  obtain ⟨index, hindex⟩ := List.mem_iff_getElem?.mp hc
  refine ⟨index, fun hmeets => ?_⟩
  have hforward : (s.enqueue index).Forward (.record index) := hmeets.2.1
  -- the operations are in the queue, and nothing else has changed
  obtain ⟨henqueued, hstore, hdevice⟩ : (∃ c' : Capture, (s.enqueue index).captures[index]? = some c' ∧
      c'.enqueued = true ∧ c'.lands s.deviceId = c.lands s.deviceId) ∧
      (s.enqueue index).store = s.store ∧ (s.enqueue index).deviceId = s.deviceId := by
    by_cases henq : c.enqueued = true
    · simp only [Replica.enqueue, hindex, if_pos henq]
      exact ⟨⟨c, rfl, henq, rfl⟩, trivial, trivial⟩
    · simp only [Replica.enqueue, hindex, if_neg henq]
      have hlength : index < s.captures.length := (List.getElem?_eq_some_iff.mp hindex).1
      refine ⟨⟨{ c with enqueued := true }, ?_, rfl, rfl⟩, trivial, trivial⟩
      rw [List.getElem?_set_self hlength]
  obtain ⟨c', hc', henq, hlands⟩ := henqueued
  obtain ⟨next, hnext, hle⟩ := hforward slot hslot held (by rw [hstore, hheld])
  rw [Replica.step, store_record hc' henq, hdevice, hlands, hr] at hnext
  rw [← Option.some.inj hnext] at hle
  exact absurd hle (not_le.mpr hlt)

/-- **A disturbed capture** takes a key back when it completes. -/
theorem not_forward_after_disturbance (hbad : ¬s.Undisturbed event) :
    ∃ index, ¬Runs.Meets Replica.step Forward (s.step event) [.enqueue index, .record index] := by
  unfold Undisturbed at hbad
  push Not at hbad
  obtain ⟨entry, hentry, hfield, c, hc, r, hr, hlt⟩ := hbad
  cases event with
  | resolve indices =>
    obtain ⟨next, hnext, hle⟩ := le_of_resolveFieldsBatch hfield hentry
    exact not_forward_of_behind hc hfield hr hnext (lt_of_lt_of_le hlt hle)
  | record index =>
    rcases hdone : s.captures[index]? with _ | done
    · simp only [writesOf, hdone] at hentry
      exact absurd hentry List.not_mem_nil
    by_cases henq : done.enqueued = true
    · simp only [writesOf, hdone, if_pos henq] at hentry
      obtain ⟨next, hnext, hle⟩ := Capture.le_lands hentry
      have hstore : (s.record index).store entry.slot = some next := by
        rw [store_record hdone henq, hnext]
        rfl
      have hcaptures : (s.record index).captures = s.captures.eraseIdx index := by
        simp only [Replica.record, hdone, if_pos henq]
      have hdevice : (s.record index).deviceId = s.deviceId := by
        simp only [Replica.record, hdone, if_pos henq]
      have hmem : c ∈ (s.record index).captures := by
        rw [hcaptures]
        exact hc
      refine not_forward_of_behind hmem hfield ?_ hstore (lt_of_lt_of_le hlt hle)
      rw [Replica.step, hdevice]
      exact hr
    · simp only [writesOf, hdone, if_neg henq] at hentry
      exact absurd hentry List.not_mem_nil
  | reserve staged => exact absurd hentry List.not_mem_nil
  | enqueue index => exact absurd hentry List.not_mem_nil
  | receive operations => exact absurd hentry List.not_mem_nil
  | stop => exact absurd hentry List.not_mem_nil

/-! ### Runs -/

/-- **Provenance never goes backwards in an undisturbed run**: if no step writes, into a slot
other than `liveness`, a key above the one that a capture under way will put there, then no
step lowers the key of such a slot. After the first step that does, the completion of the
capture lowers it. -/
theorem forward_of_undisturbed (deviceId : Uuid) (events : List ReplicaEvent)
    (h : Runs.Meets step Undisturbed (start deviceId) events) :
    Runs.Meets step Forward (start deviceId) events ∧
      ∀ event, ¬(run (start deviceId) events).Undisturbed event →
        ∃ index, ¬Runs.Meets step Forward (start deviceId)
          (events ++ [event, .enqueue index, .record index]) := by
  refine ⟨h.imp_of_invariant (fun _ _ => Ahead.step) (fun _ _ hahead _ => hahead.forward)
    (ahead_start deviceId), fun event hbad => ?_⟩
  obtain ⟨index, hindex⟩ := not_forward_after_disturbance hbad
  refine ⟨index, fun hmeets => hindex ?_⟩
  exact (Runs.meets_append.mp hmeets).2.2

theorem update_ne_bulkImport : OperationType.update ≠ .bulkImport := by decide

/-- A rename captured on the device. -/
def localRename : StagedOp × Sealed :=
  (⟨⟨.bookmark, 7, .update, none, update_ne_bulkImport⟩, [(.title, some (.string "mine"))]⟩,
    ⟨21, Server.smallPayload⟩)

/-- A rename by another device. -/
def remoteRename : RemoteItem :=
  (⟨31, 2, 9, .bookmark, 7, .update⟩, .object [("title", .string "theirs")])

/-- The rename of the other device is recorded during the capture, but was received before
it, so that the capture has reserved a key above it. -/
theorem forward_of_remoteFirst : Runs.Meets step Forward (start 1)
    [.receive [remoteRename], .reserve [localRename], .enqueue 0, .resolve [0], .record 0] :=
  (forward_of_undisturbed 1 _ (by decide +kernel)).1

/-- The rename of the other device is recorded between the reservation and the put. -/
theorem not_forward : ¬∀ (deviceId : Uuid) (events : List ReplicaEvent),
    Runs.Meets step Forward (start deviceId) events := by
  intro h
  have hrun := h 1
    [.reserve [localRename], .enqueue 0, .receive [remoteRename], .resolve [0], .record 0]
  obtain ⟨-, -, -, -, hlast, -⟩ := hrun
  obtain ⟨next, hnext, hle⟩ := hlast (7, .title) (by decide) _ rfl
  rw [← Option.some.inj hnext] at hle
  exact absurd hle (by decide +kernel)

end Replica

end Client

end HelixSync
