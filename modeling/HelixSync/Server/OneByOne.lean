import HelixSync.Lib.ClampedCounter
import HelixSync.Server.LiveCount

/-!
# One operation at a time

What an upload writes, seen as a function of the operations it has accepted, table by table. For
the log, the ledger, the keys of the tombstones and the hour buckets that function is one that
splits along the batch, so writing the operations one by one
(`HelixSync.WrittenAlone`) gives the same. It is not for the tombstones that are active, where a
batch puts its restores last, nor for the counts, which every write clamps at zero.
-/

namespace HelixSync

/-! ### A write, table by table -/

section Write

variable {now : DateTime} {device : AuthenticatedDevice} {accepted : List OperationIn}
  {lastSeq : ℤ} {db db' : Db}

theorem numbered_append (start : ℕ) (as bs : List OperationIn) :
    numbered start (as ++ bs) = numbered start as ++ numbered (start + as.length) bs := by
  induction as generalizing start with
  | nil => rfl
  | cons a as ih =>
    rw [List.cons_append, numbered, ih, numbered, List.cons_append, List.length_cons,
      Nat.add_assoc, Nat.add_comm 1]

theorem batchRows_append (start : ℕ) (as bs : List OperationIn) :
    batchRows now device start (as ++ bs) =
      batchRows now device start as ++ batchRows now device (start + as.length) bs := by
  rw [batchRows, numbered_append, List.map_append]
  rfl

theorem map_payloadBytes_batchRows {start : ℕ} :
    (batchRows now device start accepted).map OperationRow.payloadBytes =
      accepted.map fun op => op.payload.text.length := by
  conv_rhs => rw [← map_snd_numbered start accepted, List.map_map]
  rw [batchRows, List.map_map]
  rfl

theorem rows_writeBatch (h : writeBatch now device accepted lastSeq db = some db') :
    db'.syncOperations.rows = db.syncOperations.rows ++
      batchRows now device (db.currentCursor device.userId + 1) accepted := by
  obtain ⟨table, htable, rfl⟩ := (writeBatch_eq_some_iff.mp h).2
  exact htable

theorem userSettings_writeBatch (h : writeBatch now device accepted lastSeq db = some db') :
    db'.userSettings = db.userSettings := by
  obtain ⟨table, -, rfl⟩ := (writeBatch_eq_some_iff.mp h).2
  rfl

/-- An operation that leaves a ledger row, by itself. -/
def OperationIn.leavesRow (op : OperationIn) : Bool :=
  op.isOrigination && (decide (op.objectType ≠ .historyVisit) || op.isBulkHistoryImport)

/-- **The ledger after a write.** -/
theorem mem_ledger_writeBatch (h : writeBatch now device accepted lastSeq db = some db')
    {userId : Uuid} {key : ObjectKey} : (userId, key) ∈ db'.syncObjects ↔
      (userId, key) ∈ db.syncObjects ∨ userId = device.userId ∧
        ∃ op ∈ accepted, op.leavesRow = true ∧ op.objectKey = key := by
  obtain ⟨table, -, rfl⟩ := (writeBatch_eq_some_iff.mp h).2
  have hmap := map_snd_numbered (db.currentCursor device.userId + 1) accepted
  have hmem : ∀ e ∈ numbered (db.currentCursor device.userId + 1) accepted, e.2 ∈ accepted :=
    fun e he => hmap ▸ List.mem_map_of_mem he
  simp only [Finset.mem_union, Finset.mem_image, Prod.mk.injEq]
  refine or_congr Iff.rfl ⟨?_, ?_⟩
  · rintro ⟨k, hk, rfl, rfl⟩
    obtain ⟨e, he, hkey, ho, hkind⟩ := mem_ledgerKeys.mp hk
    refine ⟨rfl, ?_⟩
    rcases hkind with htype | ⟨e', he', hb, hkey'⟩
    · have htype' : e.2.objectType ≠ .historyVisit := fun ht => htype (hkey ▸ ht)
      exact ⟨e.2, hmem e he, by simp [OperationIn.leavesRow, ho, htype'], hkey⟩
    · exact ⟨e'.2, hmem e' he', by simp [OperationIn.leavesRow, isOrigination_of_isBulk hb, hb],
        hkey'⟩
  · rintro ⟨rfl, op, hop, hrow, rfl⟩
    rw [← hmap] at hop
    obtain ⟨e, he, rfl⟩ := List.mem_map.mp hop
    simp only [OperationIn.leavesRow, Bool.and_eq_true, Bool.or_eq_true, decide_eq_true_eq] at hrow
    exact ⟨_, mem_ledgerKeys.mpr ⟨e, he, rfl, hrow.1, hrow.2.imp id fun hb => ⟨e, he, hb, rfl⟩⟩,
      rfl, rfl⟩

/-- The key of the tombstone row of an object, active or not. -/
def Db.tombstoneKey (db : Db) (userId : Uuid) (key : ObjectKey) : Option OrderingKey :=
  (db.tombstones userId key).map TombstoneRow.orderingKey

/-- **The keys of the tombstones after a write**: those of the last terminal operations. -/
theorem tombstoneKey_writeBatch (h : writeBatch now device accepted lastSeq db = some db')
    (key : ObjectKey) : db'.tombstoneKey device.userId key =
      ((lastTerminal? accepted key).map fun op => op.keyOf device.deviceId).or
        (db.tombstoneKey device.userId key) := by
  obtain ⟨table, -, rfl⟩ := (writeBatch_eq_some_iff.mp h).2
  have hget := @get_tombstones_writesOf accepted db device.userId key
  have hoff : ∀ row? : Option TombstoneRow, (row?.map fun row =>
      { row with active := false }).map TombstoneRow.orderingKey =
        row?.map TombstoneRow.orderingKey := by
    rintro (_ | row) <;> rfl
  rw [Db.tombstoneKey]
  dsimp only
  rw [Function.update_self, BatchWrites.writeTombstone]
  rcases hw : (db.writesOf device.userId accepted).tombstones.get key with _ | v
  · rw [hw] at hget
    have hnone : lastTerminal? accepted key = none := by simpa using hget.symm
    rw [hnone]
    dsimp only
    split
    · exact hoff _
    · rfl
  · rw [hw] at hget
    obtain ⟨op, hop, heq⟩ := Option.map_eq_some_iff.mp hget.symm
    obtain ⟨hl, hid⟩ := Prod.mk.inj heq
    rw [hop]
    dsimp only
    split <;> simp [TombstoneRow.orderingKey, OperationIn.keyOf, hl, hid]

theorem tombstones_writeBatch_of_ne (h : writeBatch now device accepted lastSeq db = some db')
    {userId : Uuid} (hu : userId ≠ device.userId) :
    db'.tombstones userId = db.tombstones userId ∧ db'.syncStats userId = db.syncStats userId ∧
      db'.historyVisitHours userId = db.historyVisitHours userId := by
  obtain ⟨table, -, rfl⟩ := (writeBatch_eq_some_iff.mp h).2
  exact ⟨Function.update_of_ne hu _ _, Function.update_of_ne hu _ _, Function.update_of_ne hu _ _⟩

/-- The counters after a write. -/
theorem syncStats_writeBatch (h : writeBatch now device accepted lastSeq db = some db') :
    db'.syncStats device.userId =
      addStats ((db.writesOf device.userId accepted).liveDelta db device.userId bookmarkTypes)
        ((db.writesOf device.userId accepted).liveDelta db device.userId tabTypes)
        (accepted.map fun op => op.payload.text.length).sum (db.syncStats device.userId) := by
  have hbytes := @map_payloadBytes_batchRows now device accepted (db.currentCursor device.userId + 1)
  obtain ⟨table, -, rfl⟩ := (writeBatch_eq_some_iff.mp h).2
  dsimp only
  rw [Function.update_self, hbytes]

theorem storageBytes_addStats (b t : ℤ) (bytes : ℕ) (old : Option StatsRow) :
    ((addStats b t bytes old).map StatsRow.storageBytes).getD 0 =
      (old.map StatsRow.storageBytes).getD 0 + bytes := by
  unfold addStats
  split
  · rcases old with _ | row <;> simp
  · rename_i hzero
    push Not at hzero
    simp [hzero.2.2]

theorem isSome_addStats (b t : ℤ) {bytes : ℕ} (h : bytes ≠ 0) (old : Option StatsRow) :
    (addStats b t bytes old).isSome = true := by
  unfold addStats
  rw [if_pos (Or.inr (Or.inr h))]
  rcases old with _ | row <;> rfl

/-- No payload is empty. -/
theorem sum_payload_ne_zero (h : accepted ≠ []) :
    (accepted.map fun op => op.payload.text.length).sum ≠ 0 := by
  obtain ⟨op, hop⟩ := List.exists_mem_of_ne_nil _ h
  have hpos := List.length_pos_of_ne_nil op.payload.text_ne_nil
  have hle := List.single_le_sum (fun _ _ => Nat.zero_le _) _ (List.mem_map_of_mem (f := fun op :
    OperationIn => op.payload.text.length) hop)
  omega

/-- One more visit count for an hour. -/
def bumpHour (hour : DateTime) (visits : Option ℤ) (entry : DateTime × ℤ) : Option ℤ :=
  if entry.1 = hour then some (visits.getD 0 + entry.2) else visits

theorem addVisits_foldl_addHour (hour : DateTime) (old : Option ℤ) (entries : List (DateTime × ℤ)) :
    ∀ buckets : DateTime → Option ℤ, addVisits (entries.foldl addHour buckets hour) old =
      entries.foldl (bumpHour hour) (addVisits (buckets hour) old) := by
  induction entries with
  | nil => exact fun _ => rfl
  | cons entry entries ih =>
    intro buckets
    rw [List.foldl_cons, ih, List.foldl_cons]
    congr 1
    rw [addHour, bumpHour]
    by_cases hentry : entry.1 = hour
    · subst hentry
      rw [Function.update_self, if_pos rfl]
      rcases buckets entry.1 with _ | visits
      · simp [addVisits]
      · simp [addVisits, add_assoc]
    · rw [Function.update_of_ne (Ne.symm hentry), if_neg hentry]

theorem hourBuckets_batchWrites (entries : List (ℕ × OperationIn)) :
    (batchWrites entries).hourBuckets =
      ((entries.map Prod.snd).flatMap OperationIn.hourEntries).foldl addHour fun _ => none := by
  induction entries using List.reverseRecOn with
  | nil => rfl
  | append_singleton entries e ih =>
    rw [batchWrites_append_singleton, BatchWrites.collect]
    dsimp only
    rw [ih, List.map_append, List.flatMap_append, List.foldl_append]
    simp

/-- **The hour buckets after a write.** -/
theorem hours_writeBatch (h : writeBatch now device accepted lastSeq db = some db')
    (hour : DateTime) : db'.historyVisitHours device.userId hour =
      (accepted.flatMap OperationIn.hourEntries).foldl (bumpHour hour)
        (db.historyVisitHours device.userId hour) := by
  obtain ⟨table, -, rfl⟩ := (writeBatch_eq_some_iff.mp h).2
  dsimp only
  rw [Function.update_self, Db.writesOf, hourBuckets_batchWrites, map_snd_numbered,
    addVisits_foldl_addHour]
  rfl

end Write

/-! ### Writes of one operation each -/

/-- The database after some operations have been written, each by a batch of its own. Those that
introduce no object are about objects the account has. -/
inductive WrittenAlone (now : DateTime) (device : AuthenticatedDevice) (db : Db) :
    List OperationIn → Db → Prop
  | none : WrittenAlone now device db [] db
  | append {accepted : List OperationIn} {s s' : Db} {op : OperationIn} :
      WrittenAlone now device db accepted s →
        (op.isOrigination = false → (device.userId, op.objectKey) ∈ s.syncObjects) →
          writeBatch now device [op] op.deviceSequence s = some s' →
            WrittenAlone now device db (accepted ++ [op]) s'

/-- Whether an object has an active tombstone after some operations, one after the other. -/
def tombstonedAfter (key : ObjectKey) (accepted : List OperationIn) (old : Bool) : Bool :=
  accepted.foldl (fun tombstoned op =>
    if op.objectKey ≠ key then tombstoned
    else if op.isTerminal then true
    else if op.isRestore then false
    else tombstoned) old

/-- The objects of some types that are live after some operations. -/
def Db.liveAfter (db : Db) (userId : Uuid) (types : List ObjectType) (accepted : List OperationIn) :
    Finset ObjectKey :=
  (db.ledgerOf userId types ∪ (((accepted.filter OperationIn.isOrigination).map
    OperationIn.objectKey).toFinset.filter fun key => key.1 ∈ types)).filter fun key =>
      tombstonedAfter key accepted (db.tombstoned userId key) = false

theorem tombstonedAfter_append (key : ObjectKey) (as bs : List OperationIn) (old : Bool) :
    tombstonedAfter key (as ++ bs) old = tombstonedAfter key bs (tombstonedAfter key as old) :=
  List.foldl_append

theorem tombstoned_writeBatch_singleton {now : DateTime} {device : AuthenticatedDevice}
    {op : OperationIn} {lastSeq : ℤ} {s s' : Db}
    (h : writeBatch now device [op] lastSeq s = some s') (key : ObjectKey) :
    s'.tombstoned device.userId key = tombstonedAfter key [op] (s.tombstoned device.userId key) := by
  have hone : op.objectKey ≠ key →
      activeAfter device.deviceId ([] ++ [op]) key (loadActiveTombstones s device.userId key) =
        activeAfter device.deviceId [] key (loadActiveTombstones s device.userId key) :=
    fun hne => activeAfter_append_of_ne hne
  rw [tombstoned_eq, tombstoned_eq, loadActiveTombstones_writeBatch h, if_pos rfl,
    tombstonedAfter, List.foldl_cons, List.foldl_nil]
  by_cases hkey : op.objectKey = key
  · subst hkey
    rw [if_neg (not_not.mpr rfl), ← List.nil_append [op]]
    by_cases ht : op.isTerminal = true
    · rw [activeAfter_append_of_isTerminal ht, if_pos ht]
      rfl
    · by_cases hr : op.isRestore = true
      · rw [activeAfter_append_of_isRestore hr, if_neg ht, if_pos hr]
        rfl
      · rw [activeAfter_append_of_neither (by simpa using ht) (by simpa using hr), if_neg ht, if_neg hr]
        rfl
  · rw [if_pos hkey, ← List.nil_append [op], hone hkey]
    rfl

namespace WrittenAlone

variable {now : DateTime} {device : AuthenticatedDevice} {db s : Db} {accepted : List OperationIn}

theorem eq_of_eq_nil (h : WrittenAlone now device db accepted s) (hnil : accepted = []) : s = db := by
  cases h with
  | none => rfl
  | append _ _ _ => exact absurd hnil (by simp)

theorem currentCursor (h : WrittenAlone now device db accepted s) :
    s.currentCursor device.userId = db.currentCursor device.userId + accepted.length := by
  induction h with
  | none => rfl
  | append _ _ hwrite ih =>
    rw [currentCursor_writeBatch hwrite, if_pos rfl, ih, List.length_append, Nat.add_assoc]

theorem rows (h : WrittenAlone now device db accepted s) : s.syncOperations.rows =
    db.syncOperations.rows ++ batchRows now device (db.currentCursor device.userId + 1) accepted := by
  induction h with
  | none => exact (List.append_nil _).symm
  | append hbefore _ hwrite ih =>
    rw [rows_writeBatch hwrite, ih, hbefore.currentCursor, batchRows_append, List.append_assoc]
    congr 3
    omega

theorem userSettings (h : WrittenAlone now device db accepted s) :
    s.userSettings = db.userSettings := by
  induction h with
  | none => rfl
  | append _ _ hwrite ih => rw [userSettings_writeBatch hwrite, ih]

theorem mem_ledger (h : WrittenAlone now device db accepted s) {userId : Uuid} {key : ObjectKey} :
    (userId, key) ∈ s.syncObjects ↔ (userId, key) ∈ db.syncObjects ∨ userId = device.userId ∧
      ∃ op ∈ accepted, op.leavesRow = true ∧ op.objectKey = key := by
  induction h with
  | none => simp
  | append _ _ hwrite ih =>
    rw [mem_ledger_writeBatch hwrite, ih, or_assoc, ← and_or_left]
    simp [or_and_right, exists_or]

theorem tombstoneKey (h : WrittenAlone now device db accepted s) (key : ObjectKey) :
    s.tombstoneKey device.userId key =
      ((lastTerminal? accepted key).map fun op => op.keyOf device.deviceId).or
        (db.tombstoneKey device.userId key) := by
  induction h with
  | none => rfl
  | @append accepted s s' op _ _ hwrite ih =>
    rw [tombstoneKey_writeBatch hwrite, ih]
    by_cases hop : (op.isTerminal && op.objectKey == key) = true
    · simp [lastTerminal?, List.filter_append, hop]
    · rw [Bool.not_eq_true] at hop
      simp [lastTerminal?, List.filter_append, hop]

theorem tombstoned (h : WrittenAlone now device db accepted s) (key : ObjectKey) :
    s.tombstoned device.userId key =
      tombstonedAfter key accepted (db.tombstoned device.userId key) := by
  induction h with
  | none => rfl
  | append _ _ hwrite ih =>
    rw [tombstoned_writeBatch_singleton hwrite, ih, ← tombstonedAfter_append]

theorem hours (h : WrittenAlone now device db accepted s) (hour : DateTime) :
    s.historyVisitHours device.userId hour =
      (accepted.flatMap OperationIn.hourEntries).foldl (bumpHour hour)
        (db.historyVisitHours device.userId hour) := by
  induction h with
  | none => rfl
  | append _ _ hwrite ih =>
    rw [hours_writeBatch hwrite, ih, ← List.foldl_append, ← List.flatMap_append]

theorem others (h : WrittenAlone now device db accepted s) {userId : Uuid}
    (hu : userId ≠ device.userId) : s.tombstones userId = db.tombstones userId ∧
      s.syncStats userId = db.syncStats userId ∧
      s.historyVisitHours userId = db.historyVisitHours userId := by
  induction h with
  | none => exact ⟨rfl, rfl, rfl⟩
  | append _ _ hwrite ih =>
    obtain ⟨h₁, h₂, h₃⟩ := tombstones_writeBatch_of_ne hwrite hu
    exact ⟨h₁.trans ih.1, h₂.trans ih.2.1, h₃.trans ih.2.2⟩

/-- **The live objects** are those of the pure count. -/
theorem liveKeys (h : WrittenAlone now device db accepted s) {types : List ObjectType}
    (htypes : .historyVisit ∉ types) :
    s.liveKeys device.userId types = db.liveAfter device.userId types accepted := by
  ext key
  rw [mem_liveKeys, h.mem_ledger, h.tombstoned, Db.liveAfter]
  simp only [Finset.mem_filter, Finset.mem_union, mem_ledgerOf, List.mem_toFinset, List.mem_map,
    List.mem_filter]
  constructor
  · rintro ⟨hledger, htype, hlive⟩
    refine ⟨hledger.imp (fun hold => ⟨hold, htype⟩) ?_, hlive⟩
    rintro ⟨-, op, hop, hrow, hkey⟩
    rw [OperationIn.leavesRow, Bool.and_eq_true] at hrow
    exact ⟨⟨op, ⟨hop, hrow.1⟩, hkey⟩, htype⟩
  · rintro ⟨⟨hold, htype⟩ | ⟨⟨op, ⟨hop, ho⟩, rfl⟩, htype⟩, hlive⟩
    · exact ⟨Or.inl hold, htype, hlive⟩
    · have hne : op.objectType ≠ .historyVisit := fun ht => htypes (ht ▸ htype)
      exact ⟨Or.inr ⟨trivial, op, hop, by simp [OperationIn.leavesRow, ho, hne], rfl⟩, htype, hlive⟩

/-- Tombstones stay with objects of the ledger. -/
theorem known (h : WrittenAlone now device db accepted s)
    (hknown : ∀ key, db.tombstoned device.userId key = true → (device.userId, key) ∈ db.syncObjects) :
    ∀ key, s.tombstoned device.userId key = true → (device.userId, key) ∈ s.syncObjects := by
  induction h with
  | none => exact hknown
  | @append accepted s s' op _ hop hwrite ih =>
    intro key hkey
    rw [mem_ledger_writeBatch hwrite]
    rw [tombstoned_writeBatch_singleton hwrite] at hkey
    by_cases heq : op.objectKey = key
    · by_cases ho : op.isOrigination = true
      · by_cases hold : s.tombstoned device.userId key = true
        · exact Or.inl (ih key hold)
        · exfalso
          rw [Bool.not_eq_true] at hold
          have ht : op.isTerminal = false := Bool.eq_false_iff.mpr fun ht =>
            Bool.false_ne_true ((not_isOrigination_of_isTerminal ht).symm.trans ho)
          have hr : op.isRestore = false := Bool.eq_false_iff.mpr fun hr =>
            Bool.false_ne_true ((not_isOrigination_of_isRestore hr).symm.trans ho)
          simp [tombstonedAfter, heq, ht, hr, hold] at hkey
      · rw [Bool.not_eq_true] at ho
        exact Or.inl (heq ▸ hop ho)
    · simp only [tombstonedAfter, List.foldl_cons, List.foldl_nil, if_pos heq] at hkey
      exact Or.inl (ih key hkey)

/-- The number of live objects, as operations are written one by one. -/
def levels (db : Db) (userId : Uuid) (types : List ObjectType) (accepted : List OperationIn) :
    List ℤ :=
  accepted.inits.map fun before => ((db.liveAfter userId types before).card : ℤ)

theorem lastLevel_levels (level : ℤ) (userId : Uuid) (types : List ObjectType)
    (accepted : List OperationIn) :
    ClampedCounter.lastLevel level (levels db userId types accepted) =
      ((db.liveAfter userId types accepted).card : ℤ) := by
  rw [levels, ClampedCounter.lastLevel, List.getLast?_map]
  induction accepted using List.reverseRecOn with
  | nil => rfl
  | append_singleton accepted op _ => simp [List.inits_append]

theorem levels_append (userId : Uuid) (types : List ObjectType) (accepted : List OperationIn)
    (op : OperationIn) : levels db userId types (accepted ++ [op]) =
      levels db userId types accepted ++
        [((db.liveAfter userId types (accepted ++ [op])).card : ℤ)] := by
  simp [levels, List.inits_append]

/-- The object of an operation that introduces none is in the ledger. -/
theorem mem_ledger_of_not_isOrigination (h : WrittenAlone now device db accepted s) :
    ∀ op ∈ accepted, op.isOrigination = false → (device.userId, op.objectKey) ∈ s.syncObjects := by
  induction h with
  | none => exact fun _ h => absurd h List.not_mem_nil
  | @append accepted s s' o _ ho hwrite ih =>
    intro op hop hnot
    rw [mem_ledger_writeBatch hwrite]
    rcases List.mem_append.mp hop with hop | hop
    · exact Or.inl (ih op hop hnot)
    · obtain rfl := List.mem_singleton.mp hop
      exact Or.inl (ho hnot)

theorem not_isOrigination_of_touches {op : OperationIn}
    (h : op.isTerminal = true ∨ op.isRestore = true) : op.isOrigination = false :=
  h.elim not_isOrigination_of_isTerminal not_isOrigination_of_isRestore

/-- **A count** that every write changes by the change of the live objects follows them. -/
theorem count_eq_follow (h : WrittenAlone now device db accepted s) {types : List ObjectType}
    (htypes : .historyVisit ∉ types)
    (hknown : ∀ key, db.tombstoned device.userId key = true →
      (device.userId, key) ∈ db.syncObjects) {count : Db → ℕ}
    (hcount : ∀ (t t' : Db) (op : OperationIn),
      writeBatch now device [op] op.deviceSequence t = some t' →
        count t' = (count t + (t.writesOf device.userId [op]).liveDelta t device.userId types).toNat) :
    count s = ClampedCounter.follow (count db) (db.liveKeys device.userId types).card
      (levels db device.userId types accepted) := by
  induction h with
  | none =>
    have hnil := (WrittenAlone.none : WrittenAlone now device db [] db).liveKeys htypes
    simp [levels, ClampedCounter.follow, ← hnil]
  | @append accepted s s' op hbefore hop hwrite ih =>
    have hall := WrittenAlone.append hbefore hop hwrite
    have hdelta : ((s'.liveKeys device.userId types).card : ℤ) = _ :=
      card_liveKeys_writeBatch hwrite (hbefore.known hknown) fun o ho htouches =>
        hall.mem_ledger_of_not_isOrigination o (List.mem_append_right _ ho)
          (not_isOrigination_of_touches htouches)
    rw [levels_append, ClampedCounter.follow_append, ← ih, hcount _ _ _ hwrite, lastLevel_levels,
      ← hall.liveKeys htypes, ← hbefore.liveKeys htypes, hdelta]
    congr 1
    ring

/-- The bytes charged to the account. -/
theorem storageBytes (h : WrittenAlone now device db accepted s) :
    s.storageBytes device.userId = db.storageBytes device.userId +
      (accepted.map fun op => op.payload.text.length).sum := by
  induction h with
  | none => rfl
  | append _ _ hwrite ih =>
    rw [Db.storageBytes, syncStats_writeBatch hwrite, storageBytes_addStats, ← Db.storageBytes, ih]
    simp [Nat.add_assoc]

/-- An account that something was written for has a row of counts. -/
theorem isSome_syncStats (h : WrittenAlone now device db accepted s) (hne : accepted ≠ []) :
    (s.syncStats device.userId).isSome = true := by
  cases h with
  | none => exact absurd rfl hne
  | @append accepted s s' op _ _ hwrite =>
    rw [syncStats_writeBatch hwrite]
    exact isSome_addStats _ _ (sum_payload_ne_zero (by simp)) _

end WrittenAlone

end HelixSync
