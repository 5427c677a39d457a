import Mathlib.Algebra.BigOperators.Group.Finset.Piecewise
import Mathlib.Algebra.BigOperators.Ring.Finset
import Mathlib.Tactic.Ring
import HelixSync.Server.Tombstones
import HelixSync.Server.Compaction
import HelixSync.Server.Steps

/-!
# The live counts

`sync_stats` counts the live bookmarks and tabs of an account. An upload adds to it: the
objects it introduces, less the tombstones that become active, plus those that are
cleared. Compaction recounts it from the objects. The two agree on what the ledger and
the tombstones say: after uploads alone the counts are the numbers of objects in the
ledger without an active tombstone (`HelixSync.Tracked`).

The recount asks something else of an object with an active tombstone: it is live if its
newest operation has a higher key than the tombstone. So the two differ as soon as a
delete that is not the newest operation of its object is accepted
(`HelixSync.Server.not_countsAgree`). They agree as long as every accepted delete has
the highest key of its object, every restore of a deleted object too, and nothing else
on a deleted object has a key above the delete (`HelixSync.Server.countsAgree_of_inKeyOrder`).
-/

namespace HelixSync

/-! ### Counting over the ledger -/

/-- The objects of some types a user's ledger has. -/
def Db.ledgerOf (db : Db) (userId : Uuid) (types : List ObjectType) : Finset ObjectKey :=
  ((db.syncObjects.filter fun e => e.1 = userId).image Prod.snd).filter fun key => key.1 ∈ types

/-- Those without an active tombstone. -/
def Db.liveKeys (db : Db) (userId : Uuid) (types : List ObjectType) : Finset ObjectKey :=
  (db.ledgerOf userId types).filter fun key => db.tombstoned userId key = false

/-- One for a live object. -/
def liveness (tombstoned : Bool) : ℤ := if tombstoned then 0 else 1

theorem transition_eq (was now : Bool) : transition was now = liveness now - liveness was := by
  cases was <;> cases now <;> rfl

theorem mem_ledgerOf {db : Db} {userId : Uuid} {types : List ObjectType} {key : ObjectKey} :
    key ∈ db.ledgerOf userId types ↔ (userId, key) ∈ db.syncObjects ∧ key.1 ∈ types := by
  simp only [Db.ledgerOf, Finset.mem_filter, Finset.mem_image]
  refine and_congr_left fun _ => ?_
  constructor
  · rintro ⟨e, ⟨he, rfl⟩, rfl⟩
    exact he
  · intro h
    exact ⟨(userId, key), ⟨h, rfl⟩, rfl⟩

theorem mem_liveKeys {db : Db} {userId : Uuid} {types : List ObjectType} {key : ObjectKey} :
    key ∈ db.liveKeys userId types ↔
      (userId, key) ∈ db.syncObjects ∧ key.1 ∈ types ∧ db.tombstoned userId key = false := by
  rw [Db.liveKeys, Finset.mem_filter, mem_ledgerOf, and_assoc]

theorem card_liveKeys (db : Db) (userId : Uuid) (types : List ObjectType) :
    ((db.liveKeys userId types).card : ℤ) =
      ∑ key ∈ db.ledgerOf userId types, liveness (db.tombstoned userId key) := by
  rw [Db.liveKeys, Finset.card_filter, Nat.cast_sum]
  refine Finset.sum_congr rfl fun key _ => ?_
  cases db.tombstoned userId key <;> rfl

section Write

variable {now : DateTime} {device : AuthenticatedDevice} {accepted : List OperationIn}
  {lastSeq : ℤ} {db db' : Db} {types : List ObjectType}

theorem mem_keys_tombstones_writesOf {userId : Uuid} {key : ObjectKey} :
    key ∈ (db.writesOf userId accepted).tombstones.keys ↔ lastTerminal? accepted key ≠ none := by
  have hget := @get_tombstones_writesOf accepted db userId key
  rw [FinMap.mem_keys, Option.isSome_iff_ne_none]
  refine not_congr ⟨fun h => ?_, fun h => ?_⟩
  · rw [h] at hget
    simpa using hget.symm
  · rw [h] at hget
    simpa using hget

theorem mem_touchedKeys_writesOf {userId : Uuid} {key : ObjectKey} :
    key ∈ (db.writesOf userId accepted).touchedKeys ↔
      ∃ op ∈ accepted, (op.isTerminal = true ∨ op.isRestore = true) ∧ op.objectKey = key := by
  rw [BatchWrites.touchedKeys, Finset.mem_union, mem_keys_tombstones_writesOf,
    mem_restores_writesOf, restoredIn_iff, Ne, lastTerminal?_eq_none_iff]
  push Not
  constructor
  · rintro (⟨op, hop, ht, hkey⟩ | ⟨op, hop, hr, hkey⟩)
    · exact ⟨op, hop, Or.inl ht, hkey⟩
    · exact ⟨op, hop, Or.inr hr, hkey⟩
  · rintro ⟨op, hop, ht | hr, hkey⟩
    · exact Or.inl ⟨op, hop, ht, hkey⟩
    · exact Or.inr ⟨op, hop, hr, hkey⟩

/-- Whether an object has an active tombstone after a batch. -/
theorem tombstoned_writeBatch (h : writeBatch now device accepted lastSeq db = some db')
    (key : ObjectKey) :
    db'.tombstoned device.userId key =
      if key ∈ (db.writesOf device.userId accepted).touchedKeys then
        (db.writesOf device.userId accepted).nowActive key
      else db.tombstoned device.userId key := by
  have hrestores := @mem_restores_writesOf accepted db device.userId key
  have htombs := @mem_keys_tombstones_writesOf accepted db device.userId key
  rw [tombstoned_eq, loadActiveTombstones_writeBatch h, if_pos rfl, activeAfter,
    BatchWrites.nowActive, BatchWrites.touchedKeys, tombstoned_eq]
  by_cases hr : restoredIn accepted key = true
  · simp [hr, hrestores.mpr hr]
  · have hnot : key ∉ (db.writesOf device.userId accepted).restores := fun hmem =>
      hr (hrestores.mp hmem)
    rcases hlast : lastTerminal? accepted key with _ | op
    · have hkeys : key ∉ (db.writesOf device.userId accepted).tombstones.keys := fun hmem =>
        htombs.mp hmem hlast
      simp [hr, hnot, hkeys]
    · have hkeys : key ∈ (db.writesOf device.userId accepted).tombstones.keys :=
        htombs.mpr (by simp [hlast])
      simp [hr, hnot, hkeys]

theorem mem_syncObjects_writeBatch (h : writeBatch now device accepted lastSeq db = some db')
    {userId : Uuid} {key : ObjectKey} (hkey : key.1 ≠ .historyVisit) :
    (userId, key) ∈ db'.syncObjects ↔ (userId, key) ∈ db.syncObjects ∨
      userId = device.userId ∧ ∃ op ∈ accepted, op.isOrigination = true ∧ op.objectKey = key := by
  obtain ⟨table, -, rfl⟩ := (writeBatch_eq_some_iff.mp h).2
  have hmap := map_snd_numbered (db.currentCursor device.userId + 1) accepted
  simp only [Finset.mem_union, Finset.mem_image, Prod.mk.injEq]
  refine or_congr Iff.rfl ⟨?_, ?_⟩
  · rintro ⟨k, hk, rfl, rfl⟩
    obtain ⟨e, he, hkey', ho, -⟩ := mem_ledgerKeys.mp hk
    exact ⟨rfl, e.2, hmap ▸ List.mem_map_of_mem he, ho, hkey'⟩
  · rintro ⟨rfl, op, hop, ho, rfl⟩
    rw [← hmap] at hop
    obtain ⟨e, he, rfl⟩ := List.mem_map.mp hop
    exact ⟨_, mem_ledgerKeys.mpr ⟨e, he, rfl, ho, Or.inl hkey⟩, rfl, rfl⟩

/-- The ledger grows by the objects newly introduced. -/
theorem ledgerOf_writeBatch (h : writeBatch now device accepted lastSeq db = some db') :
    db'.ledgerOf device.userId types = db.ledgerOf device.userId types ∪
      ((db.writesOf device.userId accepted).newlyOriginated db device.userId).filter
        fun key => key.1 ∈ types := by
  obtain ⟨table, -, rfl⟩ := (writeBatch_eq_some_iff.mp h).2
  ext key
  simp only [Finset.mem_union, mem_ledgerOf, Finset.mem_filter, BatchWrites.newlyOriginated,
    Finset.mem_image, Prod.mk.injEq]
  constructor
  · rintro ⟨hold | ⟨k, hk, -, rfl⟩, htype⟩
    · exact Or.inl ⟨hold, htype⟩
    · by_cases hold : (device.userId, k) ∈ db.syncObjects
      · exact Or.inl ⟨hold, htype⟩
      · exact Or.inr ⟨⟨hk, hold⟩, htype⟩
  · rintro (⟨hold, htype⟩ | ⟨⟨hk, -⟩, htype⟩)
    · exact ⟨Or.inl hold, htype⟩
    · exact ⟨Or.inr ⟨key, hk, trivial, rfl⟩, htype⟩

/-- **The change of the count**: what a batch adds to a count is the change of the number
of live objects, if tombstones and deletes are about objects of the ledger only. -/
theorem card_liveKeys_writeBatch (h : writeBatch now device accepted lastSeq db = some db')
    (hold : ∀ key, db.tombstoned device.userId key = true → (device.userId, key) ∈ db.syncObjects)
    (htouched : ∀ op ∈ accepted, op.isTerminal = true ∨ op.isRestore = true →
      (device.userId, op.objectKey) ∈ db'.syncObjects) :
    ((db'.liveKeys device.userId types).card : ℤ) = (db.liveKeys device.userId types).card +
      (db.writesOf device.userId accepted).liveDelta db device.userId types := by
  set w := db.writesOf device.userId accepted with hw
  set new := (w.newlyOriginated db device.userId).filter fun key => key.1 ∈ types with hnew
  have hdisjoint : Disjoint (db.ledgerOf device.userId types) new := by
    rw [Finset.disjoint_left]
    intro key hkey hmem
    rw [hnew, BatchWrites.newlyOriginated, Finset.mem_filter, Finset.mem_filter] at hmem
    exact hmem.1.2 (mem_ledgerOf.mp hkey).1
  -- what is introduced had no tombstone
  have hfresh : ∑ key ∈ new, liveness (db.tombstoned device.userId key) = new.card := by
    rw [Finset.card_eq_sum_ones, Nat.cast_sum]
    refine Finset.sum_congr rfl fun key hkey => ?_
    rw [hnew, BatchWrites.newlyOriginated, Finset.mem_filter, Finset.mem_filter] at hkey
    have hnot : db.tombstoned device.userId key = false := by
      by_contra hcon
      exact hkey.1.2 (hold key (by simpa using hcon))
    rw [hnot]
    rfl
  have hsub : (w.touchedKeys.filter fun key => key.1 ∈ types) ⊆ db'.ledgerOf device.userId types := by
    intro key hkey
    obtain ⟨hmem, htype⟩ := Finset.mem_filter.mp hkey
    obtain ⟨op, hop, hkind, rfl⟩ := mem_touchedKeys_writesOf.mp hmem
    exact mem_ledgerOf.mpr ⟨htouched op hop hkind, htype⟩
  have htransition : ∑ key ∈ db'.ledgerOf device.userId types,
      transition (db.tombstoned device.userId key) (db'.tombstoned device.userId key) =
        w.transitionDelta db device.userId types := by
    rw [BatchWrites.transitionDelta, ← Finset.sum_subset hsub]
    · refine Finset.sum_congr rfl fun key hkey => ?_
      rw [tombstoned_writeBatch h, if_pos (Finset.mem_filter.mp hkey).1]
    · intro key hkey hnot
      have hkey' : key ∉ w.touchedKeys := fun hmem =>
        hnot (Finset.mem_filter.mpr ⟨hmem, (mem_ledgerOf.mp hkey).2⟩)
      rw [tombstoned_writeBatch h, if_neg hkey', transition_eq, sub_self]
  calc ((db'.liveKeys device.userId types).card : ℤ)
      = ∑ key ∈ db'.ledgerOf device.userId types, liveness (db'.tombstoned device.userId key) :=
        card_liveKeys _ _ _
    _ = ∑ key ∈ db'.ledgerOf device.userId types, (liveness (db.tombstoned device.userId key) +
          transition (db.tombstoned device.userId key) (db'.tombstoned device.userId key)) := by
        refine Finset.sum_congr rfl fun key _ => ?_
        rw [transition_eq]
        ring
    _ = ∑ key ∈ db'.ledgerOf device.userId types, liveness (db.tombstoned device.userId key) +
          w.transitionDelta db device.userId types := by
        rw [Finset.sum_add_distrib, htransition]
    _ = (db.liveKeys device.userId types).card + new.card +
          w.transitionDelta db device.userId types := by
        rw [ledgerOf_writeBatch h, Finset.sum_union hdisjoint, hfresh, card_liveKeys]
    _ = _ := by
        rw [BatchWrites.liveDelta, BatchWrites.newOriginationDelta]
        ring

/-- An accepted operation is about an object that the account has or the batch introduces. -/
theorem known_of_mem_accepts {cfg : Config} {d : DeviceRow} {ops : List OperationIn}
    {op : OperationIn} (h : op ∈ db.accepts cfg now device d ops) :
    op.isOrigination = true ∨ (device.userId, op.objectKey) ∈ db.syncObjects ∨
      ∃ c ∈ db.accepts cfg now device d ops, c.isOrigination = true ∧
        c.objectKey = op.objectKey := by
  obtain ⟨st', hadm, -, horig⟩ := originated_of_mem_accepts h
  rcases hadm.known with ho | howned | hin
  · exact Or.inl ho
  · exact Or.inr (Or.inl (mem_ownedObjects howned))
  · rcases horig _ hin with hin | ⟨c, hc, ho, hk, -⟩
    · exact absurd hin (Finset.notMem_empty _)
    · exact Or.inr (Or.inr ⟨c, hc, ho, hk⟩)

/-- Tombstones stay with objects of the ledger. -/
theorem tombstones_known_writeBatch (h : writeBatch now device accepted lastSeq db = some db')
    (hold : ∀ userId key, db.tombstoned userId key = true → (userId, key) ∈ db.syncObjects)
    (htouched : ∀ op ∈ accepted, op.isTerminal = true ∨ op.isRestore = true →
      (device.userId, op.objectKey) ∈ db'.syncObjects) (userId : Uuid) (key : ObjectKey)
    (htomb : db'.tombstoned userId key = true) : (userId, key) ∈ db'.syncObjects := by
  by_cases hu : userId = device.userId
  · subst hu
    rw [tombstoned_writeBatch h] at htomb
    split at htomb
    · rename_i hmemt
      obtain ⟨op, hop, hkind, rfl⟩ := mem_touchedKeys_writesOf.mp hmemt
      exact htouched op hop hkind
    · obtain ⟨table, -, rfl⟩ := (writeBatch_eq_some_iff.mp h).2
      exact Finset.mem_union_left _ (hold _ _ htomb)
  · rw [tombstoned_eq, loadActiveTombstones_writeBatch h, if_neg hu, ← tombstoned_eq] at htomb
    obtain ⟨table, -, rfl⟩ := (writeBatch_eq_some_iff.mp h).2
    exact Finset.mem_union_left _ (hold _ _ htomb)

end Write

/-! ### The counts after uploads -/

/-- `sync_stats.bookmark_count`. -/
def Db.bookmarkCount (db : Db) (userId : Uuid) : ℕ :=
  ((db.syncStats userId).map StatsRow.bookmarkCount).getD 0

/-- `sync_stats.tab_count`. -/
def Db.tabCount (db : Db) (userId : Uuid) : ℕ := ((db.syncStats userId).map StatsRow.tabCount).getD 0

theorem bookmarkCount_addStats (b t : ℤ) (bytes : ℕ) (old : Option StatsRow) :
    ((addStats b t bytes old).map StatsRow.bookmarkCount).getD 0 =
      (((old.map StatsRow.bookmarkCount).getD 0 : ℕ) + b).toNat := by
  unfold addStats
  split
  · rcases old with _ | row <;> simp
  · rename_i hzero
    push Not at hzero
    simp [hzero.1]

theorem tabCount_addStats (b t : ℤ) (bytes : ℕ) (old : Option StatsRow) :
    ((addStats b t bytes old).map StatsRow.tabCount).getD 0 =
      (((old.map StatsRow.tabCount).getD 0 : ℕ) + t).toNat := by
  unfold addStats
  split
  · rcases old with _ | row <;> simp
  · rename_i hzero
    push Not at hzero
    simp [hzero.2.1]

/-- What uploads alone keep: there is no snapshot, the ledger has the objects of the log,
tombstones are about objects of the ledger, and the counts are those of the ledger. -/
structure Tracked (db : Db) : Prop where
  noSnapshot : db.syncSnapshots = []
  cursors : ∀ row ∈ db.syncOperations.rows, 0 < row.serverCursor
  ledger : ∀ userId key, key.1 ≠ .historyVisit →
    ((userId, key) ∈ db.syncObjects ↔ ∃ row ∈ db.userRows userId, row.objectKey = key)
  tombstones : ∀ userId key, db.tombstoned userId key = true → (userId, key) ∈ db.syncObjects
  bookmarks : ∀ userId, db.bookmarkCount userId = (db.liveKeys userId bookmarkTypes).card
  tabs : ∀ userId, db.tabCount userId = (db.liveKeys userId tabTypes).card

namespace Tracked

theorem start (settings : Uuid → Option UserSettings) (now : DateTime) :
    Tracked (Server.start settings now).db where
  noSnapshot := rfl
  cursors := fun _ h => absurd h List.not_mem_nil
  ledger := by simp [Server.start, Db.empty, Db.userRows]
  tombstones := by simp [Server.start, Db.empty, Db.tombstoned]
  bookmarks := fun _ => rfl
  tabs := fun _ => rfl

/-- It is about the synchronized data only. -/
theorem of_sameData {db db' : Db} (h : Tracked db) (hsame : Server.SameData db db') :
    Tracked db' := by
  obtain ⟨noSnapshot, cursors, ledger, tombstones, bookmarks, tabs⟩ := h
  have hlive : ∀ userId types, db'.liveKeys userId types = db.liveKeys userId types := by
    intro userId types
    ext key
    rw [mem_liveKeys, mem_liveKeys, Db.tombstoned, Db.tombstoned, hsame.syncObjects,
      hsame.tombstones]
  refine ⟨?_, ?_, ?_, ?_, ?_, ?_⟩
  · rwa [hsame.syncSnapshots]
  · rwa [hsame.syncOperations]
  · simpa only [Db.userRows, hsame.syncOperations, hsame.syncObjects] using ledger
  · simpa only [Db.tombstoned, hsame.tombstones, hsame.syncObjects] using tombstones
  · simpa only [Db.bookmarkCount, hlive, hsame.syncStats] using bookmarks
  · simpa only [Db.tabCount, hlive, hsame.syncStats] using tabs

section Write

variable {now : DateTime} {device : AuthenticatedDevice} {accepted : List OperationIn}
  {lastSeq : ℤ} {db db' : Db}

theorem ne_historyVisit_of_isTerminal {op : OperationIn}
    (h : op.isTerminal = true ∨ op.isRestore = true) : op.objectKey.1 ≠ .historyVisit := by
  intro htype
  change op.objectType = .historyVisit at htype
  simp [OperationIn.isTerminal, OperationIn.isRestore, htype, isTerminalOperation,
    isRestoreOperation] at h

/-- **A batch** whose operations are about objects the account has, or gets in the batch. -/
theorem writeBatch (h : Tracked db)
    (hwrite : HelixSync.writeBatch now device accepted lastSeq db = some db')
    (hknown : ∀ op ∈ accepted, op.isOrigination = true ∨
      (device.userId, op.objectKey) ∈ db.syncObjects ∨
      ∃ c ∈ accepted, c.isOrigination = true ∧ c.objectKey = op.objectKey) : Tracked db' := by
  have hledger : ∀ userId key, key.1 ≠ .historyVisit → ((userId, key) ∈ db'.syncObjects ↔
      (userId, key) ∈ db.syncObjects ∨ userId = device.userId ∧
        ∃ op ∈ accepted, op.isOrigination = true ∧ op.objectKey = key) :=
    fun userId key hkey => mem_syncObjects_writeBatch hwrite hkey
  have hmem : ∀ op ∈ accepted, op.objectKey.1 ≠ .historyVisit →
      (device.userId, op.objectKey) ∈ db'.syncObjects := by
    intro op hop hkey
    rw [hledger _ _ hkey]
    rcases hknown op hop with ho | howned | ⟨c, hc, ho, hck⟩
    · exact Or.inr ⟨rfl, op, hop, ho, rfl⟩
    · exact Or.inl howned
    · exact Or.inr ⟨rfl, c, hc, ho, hck⟩
  have htouched : ∀ op ∈ accepted, op.isTerminal = true ∨ op.isRestore = true →
      (device.userId, op.objectKey) ∈ db'.syncObjects := fun op hop hkind =>
    hmem op hop (ne_historyVisit_of_isTerminal hkind)
  -- the counts of the user are the live objects of the ledger, those of others stay
  have hcount : ∀ types, ((db'.liveKeys device.userId types).card : ℤ) =
      (db.liveKeys device.userId types).card +
        (db.writesOf device.userId accepted).liveDelta db device.userId types :=
    fun types => card_liveKeys_writeBatch hwrite (h.tombstones device.userId) htouched
  have hother : ∀ userId, userId ≠ device.userId → ∀ types, .historyVisit ∉ types →
      db'.liveKeys userId types = db.liveKeys userId types := by
    intro userId hu types htypes
    ext key
    rw [mem_liveKeys, mem_liveKeys, tombstoned_eq, tombstoned_eq,
      loadActiveTombstones_writeBatch hwrite, if_neg hu]
    by_cases htype : key.1 ∈ types
    · rw [hledger userId key fun hh => htypes (hh ▸ htype)]
      simp [hu]
    · simp [htype]
  refine ⟨?_, ?_, ?_, ?_, ?_, ?_⟩
  · obtain ⟨table, -, rfl⟩ := (writeBatch_eq_some_iff.mp hwrite).2
    exact h.noSnapshot
  · obtain ⟨table, htable, rfl⟩ := (writeBatch_eq_some_iff.mp hwrite).2
    intro row hrow
    dsimp only at hrow
    rw [htable] at hrow
    rcases List.mem_append.mp hrow with hrow | hrow
    · exact h.cursors row hrow
    · have hlo := (cursor_of_mem_batchRows hrow).1
      omega
  · intro userId key hkey
    rw [hledger userId key hkey, h.ledger userId key hkey, userRows_writeBatch hwrite]
    constructor
    · rintro (⟨row, hrow, hk⟩ | ⟨rfl, op, hop, -, hk⟩)
      · exact ⟨row, List.mem_append_left _ hrow, hk⟩
      · obtain ⟨cursor, hrow⟩ := @exists_of_mem_accepted now device
          (db.currentCursor device.userId + 1) _ op hop
        refine ⟨operationRow now device cursor op, List.mem_append_right _ ?_, hk⟩
        rwa [if_pos rfl]
    · rintro ⟨row, hrow, hk⟩
      rcases List.mem_append.mp hrow with hrow | hrow
      · exact Or.inl ⟨row, hrow, hk⟩
      · by_cases hu : userId = device.userId
        · subst hu
          rw [if_pos rfl] at hrow
          obtain ⟨op, hop, cursor, -, -, rfl⟩ := exists_of_mem_batchRows hrow
          have hnew := hmem op hop (by rw [show op.objectKey = key from hk]; exact hkey)
          rw [show op.objectKey = key from hk, hledger _ _ hkey, h.ledger _ _ hkey] at hnew
          exact hnew
        · rw [if_neg hu] at hrow
          exact absurd hrow List.not_mem_nil
  · exact tombstones_known_writeBatch hwrite h.tombstones htouched
  · intro userId
    by_cases hu : userId = device.userId
    · subst hu
      have hc := hcount bookmarkTypes
      rw [← h.bookmarks] at hc
      obtain ⟨table, -, rfl⟩ := (writeBatch_eq_some_iff.mp hwrite).2
      rw [Db.bookmarkCount]
      dsimp only
      rw [Function.update_self, bookmarkCount_addStats]
      change (((db.bookmarkCount device.userId : ℕ) : ℤ) + _).toNat = _
      omega
    · rw [hother userId hu _ (by decide), ← h.bookmarks]
      obtain ⟨table, -, rfl⟩ := (writeBatch_eq_some_iff.mp hwrite).2
      rw [Db.bookmarkCount, Db.bookmarkCount]
      dsimp only
      rw [Function.update_of_ne hu]
  · intro userId
    by_cases hu : userId = device.userId
    · subst hu
      have hc := hcount tabTypes
      rw [← h.tabs] at hc
      obtain ⟨table, -, rfl⟩ := (writeBatch_eq_some_iff.mp hwrite).2
      rw [Db.tabCount]
      dsimp only
      rw [Function.update_self, tabCount_addStats]
      change (((db.tabCount device.userId : ℕ) : ℤ) + _).toNat = _
      omega
    · rw [hother userId hu _ (by decide), ← h.tabs]
      obtain ⟨table, -, rfl⟩ := (writeBatch_eq_some_iff.mp hwrite).2
      rw [Db.tabCount, Db.tabCount]
      dsimp only
      rw [Function.update_of_ne hu]

end Write

end Tracked

/-! ### What a recount counts -/

/-- The log of one object. -/
def Db.keyRows (db : Db) (userId : Uuid) (key : ObjectKey) : List OperationRow :=
  (db.userRows userId).filter fun row => row.objectKey = key

/-- The newest operation of a log. -/
def IsTop (rows : List OperationRow) (top : OperationRow) : Prop :=
  top ∈ rows ∧ ∀ row ∈ rows, row.orderingKey ≤ top.orderingKey

theorem isTop_of_getLast? {rows : List OperationRow} {top : OperationRow}
    (h : (sortByKey rows).getLast? = some top) : IsTop rows top :=
  newest_spec h

/-- The tombstone of an object agrees with its log: it is active if the newest operation is
terminal, and then, for a log merged field by field, it is that of the newest operation. -/
def Consistent (key : ObjectKey) (rows : List OperationRow) (active : Option OrderingKey) : Prop :=
  ∀ top, IsTop rows top → (active.isSome = true ↔ top.isTerminal = true) ∧
    ((∀ row ∈ rows, row.encryptionVersion = 0) → key.1 ∈ fieldMergeObjectTypes →
      active.isSome = true → active = some top.orderingKey)

section Recount

variable {db : Db} {userId : Uuid} {key : ObjectKey} {cutoff : Option DateTime}

theorem insideRetention_of_ne {objectType : ObjectType} (h : objectType ≠ .historyVisit)
    (createdAt : DateTime) : insideRetention cutoff objectType createdAt = true := by
  unfold insideRetention
  split
  · rfl
  · simp [h]

/-- Without snapshots an object is rebuilt from all of its log. -/
theorem get_computeObjects_of_noSnapshot (h : Tracked db) (hkey : key.1 ≠ .historyVisit) :
    (computeObjects db userId none cutoff).2.get key =
      combineObject key none (sortByKey (db.keyRows userId key)) := by
  have hbase : db.baseSnapshot? userId none = none := by
    simp [Db.baseSnapshot?, h.noSnapshot]
  have hrows : (db.newRows userId none cutoff).filter (fun row => row.objectKey = key) =
      db.keyRows userId key := by
    rw [Db.newRows, Db.keyRows, Db.userRows, List.filter_filter, List.filter_filter]
    refine List.filter_congr fun row hrow => ?_
    have hcursor := h.cursors row hrow
    by_cases hk : row.objectKey = key
    · have htype : row.objectType ≠ .historyVisit := fun ht => hkey (by rw [← hk]; exact ht)
      simp [hk, Db.baseCursor, hbase, hcursor, belowCeiling, insideRetention_of_ne htype]
    · simp [hk]
  rw [get_computeObjects, hrows, Db.baseObjects, hbase]
  dsimp only
  rw [FinMap.get_empty]
  rcases hlast : (sortByKey (db.keyRows userId key)).getLast? with _ | newest
  · have hnil : sortByKey (db.keyRows userId key) = [] := by simpa using hlast
    rw [hnil]
    rfl
  · have hk : newest.objectKey = key := by
      simpa [Db.keyRows] using (List.mem_filter.mp (isTop_of_getLast? hlast).1).2
    have htype : newest.objectType ≠ .historyVisit := fun ht => hkey (by rw [← hk]; exact ht)
    rcases @combineObject_cases key none _ _ hlast with hwhole | ⟨-, merged, hmerged⟩
    · rw [hwhole, Option.filter_some]
      exact if_pos (insideRetention_of_ne htype _)
    · rw [hmerged, Option.filter_some]
      exact if_pos (insideRetention_of_ne hkey _)

/-- **What is live in a recount**: the objects of the ledger without an active tombstone, if
their tombstones agree with their logs. -/
theorem mem_keys_liveObjects (h : Tracked db) (hkey : key.1 ≠ .historyVisit)
    (hcons : Consistent key (db.keyRows userId key) (loadActiveTombstones db userId key)) :
    key ∈ (liveObjects db userId cutoff).keys ↔
      (userId, key) ∈ db.syncObjects ∧ db.tombstoned userId key = false := by
  rw [liveObjects, filterTombstoned, FinMap.mem_keys_retain, get_computeObjects_of_noSnapshot h hkey,
    h.ledger userId key hkey, ← loadActiveTombstones_eq_none_iff]
  rcases hlast : (sortByKey (db.keyRows userId key)).getLast? with _ | newest
  · have hnil : db.keyRows userId key = [] := by
      have hsort : sortByKey (db.keyRows userId key) = [] := by simpa using hlast
      by_contra hne
      obtain ⟨row, hrow⟩ := List.exists_mem_of_ne_nil _ hne
      rw [← mem_sortByKey, hsort] at hrow
      exact List.not_mem_nil hrow
    rw [hnil]
    constructor
    · rintro ⟨v, hv, -⟩
      exact absurd hv (by simp [sortByKey])
    · rintro ⟨⟨row, hrow, hk⟩, -⟩
      have hmem : row ∈ db.keyRows userId key := List.mem_filter.mpr ⟨hrow, by simpa using hk⟩
      rw [hnil] at hmem
      exact absurd hmem List.not_mem_nil
  · have htop := isTop_of_getLast? hlast
    obtain ⟨hmem, hk⟩ := List.mem_filter.mp htop.1
    have hk : newest.objectKey = key := by simpa using hk
    obtain ⟨hdead, hmerged⟩ := hcons newest htop
    have hrow : ∃ row ∈ db.userRows userId, row.objectKey = key := ⟨newest, hmem, hk⟩
    -- the object as a whole operation
    have hwhole : survivesTombstone (loadActiveTombstones db userId) key (snapshotOf newest) = true ↔
        loadActiveTombstones db userId key = none := by
      have hterm : isTerminalOperation (snapshotOf newest).objectType
          (snapshotOf newest).operationType = newest.isTerminal := rfl
      rw [survivesTombstone, hterm]
      rcases hload : loadActiveTombstones db userId key with _ | tomb
      · rw [hload] at hdead
        have hlive : newest.isTerminal = false := by simpa using hdead
        simp [hlive]
      · rw [hload] at hdead
        have hterminal : newest.isTerminal = true := hdead.mp rfl
        simp [hterminal]
    rcases @combineObject_cases key none _ _ hlast with heq | ⟨hmerges, merged, heq⟩
    · rw [heq]
      constructor
      · rintro ⟨v, hv, hsurvives⟩
        rw [← Option.some.inj hv] at hsurvives
        exact ⟨hrow, hwhole.mp hsurvives⟩
      · rintro ⟨-, hnone⟩
        exact ⟨_, rfl, hwhole.mpr hnone⟩
    · rw [heq]
      simp only [mergesFields, Option.map_none, Option.getD_none, Bool.and_true, Bool.and_eq_true,
        List.all_eq_true, beq_iff_eq, List.contains_eq_mem, decide_eq_true_eq] at hmerges
      have hplain : ∀ row ∈ db.keyRows userId key, row.encryptionVersion = 0 := fun row hr =>
        hmerges.1 row (mem_sortByKey.mpr hr)
      have hcreate : isTerminalOperation key.1 .create = false := by
        cases key.1 <;> rfl
      -- the merge has the key of the newest operation, which is the tombstone's
      have hmergedLive : survivesTombstone (loadActiveTombstones db userId) key
          (mergedObject key none (sortByKey (db.keyRows userId key)) newest merged) = true ↔
            loadActiveTombstones db userId key = none := by
        set object := mergedObject key none (sortByKey (db.keyRows userId key)) newest merged
        have hlive : isTerminalOperation object.objectType object.operationType = false := hcreate
        have horder : object.orderingKey = newest.orderingKey := rfl
        rw [survivesTombstone, hlive, if_neg Bool.false_ne_true, horder]
        rcases hload : loadActiveTombstones db userId key with _ | tomb
        · simp
        · rw [hload] at hmerged
          have heq := Option.some.inj (hmerged hplain hmerges.2 rfl)
          simp [heq]
      constructor
      · rintro ⟨v, hv, hsurvives⟩
        rw [← Option.some.inj hv] at hsurvives
        exact ⟨hrow, hmergedLive.mp hsurvives⟩
      · rintro ⟨-, hnone⟩
        exact ⟨_, rfl, hmergedLive.mpr hnone⟩

/-- The recounted number of some objects. -/
theorem countTypes_liveObjects (h : Tracked db) {types : List ObjectType}
    (htypes : .historyVisit ∉ types)
    (hcons : ∀ key : ObjectKey, key.1 ∈ types →
      Consistent key (db.keyRows userId key) (loadActiveTombstones db userId key)) :
    countTypes (liveObjects db userId cutoff) types = (db.liveKeys userId types).card := by
  rw [countTypes]
  congr 1
  ext key
  rw [Finset.mem_filter, mem_liveKeys]
  by_cases htype : key.1 ∈ types
  · have hkey : key.1 ≠ .historyVisit := fun hh => htypes (hh ▸ htype)
    rw [mem_keys_liveObjects h hkey (hcons key htype)]
    tauto
  · simp [htype]

end Recount

/-! ### Operations in the order of their keys -/

section Order

/-- The key of an operation is above those of all earlier operations on its object, in the
log and in the batch. -/
def Db.KeyAbove (db : Db) (device : AuthenticatedDevice) (before : List OperationIn)
    (op : OperationIn) : Prop :=
  (∀ row ∈ db.keyRows device.userId op.objectKey, row.orderingKey < op.keyOf device.deviceId) ∧
    ∀ c ∈ before, c.objectKey = op.objectKey → c.keyOf device.deviceId < op.keyOf device.deviceId

/-- The key of an operation is below that of some earlier operation on its object. -/
def Db.KeyBelow (db : Db) (device : AuthenticatedDevice) (before : List OperationIn)
    (op : OperationIn) : Prop :=
  (∃ row ∈ db.keyRows device.userId op.objectKey, op.keyOf device.deviceId < row.orderingKey) ∨
    ∃ c ∈ before, c.objectKey = op.objectKey ∧ op.keyOf device.deviceId < c.keyOf device.deviceId

/-- The object is not merged field by field: its type is not, or one of its operations is
encrypted. -/
def Db.WholeObject (db : Db) (device : AuthenticatedDevice) (before : List OperationIn)
    (op : OperationIn) : Prop :=
  op.objectType ∉ fieldMergeObjectTypes ∨ op.encryptionVersion ≠ 0 ∨
    (∃ row ∈ db.keyRows device.userId op.objectKey, row.encryptionVersion ≠ 0) ∨
    ∃ c ∈ before, c.objectKey = op.objectKey ∧ c.encryptionVersion ≠ 0

/-- Whether the object of an operation has an active tombstone when its turn comes. -/
def Db.DeletedBefore (db : Db) (device : AuthenticatedDevice) (before : List OperationIn)
    (op : OperationIn) : Prop :=
  (activeAfter device.deviceId before op.objectKey
    (loadActiveTombstones db device.userId op.objectKey)).isSome = true

/-- An accepted operation is in key order. A delete follows no restore of its object in the
batch, and is the newest operation of its object; it need not be the newest if the object
is deleted already and not merged field by field. A restore of a deleted object is its
newest operation. Anything else on a deleted object is not. -/
def Db.InKeyOrder (db : Db) (device : AuthenticatedDevice) (before : List OperationIn)
    (op : OperationIn) : Prop :=
  (op.isTerminal = true → restoredIn before op.objectKey = false ∧
    (db.KeyAbove device before op ∨
      db.DeletedBefore device before op ∧ db.WholeObject device before op)) ∧
  (op.isRestore = true → db.DeletedBefore device before op → db.KeyAbove device before op) ∧
  (op.isTerminal = false → op.isRestore = false → db.DeletedBefore device before op →
    db.KeyBelow device before op)

/-- The types whose live objects are counted. -/
def countedTypes : List ObjectType := bookmarkTypes ++ tabTypes

/-- The operations of a batch on counted objects are in key order, from some position on. -/
def Db.AllInKeyOrder (db : Db) (device : AuthenticatedDevice) :
    List OperationIn → List OperationIn → Prop
  | _, [] => True
  | before, op :: rest => (op.objectType ∈ countedTypes → db.InKeyOrder device before op) ∧
      db.AllInKeyOrder device (before ++ [op]) rest

section Decidable

variable (db : Db) (device : AuthenticatedDevice) (before : List OperationIn) (op : OperationIn)

instance : Decidable (db.KeyAbove device before op) := inferInstanceAs (Decidable (_ ∧ _))

instance : Decidable (db.KeyBelow device before op) := inferInstanceAs (Decidable (_ ∨ _))

instance : Decidable (db.WholeObject device before op) := inferInstanceAs (Decidable (_ ∨ _))

instance : Decidable (db.DeletedBefore device before op) := inferInstanceAs (Decidable (_ = true))

instance : Decidable (db.InKeyOrder device before op) := inferInstanceAs (Decidable (_ ∧ _))

end Decidable

instance decidableAllInKeyOrder (db : Db) (device : AuthenticatedDevice) :
    ∀ before rest, Decidable (db.AllInKeyOrder device before rest)
  | _, [] => isTrue trivial
  | before, op :: rest =>
    have := decidableAllInKeyOrder db device (before ++ [op]) rest
    inferInstanceAs (Decidable ((op.objectType ∈ countedTypes → db.InKeyOrder device before op) ∧
      db.AllInKeyOrder device (before ++ [op]) rest))

variable {db : Db} {device : AuthenticatedDevice} {now : DateTime} {start : ℕ} {key : ObjectKey}

/-- The log of an object after a part of a batch. -/
def rowsAfter (db : Db) (now : DateTime) (device : AuthenticatedDevice) (start : ℕ)
    (key : ObjectKey) (before : List OperationIn) : List OperationRow :=
  db.keyRows device.userId key ++
    (batchRows now device start before).filter fun row => row.objectKey = key

theorem mem_rowsAfter {before : List OperationIn} {row : OperationRow} :
    row ∈ rowsAfter db now device start key before ↔ row ∈ db.keyRows device.userId key ∨
      row ∈ batchRows now device start before ∧ row.objectKey = key := by
  simp [rowsAfter]

theorem batchRows_append_singleton (before : List OperationIn) (op : OperationIn) :
    batchRows now device start (before ++ [op]) =
      batchRows now device start before ++ [operationRow now device (start + before.length) op] := by
  induction before generalizing start with
  | nil => rfl
  | cons o before ih =>
    rw [List.cons_append, batchRows_cons, ih, batchRows_cons, List.cons_append, List.length_cons]
    congr 4
    omega

/-- An operation of another object changes nothing. -/
theorem rowsAfter_append_of_ne {before : List OperationIn} {op : OperationIn}
    (h : op.objectKey ≠ key) :
    rowsAfter db now device start key (before ++ [op]) = rowsAfter db now device start key before := by
  have hrow : (operationRow now device (start + before.length) op).objectKey ≠ key := h
  simp [rowsAfter, batchRows_append_singleton, List.filter_append, hrow]

theorem rowsAfter_append_of_eq {before : List OperationIn} {op : OperationIn}
    (h : op.objectKey = key) :
    rowsAfter db now device start key (before ++ [op]) =
      rowsAfter db now device start key before ++
        [operationRow now device (start + before.length) op] := by
  have hrow : (operationRow now device (start + before.length) op).objectKey = key := h
  simp [rowsAfter, batchRows_append_singleton, List.filter_append, hrow]

theorem keyAbove_iff {before : List OperationIn} {op : OperationIn} :
    db.KeyAbove device before op ↔ ∀ row ∈ rowsAfter db now device start op.objectKey before,
      row.orderingKey < op.keyOf device.deviceId := by
  constructor
  · rintro ⟨hrows, hops⟩ row hrow
    rcases mem_rowsAfter.mp hrow with hrow | ⟨hrow, hk⟩
    · exact hrows row hrow
    · obtain ⟨c, hc, cursor, -, -, rfl⟩ := exists_of_mem_batchRows hrow
      exact hops c hc hk
  · intro h
    refine ⟨fun row hrow => h row (mem_rowsAfter.mpr (Or.inl hrow)), fun c hc hk => ?_⟩
    obtain ⟨cursor, hrow⟩ := @exists_of_mem_accepted now device start _ c hc
    exact h _ (mem_rowsAfter.mpr (Or.inr ⟨hrow, hk⟩))

theorem exists_of_keyBelow {before : List OperationIn} {op : OperationIn}
    (h : db.KeyBelow device before op) :
    ∃ row ∈ rowsAfter db now device start op.objectKey before,
      op.keyOf device.deviceId < row.orderingKey := by
  rcases h with ⟨row, hrow, hlt⟩ | ⟨c, hc, hk, hlt⟩
  · exact ⟨row, mem_rowsAfter.mpr (Or.inl hrow), hlt⟩
  · obtain ⟨cursor, hrow⟩ := @exists_of_mem_accepted now device start _ c hc
    exact ⟨_, mem_rowsAfter.mpr (Or.inr ⟨hrow, hk⟩), hlt⟩

theorem isTop_append {rows : List OperationRow} {row top : OperationRow}
    (h : IsTop (rows ++ [row]) top) :
    (top = row ∧ ∀ r ∈ rows, r.orderingKey ≤ row.orderingKey) ∨
      IsTop rows top ∧ row.orderingKey ≤ top.orderingKey := by
  obtain ⟨hmem, hmax⟩ := h
  rcases List.mem_append.mp hmem with hmem | hmem
  · exact Or.inr ⟨⟨hmem, fun r hr => hmax r (List.mem_append_left _ hr)⟩,
      hmax row (List.mem_append_right _ (List.mem_singleton.mpr rfl))⟩
  · obtain rfl := List.mem_singleton.mp hmem
    exact Or.inl ⟨rfl, fun r hr => hmax r (List.mem_append_left _ hr)⟩

/-- **One operation in key order** keeps log and tombstone in agreement. -/
theorem Consistent.append {before : List OperationIn} {op : OperationIn} {old : Option OrderingKey}
    (hold : old = loadActiveTombstones db device.userId op.objectKey)
    (h : Consistent op.objectKey (rowsAfter db now device start op.objectKey before)
      (activeAfter device.deviceId before op.objectKey old))
    (hord : db.InKeyOrder device before op) :
    Consistent op.objectKey (rowsAfter db now device start op.objectKey (before ++ [op]))
      (activeAfter device.deviceId (before ++ [op]) op.objectKey old) := by
  obtain ⟨hterminal, hrestore, hother⟩ := hord
  set row := operationRow now device (start + before.length) op with hrow
  have hkey : row.orderingKey = op.keyOf device.deviceId := rfl
  have hdeleted : db.DeletedBefore device before op ↔
      (activeAfter device.deviceId before op.objectKey old).isSome = true := by
    rw [hold]
    rfl
  rw [rowsAfter_append_of_eq rfl, ← hrow]
  intro top htop
  -- an operation above all others is the newest
  have habove : db.KeyAbove device before op →
      ¬(IsTop (rowsAfter db now device start op.objectKey before) top ∧
        row.orderingKey ≤ top.orderingKey) := by
    rintro hab ⟨⟨hmem, -⟩, hle⟩
    exact absurd (keyAbove_iff.mp hab top hmem) (not_lt.mpr (hkey ▸ hle))
  by_cases ht : op.isTerminal = true
  · obtain ⟨hnot, hkeys⟩ := hterminal ht
    rw [activeAfter_append_of_isTerminal ht, hnot, if_neg Bool.false_ne_true]
    rcases isTop_append htop with ⟨rfl, -⟩ | hprev
    · exact ⟨⟨fun _ => ht, fun _ => rfl⟩, fun _ _ _ => rfl⟩
    · rcases hkeys with hab | ⟨hdel, hwhole⟩
      · exact absurd hprev (habove hab)
      · have htopTerminal := (h top hprev.1).1.mp (hdeleted.mp hdel)
        refine ⟨⟨fun _ => htopTerminal, fun _ => rfl⟩, fun hplain htype _ => ?_⟩
        have hplain' : ∀ r ∈ rowsAfter db now device start op.objectKey before,
            r.encryptionVersion = 0 := fun r hr => hplain r (List.mem_append_left _ hr)
        rcases hwhole with hne | hne | ⟨r, hr, hne⟩ | ⟨c, hc, hk, hne⟩
        · exact absurd htype hne
        · exact absurd (hplain row (List.mem_append_right _ (List.mem_singleton.mpr rfl))) hne
        · exact absurd (hplain' r (mem_rowsAfter.mpr (Or.inl hr))) hne
        · obtain ⟨cursor, hmem⟩ := @exists_of_mem_accepted now device start _ c hc
          exact absurd (hplain' _ (mem_rowsAfter.mpr (Or.inr ⟨hmem, hk⟩))) hne
  have ht : op.isTerminal = false := by simpa using ht
  by_cases hr : op.isRestore = true
  · rw [activeAfter_append_of_isRestore hr]
    refine ⟨?_, fun _ _ hsome => absurd hsome (by simp)⟩
    rcases isTop_append htop with ⟨rfl, -⟩ | hprev
    · change _ ↔ op.isTerminal = true
      simp [ht]
    · have hlive : ¬db.DeletedBefore device before op := fun hdel =>
        habove (hrestore hr hdel) hprev
      rw [hdeleted, (h top hprev.1).1] at hlive
      simpa using hlive
  · have hr : op.isRestore = false := by simpa using hr
    rw [activeAfter_append_of_neither ht hr]
    rcases isTop_append htop with ⟨rfl, hall⟩ | hprev
    · have hlive : ¬db.DeletedBefore device before op := by
        intro hdel
        obtain ⟨r, hmem, hlt⟩ := @exists_of_keyBelow db device now start _ _ (hother ht hr hdel)
        exact absurd hlt (not_lt.mpr (hkey ▸ hall r hmem))
      rw [hdeleted] at hlive
      refine ⟨iff_of_false hlive ?_, fun _ _ hsome => absurd hsome hlive⟩
      change ¬op.isTerminal = true
      simp [ht]
    · obtain ⟨hiff, hmerge⟩ := h top hprev.1
      exact ⟨hiff, fun hplain => hmerge fun r hmem => hplain r (List.mem_append_left _ hmem)⟩

/-- **A batch in key order** keeps log and tombstone in agreement. -/
theorem Consistent.batch (hkey : key.1 ∈ countedTypes) {rest : List OperationIn} :
    ∀ {before : List OperationIn}, db.AllInKeyOrder device before rest →
      Consistent key (rowsAfter db now device start key before)
        (activeAfter device.deviceId before key (loadActiveTombstones db device.userId key)) →
      Consistent key (rowsAfter db now device start key (before ++ rest))
        (activeAfter device.deviceId (before ++ rest) key
          (loadActiveTombstones db device.userId key)) := by
  induction rest with
  | nil =>
    intro before _ h
    rwa [List.append_nil]
  | cons op rest ih =>
    intro before hord h
    rw [List.append_cons]
    refine ih hord.2 ?_
    by_cases hk : op.objectKey = key
    · subst hk
      exact h.append rfl (hord.1 hkey)
    · rwa [rowsAfter_append_of_ne hk, activeAfter_append_of_ne hk]

end Order

namespace Server

/-- The events that replace operations by a snapshot. -/
def compacts : Event → Bool
  | .commitSnapshot _ | .pruneChunk _ => true
  | _ => false

/-- The counts of a user are what compaction would recount. -/
def CountsAgree (s : Server) (userId : Uuid) : Prop :=
  s.db.bookmarkCount userId =
      (recount s.db userId (historyRetentionCutoff s.now s.db userId)).bookmarkCount ∧
    s.db.tabCount userId =
      (recount s.db userId (historyRetentionCutoff s.now s.db userId)).tabCount

/-- The operations an upload accepts are in key order. -/
def UploadsInKeyOrder (cfg : Config) (s : Server) : Event → Prop
  | .upload deviceId ops => ∀ d ∈ s.db.device? deviceId,
      s.db.AllInKeyOrder ⟨d.userId, d.id⟩ []
        (s.db.accepts cfg s.now ⟨d.userId, d.id⟩ d ops)
  | _ => True

/-- The invariant: the counts follow the ledger, and the tombstones agree with the logs. -/
structure Counted (s : Server) : Prop where
  tracked : Tracked s.db
  consistent : ∀ userId (key : ObjectKey), key.1 ∈ countedTypes →
    Consistent key (s.db.keyRows userId key) (loadActiveTombstones s.db userId key)

namespace Counted

theorem start (settings : Uuid → Option UserSettings) (now : DateTime) :
    Counted (Server.start settings now) where
  tracked := Tracked.start settings now
  consistent := fun _ _ _ _ htop => absurd htop.1 List.not_mem_nil

theorem countsAgree {s : Server} (h : Counted s) (userId : Uuid) : CountsAgree s userId := by
  constructor
  · rw [h.tracked.bookmarks]
    refine (countTypes_liveObjects h.tracked (by decide) fun key hkey => ?_).symm
    exact h.consistent userId key (List.mem_append_left _ hkey)
  · rw [h.tracked.tabs]
    refine (countTypes_liveObjects h.tracked (by decide) fun key hkey => ?_).symm
    exact h.consistent userId key (List.mem_append_right _ hkey)

variable {cfg : Config} {s s' : Server}

theorem of_sameData (h : Counted s) (hsame : SameData s.db s'.db) : Counted s' where
  tracked := h.tracked.of_sameData hsame
  consistent := by
    simpa only [Db.keyRows, Db.userRows, loadActiveTombstones, hsame.syncOperations,
      hsame.tombstones] using h.consistent

/-- An upload in key order. -/
theorem wrote {device : AuthenticatedDevice} {d : DeviceRow} {ops : List OperationIn} {db' : Db}
    (h : Counted s)
    (hwrite : writeBatch s.now device (s.db.accepts cfg s.now device d ops)
      (s.db.lastSeqAfter cfg s.now device d ops) s.db = some db')
    (hord : s.db.AllInKeyOrder device [] (s.db.accepts cfg s.now device d ops))
    (batches : List (List OperationRow)) : Counted { s with db := db', batches := batches } where
  tracked := h.tracked.writeBatch hwrite fun _ hop => known_of_mem_accepts hop
  consistent := by
    intro userId key hkey
    have hold := h.consistent userId key hkey
    rw [loadActiveTombstones_writeBatch hwrite, Db.keyRows, userRows_writeBatch hwrite,
      List.filter_append]
    by_cases hu : userId = device.userId
    · subst hu
      rw [if_pos rfl, if_pos rfl]
      refine Consistent.batch hkey hord ?_
      simpa [rowsAfter] using hold
    · rw [if_neg hu, if_neg hu, List.filter_nil, List.append_nil]
      exact hold

/-- **One event** that is not part of a compaction, and an upload in key order. -/
theorem step {e : Event} (h : Counted s) (he : compacts e = false ∧ UploadsInKeyOrder cfg s e) :
    Counted (step cfg s e) := by
  obtain ⟨hkind, hord⟩ := he
  generalize hs : Server.step cfg s e = s'
  have hstep : Step cfg s e s' := hs ▸ step_spec e
  cases hstep with
  | quiet hq => exact h.of_sameData hq.data
  | idle => exact h.of_sameData (SameData.refl _)
  | @wrote device d ops db' hauth hd _ hwrite =>
    have hdevice : (⟨d.userId, d.id⟩ : AuthenticatedDevice) = device := by
      simpa [authenticate, hd] using hauth
    have hord' := hord d hd
    rw [hdevice] at hord'
    exact h.wrote hwrite hord' _
  | committed _ _ => exact absurd hkind (by simp [compacts])
  | pruned _ => exact absurd hkind (by simp [compacts])

end Counted

instance decidableUploadsInKeyOrder (cfg : Config) (s : Server) :
    ∀ e, Decidable (UploadsInKeyOrder cfg s e)
  | .upload deviceId ops => inferInstanceAs (Decidable (∀ d ∈ s.db.device? deviceId,
      s.db.AllInKeyOrder ⟨d.userId, d.id⟩ []
        (s.db.accepts cfg s.now ⟨d.userId, d.id⟩ d ops)))
  | .tick _ | .register _ _ | .touch _ | .revoke _ | .compact _ | .commitSnapshot _
  | .pruneChunk _ | .dropRebuild _ | .dropPrune _ | .downloadBounds _ _ | .downloadPage _
  | .downloadRows _ | .dropDownload _ => inferInstanceAs (Decidable True)

/-- **The counts are those of a recount** in every run of uploads in key order. -/
theorem countsAgree_of_inKeyOrder (cfg : Config) (settings : Uuid → Option UserSettings)
    (now : DateTime) (events : List Event) (hevents : ∀ e ∈ events, compacts e = false)
    (hord : Runs.Meets (step cfg) (UploadsInKeyOrder cfg) (start settings now) events)
    (userId : Uuid) : CountsAgree (run cfg (start settings now) events) userId := by
  have hcounted : Counted (run cfg (start settings now) events) :=
    Runs.invariant_of_meets (fun _ _ h he => h.step he) (Counted.start settings now)
      (hord.and_events hevents)
  exact hcounted.countsAgree userId

/-- A bookmark is created, deleted and restored, another and a tab are created, each by
the newest operation of its object. -/
def orderedEvents : List Event :=
  [.register 1 9, .register 2 9,
    .upload 1 [smallOp 11 1 1 .bookmark 50 .create, smallOp 12 2 2 .bookmark 51 .create,
      smallOp 13 3 3 .tab 60 .create],
    .upload 2 [smallOp 21 1 5 .bookmark 50 .delete, smallOp 22 2 6 .tab 60 .close],
    .upload 1 [smallOp 14 4 7 .bookmark 50 .restore]]

theorem countsAgree_orderedEvents :
    (run smallConfig smallStart orderedEvents).db.bookmarkCount 9 = 2 ∧
      (run smallConfig smallStart orderedEvents).db.tabCount 9 = 0 ∧
      CountsAgree (run smallConfig smallStart orderedEvents) 9 :=
  ⟨by decide +kernel, by decide +kernel,
    countsAgree_of_inKeyOrder smallConfig (fun _ => none) 0 orderedEvents (by decide)
      (by decide +kernel) 9⟩

/-- A bookmark is created and updated, and then another device deletes it with a key between
the two. -/
def lateDelete : List Event :=
  [.register 1 9, .register 2 9,
    .upload 1 [smallOp 11 1 1 .bookmark 50 .create, smallOp 12 2 10 .bookmark 50 .update],
    .upload 2 [smallOp 21 1 5 .bookmark 50 .delete]]

/-- The count drops to zero, and a recount finds one bookmark. -/
theorem not_countsAgree :
    (∀ e ∈ lateDelete, compacts e = false) ∧
      (run smallConfig smallStart lateDelete).db.bookmarkCount 9 = 0 ∧
      (recount (run smallConfig smallStart lateDelete).db 9 none).bookmarkCount = 1 ∧
      ¬CountsAgree (run smallConfig smallStart lateDelete) 9 := by
  have hcount : (run smallConfig smallStart lateDelete).db.bookmarkCount 9 = 0 := by decide +kernel
  have hrecount : (recount (run smallConfig smallStart lateDelete).db 9 none).bookmarkCount = 1 := by
    decide +kernel
  have hcutoff : historyRetentionCutoff (run smallConfig smallStart lateDelete).now
      (run smallConfig smallStart lateDelete).db 9 = none := by decide +kernel
  refine ⟨by decide, hcount, hrecount, fun hagree => ?_⟩
  have hbookmarks := hagree.1
  rw [hcutoff, hcount, hrecount] at hbookmarks
  exact absurd hbookmarks (by decide)

end Server

end HelixSync
