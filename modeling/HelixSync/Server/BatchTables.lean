import HelixSync.Server.OneByOne

/-!
# What a batch and its operations write

The same operations, written by one batch and one by one (`HelixSync.WrittenAlone`). The log, the
ledger, the keys of the tombstones and the hour buckets agree whatever the operations are
(`HelixSync.WrittenAlone.sameTables`). A batch puts its restores last, so the tombstones are active
alike exactly if no object is deleted after its last restore
(`HelixSync.WrittenAlone.tombstoned_iff`); and a batch clamps its counts once, so they agree then
exactly if the operations lose nothing by clamping them at each step
(`HelixSync.WrittenAlone.stats_iff`).
-/

namespace HelixSync

/-! ### Active tombstones -/

section Tombstones

variable {accepted : List OperationIn} {key : ObjectKey} {old : Bool}

/-- One by one, an object is tombstoned at the end if it was deleted after its last restore. -/
theorem tombstonedAfter_iff
    (hsorted : accepted.Pairwise fun a b => a.deviceSequence < b.deviceSequence) :
    tombstonedAfter key accepted old = true ↔
      (∃ t ∈ accepted, t.isTerminal = true ∧ t.objectKey = key ∧
        ∀ r ∈ accepted, r.isRestore = true → r.objectKey = key →
          r.deviceSequence < t.deviceSequence) ∨
      old = true ∧ ∀ r ∈ accepted, r.isRestore = true → r.objectKey ≠ key := by
  induction accepted using List.reverseRecOn with
  | nil => simp [tombstonedAfter]
  | append_singleton accepted op ih =>
    obtain ⟨hbefore, -, hlast⟩ := List.pairwise_append.mp hsorted
    have hlast : ∀ o ∈ accepted, o.deviceSequence < op.deviceSequence :=
      fun o ho => hlast o ho op List.mem_cons_self
    have hstep : tombstonedAfter key (accepted ++ [op]) old =
        tombstonedAfter key [op] (tombstonedAfter key accepted old) := tombstonedAfter_append _ _ _ _
    simp only [tombstonedAfter, List.foldl_cons, List.foldl_nil] at hstep
    rw [tombstonedAfter, hstep, ← tombstonedAfter]
    have hmem : ∀ o, o ∈ accepted ++ [op] ↔ o ∈ accepted ∨ o = op := by simp
    by_cases ht : op.objectKey = key ∧ op.isTerminal = true
    · obtain ⟨hkey, ht⟩ := ht
      rw [if_neg (not_not.mpr hkey), if_pos ht]
      refine iff_of_true rfl (Or.inl ⟨op, (hmem op).mpr (Or.inr rfl), ht, hkey, fun r hr hrr _ => ?_⟩)
      rcases (hmem r).mp hr with hr | rfl
      · exact hlast r hr
      · rw [OperationIn.isRestore, not_isRestore_of_isTerminal ht] at hrr
        exact absurd hrr (by simp)
    · by_cases hr : op.objectKey = key ∧ op.isRestore = true
      · obtain ⟨hkey, hr⟩ := hr
        have ht : op.isTerminal ≠ true := fun htt => ht ⟨hkey, htt⟩
        rw [if_neg (not_not.mpr hkey), if_neg ht, if_pos hr]
        refine iff_of_false (by simp) ?_
        rintro (⟨t, hmemt, htt, -, hall⟩ | ⟨-, hall⟩)
        · have hlt := hall op ((hmem op).mpr (Or.inr rfl)) hr hkey
          rcases (hmem t).mp hmemt with hmemt | rfl
          · exact absurd hlt (not_lt_of_gt (hlast t hmemt))
          · exact ht htt
        · exact hall op ((hmem op).mpr (Or.inr rfl)) hr hkey
      · -- an operation that neither deletes nor restores the object is not looked at
        have hsame : (if op.objectKey ≠ key then tombstonedAfter key accepted old
            else if op.isTerminal = true then true
            else if op.isRestore = true then false
            else tombstonedAfter key accepted old) = tombstonedAfter key accepted old := by
          split_ifs with h₁ h₂ h₃
          · rfl
          · exact absurd ⟨not_not.mp h₁, h₂⟩ ht
          · exact absurd ⟨not_not.mp h₁, h₃⟩ hr
          · rfl
        have hrestores : ∀ r, r ∈ accepted ++ [op] → r.isRestore = true → r.objectKey = key →
            r ∈ accepted := fun r hmemr hrr hrk =>
          ((hmem r).mp hmemr).resolve_right fun heq => hr (heq ▸ ⟨hrk, hrr⟩)
        rw [hsame, ih hbefore]
        refine or_congr ⟨?_, ?_⟩ (and_congr_right fun _ => ⟨?_, ?_⟩)
        · rintro ⟨t, hmemt, htt, htk, hall⟩
          exact ⟨t, (hmem t).mpr (Or.inl hmemt), htt, htk, fun r hmemr hrr hrk =>
            hall r (hrestores r hmemr hrr hrk) hrr hrk⟩
        · rintro ⟨t, hmemt, htt, htk, hall⟩
          exact ⟨t, ((hmem t).mp hmemt).resolve_right fun heq => ht (heq ▸ ⟨htk, htt⟩), htt, htk,
            fun r hmemr => hall r ((hmem r).mpr (Or.inl hmemr))⟩
        · exact fun hall r hmemr hrr hrk => hall r (hrestores r hmemr hrr hrk) hrr hrk
        · exact fun hall r hmemr => hall r ((hmem r).mpr (Or.inl hmemr))

/-- In one batch, it is if it was deleted and not restored. -/
theorem isSome_activeAfter_iff {deviceId : Uuid} {old : Option OrderingKey} :
    (activeAfter deviceId accepted key old).isSome = true ↔
      ((∃ t ∈ accepted, t.isTerminal = true ∧ t.objectKey = key) ∨ old.isSome = true) ∧
        ∀ r ∈ accepted, r.isRestore = true → r.objectKey ≠ key := by
  rw [activeAfter]
  by_cases hr : restoredIn accepted key = true
  · rw [if_pos hr]
    obtain ⟨r, hmem, hrr, hrk⟩ := restoredIn_iff.mp hr
    exact iff_of_false (by simp) fun h => h.2 r hmem hrr hrk
  · rw [if_neg hr, and_iff_left fun r hmem hrr hrk => hr (restoredIn_iff.mpr ⟨r, hmem, hrr, hrk⟩)]
    rcases hlast : lastTerminal? accepted key with _ | t
    · rw [lastTerminal?_eq_none_iff] at hlast
      refine (or_iff_right ?_).symm
      rintro ⟨t, hmem, htt, htk⟩
      exact hlast t hmem htt htk
    · refine iff_of_true rfl (Or.inl ?_)
      by_contra hnone
      push Not at hnone
      rw [lastTerminal?_eq_none_iff.mpr hnone] at hlast
      exact absurd hlast (by simp)

/-- No operation deletes an object after its last restore. -/
def EndsRestored (accepted : List OperationIn) : Prop :=
  ∀ r ∈ accepted, r.isRestore = true → ∀ t ∈ accepted, t.isTerminal = true →
    t.objectKey = r.objectKey → ∃ r' ∈ accepted, r'.isRestore = true ∧
      r'.objectKey = t.objectKey ∧ t.deviceSequence < r'.deviceSequence

/-- History visits are neither deleted nor restored. -/
theorem endsRestored_filter :
    EndsRestored (accepted.filter fun op => op.objectType ≠ .historyVisit) ↔
      EndsRestored accepted := by
  have hmem : ∀ op : OperationIn, op.isTerminal = true ∨ op.isRestore = true →
      (op ∈ accepted.filter (fun op => op.objectType ≠ .historyVisit) ↔ op ∈ accepted) := by
    intro op hop
    have htype : op.objectType ≠ .historyVisit := Tracked.ne_historyVisit_of_isTerminal hop
    rw [List.mem_filter, and_iff_left (decide_eq_true htype)]
  constructor
  · intro h r hr hrr t ht htt htk
    obtain ⟨r', hr', hrr', hrest⟩ := h r ((hmem r (Or.inr hrr)).mpr hr) hrr t
      ((hmem t (Or.inl htt)).mpr ht) htt htk
    exact ⟨r', (hmem r' (Or.inr hrr')).mp hr', hrr', hrest⟩
  · intro h r hr hrr t ht htt htk
    obtain ⟨r', hr', hrr', hrest⟩ := h r ((hmem r (Or.inr hrr)).mp hr) hrr t
      ((hmem t (Or.inl htt)).mp ht) htt htk
    exact ⟨r', (hmem r' (Or.inr hrr')).mpr hr', hrr', hrest⟩

/-- **The two agree on every object** if none is deleted after its last restore. -/
theorem activeAfter_agrees_iff {deviceId : Uuid} {old : ObjectKey → Option OrderingKey}
    (hsorted : accepted.Pairwise fun a b => a.deviceSequence < b.deviceSequence) :
    (∀ key, (activeAfter deviceId accepted key (old key)).isSome =
        tombstonedAfter key accepted (old key).isSome) ↔ EndsRestored accepted := by
  constructor
  · intro h r hr hrr t ht htt htk
    by_contra hnone
    push Not at hnone
    have hafter : tombstonedAfter r.objectKey accepted (old r.objectKey).isSome = true := by
      refine (tombstonedAfter_iff hsorted).mpr (Or.inl ⟨t, ht, htt, htk, fun r' hr' hrr' hrk' => ?_⟩)
      refine lt_of_le_of_ne (hnone r' hr' hrr' (hrk'.trans htk.symm)) fun heq => ?_
      -- two operations of one sequence are one, and no delete is a restore
      have hsame : r' = t := by
        by_contra hne
        have hsymm : Std.Symm fun a b : OperationIn => a.deviceSequence ≠ b.deviceSequence :=
          ⟨fun _ _ => Ne.symm⟩
        exact (hsorted.imp (S := fun a b => a.deviceSequence ≠ b.deviceSequence)
          ne_of_lt).forall hr' ht hne heq
      rw [hsame, OperationIn.isRestore, not_isRestore_of_isTerminal htt] at hrr'
      exact absurd hrr' (by simp)
    rw [← h] at hafter
    exact (isSome_activeAfter_iff.mp hafter).2 r hr hrr rfl
  · intro h key
    rw [Bool.eq_iff_iff, isSome_activeAfter_iff, tombstonedAfter_iff hsorted]
    constructor
    · rintro ⟨⟨t, ht, htt, htk⟩ | hold, hnone⟩
      · exact Or.inl ⟨t, ht, htt, htk, fun r hr hrr hrk => absurd hrk (hnone r hr hrr)⟩
      · exact Or.inr ⟨hold, hnone⟩
    · rintro (⟨t, ht, htt, htk, hall⟩ | ⟨hold, hnone⟩)
      · refine ⟨Or.inl ⟨t, ht, htt, htk⟩, fun r hr hrr hrk => ?_⟩
        obtain ⟨r', hr', hrr', hrk', hlt⟩ := h r hr hrr t ht htt (htk.trans hrk.symm)
        exact absurd hlt (not_lt_of_gt (hall r' hr' hrr' (hrk'.trans htk)))
      · exact ⟨Or.inr hold, hnone⟩

end Tombstones

/-! ### Counts -/

section Counts

/-- A count that follows the live objects operation by operation ends where it would by one
step: it is not clamped at zero, or the live objects end at no more than they were there. -/
def Db.ClampsOnce (db : Db) (device : AuthenticatedDevice) (types : List ObjectType) (count : ℕ)
    (accepted : List OperationIn) : Prop :=
  ∀ before, before <+: accepted →
    ((db.liveKeys device.userId types).card : ℤ) ≤
        count + ((db.liveAfter device.userId types before).card : ℤ) ∨
      (db.liveAfter device.userId types accepted).card ≤
        (db.liveAfter device.userId types before).card

variable {db : Db} {device : AuthenticatedDevice} {types : List ObjectType}

/-- History visits do not matter to the live objects of other types. -/
theorem liveAfter_filter (htypes : .historyVisit ∉ types) (accepted : List OperationIn) :
    db.liveAfter device.userId types (accepted.filter fun op => op.objectType ≠ .historyVisit) =
      db.liveAfter device.userId types accepted := by
  ext key
  simp only [Db.liveAfter, Finset.mem_filter, Finset.mem_union, mem_ledgerOf, List.mem_toFinset,
    List.mem_map, List.mem_filter]
  by_cases htype : key.1 ∈ types
  · have hne : ∀ op : OperationIn, op.objectKey = key → op.objectType ≠ .historyVisit :=
      fun op hop ht => htypes (((congrArg Prod.fst hop).symm.trans ht) ▸ htype)
    have htomb : tombstonedAfter key (accepted.filter fun op => op.objectType ≠ .historyVisit)
        (db.tombstoned device.userId key) =
          tombstonedAfter key accepted (db.tombstoned device.userId key) := by
      rw [tombstonedAfter, List.foldl_filter, tombstonedAfter]
      congr 1
      funext tombstoned op
      by_cases hop : op.objectKey = key
      · rw [if_pos (decide_eq_true (hne op hop))]
      · simp [hop]
    rw [htomb]
    refine and_congr_left fun _ => or_congr_right (and_congr_left fun _ => ?_)
    refine exists_congr fun op => and_congr_left fun hop => ?_
    simp [hne op hop]
  · simp [htype]

theorem clampsOnce_filter (htypes : .historyVisit ∉ types) {count : ℕ}
    {accepted : List OperationIn} :
    db.ClampsOnce device types count (accepted.filter fun op => op.objectType ≠ .historyVisit) ↔
      db.ClampsOnce device types count accepted := by
  unfold Db.ClampsOnce
  rw [liveAfter_filter htypes]
  constructor
  · intro h before hbefore
    have hlive := h _ (hbefore.filter fun op => decide (op.objectType ≠ .historyVisit))
    rwa [liveAfter_filter htypes] at hlive
  · rintro h before ⟨after, hsplit⟩
    obtain ⟨before', after', rfl, rfl, -⟩ := List.filter_eq_append_iff.mp hsplit.symm
    rw [liveAfter_filter htypes]
    exact h before' (List.prefix_append _ _)

/-- **A count clamped once** and one clamped at every operation. -/
theorem follow_eq_iff_clampsOnce {count : ℕ} {accepted : List OperationIn} :
    ClampedCounter.follow count (db.liveKeys device.userId types).card
        (WrittenAlone.levels db device.userId types accepted) =
      (count + (((db.liveAfter device.userId types accepted).card : ℤ) -
        (db.liveKeys device.userId types).card)).toNat ↔
      db.ClampsOnce device types count accepted := by
  have hlast : ClampedCounter.lastLevel ((db.liveKeys device.userId types).card : ℤ)
      (WrittenAlone.levels db device.userId types accepted) =
        ((db.liveAfter device.userId types accepted).card : ℤ) :=
    WrittenAlone.lastLevel_levels _ _ _ _
  rw [← hlast, ClampedCounter.follow_eq_iff, hlast, WrittenAlone.levels]
  simp only [List.mem_map, List.mem_inits, forall_exists_index, and_imp, forall_apply_eq_imp_iff₂,
    Nat.cast_le]
  rfl

/-- A row of counts is its three columns, if there is one. -/
theorem statsRow_ext {a b : Option StatsRow} (hsome : a.isSome = b.isSome)
    (hbookmarks : (a.map StatsRow.bookmarkCount).getD 0 = (b.map StatsRow.bookmarkCount).getD 0)
    (htabs : (a.map StatsRow.tabCount).getD 0 = (b.map StatsRow.tabCount).getD 0)
    (hbytes : (a.map StatsRow.storageBytes).getD 0 = (b.map StatsRow.storageBytes).getD 0) :
    a = b := by
  rcases a with _ | ⟨_, _, _⟩ <;> rcases b with _ | ⟨_, _, _⟩ <;> simp_all

end Counts

/-! ### The tables -/

section Tables

variable {now : DateTime} {device : AuthenticatedDevice} {db whole each : Db}
  {accepted : List OperationIn} {lastSeq : ℤ}

/-- What a batch and its operations write alike, whatever they are. -/
theorem WrittenAlone.sameTables (h : WrittenAlone now device db accepted each)
    (hwrite : writeBatch now device accepted lastSeq db = some whole) :
    whole.syncOperations.rows = each.syncOperations.rows ∧ whole.syncObjects = each.syncObjects ∧
      whole.historyVisitHours = each.historyVisitHours ∧
      ∀ key, whole.tombstoneKey device.userId key = each.tombstoneKey device.userId key := by
  refine ⟨(rows_writeBatch hwrite).trans h.rows.symm, ?_, ?_, fun key => ?_⟩
  · ext ⟨userId, key⟩
    rw [mem_ledger_writeBatch hwrite, h.mem_ledger]
  · funext userId
    by_cases hu : userId = device.userId
    · subst hu
      funext hour
      rw [hours_writeBatch hwrite, h.hours]
    · rw [(tombstones_writeBatch_of_ne hwrite hu).2.2, (h.others hu).2.2]
  · rw [tombstoneKey_writeBatch hwrite, h.tombstoneKey]

/-- The tombstones are the same if they are active alike. -/
theorem WrittenAlone.tombstones_iff (h : WrittenAlone now device db accepted each)
    (hwrite : writeBatch now device accepted lastSeq db = some whole) :
    (∀ userId key, (whole.tombstones userId key).map (fun row => (row.active, row.orderingKey)) =
        (each.tombstones userId key).map fun row => (row.active, row.orderingKey)) ↔
      ∀ key, whole.tombstoned device.userId key = each.tombstoned device.userId key := by
  constructor
  · intro hsame key
    have hmap := congrArg (Option.map Prod.fst) (hsame device.userId key)
    rw [Option.map_map, Option.map_map] at hmap
    exact congrArg (Option.getD · false) hmap
  · intro hsame userId key
    by_cases hu : userId = device.userId
    · subst hu
      have hkey := (h.sameTables hwrite).2.2.2 key
      have hactive := hsame key
      rw [Db.tombstoneKey, Db.tombstoneKey] at hkey
      rw [Db.tombstoned, Db.tombstoned] at hactive
      rcases hw : whole.tombstones device.userId key with _ | row <;>
        rcases he : each.tombstones device.userId key with _ | row' <;>
        simp_all
    · rw [(tombstones_writeBatch_of_ne hwrite hu).1, (h.others hu).1]

/-- **The tombstones agree** if no object is deleted after its last restore. -/
theorem WrittenAlone.tombstoned_iff (h : WrittenAlone now device db accepted each)
    (hwrite : writeBatch now device accepted lastSeq db = some whole)
    (hsorted : accepted.Pairwise fun a b => a.deviceSequence < b.deviceSequence) :
    (∀ key, whole.tombstoned device.userId key = each.tombstoned device.userId key) ↔
      EndsRestored accepted := by
  rw [← @activeAfter_agrees_iff accepted device.deviceId
    (fun key => loadActiveTombstones db device.userId key) hsorted]
  refine forall_congr' fun key => ?_
  rw [tombstoned_eq whole, loadActiveTombstones_writeBatch hwrite, if_pos rfl, h.tombstoned,
    tombstoned_eq db]

/-- The live objects after the batch, if the tombstones agree. -/
theorem WrittenAlone.liveKeys_eq (h : WrittenAlone now device db accepted each)
    (hwrite : writeBatch now device accepted lastSeq db = some whole)
    (hsame : ∀ key, whole.tombstoned device.userId key = each.tombstoned device.userId key)
    {types : List ObjectType} (htypes : .historyVisit ∉ types) :
    whole.liveKeys device.userId types = db.liveAfter device.userId types accepted := by
  rw [← h.liveKeys htypes]
  ext key
  rw [mem_liveKeys, mem_liveKeys, (h.sameTables hwrite).2.1, hsame]

/-- A count that a batch and its operations leave alike. -/
theorem WrittenAlone.count_iff (h : WrittenAlone now device db accepted each)
    (hwrite : writeBatch now device accepted lastSeq db = some whole)
    (hknown : ∀ key, db.tombstoned device.userId key = true →
      (device.userId, key) ∈ db.syncObjects)
    (hsame : ∀ key, whole.tombstoned device.userId key = each.tombstoned device.userId key)
    {types : List ObjectType} (htypes : .historyVisit ∉ types) (count : Db → ℕ)
    (hcount : ∀ (ops : List OperationIn) (seq : ℤ) (t t' : Db),
      writeBatch now device ops seq t = some t' →
        count t' = (count t + (t.writesOf device.userId ops).liveDelta t device.userId types).toNat) :
    count whole = count each ↔ db.ClampsOnce device types (count db) accepted := by
  have htouched : ∀ op ∈ accepted, op.isTerminal = true ∨ op.isRestore = true →
      (device.userId, op.objectKey) ∈ whole.syncObjects := by
    intro op hop htouches
    rw [(h.sameTables hwrite).2.1]
    exact h.mem_ledger_of_not_isOrigination op hop (WrittenAlone.not_isOrigination_of_touches htouches)
  have hdelta : ((whole.liveKeys device.userId types).card : ℤ) = _ :=
    card_liveKeys_writeBatch hwrite hknown htouched
  rw [h.liveKeys_eq hwrite hsame htypes] at hdelta
  rw [hcount _ _ _ _ hwrite, h.count_eq_follow htypes hknown fun t t' op => hcount _ _ t t',
    ← follow_eq_iff_clampsOnce, hdelta, add_sub_cancel_left, eq_comm]

/-- **The counts agree** if clamping them in the middle of the batch loses nothing. -/
theorem WrittenAlone.stats_iff (h : WrittenAlone now device db accepted each)
    (hwrite : writeBatch now device accepted lastSeq db = some whole) (hne : accepted ≠ [])
    (hknown : ∀ key, db.tombstoned device.userId key = true →
      (device.userId, key) ∈ db.syncObjects)
    (hsame : ∀ key, whole.tombstoned device.userId key = each.tombstoned device.userId key) :
    whole.syncStats = each.syncStats ↔
      db.ClampsOnce device bookmarkTypes (db.bookmarkCount device.userId) accepted ∧
        db.ClampsOnce device tabTypes (db.tabCount device.userId) accepted := by
  have hbookmarks := h.count_iff hwrite hknown hsame
    (show ObjectType.historyVisit ∉ bookmarkTypes by decide)
    (fun s => s.bookmarkCount device.userId) fun ops seq t t' hw => by
      rw [Db.bookmarkCount, syncStats_writeBatch hw, bookmarkCount_addStats, Db.bookmarkCount]
  have htabs := h.count_iff hwrite hknown hsame
    (show ObjectType.historyVisit ∉ tabTypes by decide)
    (fun s => s.tabCount device.userId) fun ops seq t t' hw => by
      rw [Db.tabCount, syncStats_writeBatch hw, tabCount_addStats, Db.tabCount]
  rw [← hbookmarks, ← htabs]
  constructor
  · intro heq
    exact ⟨by rw [Db.bookmarkCount, heq, Db.bookmarkCount], by rw [Db.tabCount, heq, Db.tabCount]⟩
  · rintro ⟨hb, ht⟩
    funext userId
    by_cases hu : userId = device.userId
    · subst hu
      refine statsRow_ext ?_ hb ht ?_
      · rw [h.isSome_syncStats hne, syncStats_writeBatch hwrite,
          isSome_addStats _ _ (sum_payload_ne_zero hne)]
      · change whole.storageBytes device.userId = each.storageBytes device.userId
        rw [h.storageBytes, Db.storageBytes, syncStats_writeBatch hwrite, storageBytes_addStats,
          Db.storageBytes]
    · rw [(tombstones_writeBatch_of_ne hwrite hu).2.1, (h.others hu).2.1]

end Tables

end HelixSync
