import HelixSync.Lib.SortAppend
import HelixSync.Server.Tombstones
import HelixSync.Server.Retention

/-!
# Snapshots and the full history

A rebuild starts from the latest snapshot and takes its entry for an object as the oldest
operation on it. The comment on `combine_object` says that this gives what the full history
gives, which is why old rows may be deleted. What the full history gives is
`HelixSync.fullObject`; the two are compared object by object, over the operations the
snapshot covers and those above it.

They differ when an operation above the snapshot has a lower key than one below it: it is
taken for the newer one (`HelixSync.Server.not_sameObjects`). They also differ when the
entry lacks what a later field merge needs: the fields of a plaintext bookmark that was
deleted when the snapshot was cut, or that never had a title and a place, or the fact that
some older operation was encrypted. `HelixSync.FitsSnapshot` excludes both, object by
object, and then what a reader gets does not depend on when snapshots were cut
(`HelixSync.Server.objects_eq_of_fits`).
-/

namespace HelixSync

/-! ### Field merges in two parts -/

/-- The same fields found, an unset `url` being the same as `null`. -/
def MergedFields.Same (s s' : MergedFields) : Prop :=
  s.title = s'.title ∧ s.url.getD .null = s'.url.getD .null ∧ s.move = s'.move

theorem MergedFields.Same.step {s s' : MergedFields} (h : s.Same s') (payload : Json) :
    (s.step payload).Same (s'.step payload) := by
  obtain ⟨htitle, hurl, hmove⟩ := h
  refine ⟨?_, ?_, ?_⟩
  · simp only [MergedFields.step, htitle]
  · simp only [MergedFields.step]
    cases payload.get? "url" with
    | none => exact hurl
    | some url => rfl
  · simp only [MergedFields.step, hmove]

theorem MergedFields.Same.foldl {s s' : MergedFields} (h : s.Same s') (payloads : List Json) :
    (payloads.foldl MergedFields.step s).Same (payloads.foldl MergedFields.step s') := by
  induction payloads generalizing s s' with
  | nil => exact h
  | cons payload payloads ih => exact ih (h.step payload)

theorem lookup_insertField (fields : List (String × Json)) (name name' : String) (value : Json) :
    (insertField fields name value).lookup name' =
      if name' = name then some value else fields.lookup name' := by
  have hfilter : ∀ n : String, (fields.filter fun field => field.1 ≠ name).lookup n =
      if n = name then none else fields.lookup n := by
    intro n
    induction fields with
    | nil => simp
    | cons field fields ih =>
      obtain ⟨k, v⟩ := field
      by_cases hk : k = name
      · simp only [hk, ne_eq, not_true_eq_false, decide_false, Bool.false_eq_true,
          not_false_eq_true, List.filter_cons_of_neg]
        rw [ih]
        by_cases hn : n = name
        · simp [hn]
        · have hbeq : (n == name) = false := by simpa using hn
          simp [hn, List.lookup_cons, hbeq]
      · rw [List.filter_cons_of_pos (by simpa using hk)]
        by_cases hn : n = k
        · subst hn
          simp [hk]
        · have hbeq : (n == k) = false := by simpa using hn
          rw [List.lookup_cons, List.lookup_cons, hbeq, ih]
  rw [insertField, List.lookup_append, hfilter]
  by_cases hn : name' = name
  · simp [hn]
  · have hbeq : (name' == name) = false := by simpa using hn
    simp [hn, List.lookup_cons, hbeq]

/-- The outcome of a merge reads the fields found up to `MergedFields.Same`, and the last
payload. -/
theorem mergeBookmarkFields_eq {payloads payloads' : List Json}
    (hfound : (payloads.foldl MergedFields.step ⟨none, none, none⟩).Same
      (payloads'.foldl MergedFields.step ⟨none, none, none⟩))
    (hlast : payloads.getLast? = payloads'.getLast?) :
    mergeBookmarkFields payloads = mergeBookmarkFields payloads' := by
  obtain ⟨htitle, hurl, hmove⟩ := hfound
  unfold mergeBookmarkFields
  dsimp only
  rw [htitle, hurl, hmove, hlast]

/-- **A merge in two parts**: the outcome of the first stands for its payloads. -/
theorem mergeBookmarkFields_append {payloads rest : List Json} {merged : Json}
    (h : mergeBookmarkFields payloads = some merged) (hrest : rest ≠ []) :
    mergeBookmarkFields (merged :: rest) = mergeBookmarkFields (payloads ++ rest) := by
  refine mergeBookmarkFields_eq ?_ ?_
  · rw [List.foldl_cons, List.foldl_append]
    refine MergedFields.Same.foldl ?_ rest
    unfold mergeBookmarkFields at h
    dsimp only at h
    rcases htitle : (payloads.foldl MergedFields.step ⟨none, none, none⟩).title with _ | title
    · rw [htitle] at h
      exact absurd h (by simp)
    rcases hmove : (payloads.foldl MergedFields.step ⟨none, none, none⟩).move with _ | ⟨parent, position⟩
    · rw [htitle, hmove] at h
      exact absurd h (by simp)
    rw [htitle, hmove] at h
    obtain rfl := Option.some.inj h
    refine ⟨?_, ?_, ?_⟩
    · simp [MergedFields.step, Json.get?, lookup_insertField, htitle]
    · simp [MergedFields.step, Json.get?, lookup_insertField]
    · simp [MergedFields.step, Json.get?, lookup_insertField, hmove]
  · obtain ⟨init, last, rfl⟩ := List.eq_nil_or_concat rest |>.resolve_left hrest
    rw [List.concat_eq_append, ← List.cons_append, ← List.append_assoc, List.getLast?_concat,
      List.getLast?_concat]

/-- The payloads carry a title, and a parent with a position. -/
def carriesFields (payloads : List Json) : Bool :=
  (payloads.any fun payload => (payload.get? "title").isSome) &&
    payloads.any fun payload => (payload.get? "parent").isSome && (payload.get? "position").isSome

theorem MergedFields.isSome_title_foldl {payloads : List Json} {s : MergedFields} :
    (payloads.foldl MergedFields.step s).title.isSome = true ↔
      s.title.isSome = true ∨ ∃ payload ∈ payloads, (payload.get? "title").isSome = true := by
  induction payloads generalizing s with
  | nil => simp
  | cons payload payloads ih =>
    simp only [List.foldl_cons, ih, MergedFields.step, List.mem_cons, exists_eq_or_imp]
    cases payload.get? "title" <;> simp

theorem MergedFields.isSome_move_foldl {payloads : List Json} {s : MergedFields} :
    (payloads.foldl MergedFields.step s).move.isSome = true ↔
      s.move.isSome = true ∨ ∃ payload ∈ payloads,
        (payload.get? "parent").isSome = true ∧ (payload.get? "position").isSome = true := by
  induction payloads generalizing s with
  | nil => simp
  | cons payload payloads ih =>
    simp only [List.foldl_cons, ih, MergedFields.step, List.mem_cons, exists_eq_or_imp]
    cases payload.get? "parent" <;> cases payload.get? "position" <;> simp

/-- A merge succeeds exactly if its payloads carry the fields it needs. -/
theorem exists_merge_iff {payloads : List Json} :
    (∃ merged, mergeBookmarkFields payloads = some merged) ↔ carriesFields payloads = true := by
  have htitle := @MergedFields.isSome_title_foldl payloads ⟨none, none, none⟩
  have hmove := @MergedFields.isSome_move_foldl payloads ⟨none, none, none⟩
  simp only [Option.isSome_none, Bool.false_eq_true, false_or] at htitle hmove
  simp only [carriesFields, Bool.and_eq_true, List.any_eq_true, ← htitle, ← hmove]
  unfold mergeBookmarkFields
  dsimp only
  rcases (payloads.foldl MergedFields.step ⟨none, none, none⟩).title with _ | title
  · simp
  · rcases (payloads.foldl MergedFields.step ⟨none, none, none⟩).move with _ | place
    · simp
    · simp

/-! ### One object -/

/-- What the full history of an object says of it. -/
def fullObject (key : ObjectKey) (rows : List OperationRow) : Option SnapshotObject :=
  combineObject key none (sortByKey rows)

/-- The newest rows are encrypted: those at or above some row. -/
def NewestEncrypted (rows : List OperationRow) : Prop :=
  ∃ row ∈ rows, ∀ r ∈ rows, row.orderingKey ≤ r.orderingKey → r.encryptionVersion ≠ 0

/-- The history of an object fits the snapshot that covers a part of it. Either one of the
two parts is empty, or the object has a tombstone at or above all of its operations. Or it
is not merged field by field, and some operation above the snapshot is newer than all those
below. Or it is, the snapshot has it with what the merge needs, and all operations above
the snapshot are newer. -/
def FitsSnapshot (key : ObjectKey) (held : Bool) (tombstone : Option OrderingKey)
    (covered above : List OperationRow) : Prop :=
  above = [] ∨ covered = [] ∨
  (∃ tomb ∈ tombstone, ∀ row ∈ covered ++ above, row.orderingKey ≤ tomb) ∨
  ((key.1 ∉ fieldMergeObjectTypes ∨ (∃ row ∈ above, row.encryptionVersion ≠ 0) ∨
      held = true ∧ NewestEncrypted covered) ∧
    ∃ row ∈ above, ∀ c ∈ covered, c.orderingKey < row.orderingKey) ∨
  (held = true ∧ (∀ c ∈ covered, c.encryptionVersion = 0) ∧
    (covered.length = 1 ∨ carriesFields (covered.map OperationRow.payload) = true) ∧
    ∀ row ∈ above, ∀ c ∈ covered, c.orderingKey < row.orderingKey)

instance (rows : List OperationRow) : Decidable (NewestEncrypted rows) :=
  inferInstanceAs (Decidable (∃ row ∈ rows, _))

instance (key : ObjectKey) (held : Bool) (tombstone : Option OrderingKey)
    (covered above : List OperationRow) :
    Decidable (FitsSnapshot key held tombstone covered above) :=
  have : Decidable (above = []) := decidable_of_iff (above.isEmpty = true) List.isEmpty_iff
  have : Decidable (covered = []) := decidable_of_iff (covered.isEmpty = true) List.isEmpty_iff
  inferInstanceAs (Decidable (_ ∨ _ ∨ _ ∨ _ ∨ _))

section Object

variable {key : ObjectKey} {rows covered above : List OperationRow} {base : Option SnapshotObject}

@[simp] theorem sortByKey_eq_nil_iff : sortByKey rows = [] ↔ rows = [] := by
  rw [← List.length_eq_zero_iff, sortByKey, List.length_insertionSort, List.length_eq_zero_iff]

theorem exists_newest (h : rows ≠ []) :
    ∃ newest, (sortByKey rows).getLast? = some newest := by
  rcases hlast : (sortByKey rows).getLast? with _ | newest
  · exact absurd (sortByKey_eq_nil_iff.mp (List.getLast?_eq_none_iff.mp hlast)) h
  · exact ⟨newest, rfl⟩

/-- An object that is not merged is its newest operation. -/
theorem combineObject_whole {newest : OperationRow}
    (hlast : (sortByKey rows).getLast? = some newest)
    (h : mergesFields key base (sortByKey rows) = false) :
    combineObject key base (sortByKey rows) = some (snapshotOf newest) := by
  unfold combineObject
  rw [hlast]
  dsimp only
  rw [if_neg (by simp [h])]

/-- A merged object is determined by its payloads, its times and its key. -/
theorem combineObject_merge {newest : OperationRow} {merged : Json}
    (hlast : (sortByKey rows).getLast? = some newest)
    (h : mergesFields key base (sortByKey rows) = true)
    (hmerge : mergeBookmarkFields (historyPayloads base (sortByKey rows)) = some merged) :
    combineObject key base (sortByKey rows) =
      some (mergedObject key base (sortByKey rows) newest merged) := by
  unfold combineObject
  rw [hlast]
  dsimp only
  rw [if_pos h, hmerge]

/-- **The key of what is rebuilt** is that of the entry or of one of the operations. -/
theorem orderingKey_combineObject {obj : SnapshotObject}
    (h : combineObject key base (sortByKey rows) = some obj) :
    (∃ b ∈ base, obj.orderingKey = b.orderingKey) ∨
      ∃ row ∈ rows, obj.orderingKey = row.orderingKey := by
  rcases hlast : (sortByKey rows).getLast? with _ | newest
  · rw [List.getLast?_eq_none_iff.mp hlast, combineObject_nil] at h
    exact Or.inl ⟨obj, h, rfl⟩
  · have hmem := (newest_spec hlast).1
    rcases @combineObject_cases key base _ _ hlast with heq | ⟨-, merged, heq⟩
    · rw [heq] at h
      obtain rfl := Option.some.inj h
      exact Or.inr ⟨newest, hmem, rfl⟩
    · rw [heq] at h
      obtain rfl := Option.some.inj h
      have hkey : (mergedObject key base (sortByKey rows) newest merged).orderingKey =
          mergedKey base newest := rfl
      rcases base with _ | b
      · exact Or.inr ⟨newest, hmem, hkey⟩
      · rw [hkey, mergedKey]
        rcases max_choice b.orderingKey newest.orderingKey with hmax | hmax
        · exact Or.inl ⟨b, rfl, hmax⟩
        · exact Or.inr ⟨newest, hmem, hmax⟩

theorem mergesFields_iff : mergesFields key base (sortByKey rows) = true ↔
    (∀ row ∈ rows, row.encryptionVersion = 0) ∧ (∀ b ∈ base, b.encryptionVersion = 0) ∧
      key.1 ∈ fieldMergeObjectTypes := by
  simp only [mergesFields, Bool.and_eq_true, List.all_eq_true, mem_sortByKey, beq_iff_eq,
    List.contains_eq_mem, decide_eq_true_eq, and_assoc]
  refine and_congr_right fun _ => and_congr_left fun _ => ?_
  cases base <;> simp

/-- The operations above a snapshot, if the newest is above all those below, are the only
ones an object that is not merged needs. -/
theorem fullObject_append_whole (hmerge : mergesFields key none (sortByKey (covered ++ above)) = false)
    (hbase : mergesFields key base (sortByKey above) = false)
    (hnewer : ∃ row ∈ above, ∀ c ∈ covered, c.orderingKey < row.orderingKey) :
    combineObject key base (sortByKey above) = fullObject key (covered ++ above) := by
  obtain ⟨row, hrow, hlt⟩ := hnewer
  obtain ⟨newest, hlast⟩ := exists_newest (List.ne_nil_of_mem hrow)
  have hle := (newest_spec hlast).2 row hrow
  have hlast' : (sortByKey (covered ++ above)).getLast? = some newest :=
    List.getLast?_insertionSort_append hlast fun c hc => le_of_lt (lt_of_lt_of_le (hlt c hc) hle)
  rw [combineObject_whole hlast hbase, fullObject, combineObject_whole hlast' hmerge]

theorem sortByKey_append (h : ∀ row ∈ above, ∀ c ∈ covered, c.orderingKey < row.orderingKey) :
    sortByKey (covered ++ above) = sortByKey covered ++ sortByKey above :=
  List.insertionSort_append_of_forall fun c hc row hrow => le_of_lt (h row hrow c hc)

theorem max?_append_max {l l' : List ℤ} {m : ℤ} (h : l.max? = some m) :
    (l' ++ [m]).max? = (l ++ l').max? := by
  obtain ⟨hmem, hle⟩ := List.max?_eq_some_iff.mp h
  rcases hmax : (l ++ l').max? with _ | top
  · rw [List.max?_eq_none_iff, List.append_eq_nil_iff] at hmax
    exact absurd hmem (by simp [hmax.1])
  · obtain ⟨htop, hall⟩ := List.max?_eq_some_iff.mp hmax
    refine List.max?_eq_some_iff.mpr ⟨?_, fun b hb => ?_⟩
    · rcases List.mem_append.mp htop with htop | htop
      · have heq : top = m := le_antisymm (hle top htop) (hall m (List.mem_append_left _ hmem))
        simp [heq]
      · exact List.mem_append_left _ htop
    · rcases List.mem_append.mp hb with hb | hb
      · exact hall b (List.mem_append_right _ hb)
      · rw [List.mem_singleton.mp hb]
        exact hall m (List.mem_append_left _ hmem)

/-- What an entry of a snapshot has to keep of the operations it stands for, for a later
field merge: their newest key, their latest time, no encryption, and payloads that merge to
the same. -/
structure StandsFor (obj : SnapshotObject) (rows : List OperationRow) : Prop where
  key : ∃ newest, (sortByKey rows).getLast? = some newest ∧ obj.orderingKey = newest.orderingKey
  time : ((sortByKey rows).map OperationRow.createdAt).max? = some obj.createdAt
  plain : obj.encryptionVersion = 0
  payload : ∀ rest, rest ≠ [] → mergeBookmarkFields (obj.payload :: rest) =
    mergeBookmarkFields ((sortByKey rows).map OperationRow.payload ++ rest)

/-- The entry of a plaintext object with its fields, or with a single operation. -/
theorem standsFor_fullObject {obj : SnapshotObject} (hfull : fullObject key covered = some obj)
    (hplain : ∀ c ∈ covered, c.encryptionVersion = 0) (htype : key.1 ∈ fieldMergeObjectTypes)
    (hfields : covered.length = 1 ∨ carriesFields (covered.map OperationRow.payload) = true) :
    StandsFor obj covered := by
  have hne : covered ≠ [] := by
    rintro rfl
    simp [fullObject, sortByKey] at hfull
  obtain ⟨newest, hlast⟩ := exists_newest hne
  have hmerges : mergesFields key none (sortByKey covered) = true :=
    mergesFields_iff.mpr ⟨hplain, by simp, htype⟩
  rcases hmerge : mergeBookmarkFields (historyPayloads none (sortByKey covered)) with _ | merged
  · -- no fields to merge, so the object has a single operation
    have hone : covered.length = 1 := by
      refine hfields.resolve_right fun hcarries => ?_
      have hsorted : carriesFields ((sortByKey covered).map OperationRow.payload) = true := by
        simpa [carriesFields, mem_sortByKey] using hcarries
      obtain ⟨m, hm⟩ := exists_merge_iff.mpr hsorted
      rw [historyPayloads, Option.map_none, Option.toList_none, List.nil_append] at hmerge
      rw [hmerge] at hm
      exact absurd hm (by simp)
    obtain ⟨c, rfl⟩ := List.length_eq_one_iff.mp hone
    have hobj : obj = snapshotOf c := by
      rw [fullObject, combineObject, hlast] at hfull
      dsimp only at hfull
      rw [if_pos hmerges, hmerge] at hfull
      obtain rfl : newest = c := by simpa [sortByKey] using hlast.symm
      exact (Option.some.inj hfull).symm
    subst hobj
    refine ⟨⟨c, by simp [sortByKey], rfl⟩, by simp [sortByKey, snapshotOf],
      hplain c (List.mem_singleton.mpr rfl), fun rest _ => ?_⟩
    simp [sortByKey, snapshotOf]
  · have hobj := combineObject_merge hlast hmerges hmerge
    rw [← fullObject, hfull] at hobj
    obtain rfl := Option.some.inj hobj
    refine ⟨⟨newest, hlast, rfl⟩, ?_, rfl, fun rest hrest => ?_⟩
    · have hsome : ((sortByKey covered).map OperationRow.createdAt).max?.isSome = true := by
        rw [List.isSome_max?_iff]
        simpa using hne
      obtain ⟨m, hm⟩ := Option.isSome_iff_exists.mp hsome
      simp [mergedObject, hm]
    · exact mergeBookmarkFields_append hmerge hrest

/-- **The entry of a snapshot in a field merge**: it stands for what it covers. -/
theorem fullObject_append_merge {obj : SnapshotObject} (hobj : StandsFor obj covered)
    (hcovered : ∀ c ∈ covered, c.encryptionVersion = 0)
    (habove : ∀ row ∈ above, row.encryptionVersion = 0) (htype : key.1 ∈ fieldMergeObjectTypes)
    (hne : above ≠ []) (hnewer : ∀ row ∈ above, ∀ c ∈ covered, c.orderingKey < row.orderingKey) :
    combineObject key (some obj) (sortByKey above) = fullObject key (covered ++ above) := by
  obtain ⟨newest, hlast⟩ := exists_newest hne
  obtain ⟨top, htop, hkey⟩ := hobj.key
  have hlt : top.orderingKey < newest.orderingKey :=
    hnewer newest (newest_spec hlast).1 top (newest_spec htop).1
  have hsort := sortByKey_append hnewer
  have hlast' : (sortByKey (covered ++ above)).getLast? = some newest := by
    rw [hsort, List.getLast?_append, hlast]
    rfl
  have hbase : mergesFields key (some obj) (sortByKey above) = true :=
    mergesFields_iff.mpr ⟨habove, by simp [hobj.plain], htype⟩
  have hfull : mergesFields key none (sortByKey (covered ++ above)) = true := by
    refine mergesFields_iff.mpr ⟨fun row hrow => ?_, by simp, htype⟩
    exact (List.mem_append.mp hrow).elim (hcovered row) (habove row)
  have hpayloads : mergeBookmarkFields (historyPayloads (some obj) (sortByKey above)) =
      mergeBookmarkFields (historyPayloads none (sortByKey (covered ++ above))) := by
    rw [hsort]
    simpa [historyPayloads] using hobj.payload ((sortByKey above).map OperationRow.payload)
      (by simpa using hne)
  rcases hmerge : mergeBookmarkFields (historyPayloads none (sortByKey (covered ++ above)))
    with _ | merged
  · rw [fullObject, combineObject, combineObject, hlast, hlast']
    dsimp only
    rw [if_pos hbase, if_pos hfull, hpayloads, hmerge]
  · rw [fullObject, combineObject_merge hlast hbase (hpayloads.trans hmerge),
      combineObject_merge hlast' hfull hmerge]
    have htime : ((sortByKey above).map OperationRow.createdAt ++ [obj.createdAt]).max? =
        ((sortByKey (covered ++ above)).map OperationRow.createdAt).max? := by
      rw [hsort, List.map_append]
      exact max?_append_max hobj.time
    have hmax : max obj.orderingKey newest.orderingKey = newest.orderingKey := by
      rw [hkey]
      exact max_eq_right (le_of_lt hlt)
    simp [mergedObject, mergedKey, hmax, htime]

/-- A tombstone at or above the key of an object hides it. -/
theorem filter_eq_none_of_le {tombstones : ObjectKey → Option OrderingKey} {tomb : OrderingKey}
    (htomb : tombstones key = some tomb) {object : Option SnapshotObject}
    (hle : ∀ obj ∈ object, obj.orderingKey ≤ tomb) :
    object.filter (survivesTombstone tombstones key) = none := by
  rw [Option.filter_eq_none_iff]
  intro obj hobj
  rw [survivesTombstone, htomb]
  have hnot : ¬tomb < obj.orderingKey := not_lt.mpr (hle obj hobj)
  split <;> simp [hnot]

/-- **An object whose history fits its snapshot** is rebuilt as its full history would be. -/
theorem filter_combineObject_of_fits {tombstones : ObjectKey → Option OrderingKey}
    (hbase : ∀ obj, base = some obj → fullObject key covered = some obj) (hne : above ≠ [])
    (hfits : FitsSnapshot key base.isSome (tombstones key) covered above) :
    (combineObject key base (sortByKey above)).filter (survivesTombstone tombstones key) =
      (fullObject key (covered ++ above)).filter (survivesTombstone tombstones key) := by
  rcases hfits with hnil | rfl | ⟨tomb, htomb, hle⟩ | ⟨hwhole, hnewer⟩ |
    ⟨hheld, hplain, hfields, hnewer⟩
  · exact absurd hnil hne
  · -- nothing is covered, so there is no entry
    have hnone : base = none := by
      rcases base with _ | obj
      · rfl
      · have hcon := hbase obj rfl
        simp [fullObject, sortByKey] at hcon
    rw [hnone]
    rfl
  · have hfull : ∀ rows obj, fullObject key rows = some obj → (∀ row ∈ rows, row.orderingKey ≤ tomb) →
        obj.orderingKey ≤ tomb := by
      intro rows obj hobj hrows
      rcases orderingKey_combineObject hobj with ⟨b, hb, -⟩ | ⟨row, hrow, heq⟩
      · exact absurd hb (by simp)
      · rw [heq]
        exact hrows row hrow
    rw [filter_eq_none_of_le htomb fun obj hobj => ?_, filter_eq_none_of_le htomb fun obj hobj => ?_]
    · exact hfull _ obj hobj hle
    · rcases orderingKey_combineObject hobj with ⟨b, hb, heq⟩ | ⟨row, hrow, heq⟩
      · rw [heq]
        exact hfull covered b (hbase b hb) fun row hrow => hle row (List.mem_append_left _ hrow)
      · rw [heq]
        exact hle row (List.mem_append_right _ hrow)
  · have hfullMerge : mergesFields key none (sortByKey (covered ++ above)) = false := by
      rw [← Bool.not_eq_true, mergesFields_iff]
      rintro ⟨hplain, -, htype⟩
      rcases hwhole with hne' | ⟨row, hrow, henc⟩ | ⟨-, row, hrow, hall⟩
      · exact hne' htype
      · exact henc (hplain row (List.mem_append_right _ hrow))
      · exact hall row hrow (le_refl _) (hplain row (List.mem_append_left _ hrow))
    have hbaseMerge : mergesFields key base (sortByKey above) = false := by
      rw [← Bool.not_eq_true, mergesFields_iff]
      rintro ⟨hplain, hentry, htype⟩
      rcases hwhole with hne' | ⟨row, hrow, henc⟩ | ⟨hheld, row, hrow, hall⟩
      · exact hne' htype
      · exact henc (hplain row hrow)
      · -- the entry is the newest covered operation, which is encrypted
        obtain ⟨obj, rfl⟩ := Option.isSome_iff_exists.mp hheld
        obtain ⟨newest, hlast⟩ := exists_newest (List.ne_nil_of_mem hrow)
        have hcovered : mergesFields key none (sortByKey covered) = false := by
          rw [← Bool.not_eq_true, mergesFields_iff]
          rintro ⟨hplain', -, -⟩
          exact hall row hrow (le_refl _) (hplain' row hrow)
        have hobj := hbase obj rfl
        rw [fullObject, combineObject_whole hlast hcovered] at hobj
        obtain rfl := Option.some.inj hobj
        obtain ⟨hmem, hmax⟩ := newest_spec hlast
        exact hall newest hmem (hmax row hrow) (hentry _ rfl)
    rw [fullObject_append_whole hfullMerge hbaseMerge hnewer]
  · obtain ⟨obj, rfl⟩ := Option.isSome_iff_exists.mp hheld
    obtain ⟨row, hrow⟩ := List.exists_mem_of_ne_nil _ hne
    have hobj := hbase obj rfl
    by_cases htype : key.1 ∈ fieldMergeObjectTypes
    · have hstands := standsFor_fullObject hobj hplain htype hfields
      by_cases habove : ∀ r ∈ above, r.encryptionVersion = 0
      · rw [fullObject_append_merge hstands hplain habove htype hne hnewer]
      · rw [fullObject_append_whole _ _ ⟨row, hrow, hnewer row hrow⟩]
        · rw [← Bool.not_eq_true, mergesFields_iff]
          rintro ⟨hall, -⟩
          exact habove fun r hr => hall r (List.mem_append_right _ hr)
        · rw [← Bool.not_eq_true, mergesFields_iff]
          rintro ⟨hall, -⟩
          exact habove hall
    · rw [fullObject_append_whole _ _ ⟨row, hrow, hnewer row hrow⟩]
      · rw [← Bool.not_eq_true, mergesFields_iff]
        exact fun h => htype h.2.2
      · rw [← Bool.not_eq_true, mergesFields_iff]
        exact fun h => htype h.2.2

end Object

/-! ### The history of an object and the latest snapshot -/

namespace Server

/-- The operations ever accepted on an object. -/
def objectHistory (s : Server) (userId : Uuid) (key : ObjectKey) : List OperationRow :=
  (s.userHistory userId).filter fun row => row.objectKey = key

/-- Those the latest snapshot covers. -/
def covered (s : Server) (userId : Uuid) (key : ObjectKey) : List OperationRow :=
  (s.objectHistory userId key).filter fun row =>
    decide (row.serverCursor ≤ s.db.maxSnapshotCursor userId)

/-- Those above it, up to a ceiling. -/
def above (s : Server) (userId : Uuid) (ceiling : Option ℕ) (key : ObjectKey) :
    List OperationRow :=
  (s.objectHistory userId key).filter fun row =>
    decide (s.db.maxSnapshotCursor userId < row.serverCursor) && belowCeiling ceiling row.serverCursor

/-- The entry of an object in the latest snapshot. -/
def entry (s : Server) (userId : Uuid) (key : ObjectKey) : Option SnapshotObject :=
  (s.db.baseObjects userId none none).get key

/-- A ceiling at or above the latest snapshot. -/
def ReachesSnapshot (s : Server) (userId : Uuid) (ceiling : Option ℕ) : Prop :=
  ∀ boundary ∈ ceiling, s.db.maxSnapshotCursor userId ≤ boundary

variable {cfg : Config} {s s' : Server} {userId : Uuid} {key : ObjectKey} {ceiling : Option ℕ}

theorem WellFormed.objectHistory_pairwise (h : WellFormed s) (userId : Uuid) (key : ObjectKey) :
    (s.objectHistory userId key).Pairwise fun a b => a.serverCursor < b.serverCursor :=
  (h.userHistory_pairwise userId).filter _

/-- The covered operations and those above them, up to a ceiling. -/
theorem covered_append_above (h : WellFormed s) (hceiling : ReachesSnapshot s userId ceiling) :
    s.covered userId key ++ s.above userId ceiling key =
      (s.objectHistory userId key).filter fun row => belowCeiling ceiling row.serverCursor := by
  rw [covered, above, (h.objectHistory_pairwise userId key).filter_append_filter]
  refine List.filter_congr fun row _ => ?_
  rcases ceiling with _ | boundary
  · simp [belowCeiling]
  · have hle := hceiling boundary rfl
    simp only [belowCeiling]
    by_cases hrow : row.serverCursor ≤ s.db.maxSnapshotCursor userId
    · simp [hrow, le_trans hrow hle]
    · simp [hrow]

theorem covered_append_above_none (h : WellFormed s) :
    s.covered userId key ++ s.above userId none key = s.objectHistory userId key := by
  rw [covered_append_above h (by simp [ReachesSnapshot])]
  simp [belowCeiling]

/-- The latest snapshot is the base of a rebuild whose ceiling reaches it. -/
theorem baseSnapshot?_spec (hceiling : ReachesSnapshot s userId ceiling) :
    s.db.baseSnapshot? userId ceiling = s.db.baseSnapshot? userId none ∧
      ((s.db.baseSnapshot? userId none = none ∧ s.db.maxSnapshotCursor userId = 0) ∨
        ∃ snap ∈ s.db.syncSnapshots, s.db.baseSnapshot? userId none = some snap ∧
          snap.userId = userId ∧ snap.snapshotCursor = s.db.maxSnapshotCursor userId) := by
  constructor
  · unfold Db.baseSnapshot?
    congr 1
    refine List.filter_congr fun snap hsnap => ?_
    by_cases hu : snap.userId = userId
    · have hle := le_maxSnapshotCursor hsnap hu
      rcases ceiling with _ | boundary
      · rfl
      · simp [hu, belowCeiling, le_trans hle (hceiling boundary rfl)]
    · simp [hu]
  · rcases hbase : s.db.baseSnapshot? userId none with _ | snap
    · refine Or.inl ⟨rfl, ?_⟩
      rw [← Nat.le_zero, maxSnapshotCursor_le_iff]
      intro snap hsnap hu
      have hnil := List.argmax_eq_none.mp hbase
      rw [List.filter_eq_nil_iff] at hnil
      exact absurd (hnil snap hsnap) (by simp [hu, belowCeiling])
    · have hmem := List.argmax_mem (Option.mem_def.mpr hbase)
      simp only [List.mem_filter, belowCeiling, and_true, decide_eq_true_eq] at hmem
      refine Or.inr ⟨snap, hmem.1, rfl, hmem.2, le_antisymm (le_maxSnapshotCursor hmem.1 hmem.2) ?_⟩
      refine maxSnapshotCursor_le_iff.mpr fun snap' hsnap' hu' => ?_
      refine List.le_of_mem_argmax ?_ (Option.mem_def.mpr hbase)
      simp [hsnap', hu', belowCeiling]

theorem baseCursor_eq (hceiling : ReachesSnapshot s userId ceiling) :
    s.db.baseCursor userId ceiling = s.db.maxSnapshotCursor userId := by
  obtain ⟨heq, hbase⟩ := baseSnapshot?_spec hceiling
  rw [Db.baseCursor, heq]
  rcases hbase with ⟨hnone, hzero⟩ | ⟨snap, -, hsnap, -, hcursor⟩
  · rw [hnone, hzero]
    rfl
  · rw [hsnap]
    exact hcursor

/-- The rows a rebuild reads for an object are those of the history above the snapshot. -/
theorem filter_newRows (hwf : WellFormed s) (hret : Retained s)
    (hceiling : ReachesSnapshot s userId ceiling) :
    (s.db.newRows userId ceiling none).filter (fun row => row.objectKey = key) =
      s.above userId ceiling key := by
  have hnodup : s.history.Nodup := by
    refine hwf.sequences.imp fun {a b} hlt hab => ?_
    subst hab
    exact absurd (hlt rfl) (lt_irrefl _)
  rw [Db.newRows, baseCursor_eq hceiling, List.filter_filter, above, objectHistory, userHistory,
    List.filter_filter, List.filter_filter,
    hwf.log.filter_eq_of_forall hnodup]
  · refine List.filter_congr fun row _ => ?_
    simp only [insideRetention]
    by_cases hu : row.userId = userId <;> by_cases hk : row.objectKey = key <;> simp [hu, hk]
  · intro row hrow hp
    simp only [Bool.and_eq_true, decide_eq_true_eq, insideRetention, and_true] at hp
    refine hret.kept row hrow ?_
    rw [hp.2.1]
    exact hp.2.2.1

/-- **What is rebuilt for an object**: its entry and its operations above the snapshot. -/
theorem get_computeObjects_eq (hwf : WellFormed s) (hret : Retained s)
    (hceiling : ReachesSnapshot s userId ceiling) :
    (computeObjects s.db userId ceiling none).2.get key =
      combineObject key (s.entry userId key) (sortByKey (s.above userId ceiling key)) := by
  have hentry : (s.db.baseObjects userId ceiling none).get key = s.entry userId key := by
    rw [entry, Db.baseObjects, Db.baseObjects, (baseSnapshot?_spec hceiling).1]
  rw [get_computeObjects, filter_newRows hwf hret hceiling, hentry]
  rcases combineObject key (s.entry userId key) (sortByKey (s.above userId ceiling key)) with _ | obj
  · rfl
  · rfl

/-! ### The invariant -/

/-- History is kept without limit. -/
def UnlimitedRetention (db : Db) (userId : Uuid) : Prop :=
  ∀ time, historyRetentionCutoff time db userId = none

/-- Retention takes nothing from what is rebuilt for a user. -/
def SparedByRetention (db : Db) (userId : Uuid) : Prop :=
  ∀ time ceiling, (computeObjects db userId ceiling (historyRetentionCutoff time db userId)).2 =
    (computeObjects db userId ceiling none).2

theorem UnlimitedRetention.spared {db : Db} {userId : Uuid} (h : UnlimitedRetention db userId) :
    SparedByRetention db userId := fun time _ => by rw [h time]

/-- The objects of a user fit the latest snapshot, up to a ceiling. -/
def Fits (s : Server) (userId : Uuid) (ceiling : Option ℕ) : Prop :=
  ∀ row ∈ s.userHistory userId,
    FitsSnapshot row.objectKey (s.entry userId row.objectKey).isSome
      (loadActiveTombstones s.db userId row.objectKey) (s.covered userId row.objectKey)
      (s.above userId ceiling row.objectKey)

/-- A snapshot of the user is cut only where the objects fit the one before. -/
def CommitsFit (userId : Uuid) (s : Server) : Event → Prop
  | .commitSnapshot index => ∀ r ∈ s.rebuilds[index]?, r.1 = userId → s.Fits userId (some r.2)
  | _ => True

instance (s : Server) (userId : Uuid) (ceiling : Option ℕ) : Decidable (s.Fits userId ceiling) :=
  List.decidableBAll _ _

instance decidableCommitsFit (userId : Uuid) (s : Server) :
    ∀ e, Decidable (CommitsFit userId s e)
  | .commitSnapshot index => inferInstanceAs
      (Decidable (∀ r ∈ s.rebuilds[index]?, r.1 = userId → s.Fits userId (some r.2)))
  | .tick _ | .register _ _ | .touch _ | .revoke _ | .upload _ _ | .compact _
  | .pruneChunk _ | .dropRebuild _ | .dropPrune _ | .downloadBounds _ _ | .downloadPage _
  | .downloadRows _ | .dropDownload _ => inferInstanceAs (Decidable True)

/-- What a snapshot at the latest cursor says of an object: what its covered history says,
or nothing, and then the object is not live unless something happened to it since. -/
structure Faithful (s : Server) (userId : Uuid) : Prop where
  entries : ∀ snap ∈ s.db.syncSnapshots, snap.userId = userId →
    snap.snapshotCursor = s.db.maxSnapshotCursor userId →
    ∀ key obj, snap.data.get key = some obj → fullObject key (s.covered userId key) = some obj
  dropped : ∀ snap ∈ s.db.syncSnapshots, snap.userId = userId →
    snap.snapshotCursor = s.db.maxSnapshotCursor userId →
    ∀ key, snap.data.get key = none → s.above userId none key = [] →
      (fullObject key (s.covered userId key)).filter
        (survivesTombstone (loadActiveTombstones s.db userId) key) = none

theorem mem_objectHistory {row : OperationRow} :
    row ∈ s.objectHistory userId key ↔ row ∈ s.userHistory userId ∧ row.objectKey = key := by
  simp [objectHistory]

theorem fitsSnapshot_of_fits (h : s.Fits userId ceiling) (hne : s.above userId ceiling key ≠ []) :
    FitsSnapshot key (s.entry userId key).isSome (loadActiveTombstones s.db userId key)
      (s.covered userId key) (s.above userId ceiling key) := by
  obtain ⟨row, hrow⟩ := List.exists_mem_of_ne_nil _ hne
  obtain ⟨hmem, rfl⟩ := mem_objectHistory.mp (List.mem_filter.mp hrow).1
  exact h row hmem

namespace Faithful

/-- The invariant, for the entry a rebuild starts from. -/
theorem entry_spec (h : Faithful s userId) (hwf : WellFormed s) (key : ObjectKey) :
    (∀ obj, s.entry userId key = some obj → fullObject key (s.covered userId key) = some obj) ∧
      (s.entry userId key = none → s.above userId none key = [] →
        (fullObject key (s.covered userId key)).filter
          (survivesTombstone (loadActiveTombstones s.db userId) key) = none) := by
  have hreach : ReachesSnapshot s userId none := by simp [ReachesSnapshot]
  rcases (baseSnapshot?_spec hreach).2 with ⟨hnone, hzero⟩ | ⟨snap, hsnap, hbase, hu, hcursor⟩
  · have hentry : s.entry userId key = none := by
      rw [entry, Db.baseObjects, hnone]
      rfl
    have hnil : s.covered userId key = [] := by
      rw [covered, List.filter_eq_nil_iff]
      intro row hrow
      have hpos := (hwf.cursor_mem (mem_userHistory.mp (mem_objectHistory.mp hrow).1).1).1
      rw [hzero]
      simp only [decide_eq_true_eq]
      omega
    rw [hentry, hnil]
    exact ⟨fun _ hcon => absurd hcon (by simp), fun _ _ => rfl⟩
  · have hentry : s.entry userId key = snap.data.get key := by
      rw [entry, Db.baseObjects, hbase]
      change (snap.data.get key).filter _ = _
      rcases snap.data.get key with _ | obj
      · rfl
      · rfl
    rw [hentry]
    exact ⟨h.entries snap hsnap hu hcursor key, h.dropped snap hsnap hu hcursor key⟩

/-- **What a reader gets** of an object is what its full history says. -/
theorem filter_get_computeObjects (h : Faithful s userId) (hwf : WellFormed s) (hret : Retained s)
    (hfits : s.Fits userId none) (key : ObjectKey) :
    ((computeObjects s.db userId none none).2.get key).filter
        (survivesTombstone (loadActiveTombstones s.db userId) key) =
      (fullObject key (s.objectHistory userId key)).filter
        (survivesTombstone (loadActiveTombstones s.db userId) key) := by
  obtain ⟨hentries, hdropped⟩ := h.entry_spec hwf key
  rw [get_computeObjects_eq hwf hret (by simp [ReachesSnapshot]), ← covered_append_above_none hwf]
  by_cases hnil : s.above userId none key = []
  · rw [hnil, List.append_nil]
    rcases hentry : s.entry userId key with _ | obj
    · rw [hdropped hentry hnil]
      rfl
    · rw [hentries obj hentry]
      rfl
  · exact filter_combineObject_of_fits hentries hnil (fitsSnapshot_of_fits hfits hnil)

/-- It depends on the history, the latest snapshot and the tombstones. -/
theorem of_same (h : Faithful s userId) (hbatches : s'.batches = s.batches)
    (hsnapshots : s'.db.syncSnapshots = s.db.syncSnapshots)
    (htombstones : s'.db.tombstones = s.db.tombstones) : Faithful s' userId := by
  have hmax := maxSnapshotCursor_congr hsnapshots userId
  have hcovered : ∀ key, s'.covered userId key = s.covered userId key := by
    intro key
    rw [covered, covered, hmax, objectHistory, objectHistory, userHistory, userHistory, history,
      history, hbatches]
  have habove : ∀ key, s'.above userId none key = s.above userId none key := by
    intro key
    rw [above, above, hmax, objectHistory, objectHistory, userHistory, userHistory, history,
      history, hbatches]
  have hload : loadActiveTombstones s'.db userId = loadActiveTombstones s.db userId := by
    funext key
    rw [loadActiveTombstones, loadActiveTombstones, htombstones]
  constructor
  · intro snap hsnap hu hcursor key
    rw [hcovered]
    exact h.entries snap (hsnapshots ▸ hsnap) hu (hcursor.trans hmax) key
  · intro snap hsnap hu hcursor key
    rw [hcovered, habove, hload]
    exact h.dropped snap (hsnapshots ▸ hsnap) hu (hcursor.trans hmax) key

/-- An upload. The rows it adds lie above the latest snapshot, and it moves the tombstones
of the objects it touches only. -/
theorem wrote {device : AuthenticatedDevice} {accepted : List OperationIn} {lastSeq : ℤ} {db' : Db}
    (h : Faithful s userId) (hwf : WellFormed s)
    (hwrite : writeBatch s.now device accepted lastSeq s.db = some db') :
    Faithful { s with
      db := db'
      batches := s.batches ++ [batchRows s.now device (s.db.currentCursor device.userId + 1)
        accepted] } userId := by
  set rows := batchRows s.now device (s.db.currentCursor device.userId + 1) accepted with hrows
  set s' : Server := { s with db := db', batches := s.batches ++ [rows] } with hs'
  have hsnapshots : s'.db.syncSnapshots = s.db.syncSnapshots := by
    obtain ⟨table, -, rfl⟩ := (writeBatch_eq_some_iff.mp hwrite).2
    rfl
  have hmax := maxSnapshotCursor_congr hsnapshots userId
  have hhistory : ∀ key, s'.objectHistory userId key = s.objectHistory userId key ++
      (rows.filter fun row => row.userId = userId).filter fun row => row.objectKey = key := by
    intro key
    simp [objectHistory, userHistory, history, hs']
  have hnew : ∀ row ∈ rows, row.userId = userId → s.db.maxSnapshotCursor userId < row.serverCursor := by
    intro row hrow hu
    have hlo := (cursor_of_mem_batchRows hrow).1
    have hle := hwf.maxSnapshotCursor_le userId
    rw [← userId_of_mem_batchRows hrow, hu] at hlo
    omega
  have hcovered : ∀ key, s'.covered userId key = s.covered userId key := by
    intro key
    have hnil : ((rows.filter fun row => row.userId = userId).filter fun row =>
        row.objectKey = key).filter (fun row =>
          decide (row.serverCursor ≤ s.db.maxSnapshotCursor userId)) = [] := by
      rw [List.filter_eq_nil_iff]
      intro row hrow
      simp only [List.mem_filter, decide_eq_true_eq] at hrow
      simpa using hnew row hrow.1.1 hrow.1.2
    rw [covered, hmax, hhistory, List.filter_append, hnil, List.append_nil, covered]
  constructor
  · intro snap hsnap hu hcursor key
    rw [hcovered]
    exact h.entries snap (hsnapshots ▸ hsnap) hu (hcursor.trans hmax) key
  · intro snap hsnap hu hcursor key hnone habove
    rw [above, hmax, hhistory, List.filter_append, List.append_eq_nil_iff] at habove
    have hdead := h.dropped snap (hsnapshots ▸ hsnap) hu (hcursor.trans hmax) key hnone habove.1
    have hload : loadActiveTombstones db' userId key = loadActiveTombstones s.db userId key := by
      rw [loadActiveTombstones_writeBatch hwrite]
      split
      · rename_i hdevice
        -- no operation of the batch is on this object
        have huntouched : ∀ op ∈ accepted, op.objectKey ≠ key := by
          intro op hop hk
          obtain ⟨cursor, hrow⟩ := @exists_of_mem_accepted s.now device
            (s.db.currentCursor device.userId + 1) _ op hop
          have hmem := List.filter_eq_nil_iff.mp habove.2 _ (List.mem_filter.mpr
            ⟨List.mem_filter.mpr ⟨hrow, decide_eq_true hdevice.symm⟩, decide_eq_true hk⟩)
          have hlt := hnew _ hrow hdevice.symm
          simp [belowCeiling, hlt] at hmem
        have hr : restoredIn accepted key = false := by
          rw [← Bool.not_eq_true, restoredIn_iff]
          rintro ⟨op, hop, -, hk⟩
          exact huntouched op hop hk
        have ht : lastTerminal? accepted key = none :=
          lastTerminal?_eq_none_iff.mpr fun op hop _ => huntouched op hop
        rw [activeAfter, hr, if_neg Bool.false_ne_true, ht]
      · rfl
    rw [hcovered, ← hdead]
    congr 1
    funext obj
    rw [survivesTombstone, survivesTombstone, hload]

/-- A commit. A new latest snapshot has what was rebuilt up to its boundary. -/
theorem committed {owner : Uuid} {boundary : ℕ} {db' : Db} (h : Faithful s userId)
    (hwf : WellFormed s) (hret : Retained s) (hspared : SparedByRetention s.db userId)
    (hfits : owner = userId → s.Fits userId (some boundary))
    (hcommit : HelixSync.commitSnapshot cfg s.now s.db owner boundary = some db')
    (rebuilds : List (Uuid × ℕ)) (prunes : List PrunePass) :
    Faithful { s with db := db', rebuilds := rebuilds, prunes := prunes } userId := by
  set s' : Server := { s with db := db', rebuilds := rebuilds, prunes := prunes } with hs'
  have hload : loadActiveTombstones db' userId = loadActiveTombstones s.db userId := by
    funext key
    rw [loadActiveTombstones, loadActiveTombstones, (commitSnapshot_frame hcommit).2.2.2.2.1]
  have hhistory : ∀ key, s'.objectHistory userId key = s.objectHistory userId key := fun _ => rfl
  have hmax := maxSnapshotCursor_commitSnapshot hcommit userId
  -- a snapshot that was there before, at the same latest cursor
  have hold : ∀ snap ∈ s.db.syncSnapshots, snap.userId = userId →
      snap.snapshotCursor = db'.maxSnapshotCursor userId →
      db'.maxSnapshotCursor userId = s.db.maxSnapshotCursor userId := by
    intro snap hsnap hu hcursor
    refine le_antisymm ?_ ?_
    · rw [← hcursor]
      exact le_maxSnapshotCursor hsnap hu
    · rw [hmax]
      split
      · exact le_max_left _ _
      · exact le_refl _
  have hsame : db'.maxSnapshotCursor userId = s.db.maxSnapshotCursor userId → ∀ key,
      s'.covered userId key = s.covered userId key ∧
        s'.above userId none key = s.above userId none key := by
    intro heq key
    rw [covered, covered, above, above, hhistory,
      show s'.db.maxSnapshotCursor userId = s.db.maxSnapshotCursor userId from heq]
    exact ⟨rfl, rfl⟩
  -- the new snapshot, at the latest cursor
  have hnewest : ∀ key, owner = userId → boundary = db'.maxSnapshotCursor userId →
      (snapshotObjects s.now s.db owner boundary).get key =
          (combineObject key (s.entry userId key)
            (sortByKey (s.above userId (some boundary) key))).filter
              (survivesTombstone (loadActiveTombstones s.db userId) key) ∧
        s'.covered userId key = s.covered userId key ++ s.above userId (some boundary) key := by
    intro key hu hb
    subst hu
    have hreach : ReachesSnapshot s owner (some boundary) := by
      rintro b ⟨rfl⟩
      rw [hb, hmax, if_pos rfl]
      exact le_max_left _ _
    refine ⟨?_, ?_⟩
    · rw [snapshotObjects, hspared, filterTombstoned, FinMap.get_retain,
        get_computeObjects_eq hwf hret hreach]
    · rw [covered_append_above hwf hreach, covered, hhistory]
      change List.filter (fun row : OperationRow =>
        decide (row.serverCursor ≤ db'.maxSnapshotCursor owner)) _ = _
      rw [← hb]
      rfl
  constructor
  · intro snap hsnap hu hcursor key obj hget
    rcases mem_syncSnapshots_commitSnapshot hcommit hsnap with hsnap | rfl
    · have heq := hold snap hsnap hu hcursor
      rw [(hsame heq key).1]
      exact h.entries snap hsnap hu (hcursor.trans heq) key obj hget
    · obtain ⟨hdata, hcovered⟩ := hnewest key hu hcursor
      obtain ⟨hentries, -⟩ := h.entry_spec hwf key
      change (snapshotObjects s.now s.db owner boundary).get key = some obj at hget
      rw [hdata] at hget
      rw [hcovered]
      by_cases hnil : s.above userId (some boundary) key = []
      · rw [hnil] at hget ⊢
        rw [List.append_nil]
        exact hentries obj (Option.filter_eq_some_iff.mp hget).1
      · rw [filter_combineObject_of_fits hentries hnil
          (fitsSnapshot_of_fits (hfits hu) hnil)] at hget
        exact (Option.filter_eq_some_iff.mp hget).1
  · intro snap hsnap hu hcursor key hget habove
    change (fullObject key (s'.covered userId key)).filter
      (survivesTombstone (loadActiveTombstones db' userId) key) = none
    rw [hload]
    rcases mem_syncSnapshots_commitSnapshot hcommit hsnap with hsnap | rfl
    · have heq := hold snap hsnap hu hcursor
      rw [(hsame heq key).1]
      rw [(hsame heq key).2] at habove
      exact h.dropped snap hsnap hu (hcursor.trans heq) key hget habove
    · obtain ⟨hdata, hcovered⟩ := hnewest key hu hcursor
      obtain ⟨hentries, hdropped⟩ := h.entry_spec hwf key
      change (snapshotObjects s.now s.db owner boundary).get key = none at hget
      rw [hdata] at hget
      rw [hcovered]
      by_cases hnil : s.above userId (some boundary) key = []
      · rw [hnil] at hget ⊢
        rw [List.append_nil]
        change (s.entry userId key).filter _ = none at hget
        rcases hentry : s.entry userId key with _ | obj
        · -- nothing lies above the old snapshot either
          refine hdropped hentry ?_
          have hall : s'.covered userId key ++ s'.above userId none key =
              s.covered userId key ++ s.above userId none key := by
            have hwf' : s'.objectHistory userId key = s.objectHistory userId key := rfl
            rw [covered_append_above_none hwf, ← hwf', covered, above]
            have hpair : (s'.objectHistory userId key).Pairwise fun a b =>
                a.serverCursor < b.serverCursor := hwf.objectHistory_pairwise userId key
            rw [hpair.filter_append_filter]
            simp [belowCeiling]
          rw [habove, hcovered, hnil, List.append_nil, List.append_nil] at hall
          exact (List.self_eq_append_right.mp hall)
        · rw [hentry] at hget
          rw [hentries obj hentry]
          exact hget
      · rw [← filter_combineObject_of_fits hentries hnil (fitsSnapshot_of_fits (hfits hu) hnil)]
        exact hget

end Faithful

/-- No event changes the settings. -/
theorem UnlimitedRetention.step (h : UnlimitedRetention s.db userId) (e : Event) :
    UnlimitedRetention (step cfg s e).db userId := by
  have hsettings : (Server.step cfg s e).db.userSettings = s.db.userSettings := by
    generalize hs : Server.step cfg s e = s'
    have hstep : Step cfg s e s' := hs ▸ step_spec e
    cases hstep with
    | quiet hq => exact hq.data.userSettings
    | wrote _ _ _ hwrite =>
      obtain ⟨table, -, rfl⟩ := (writeBatch_eq_some_iff.mp hwrite).2
      rfl
    | committed _ hcommit => exact (commitSnapshot_frame hcommit).2.2.2.2.2.2
    | idle | pruned => rfl
  intro time
  rw [historyRetentionCutoff, hsettings]
  exact h time

/-- What holds in every state of a run whose snapshots are cut where the objects fit. -/
structure Reached (s : Server) (userId : Uuid) : Prop where
  wellFormed : WellFormed s
  retained : Retained s
  faithful : Faithful s userId

namespace Reached

theorem start (settings : Uuid → Option UserSettings) (now : DateTime) (userId : Uuid) :
    Reached (Server.start settings now) userId where
  wellFormed := WellFormed.start settings now
  retained := Retained.start settings now
  faithful := by
    constructor
    · intro snap hsnap
      exact absurd hsnap List.not_mem_nil
    · intro snap hsnap
      exact absurd hsnap List.not_mem_nil

/-- **One event**, if a snapshot is cut only where the objects fit. -/
theorem step {e : Event} (h : Reached s userId) (hspared : SparedByRetention s.db userId)
    (hfit : CommitsFit userId s e) : Reached (step cfg s e) userId := by
  generalize hs : Server.step cfg s e = s'
  have hstep : Step cfg s e s' := hs ▸ step_spec e
  have hwf := h.wellFormed.step hstep
  have hret := h.retained.step hstep
  cases hstep with
  | quiet hq =>
    exact ⟨hwf, hret, h.faithful.of_same hq.batches hq.data.syncSnapshots hq.data.tombstones⟩
  | idle =>
    refine ⟨hwf, hret, ?_⟩
    have hhistory : ∀ key, objectHistory { s with batches := s.batches ++ [[]] } userId key =
        s.objectHistory userId key := by
      intro key
      simp [objectHistory, userHistory, history]
    constructor
    · intro snap hsnap hu hcursor key
      rw [covered, hhistory]
      exact h.faithful.entries snap hsnap hu hcursor key
    · intro snap hsnap hu hcursor key
      rw [covered, above, hhistory]
      exact h.faithful.dropped snap hsnap hu hcursor key
  | wrote _ _ _ hwrite => exact ⟨hwf, hret, h.faithful.wrote h.wellFormed hwrite⟩
  | committed hindex hcommit =>
    exact ⟨hwf, hret, h.faithful.committed h.wellFormed h.retained hspared
      (fun hu => hfit _ hindex hu) hcommit _ _⟩
  | pruned _ => exact ⟨hwf, hret, h.faithful.of_same rfl rfl rfl⟩

/-- **The objects of `/snapshot`** are those of the full history. -/
theorem get_snapshot (h : Reached s userId) (hspared : SparedByRetention s.db userId)
    (hfits : s.Fits userId none) (key : ObjectKey) :
    (snapshot s.now s.db userId).objects.get key =
      (fullObject key (s.objectHistory userId key)).filter
        (survivesTombstone (loadActiveTombstones s.db userId) key) := by
  rw [snapshot, hspared]
  exact h.faithful.filter_get_computeObjects h.wellFormed h.retained hfits key

end Reached

/-! ### Tombstones and the accepted batches -/

/-- The batches of one user, as their rows. -/
def userBatches (s : Server) (userId : Uuid) : List (List OperationRow) :=
  (s.batches.map fun rows => rows.filter fun row => row.userId = userId).filter
    fun rows => !rows.isEmpty

/-- The tombstone an object has after the rows of a batch. -/
def tombstoneAfter (key : ObjectKey) (old : Option OrderingKey) (rows : List OperationRow) :
    Option OrderingKey :=
  if rows.any fun row =>
      isRestoreOperation row.objectType row.operationType && row.objectKey == key then none
  else match (rows.filter fun row => row.isTerminal && row.objectKey == key).getLast? with
  | some row => some row.orderingKey
  | none => old

theorem userHistory_eq_flatten (s : Server) (userId : Uuid) :
    s.userHistory userId = (s.userBatches userId).flatten := by
  rw [userHistory, history, userBatches, List.filter_flatten]
  induction s.batches with
  | nil => rfl
  | cons rows batches ih =>
    rw [List.map_cons, List.flatten_cons, ih]
    by_cases hnil : (rows.filter fun row => decide (row.userId = userId)) = []
    · rw [hnil, List.filter_cons_of_neg (by simp)]
      rfl
    · rw [List.filter_cons_of_pos (by simpa using hnil), List.flatten_cons]

/-- A batch moves a tombstone as its rows say. -/
theorem tombstoneAfter_batchRows (now : DateTime) (device : AuthenticatedDevice) (start : ℕ)
    (accepted : List OperationIn) (key : ObjectKey) (old : Option OrderingKey) :
    tombstoneAfter key old (batchRows now device start accepted) =
      activeAfter device.deviceId accepted key old := by
  have hrestored : ((batchRows now device start accepted).any fun row =>
      isRestoreOperation row.objectType row.operationType && row.objectKey == key) =
        restoredIn accepted key := by
    induction accepted generalizing start with
    | nil => rfl
    | cons op ops ih =>
      rw [batchRows_cons, List.any_cons, ih, restoredIn, restoredIn, List.any_cons]
      rfl
  have hlast : (((batchRows now device start accepted).filter fun row =>
      row.isTerminal && row.objectKey == key).getLast?).map OperationRow.orderingKey =
        (lastTerminal? accepted key).map fun op => op.keyOf device.deviceId := by
    rw [lastTerminal?, ← List.getLast?_map, ← List.getLast?_map]
    congr 1
    clear hrestored
    induction accepted generalizing start with
    | nil => rfl
    | cons op ops ih =>
      have hop : ((operationRow now device start op).isTerminal &&
          (operationRow now device start op).objectKey == key) =
            (op.isTerminal && op.objectKey == key) := rfl
      rw [batchRows_cons, List.filter_cons, List.filter_cons, hop]
      split
      · rw [List.map_cons, List.map_cons, ih]
        rfl
      · exact ih _
  rw [tombstoneAfter, activeAfter, hrestored]
  split
  · rfl
  · rcases hterm : lastTerminal? accepted key with _ | op
    · rw [hterm, Option.map_none, Option.map_eq_none_iff] at hlast
      rw [hlast]
    · rw [hterm, Option.map_some] at hlast
      obtain ⟨row, hrow, hkey⟩ := Option.map_eq_some_iff.mp hlast
      rw [hrow]
      exact congrArg some hkey

/-- **The tombstones are determined by the batches.** -/
theorem loadActiveTombstones_eq_foldl (settings : Uuid → Option UserSettings) (now : DateTime)
    (events : List Event) (userId : Uuid) (key : ObjectKey) :
    loadActiveTombstones (run cfg (start settings now) events).db userId key =
      ((run cfg (start settings now) events).userBatches userId).foldl (tombstoneAfter key) none := by
  refine Runs.invariant (I := fun s : Server => loadActiveTombstones s.db userId key =
    (s.userBatches userId).foldl (tombstoneAfter key) none) (fun s e h => ?_) rfl events
  generalize hs : step cfg s e = s'
  have hstep : Step cfg s e s' := hs ▸ step_spec e
  cases hstep with
  | quiet hq =>
    rw [userBatches, hq.batches, loadActiveTombstones, hq.data.tombstones]
    exact h
  | idle =>
    rw [h, userBatches, userBatches]
    simp
  | @wrote device d ops db' hauth hd hne hwrite =>
    set accepted := s.db.accepts cfg s.now device d ops
    change loadActiveTombstones db' userId key = _
    rw [loadActiveTombstones_writeBatch hwrite, userBatches, List.map_append, List.filter_append,
      List.foldl_append, ← userBatches, ← h, List.map_singleton, filter_userId_batchRows]
    by_cases hu : userId = device.userId
    · have hnonempty : (!(batchRows s.now device (s.db.currentCursor device.userId + 1)
          accepted).isEmpty) = true := by
        rw [Bool.not_eq_true', List.isEmpty_eq_false_iff, ← List.length_pos_iff, length_batchRows,
          List.length_pos_iff]
        exact hne
      rw [if_pos hu, if_pos hu]
      simp only [List.filter_cons, hnonempty, if_true, List.filter_nil, List.foldl_cons,
        List.foldl_nil, tombstoneAfter_batchRows]
    · rw [if_neg hu, if_neg hu]
      rfl
  | committed _ hcommit =>
    rw [loadActiveTombstones, (commitSnapshot_frame hcommit).2.2.2.2.1]
    exact h
  | pruned _ => exact h

/-! ### What readers see -/

/-- **Compaction is invisible to readers**, in runs where snapshots are cut and read where
the objects fit the snapshot before: two runs with the same accepted batches of a user give
the same objects. -/
theorem objects_eq_of_fits (cfg : Config) (settings : Uuid → Option UserSettings) (now : DateTime)
    (userId : Uuid) (hunlimited : UnlimitedRetention (start settings now).db userId)
    (events events' : List Event)
    (hbatches : (run cfg (start settings now) events).userBatches userId =
      (run cfg (start settings now) events').userBatches userId)
    (hcommits : Runs.Meets (step cfg) (CommitsFit userId) (start settings now) events)
    (hcommits' : Runs.Meets (step cfg) (CommitsFit userId) (start settings now) events')
    (hfits : (run cfg (start settings now) events).Fits userId none)
    (hfits' : (run cfg (start settings now) events').Fits userId none) :
    (snapshot (run cfg (start settings now) events).now
        (run cfg (start settings now) events).db userId).objects =
      (snapshot (run cfg (start settings now) events').now
        (run cfg (start settings now) events').db userId).objects := by
  have hreached : ∀ es, Runs.Meets (step cfg) (CommitsFit userId) (start settings now) es →
      Reached (run cfg (start settings now) es) userId ∧
        UnlimitedRetention (run cfg (start settings now) es).db userId := fun es hes =>
    Runs.invariant_of_meets (I := fun s => Reached s userId ∧ UnlimitedRetention s.db userId)
      (fun _ e h he => ⟨h.1.step h.2.spared he, h.2.step e⟩) ⟨Reached.start settings now userId, hunlimited⟩ hes
  refine FinMap.ext_get fun key => ?_
  have hload : loadActiveTombstones (run cfg (start settings now) events).db userId =
      loadActiveTombstones (run cfg (start settings now) events').db userId := by
    funext k
    rw [loadActiveTombstones_eq_foldl, loadActiveTombstones_eq_foldl, hbatches]
  obtain ⟨hreached₁, hunlimited₁⟩ := hreached events hcommits
  obtain ⟨hreached₂, hunlimited₂⟩ := hreached events' hcommits'
  rw [hreached₁.get_snapshot hunlimited₁.spared hfits, hreached₂.get_snapshot hunlimited₂.spared hfits',
    objectHistory, objectHistory, userHistory_eq_flatten, userHistory_eq_flatten, hbatches, hload]

/-- Two devices, and time for neither to hold compaction back. -/
def twoDevices : List Event := [.register 1 9, .register 2 9, .tick (DateTime.seconds 60)]

/-- A pass of compaction, all three parts. -/
def compaction : List Event := [.compact 9, .commitSnapshot 0, .pruneChunk 0]

/-- A bookmark and a tab are created; later the bookmark is updated and the tab closed. -/
def createdThenChanged (between : List Event) : List Event :=
  twoDevices ++
    [.upload 1 [smallOp 11 1 1 .bookmark 50 .create, smallOp 12 2 2 .tab 60 .create]] ++ between ++
    [.upload 2 [smallOp 21 1 5 .bookmark 50 .update, smallOp 22 2 6 .tab 60 .close]]

theorem objects_eq_createdThenChanged :
    ((snapshot (run smallConfig smallStart (createdThenChanged compaction)).now
        (run smallConfig smallStart (createdThenChanged compaction)).db 9).objects.get
          (.bookmark, 50)).map SnapshotObject.lamportTimestamp = some 5 ∧
      (run smallConfig smallStart (createdThenChanged compaction)).db.syncOperations.rows.length = 2 ∧
      (snapshot (run smallConfig smallStart (createdThenChanged compaction)).now
          (run smallConfig smallStart (createdThenChanged compaction)).db 9).objects =
        (snapshot (run smallConfig smallStart (createdThenChanged [])).now
          (run smallConfig smallStart (createdThenChanged [])).db 9).objects :=
  ⟨by decide +kernel, by decide +kernel,
    objects_eq_of_fits smallConfig (fun _ => none) 0 9 (fun _ => rfl) (createdThenChanged compaction)
      (createdThenChanged []) rfl (by decide +kernel) (by decide +kernel) (by decide +kernel)
      (by decide +kernel)⟩

/-- A bookmark is created with a high Lamport timestamp, and then another device updates it
with a lower one. -/
def lateUpdate (between : List Event) : List Event :=
  twoDevices ++ [.upload 1 [smallOp 11 1 10 .bookmark 50 .create]] ++ between ++
    [.upload 2 [smallOp 21 1 5 .bookmark 50 .update]]

/-- Without compaction the create is returned, after a compaction the update. -/
theorem not_sameObjects :
    (run smallConfig smallStart (lateUpdate compaction)).userBatches 9 =
        (run smallConfig smallStart (lateUpdate [])).userBatches 9 ∧
      ((snapshot (run smallConfig smallStart (lateUpdate [])).now
        (run smallConfig smallStart (lateUpdate [])).db 9).objects.get (.bookmark, 50)).map
          SnapshotObject.operationType = some .create ∧
      ((snapshot (run smallConfig smallStart (lateUpdate compaction)).now
        (run smallConfig smallStart (lateUpdate compaction)).db 9).objects.get (.bookmark, 50)).map
          SnapshotObject.operationType = some .update ∧
      (snapshot (run smallConfig smallStart (lateUpdate compaction)).now
          (run smallConfig smallStart (lateUpdate compaction)).db 9).objects ≠
        (snapshot (run smallConfig smallStart (lateUpdate [])).now
          (run smallConfig smallStart (lateUpdate [])).db 9).objects := by
  have hplain : ((snapshot (run smallConfig smallStart (lateUpdate [])).now
      (run smallConfig smallStart (lateUpdate [])).db 9).objects.get (.bookmark, 50)).map
        SnapshotObject.operationType = some .create := by decide +kernel
  have hcompacted : ((snapshot (run smallConfig smallStart (lateUpdate compaction)).now
      (run smallConfig smallStart (lateUpdate compaction)).db 9).objects.get (.bookmark, 50)).map
        SnapshotObject.operationType = some .update := by decide +kernel
  refine ⟨rfl, hplain, hcompacted, fun heq => ?_⟩
  rw [heq, hplain] at hcompacted
  exact absurd hcompacted (by decide)

end Server

end HelixSync
