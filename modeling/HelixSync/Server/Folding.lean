import HelixSync.Server.FullHistory

/-!
# What the fold of an object says

`flush_object_group` and `combine_object` (`server/src/sync/snapshot.rs`), with
`merge_bookmark_fields` (`server/src/sync/conflict.rs`), against what a reader wants of them:
each field of a plaintext bookmark is the one of the highest-key operation that sets it, and
any other object is its highest-key operation. The state an earlier fold left is one more
operation, below all the others.

The specification takes the greatest key of a list in any order
(`HelixSync.newestWith`); the code sorts the rows and keeps, payload after payload, the last
value it has seen. The two agree because in a sorted list the last payload that sets a field
is the one with the greatest key (`HelixSync.newestWith_of_sorted`).

Folding a part of the operations first, and the rest onto the result, is folding everything
(`HelixSync.combineObject_combineObject_whole`, `HelixSync.combineObject_combineObject_merge`), as
long as the part already has the fields a merge needs.
-/

namespace HelixSync

/-! ### The specification -/

/-- What is folded: the stored state, if there is one, and the operations, each with its key. -/
def contributions (base : Option SnapshotObject) (ops : List OperationRow) :
    List (OrderingKey × Json) :=
  (base.map fun b => (b.orderingKey, b.payload)).toList ++
    ops.map fun op => (op.orderingKey, op.payload)

/-- The payload with the greatest key, among those with a property. -/
def newestWith (sets : Json → Bool) (payloads : List (OrderingKey × Json)) : Option Json :=
  ((payloads.filter fun c => sets c.2).argmax Prod.fst).map Prod.snd

/-- The greatest key. -/
def greatestKey (payloads : List (OrderingKey × Json)) : Option OrderingKey :=
  (payloads.argmax Prod.fst).map Prod.fst

/-- A payload sets a field. -/
def setsField (name : String) (payload : Json) : Bool := (payload.get? name).isSome

/-- A payload sets the place of its object: a parent and a position. -/
def setsPlace (payload : Json) : Bool := setsField "parent" payload && setsField "position" payload

/-- The fields a merge is about. -/
def mergedNames : List String := ["title", "url", "parent", "position"]

/-- **What a field merge returns**: each field from the payload with the greatest key that sets
it, parent and position together, and any other field from the payload with the greatest key. -/
structure MergedFrom (payloads : List (OrderingKey × Json)) (payload : Json) : Prop where
  title : payload.get? "title" =
    (newestWith (setsField "title") payloads).bind fun p => p.get? "title"
  url : payload.get? "url" =
    some (((newestWith (setsField "url") payloads).bind fun p => p.get? "url").getD .null)
  parent : payload.get? "parent" = (newestWith setsPlace payloads).bind fun p => p.get? "parent"
  position : payload.get? "position" =
    (newestWith setsPlace payloads).bind fun p => p.get? "position"
  others : ∀ name, name ∉ mergedNames →
    payload.get? name = (newestWith (fun _ => true) payloads).bind fun p => p.get? name

/-! ### The greatest key of a sorted list -/

section Newest

variable {payloads : List (OrderingKey × Json)} {sets : Json → Bool} {c : OrderingKey × Json}

/-- What the greatest key is: any other payload with the property has a lower one. -/
theorem newestWith_eq_some (hc : c ∈ payloads) (hsets : sets c.2 = true)
    (h : ∀ c' ∈ payloads, sets c'.2 = true → c' = c ∨ c'.1 < c.1) :
    newestWith sets payloads = some c.2 := by
  have hmem : c ∈ payloads.filter fun c => sets c.2 := List.mem_filter.mpr ⟨hc, hsets⟩
  rcases hmax : (payloads.filter fun c => sets c.2).argmax Prod.fst with _ | m
  · rw [List.argmax_eq_none.mp hmax] at hmem
    exact absurd hmem List.not_mem_nil
  · obtain ⟨hm, hmsets⟩ := List.mem_filter.mp (List.argmax_mem hmax)
    rcases h m hm hmsets with rfl | hlt
    · rw [newestWith, hmax]
      rfl
    · exact absurd hlt (not_lt_of_ge (List.le_of_mem_argmax hmem hmax))

theorem newestWith_eq_none (h : ∀ c ∈ payloads, sets c.2 = false) :
    newestWith sets payloads = none := by
  rw [newestWith, List.filter_eq_nil_iff.mpr fun c hc => by simp [h c hc]]
  rfl

/-- **The last one of the sorted list is the greatest**, whatever order the payloads come in. -/
theorem newestWith_of_sorted {sorted : List (OrderingKey × Json)} (hperm : payloads.Perm sorted)
    (h : sorted.Pairwise fun a b => a.1 < b.1) :
    newestWith sets payloads = (sorted.filter fun c => sets c.2).getLast?.map Prod.snd := by
  rcases hlast : (sorted.filter fun c => sets c.2).getLast? with _ | c
  · rw [hlast]
    refine newestWith_eq_none fun c hc => ?_
    simpa using List.filter_eq_nil_iff.mp (List.getLast?_eq_none_iff.mp hlast) c (hperm.mem_iff.mp hc)
  · rw [hlast]
    obtain ⟨init, hinit⟩ := List.getLast?_eq_some_iff.mp hlast
    have hmem : c ∈ sorted.filter fun c => sets c.2 := by
      rw [hinit]
      exact List.mem_append_right _ (List.mem_singleton.mpr rfl)
    have hpair : (init ++ [c]).Pairwise fun a b => a.1 < b.1 := hinit ▸ h.filter _
    obtain ⟨hc, hsets⟩ := List.mem_filter.mp hmem
    refine newestWith_eq_some (hperm.mem_iff.mpr hc) hsets fun c' hc' hsets' => ?_
    have hmem' : c' ∈ init ++ [c] :=
      hinit ▸ List.mem_filter.mpr ⟨hperm.mem_iff.mp hc', hsets'⟩
    rcases List.mem_append.mp hmem' with hearlier | hlater
    · exact Or.inr ((List.pairwise_append.mp hpair).2.2 c' hearlier c (List.mem_singleton.mpr rfl))
    · exact Or.inl (List.mem_singleton.mp hlater)

theorem greatestKey_eq_some (hc : c ∈ payloads) (h : ∀ c' ∈ payloads, c'.1 ≤ c.1) :
    greatestKey payloads = some c.1 := by
  rcases hmax : payloads.argmax Prod.fst with _ | m
  · rw [List.argmax_eq_none.mp hmax] at hc
    exact absurd hc List.not_mem_nil
  · rw [greatestKey, hmax, Option.map_some]
    exact congrArg some (le_antisymm (h m (List.argmax_mem hmax)) (List.le_of_mem_argmax hc hmax))

end Newest

/-! ### What the merge finds -/

/-- The place a payload sets. -/
def placeOf (payload : Json) : Option (Json × Json) :=
  match payload.get? "parent", payload.get? "position" with
  | some parent, some position => some (parent, position)
  | _, _ => none

theorem isSome_placeOf (payload : Json) : (placeOf payload).isSome = setsPlace payload := by
  unfold placeOf setsPlace setsField
  rcases payload.get? "parent" with _ | parent <;> rcases payload.get? "position" with _ | position <;>
    rfl

/-- A value that each payload may replace ends as the last payload set it. -/
theorem foldl_orElse {α : Type} (value : Json → Option α) (payloads : List Json) (start : Option α) :
    payloads.foldl (fun held p => (value p).orElse fun _ => held) start =
      ((payloads.filter fun p => (value p).isSome).getLast?.bind value).orElse fun _ => start := by
  induction payloads using List.reverseRecOn with
  | nil => rfl
  | append_singleton payloads p ih =>
    rw [List.foldl_append, List.foldl_cons, List.foldl_nil, ih, List.filter_append]
    rcases hvalue : value p with _ | v
    · rw [List.filter_cons_of_neg (by simp [hvalue]), List.filter_nil, List.append_nil]
      rfl
    · rw [List.filter_cons_of_pos (by simp [hvalue]), List.filter_nil, List.getLast?_concat]
      simp [hvalue]

section Found

variable (payloads : List Json) (s : MergedFields)

theorem title_foldl_step : (payloads.foldl MergedFields.step s).title =
    payloads.foldl (fun held p => (p.get? "title").orElse fun _ => held) s.title := by
  induction payloads generalizing s with
  | nil => rfl
  | cons p payloads ih => exact ih (s.step p)

theorem url_foldl_step : (payloads.foldl MergedFields.step s).url =
    payloads.foldl (fun held p => (p.get? "url").orElse fun _ => held) s.url := by
  induction payloads generalizing s with
  | nil => rfl
  | cons p payloads ih => exact ih (s.step p)

theorem move_foldl_step : (payloads.foldl MergedFields.step s).move =
    payloads.foldl (fun held p => (placeOf p).orElse fun _ => held) s.move := by
  induction payloads generalizing s with
  | nil => rfl
  | cons p payloads ih =>
    rw [List.foldl_cons, List.foldl_cons, ih]
    congr 1
    simp only [MergedFields.step, placeOf]
    rcases p.get? "parent" with _ | parent <;> rcases p.get? "position" with _ | position <;> rfl

end Found

/-! ### One object -/

section Folding

variable {key : ObjectKey} {ops : List OperationRow} {base : Option SnapshotObject}

/-- The operations of the fold, as the code has them: sorted, after the stored state. -/
theorem pairwise_contributions (hkeys : (ops.map OperationRow.orderingKey).Nodup)
    (hbelow : ∀ b ∈ base, ∀ op ∈ ops, b.orderingKey < op.orderingKey) :
    (contributions base (sortByKey ops)).Pairwise fun a b => a.1 < b.1 := by
  have hnodup : ((sortByKey ops).map OperationRow.orderingKey).Nodup :=
    ((List.perm_insertionSort _ ops).map _).nodup_iff.mpr hkeys
  have hle : ((sortByKey ops).map OperationRow.orderingKey).Pairwise (· ≤ ·) :=
    List.pairwise_map.mpr (pairwise_sortByKey ops)
  have hsorted : ((sortByKey ops).map OperationRow.orderingKey).Pairwise (· < ·) :=
    (hle.and hnodup).imp fun h => lt_of_le_of_ne h.1 h.2
  rw [contributions, List.pairwise_append]
  refine ⟨?_, ?_, fun c hc c' hc' => ?_⟩
  · cases base <;> simp
  · rw [List.pairwise_map]
    exact (List.pairwise_map.mp hsorted).imp fun h => h
  · obtain ⟨op, hop, rfl⟩ := List.mem_map.mp hc'
    obtain ⟨b, hb, rfl⟩ : ∃ b ∈ base, (b.orderingKey, b.payload) = c := by simpa using hc
    exact hbelow b hb op (mem_sortByKey.mp hop)

theorem perm_contributions :
    (contributions base ops).Perm (contributions base (sortByKey ops)) :=
  ((List.perm_insertionSort _ ops).symm.map _).append_left _

theorem map_snd_contributions :
    (contributions base ops).map Prod.snd = historyPayloads base ops := by
  cases base <;> simp [contributions, historyPayloads]

/-- The greatest-key payload with a property is the last one with it, in the order the merge
reads them. -/
theorem newestWith_contributions (hkeys : (ops.map OperationRow.orderingKey).Nodup)
    (hbelow : ∀ b ∈ base, ∀ op ∈ ops, b.orderingKey < op.orderingKey) (sets : Json → Bool) :
    newestWith sets (contributions base ops) =
      ((historyPayloads base (sortByKey ops)).filter sets).getLast? := by
  rw [newestWith_of_sorted perm_contributions (pairwise_contributions hkeys hbelow),
    ← map_snd_contributions, List.filter_map, List.getLast?_map]
  rfl

theorem get?_insertField (fields : List (String × Json)) (name name' : String) (value : Json) :
    (Json.object (insertField fields name value)).get? name' =
      if name' = name then some value else (Json.object fields).get? name' :=
  lookup_insertField fields name name' value

/-- **The merge meets its specification.** -/
theorem mergedFrom_of_merge {merged : Json} (hkeys : (ops.map OperationRow.orderingKey).Nodup)
    (hbelow : ∀ b ∈ base, ∀ op ∈ ops, b.orderingKey < op.orderingKey)
    (h : mergeBookmarkFields (historyPayloads base (sortByKey ops)) = some merged) :
    MergedFrom (contributions base ops) merged := by
  have hnewest := fun sets => newestWith_contributions hkeys hbelow sets
  unfold mergeBookmarkFields at h
  dsimp only at h
  rw [title_foldl_step, url_foldl_step, move_foldl_step, foldl_orElse, foldl_orElse,
    foldl_orElse] at h
  -- the last payload that sets a field, as the specification names it
  have htitle : ((historyPayloads base (sortByKey ops)).filter fun p => (p.get? "title").isSome).getLast? =
      newestWith (setsField "title") (contributions base ops) := (hnewest (setsField "title")).symm
  have hurl : ((historyPayloads base (sortByKey ops)).filter fun p => (p.get? "url").isSome).getLast? =
      newestWith (setsField "url") (contributions base ops) := (hnewest (setsField "url")).symm
  have hplace : ((historyPayloads base (sortByKey ops)).filter fun p => (placeOf p).isSome).getLast? =
      newestWith setsPlace (contributions base ops) := by
    rw [hnewest setsPlace]
    congr 2
    funext p
    exact isSome_placeOf p
  have hall : (historyPayloads base (sortByKey ops)).getLast? =
      newestWith (fun _ => true) (contributions base ops) := by
    rw [hnewest fun _ => true, List.filter_true]
  rw [htitle, hurl, hplace, hall] at h
  rcases htop : (newestWith (setsField "title") (contributions base ops)).bind (fun p => p.get? "title")
    with _ | title
  · simp [htop] at h
  rcases hput : newestWith setsPlace (contributions base ops) with _ | place
  · simp [hput] at h
  rcases hmove : placeOf place with _ | ⟨parent, position⟩
  · simp [hput, hmove] at h
  have hfields : place.get? "parent" = some parent ∧ place.get? "position" = some position := by
    unfold placeOf at hmove
    split at hmove
    · rename_i parent' position' hparent hposition
      obtain ⟨rfl, rfl⟩ := Prod.mk.inj (Option.some.inj hmove)
      exact ⟨hparent, hposition⟩
    · exact absurd hmove (by simp)
  simp only [htop, hput, hmove, Option.bind_some, Option.orElse_some] at h
  obtain rfl := Option.some.inj h
  refine ⟨?_, ?_, ?_, ?_, fun name hname => ?_⟩
  · simp [get?_insertField, htop]
  · simp [get?_insertField]
  · simp [get?_insertField, hput, hfields.1]
  · simp [get?_insertField, hput, hfields.2]
  · simp only [mergedNames, List.mem_cons, List.not_mem_nil, or_false, not_or] at hname
    obtain ⟨h1, h2, h3, h4⟩ := hname
    simp only [get?_insertField, h1, h2, h3, h4, if_false]
    rcases newestWith (fun _ => true) (contributions base ops) with _ | p
    · rfl
    · cases p <;> rfl

/-! ### In two parts -/

/-- Operations that keys tell apart are sorted in one way. -/
theorem sortByKey_perm {ops' : List OperationRow} (hperm : ops.Perm ops')
    (hkeys : (ops.map OperationRow.orderingKey).Nodup) : sortByKey ops = sortByKey ops' := by
  refine List.Perm.eq_of_pairwise (fun a b ha hb hab hba => ?_) (pairwise_sortByKey ops)
    (pairwise_sortByKey ops') ?_
  · exact List.inj_on_of_nodup_map hkeys (mem_sortByKey.mp ha)
      (hperm.mem_iff.mpr (mem_sortByKey.mp hb)) (le_antisymm hab hba)
  · exact ((List.perm_insertionSort _ ops).trans hperm).trans (List.perm_insertionSort _ ops').symm

/-- A part that sets a title and a place gives the merge what it needs. -/
theorem exists_merge_historyPayloads (base : Option SnapshotObject)
    (h : carriesFields (ops.map OperationRow.payload) = true) :
    ∃ merged, mergeBookmarkFields (historyPayloads base (sortByKey ops)) = some merged := by
  refine exists_merge_iff.mpr ?_
  simp only [carriesFields, Bool.and_eq_true, List.any_eq_true, List.mem_map,
    exists_exists_and_eq_and] at h
  simp only [carriesFields, Bool.and_eq_true, List.any_eq_true, historyPayloads, List.mem_append,
    List.mem_map, mem_sortByKey]
  obtain ⟨⟨op, hop, htitle⟩, op', hop', hplace⟩ := h
  exact ⟨⟨_, Or.inr ⟨op, hop, rfl⟩, htitle⟩, _, Or.inr ⟨op', hop', rfl⟩, hplace⟩

theorem max?_perm {l l' : List ℤ} (h : l.Perm l') : l.max? = l'.max? := by
  rcases hmax : l'.max? with _ | m
  · rw [List.max?_eq_none_iff] at hmax ⊢
    exact (hmax ▸ h).eq_nil
  · obtain ⟨hmem, hle⟩ := List.max?_eq_some_iff.mp hmax
    exact List.max?_eq_some_iff.mpr ⟨h.mem_iff.mpr hmem, fun b hb => hle b (h.mem_iff.mp hb)⟩

/-- The history is merged field by field: all of it is plaintext, of a type with fields. -/
def MergesHistory (key : ObjectKey) (base : Option SnapshotObject) (ops : List OperationRow) : Prop :=
  (∀ op ∈ ops, op.encryptionVersion = 0) ∧ (∀ b ∈ base, b.encryptionVersion = 0) ∧
    key.1 ∈ fieldMergeObjectTypes

/-- The history is kept as a whole: all of it is encrypted, or its type has no fields. -/
def KeepsWhole (key : ObjectKey) (base : Option SnapshotObject) (ops : List OperationRow) : Prop :=
  (∀ op ∈ ops, op.encryptionVersion ≠ 0) ∧ (∀ b ∈ base, b.encryptionVersion ≠ 0) ∨
    key.1 ∉ fieldMergeObjectTypes

theorem KeepsWhole.mergesFields (h : KeepsWhole key base ops) (hne : ops ≠ []) :
    mergesFields key base (sortByKey ops) = false := by
  rw [Bool.eq_false_iff, Ne, mergesFields_iff]
  rintro ⟨hops, -, htype⟩
  rcases h with ⟨hencrypted, -⟩ | hother
  · obtain ⟨op, hop⟩ := List.exists_mem_of_ne_nil ops hne
    exact hencrypted op hop (hops op hop)
  · exact hother htype

theorem exists_combineObject (hne : ops ≠ []) :
    ∃ obj, combineObject key base (sortByKey ops) = some obj := by
  obtain ⟨newest, hlast⟩ := exists_newest hne
  rcases @combineObject_cases key base _ _ hlast with heq | ⟨-, merged, heq⟩
  · exact ⟨_, heq⟩
  · exact ⟨_, heq⟩

/-- What is folded onto a state below it has the key of the newest operation. -/
theorem orderingKey_of_fold {newest : OperationRow} {obj : SnapshotObject}
    (hlast : (sortByKey ops).getLast? = some newest)
    (hbelow : ∀ b ∈ base, ∀ op ∈ ops, b.orderingKey < op.orderingKey)
    (hobj : combineObject key base (sortByKey ops) = some obj) :
    obj.orderingKey = newest.orderingKey := by
  rcases @combineObject_cases key base _ _ hlast with heq | ⟨-, merged, heq⟩
  · rw [heq] at hobj
    obtain rfl := Option.some.inj hobj
    rfl
  · rw [heq] at hobj
    obtain rfl := Option.some.inj hobj
    change mergedKey base newest = newest.orderingKey
    rcases base with _ | b
    · rfl
    · exact max_eq_right (le_of_lt (hbelow b rfl newest (newest_spec hlast).1))

theorem mergedObject_congr {base' : Option SnapshotObject} {ops' : List OperationRow}
    {newest : OperationRow} {merged : Json} (hkey : mergedKey base newest = mergedKey base' newest)
    (htime : (ops.map OperationRow.createdAt ++ (base.map SnapshotObject.createdAt).toList).max? =
      (ops'.map OperationRow.createdAt ++ (base'.map SnapshotObject.createdAt).toList).max?) :
    mergedObject key base ops newest merged = mergedObject key base' ops' newest merged := by
  rw [mergedObject, mergedObject, hkey, htime]

section TwoParts

variable {pre rest : List OperationRow}

/-- **Whole objects in two parts.** -/
theorem combineObject_combineObject_whole (h : KeepsWhole key base (pre ++ rest)) (hpre : pre ≠ [])
    (hrest : rest ≠ []) (hlt : ∀ p ∈ pre, ∀ r ∈ rest, p.orderingKey < r.orderingKey) :
    combineObject key (combineObject key base (sortByKey pre)) (sortByKey rest) =
      combineObject key base (sortByKey (pre ++ rest)) := by
  obtain ⟨newest, hlast⟩ := exists_newest hrest
  obtain ⟨top, htop⟩ := exists_newest hpre
  have hmid : KeepsWhole key (combineObject key base (sortByKey pre)) rest := by
    rcases h with ⟨hencrypted, hbase⟩ | hother
    · have hwhole : KeepsWhole key base pre :=
        Or.inl ⟨fun op hop => hencrypted op (List.mem_append_left _ hop), hbase⟩
      refine Or.inl ⟨fun op hop => hencrypted op (List.mem_append_right _ hop), fun b hb => ?_⟩
      rw [combineObject_whole htop (hwhole.mergesFields hpre)] at hb
      obtain rfl := Option.some.inj hb
      exact hencrypted top (List.mem_append_left _ (newest_spec htop).1)
    · exact Or.inr hother
  have hlast' : (sortByKey (pre ++ rest)).getLast? = some newest := by
    rw [sortByKey_append fun r hr p hp => hlt p hp r hr, List.getLast?_append, hlast]
    rfl
  rw [combineObject_whole hlast (hmid.mergesFields hrest),
    combineObject_whole hlast' (h.mergesFields (by simp [hpre]))]

/-- **A field merge in two parts**: the first has a title and a place. -/
theorem combineObject_combineObject_merge (h : MergesHistory key base (pre ++ rest)) (hpre : pre ≠ [])
    (hrest : rest ≠ []) (hlt : ∀ p ∈ pre, ∀ r ∈ rest, p.orderingKey < r.orderingKey)
    (hcarries : carriesFields (pre.map OperationRow.payload) = true) :
    combineObject key (combineObject key base (sortByKey pre)) (sortByKey rest) =
      combineObject key base (sortByKey (pre ++ rest)) := by
  obtain ⟨hplain, hbase, htype⟩ := h
  obtain ⟨newest, hlast⟩ := exists_newest hrest
  obtain ⟨top, htop⟩ := exists_newest hpre
  have hsort : sortByKey (pre ++ rest) = sortByKey pre ++ sortByKey rest :=
    sortByKey_append fun r hr p hp => hlt p hp r hr
  have hlast' : (sortByKey (pre ++ rest)).getLast? = some newest := by
    rw [hsort, List.getLast?_append, hlast]
    rfl
  have hfirst : mergesFields key base (sortByKey pre) = true :=
    mergesFields_iff.mpr ⟨fun op hop => hplain op (List.mem_append_left _ hop), hbase, htype⟩
  obtain ⟨merged, hmerged⟩ := exists_merge_historyPayloads base hcarries
  have hmid := combineObject_merge htop hfirst hmerged
  have hsecond : mergesFields key (some (mergedObject key base (sortByKey pre) top merged))
      (sortByKey rest) = true := by
    refine mergesFields_iff.mpr ⟨fun op hop => hplain op (List.mem_append_right _ hop), ?_, htype⟩
    rintro b ⟨⟩
    rfl
  have hall : mergesFields key base (sortByKey (pre ++ rest)) = true :=
    mergesFields_iff.mpr ⟨hplain, hbase, htype⟩
  -- the payloads of the two parts, one after the other, are those of the whole
  have hpayloads : mergeBookmarkFields (historyPayloads
        (some (mergedObject key base (sortByKey pre) top merged)) (sortByKey rest)) =
      mergeBookmarkFields (historyPayloads base (sortByKey (pre ++ rest))) := by
    have happend := mergeBookmarkFields_append hmerged
      (show (sortByKey rest).map OperationRow.payload ≠ [] by simpa using hrest)
    rw [hsort, historyPayloads, historyPayloads, List.map_append, ← List.append_assoc]
    exact happend
  obtain ⟨whole, hwhole⟩ := @exists_merge_historyPayloads (pre ++ rest) base (by
    simp only [carriesFields, List.map_append, List.any_append, Bool.and_eq_true, Bool.or_eq_true]
    simp only [carriesFields, Bool.and_eq_true] at hcarries
    exact ⟨Or.inl hcarries.1, Or.inl hcarries.2⟩)
  rw [hmid, combineObject_merge hlast hsecond (hpayloads.trans hwhole),
    combineObject_merge hlast' hall hwhole]
  have hkey : mergedKey (some (mergedObject key base (sortByKey pre) top merged)) newest =
      mergedKey base newest := by
    have hle : top.orderingKey ≤ newest.orderingKey :=
      le_of_lt (hlt top (newest_spec htop).1 newest (newest_spec hlast).1)
    change max (mergedKey base top) newest.orderingKey = mergedKey base newest
    rcases base with _ | b
    · exact max_eq_right hle
    · rw [mergedKey, mergedKey, max_assoc, max_eq_right hle]
  have htime : ((sortByKey rest).map OperationRow.createdAt ++
        [(mergedObject key base (sortByKey pre) top merged).createdAt]).max? =
      ((sortByKey (pre ++ rest)).map OperationRow.createdAt ++
        (base.map SnapshotObject.createdAt).toList).max? := by
    obtain ⟨m, hm⟩ : ∃ m, ((sortByKey pre).map OperationRow.createdAt ++
        (base.map SnapshotObject.createdAt).toList).max? = some m := by
      refine Option.isSome_iff_exists.mp (List.isSome_max?_iff.mpr ?_)
      simp [hpre]
    have hcreated : (mergedObject key base (sortByKey pre) top merged).createdAt = m := by
      simp [mergedObject, hm]
    rw [hcreated, max?_append_max hm, hsort, List.map_append]
    refine max?_perm ?_
    rw [List.append_assoc, List.append_assoc]
    exact List.perm_append_comm.append_left _
  exact congrArg some (mergedObject_congr hkey htime)

end TwoParts

/-- **Folding meets its specification.** Operations of one object that keys tell apart, all
plaintext or all encrypted, are folded in any order of arrival onto a stored state of the same
kind, below all of them. The result has the greatest key. A plaintext bookmark with a title and
a place has each field from the greatest-key payload that sets it; an object that is kept as a
whole has the greatest-key payload. And folding a first part, by key, and then the rest gives
the same. -/
theorem folds_to_spec (key : ObjectKey) (objects : ObjectMap) (ops : List OperationRow)
    (hne : ops ≠ []) (hkeys : (ops.map OperationRow.orderingKey).Nodup)
    (hbelow : ∀ b ∈ objects.get key, ∀ op ∈ ops, b.orderingKey < op.orderingKey)
    (hkind : (∀ op ∈ ops, op.encryptionVersion = 0) ∧
        (∀ b ∈ objects.get key, b.encryptionVersion = 0) ∨
      (∀ op ∈ ops, op.encryptionVersion ≠ 0) ∧
        ∀ b ∈ objects.get key, b.encryptionVersion ≠ 0) :
    ∃ obj, (flushObjectGroup key ops objects).get key = some obj ∧
      greatestKey (contributions (objects.get key) ops) = some obj.orderingKey ∧
      (MergesHistory key (objects.get key) ops →
        carriesFields (historyPayloads (objects.get key) ops) = true →
        MergedFrom (contributions (objects.get key) ops) obj.payload) ∧
      (KeepsWhole key (objects.get key) ops →
        newestWith (fun _ => true) (contributions (objects.get key) ops) = some obj.payload) ∧
      ∀ pre rest, ops.Perm (pre ++ rest) → pre ≠ [] →
        (∀ p ∈ pre, ∀ r ∈ rest, p.orderingKey < r.orderingKey) →
        (MergesHistory key (objects.get key) ops →
          carriesFields (pre.map OperationRow.payload) = true) →
        (flushObjectGroup key rest (flushObjectGroup key pre objects)).get key = some obj := by
  obtain ⟨newest, hlast⟩ := exists_newest hne
  obtain ⟨hmem, hgreatest⟩ := newest_spec hlast
  obtain ⟨obj, hobj⟩ := @exists_combineObject key ops (objects.get key) hne
  have hget : ∀ (group : List OperationRow) (objects : ObjectMap),
      (flushObjectGroup key group objects).get key =
        combineObject key (objects.get key) (sortByKey group) := by
    intro group objects
    rw [get_flushObjectGroup, if_pos rfl]
  refine ⟨obj, (hget ops objects).trans hobj, ?_, fun hmerges hcarries => ?_, fun hwhole => ?_,
    fun pre rest hperm hpre hlt hcarries => ?_⟩
  · rw [orderingKey_of_fold hlast hbelow hobj]
    refine @greatestKey_eq_some _ (newest.orderingKey, newest.payload) ?_ fun c hc => ?_
    · exact List.mem_append_right _ (List.mem_map_of_mem hmem)
    · rcases List.mem_append.mp hc with hc | hc
      · obtain ⟨b, hb, rfl⟩ : ∃ b ∈ objects.get key, (b.orderingKey, b.payload) = c := by
          simpa using hc
        exact le_of_lt (hbelow b hb newest hmem)
      · obtain ⟨op, hop, rfl⟩ := List.mem_map.mp hc
        exact hgreatest op hop
  · obtain ⟨merged, hmerged⟩ := exists_merge_iff.mpr (show carriesFields
      (historyPayloads (objects.get key) (sortByKey ops)) = true by
        simpa [carriesFields, historyPayloads, mem_sortByKey] using hcarries)
    rw [combineObject_merge hlast (mergesFields_iff.mpr hmerges) hmerged] at hobj
    obtain rfl := Option.some.inj hobj
    exact mergedFrom_of_merge hkeys hbelow hmerged
  · rw [combineObject_whole hlast (hwhole.mergesFields hne)] at hobj
    obtain rfl := Option.some.inj hobj
    rw [newestWith_contributions hkeys hbelow, List.filter_true, historyPayloads,
      List.getLast?_append, List.getLast?_map, hlast]
    rfl
  · rw [hget, hget, ← hobj, sortByKey_perm hperm hkeys]
    by_cases hrest : rest = []
    · subst hrest
      rw [List.append_nil]
      rfl
    by_cases htype : key.1 ∈ fieldMergeObjectTypes
    · rcases hkind with ⟨hplain, hbase⟩ | ⟨hencrypted, hbase⟩
      · refine combineObject_combineObject_merge ⟨fun op hop => ?_, hbase, htype⟩ hpre hrest hlt
          (hcarries ⟨hplain, hbase, htype⟩)
        exact hplain op (hperm.mem_iff.mpr hop)
      · refine combineObject_combineObject_whole (Or.inl ⟨fun op hop => ?_, hbase⟩) hpre hrest hlt
        exact hencrypted op (hperm.mem_iff.mpr hop)
    · exact combineObject_combineObject_whole (Or.inr htype) hpre hrest hlt

end Folding

/-- A bookmark as a snapshot holds it. -/
def storedBookmark : SnapshotObject where
  objectType := .bookmark
  objectId := 50
  operationType := .create
  encryptionVersion := 0
  payload := .object [("title", .string "a"), ("url", .string "u"), ("parent", .string "p"),
    ("position", .string "m")]
  createdAt := 1
  visitCount := none
  lamportTimestamp := 1
  deviceId := 1
  operationId := 11

/-- A later operation on it. -/
def bookmarkRow (operationId : Uuid) (lamportTimestamp : ℤ) (operationType : OperationType)
    (payload : Json) : OperationRow where
  operationId := operationId
  userId := 9
  deviceId := 1
  deviceSequence := lamportTimestamp
  lamportTimestamp := lamportTimestamp
  serverCursor := 2
  objectType := .bookmark
  objectId := 50
  operationType := operationType
  encryptionVersion := 0
  payload := payload
  visitCount := none
  payloadBytes := 1
  createdAt := 2

/-- A rename, and a move with a lower key that arrives after it. -/
def renamedAndMoved : List OperationRow :=
  [bookmarkRow 13 5 .update (.object [("title", .string "b")]),
    bookmarkRow 12 3 .move (.object [("parent", .string "q"), ("position", .string "n")])]

theorem folds_to_spec_renamedAndMoved :
    ∃ obj, (flushObjectGroup (.bookmark, 50) renamedAndMoved
        (FinMap.empty.insert (.bookmark, 50) storedBookmark)).get (.bookmark, 50) = some obj ∧
      obj.orderingKey = ⟨5, 1, 13⟩ ∧ obj.payload.get? "title" = some (.string "b") ∧
      obj.payload.get? "url" = some (.string "u") ∧
      obj.payload.get? "parent" = some (.string "q") := by
  have hstored : (FinMap.empty.insert (.bookmark, 50) storedBookmark : ObjectMap).get (.bookmark, 50) =
      some storedBookmark := rfl
  obtain ⟨obj, hget, hkey, hmerged, -, -⟩ := folds_to_spec (.bookmark, 50)
    (FinMap.empty.insert (.bookmark, 50) storedBookmark) renamedAndMoved (by decide) (by decide)
    (by rw [hstored]; decide +kernel) (Or.inl ⟨by decide, by rw [hstored]; decide⟩)
  rw [hstored] at hkey hmerged
  have hfrom := hmerged ⟨by decide, by decide, by decide⟩ (by decide +kernel)
  exact ⟨obj, hget, (Option.some.inj hkey).symm.trans (by decide +kernel), hfrom.title, hfrom.url, hfrom.parent⟩

end HelixSync
