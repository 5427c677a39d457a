import HelixSync.Client.BulkHistory

/-!
# What the chunks of an import hold

Which visits are in which chunk is decided by the stream and the limits alone
(`HelixSync.Client.BulkScope.bulkPlan`), and `collectHistoryBulk` carries the plan out
(`HelixSync.Client.BulkScope.collectHistoryBulk_spec`): its chunks have the ids of their index
and are decoded into the visits the plan has for them.

A pass that starts from the checkpoint of `k` chunks has the plan of the whole import without
its first `k` chunks (`HelixSync.Client.BulkScope.bulkPlan_drop`). The visits are counted in
whole segments until the last, so skipping them ends at the beginning of a segment, and the
chunk that was being gathered when the import was interrupted is gathered anew.
-/

namespace HelixSync

namespace Client

open Cutting

/-- The visits of a stream. -/
def visitsOf (stream : List CollectedGroup) : List DecryptedEntry :=
  (itemsOf stream).map fun visit => ⟨visit.1.url, visit.1.title, visit.2⟩

theorem length_visitsOf (groups : List CollectedGroup) : (visitsOf groups).length = count groups := by
  rw [visitsOf, List.length_map, length_itemsOf]

/-- The segments of one chunk. -/
abbrev Segments := List (List CollectedGroup)

/-- The visits of a chunk. -/
def chunkVisits (segments : Segments) : List DecryptedEntry := segments.flatMap visitsOf

theorem length_chunkVisits (segments : Segments) :
    (chunkVisits segments).length = (segments.map count).sum := by
  induction segments with
  | nil => rfl
  | cons groups segments ih =>
    rw [chunkVisits, List.flatMap_cons, List.length_append, length_visitsOf, List.map_cons,
      List.sum_cons, ← ih, chunkVisits]

theorem chunkVisits_flatten (plan : List Segments) :
    chunkVisits plan.flatten = plan.flatMap chunkVisits := by
  induction plan with
  | nil => rfl
  | cons segments plan ih =>
    rw [List.flatten_cons, chunkVisits, List.flatMap_append, List.flatMap_cons, ← ih, chunkVisits,
      chunkVisits]

namespace BulkScope

variable (scope : BulkScope)

/-- Whether a segment is within the cap. -/
def fits (groups : List CollectedGroup) : Bool :=
  scope.cipher.sealedLength (scope.plaintextBytes groups) ≤ scope.limits.hardAbortBytes

/-- Whether a chunk of these segments is due. -/
def due (segments : Segments) : Bool :=
  scope.limits.chunkTargetBytes ≤
      (segments.map fun groups => scope.cipher.sealedLength (scope.plaintextBytes groups)).sum ||
    scope.limits.chunkTargetVisits ≤ (segments.map count).sum

/-- The segments of each chunk when `skip` visits are skipped, and whether the end is reached. -/
def bulkPlan (skip : ℕ) (stream : List CollectedGroup) : List Segments × Bool :=
  cutAll scope.due scope.fits
    (pieces scope.limits.segmentVisits (dropItems skip (visited stream)))

/-- The number of visits in the first `k` chunks. -/
def plannedVisits (stream : List CollectedGroup) (k : ℕ) : ℕ :=
  (((scope.bulkPlan 0 stream).1.take k).flatMap chunkVisits).length

variable {scope} {stream : List CollectedGroup}

theorem bulkPlan_zero (scope : BulkScope) (stream : List CollectedGroup) :
    scope.bulkPlan 0 stream =
      cutAll scope.due scope.fits (pieces scope.limits.segmentVisits (visited stream)) := by
  rw [bulkPlan, dropItems_zero fun g => items_ne_nil_of_mem_visited]

/-- **The plan of a resumed import** is the rest of the plan. -/
theorem bulkPlan_drop {k : ℕ} (hk : k ≤ (scope.bulkPlan 0 stream).1.length) :
    scope.bulkPlan (scope.plannedVisits stream k) stream =
      ((scope.bulkPlan 0 stream).1.drop k, (scope.bulkPlan 0 stream).2) := by
  have hnonempty : ∀ g ∈ visited stream, g.items ≠ [] := fun g => items_ne_nil_of_mem_visited
  have hpos := scope.limits.segmentVisits_pos
  have hvisits : scope.plannedVisits stream k =
      (chunkVisits ((scope.bulkPlan 0 stream).1.take k).flatten).length := by
    rw [plannedVisits, chunkVisits_flatten]
  rw [bulkPlan, hvisits]
  rw [bulkPlan_zero] at hk ⊢
  generalize hsegments : pieces scope.limits.segmentVisits (visited stream) = segments at hk ⊢
  -- the chunks that are done are the first segments
  have hleading : ((cutAll scope.due scope.fits segments).1.take k).flatten =
      segments.take ((cutAll scope.due scope.fits segments).1.take k).flatten.length := by
    obtain ⟨rest, hrest⟩ := List.take_prefix k (cutAll scope.due scope.fits segments).1
    have hfirst : ((cutAll scope.due scope.fits segments).1.take k).flatten <+:
        (cutAll scope.due scope.fits segments).1.flatten :=
      ⟨rest.flatten, by rw [← List.flatten_append, hrest]⟩
    exact List.prefix_iff_eq_take.mp (hfirst.trans (cutAll_isPrefix _ _ segments))
  have hlength : ((cutAll scope.due scope.fits segments).1.take k).flatten.length ≤
      segments.length := by
    rw [hleading, List.length_take]
    exact Nat.min_le_right _ _
  have hcount : (chunkVisits ((cutAll scope.due scope.fits segments).1.take k).flatten).length =
      min (((cutAll scope.due scope.fits segments).1.take k).flatten.length *
        scope.limits.segmentVisits) (count (visited stream)) := by
    have hfirst : ∀ j ≤ segments.length, ((segments.take j).map count).sum =
        min (j * scope.limits.segmentVisits) (count (visited stream)) := by
      subst hsegments
      exact fun j hj => count_take_pieces hpos (visited stream) hj
    rw [length_chunkVisits, ← hfirst _ hlength, ← hleading]
  rw [hcount, dropItems_min, pieces_drop hpos hnonempty, hsegments, cutAll_drop _ _ _ hk]

/-- A chunk with the ids of its index, which is decoded into the visits of these segments. -/
structure Carries (scope : BulkScope) (k : ℕ) (chunk : BulkChunk) (segments : Segments) : Prop where
  operationId : chunk.operationId = scope.operationId k
  objectId : chunk.objectId = scope.objectId k
  visitCount : chunk.container.visitCount = (chunkVisits segments).length
  decoded : forEachBulkVisit scope.cipher chunk.container.toJson chunk.objectId =
    chunkVisits segments

/-- Chunks with consecutive indices from `k` on, one for each entry of a plan. -/
def CarriesAll (scope : BulkScope) : ℕ → List BulkChunk → List Segments → Prop
  | _, [], [] => True
  | k, chunk :: chunks, segments :: plan =>
    scope.Carries k chunk segments ∧ scope.CarriesAll (k + 1) chunks plan
  | _, _, _ => False

/-- How `forEachBulkVisit` reads a segment of this import. -/
def readSegment (scope : BulkScope) (objectId : Uuid) (segment : Json) : List DecryptedEntry :=
  (decryptSegment scope.cipher segment (scope.codec == some "deflate-raw") objectId).getD []

theorem forEachBulkVisit_toJson (scope : BulkScope) (visitCount : ℕ) (segments : List Json)
    (objectId : Uuid) :
    forEachBulkVisit scope.cipher (BulkHistoryContainer.toJson ⟨scope.codec, visitCount, segments⟩)
      objectId = segments.flatMap (scope.readSegment objectId) := by
  have hcodec : ∀ codec : Option String,
      forEachBulkVisit scope.cipher (BulkHistoryContainer.toJson ⟨codec, visitCount, segments⟩)
        objectId = segments.flatMap fun segment =>
          (decryptSegment scope.cipher segment (codec == some "deflate-raw") objectId).getD [] := by
    intro codec
    rcases codec with _ | codec <;>
      simp [forEachBulkVisit, BulkHistoryContainer.toJson, Json.get?, List.lookup_cons]
  exact hcodec scope.codec

/-- **A segment is read back.** -/
theorem readSegment_encrypt (hlaw : scope.cipher.Lawful) (nonce : scope.cipher.Nonce)
    (objectId : Uuid) (groups : List CollectedGroup) :
    scope.readSegment objectId
      (scope.cipher.encrypt nonce objectId (scope.plaintextBytes groups)) = visitsOf groups := by
  have hdecode : decodeSegmentPlaintext scope.cipher
      (.grouped (groups.map fun g => ⟨g.label.url, g.label.title, g.items⟩)) =
        some (visitsOf groups) := by
    rw [decodeSegmentPlaintext, visitsOf, itemsOf, List.flatMap_map, List.map_flatMap]
    simp only [List.map_map]
    rfl
  obtain ⟨envelope, henvelope⟩ := Option.isSome_iff_exists.mp
    (hlaw.ciphertext nonce objectId (scope.plaintextBytes groups))
  rw [readSegment, decryptSegment, henvelope]
  dsimp only
  rw [hlaw.decrypt_encrypt]
  by_cases hdeflated : scope.codec = some "deflate-raw"
  · have hbytes : scope.plaintextBytes groups = scope.cipher.deflateRaw (scope.cipher.stringify
        (.grouped (groups.map fun g => ⟨g.label.url, g.label.title, g.items⟩))) := by
      rw [plaintextBytes, if_pos hdeflated]
    rw [hbytes, hdeflated]
    simp [hlaw.inflateRaw_deflateRaw, hlaw.parse_stringify, hdecode]
  · have hbytes : scope.plaintextBytes groups = scope.cipher.stringify
        (.grouped (groups.map fun g => ⟨g.label.url, g.label.title, g.items⟩)) := by
      rw [plaintextBytes, if_neg hdeflated]
    have hcodec : (scope.codec == some "deflate-raw") = false := by simpa using hdeflated
    rw [hbytes, hcodec]
    simp [hlaw.parse_stringify, hdecode]

/-- What is gathered are these segments. -/
structure Holds (scope : BulkScope) (b : BulkCollection) (pending : Segments) : Prop where
  visits : b.chunkVisitCount = (chunkVisits pending).length
  bytes : b.chunkBytes =
    (pending.map fun groups => scope.cipher.sealedLength (scope.plaintextBytes groups)).sum
  hours : visitHoursSum b.chunkVisitHours = b.chunkVisitCount
  objectId : b.currentChunkObjectId.getD (scope.objectId b.chunkIndex) =
    scope.objectId b.chunkIndex
  decoded : b.chunkSegments.flatMap (scope.readSegment (scope.objectId b.chunkIndex)) =
    chunkVisits pending

theorem Holds.start (k : ℕ) : scope.Holds (BulkCollection.start k) [] := ⟨rfl, rfl, rfl, rfl, rfl⟩

theorem visitHoursSum_foldl (visits : List (HistoryPage × ℚ)) (hours : VisitHours) :
    visitHoursSum (visits.foldl (fun hours visit => visitHoursAdd hours (hourKey visit.2)) hours) =
      visitHoursSum hours + visits.length := by
  induction visits generalizing hours with
  | nil => exact (add_zero _).symm
  | cons visit visits ih =>
    rw [List.foldl_cons, ih, visitHoursSum_add, List.length_cons]
    push_cast
    ring

variable {b : BulkCollection} {pending : Segments}

theorem addSegment_of_fits (hlaw : scope.cipher.Lawful) (h : scope.Holds b pending)
    (nonce : scope.cipher.Nonce) {groups : List CollectedGroup} (hfits : scope.fits groups = true) :
    ∃ added, scope.addSegment b nonce groups = some added ∧
      scope.Holds added (pending ++ [groups]) ∧ added.chunkIndex = b.chunkIndex := by
  have hle : ¬scope.limits.hardAbortBytes <
      scope.cipher.sealedLength (scope.plaintextBytes groups) := by
    simpa [fits] using hfits
  rw [addSegment]
  rw [hlaw.length_encrypt, if_neg hle, h.objectId]
  refine ⟨_, rfl, ?_, rfl⟩
  constructor
  · rw [chunkVisits, List.flatMap_append, List.length_append, List.flatMap_singleton,
      length_visitsOf, h.visits, chunkVisits]
    rfl
  · rw [List.map_append, List.sum_append, h.bytes, List.map_singleton, List.sum_singleton]
  · dsimp only
    rw [visitHoursSum_foldl, length_itemsOf, h.hours]
    push_cast [count]
    rfl
  · rfl
  · dsimp only
    rw [List.flatMap_append, h.decoded, List.flatMap_singleton, readSegment_encrypt hlaw,
      chunkVisits, chunkVisits, List.flatMap_append, List.flatMap_singleton]

theorem addSegment_of_not_fits (hlaw : scope.cipher.Lawful) (nonce : scope.cipher.Nonce)
    {groups : List CollectedGroup} (hfits : scope.fits groups = false) :
    scope.addSegment b nonce groups = none := by
  have hlt : scope.limits.hardAbortBytes <
      scope.cipher.sealedLength (scope.plaintextBytes groups) := by
    simpa [fits] using hfits
  rw [addSegment]
  rw [hlaw.length_encrypt, if_pos hlt]

theorem Holds.chunkDue (h : scope.Holds b pending) : scope.chunkDue b = scope.due pending := by
  rw [BulkScope.chunkDue, due, h.bytes, h.visits, length_chunkVisits]

/-- **The hours of a chunk sum up to its visits**, so the flush does not fail. -/
theorem Holds.flushChunk (h : scope.Holds b pending) (hvisits : chunkVisits pending ≠ []) :
    ∃ chunk, scope.flushChunk b = some ([chunk], BulkCollection.start (b.chunkIndex + 1)) ∧
      scope.Carries b.chunkIndex chunk pending := by
  have hcount : b.chunkVisitCount ≠ 0 := by
    rw [h.visits]
    exact fun hzero => hvisits (List.eq_nil_of_length_eq_zero hzero)
  rw [BulkScope.flushChunk, if_neg hcount, if_neg (not_not.mpr h.hours)]
  refine ⟨_, rfl, rfl, rfl, h.visits, ?_⟩
  dsimp only
  rw [forEachBulkVisit_toJson, h.decoded]

/-- The collection carries out the cutting, from any point of it on. -/
theorem gather_spec (hlaw : scope.cipher.Lawful) (nonces : ℕ → scope.cipher.Nonce) (drawn : ℕ)
    {segments : Segments} (hsegments : ∀ groups ∈ segments, visitsOf groups ≠ [])
    (h : scope.Holds b pending) (hpending : pending ≠ [] → chunkVisits pending ≠ []) :
    scope.CarriesAll b.chunkIndex (scope.gather nonces drawn b segments).1
        ((cut scope.due scope.fits pending segments).1 ++
          ((cut scope.due scope.fits pending segments).2.filter fun left => !left.isEmpty).toList) ∧
      (scope.gather nonces drawn b segments).2 =
        (cut scope.due scope.fits pending segments).2.isSome := by
  induction segments generalizing b pending drawn with
  | nil =>
    rw [gather, cut]
    rcases pending with _ | ⟨groups, pending⟩
    · have hzero : b.chunkVisitCount = 0 := h.visits
      have hflush : scope.flushChunk b = some ([], b) := by
        rw [BulkScope.flushChunk, if_pos hzero]
      rw [hflush]
      exact ⟨trivial, rfl⟩
    · obtain ⟨chunk, hflush, hcarries⟩ := h.flushChunk (hpending (List.cons_ne_nil _ _))
      rw [hflush]
      exact ⟨⟨hcarries, trivial⟩, rfl⟩
  | cons groups segments ih =>
    have hrest : ∀ groups ∈ segments, visitsOf groups ≠ [] := fun g hg =>
      hsegments g (List.mem_cons_of_mem _ hg)
    have hne : chunkVisits (pending ++ [groups]) ≠ [] := by
      rw [chunkVisits, List.flatMap_append, List.flatMap_singleton]
      exact List.append_ne_nil_of_right_ne_nil _ (hsegments groups List.mem_cons_self)
    rw [gather, cut]
    by_cases hfits : scope.fits groups = true
    · obtain ⟨added, hadd, hadded, hindex⟩ := addSegment_of_fits hlaw h (nonces drawn) hfits
      rw [hadd, if_pos hfits]
      dsimp only
      rw [hadded.chunkDue]
      by_cases hdue : scope.due (pending ++ [groups]) = true
      · -- the chunk is flushed, and the next one begins
        obtain ⟨chunk, hflush, hcarries⟩ := hadded.flushChunk hne
        rw [if_pos hdue, if_pos hdue, hflush]
        obtain ⟨hall, hend⟩ := ih (drawn + 1) hrest (Holds.start (added.chunkIndex + 1))
          (fun hnil => absurd rfl hnil)
        have hnext : scope.CarriesAll (b.chunkIndex + 1)
            (scope.gather nonces (drawn + 1) (BulkCollection.start (added.chunkIndex + 1)) segments).1
            ((cut scope.due scope.fits [] segments).1 ++
              ((cut scope.due scope.fits [] segments).2.filter fun left => !left.isEmpty).toList) := by
          rw [← hindex]
          exact hall
        exact ⟨⟨hindex ▸ hcarries, hnext⟩, hend⟩
      · rw [if_neg hdue, if_neg hdue, ← hindex]
        exact ih (drawn + 1) hrest hadded fun _ => hne
    · rw [addSegment_of_not_fits hlaw _ (by simpa using hfits), if_neg hfits]
      exact ⟨trivial, rfl⟩

/-- **A pass makes the chunks of the plan**, from the checkpoint on. -/
theorem collectHistoryBulk_spec (hlaw : scope.cipher.Lawful) (nonces : ℕ → scope.cipher.Nonce)
    {k : ℕ} (hk : k ≤ (scope.bulkPlan 0 stream).1.length) :
    scope.CarriesAll k
        (scope.collectHistoryBulk nonces k (scope.plannedVisits stream k) stream).1
        ((scope.bulkPlan 0 stream).1.drop k) ∧
      (scope.collectHistoryBulk nonces k (scope.plannedVisits stream k) stream).2 =
        (scope.bulkPlan 0 stream).2 := by
  have hsegments : ∀ groups ∈ pieces scope.limits.segmentVisits
      (dropItems (scope.plannedVisits stream k) (visited stream)), visitsOf groups ≠ [] := by
    intro groups hgroups hnil
    have hpos := count_pos_of_mem_pieces hgroups
    rw [← length_visitsOf, hnil] at hpos
    exact absurd hpos (lt_irrefl 0)
  have hplan := bulkPlan_drop hk
  have hall := gather_spec hlaw nonces 0 hsegments (@Holds.start scope k)
    (fun hnil => absurd rfl hnil)
  rw [collectHistoryBulk, enumerateVisits_eq]
  rw [bulkPlan, cutAll] at hplan
  rw [← (Prod.mk.inj hplan).1, ← (Prod.mk.inj hplan).2]
  exact hall

end BulkScope

end Client

end HelixSync
