import HelixSync.Client.RemoteApply
import Mathlib.Data.String.Basic

/-!
# Moves by the cached order of a folder

A single move reads the children of its destination and their positions anew (`applyMove`,
`extension/src/bookmarks/index.ts`). A batch reads each destination once and keeps the order of its
children, and the order of their positions, up to date in memory (`applyMovesBatch`).

The positions the moves bring are recorded before any of them is made, so a single move sees the
later ones at their old places with their new positions, as the cache does. A cached order is thus
what reading the folder would give at any time, provided the positions in each folder differ, so that
there is one order. The exception is a folder that stands in for a built-in one. It has no mapping, so
a single move knows no position of it and steps over it, and so does the cache, until the batch moves
the folder itself: from then on the cache has it at the position it was moved to
(`HelixSync.Client.BookmarksModule.CachedParentOrder.IsCurrent`). The two make the same calls with the
same indices, and the same deferrals, exactly if no move goes before such a folder
(`HelixSync.Client.BookmarksModule.batchActions_eq_iff`).
-/

namespace HelixSync

namespace Client

open CodeUnits Forest

/-! ### What a move does -/

/-- What is done for a move: nothing for an object without a node, a deferral, or a call of
`chrome.bookmarks.move`. -/
inductive MoveAction where
  | skip
  | defer (record : DeferredMaterialization)
  | move (objectId : Uuid) (id parentId : ChromiumId) (index : ℕ)
  deriving DecidableEq, Repr

/-- An action is done. -/
def MoveAction.perform (run : Run) : MoveAction → Run
  | .skip => run
  | .defer record => run.effect fun profile => profile.putDeferred record
  | .move objectId id parentId index =>
    (run.effect fun profile => profile.deleteDeferred [objectId]).call fun browser =>
      browser.move id parentId index

namespace Profile

variable (profile : Profile)

/-- The position recorded for a node. -/
def recordedPosition (id : ChromiumId) : Option String :=
  (profile.mappingOf id).bind (BookmarksModule.positionOf profile)

/-- The children of a folder with a recorded position. -/
def positionedChildren (parentId : ChromiumId) : List Positioned :=
  (profile.browser.childIds parentId).filterMap fun id =>
    (profile.recordedPosition id).map (Prod.mk id)

end Profile

namespace BookmarksModule

variable (bookmarks : BookmarksModule)

/-- What `applyMove` does. -/
def moveAction (profile : Profile) (move : RemoteMove) : MoveAction :=
  match bookmarks.chromiumIdFor profile move.objectId with
  | none => .skip
  | some chromiumId =>
    match bookmarks.chromiumIdFor profile move.parent with
    | none => .defer ⟨move.objectId, move.objectType, move.parent⟩
    | some parentId =>
      let siblings := profile.browser.childIds parentId
      let withPositions := siblings.filterMap fun id =>
        if id = chromiumId then none else (profile.recordedPosition id).map (Prod.mk id)
      let before := (sortByPosition withPositions).find? fun sibling =>
        codeUnits move.position < codeUnits sibling.2
      .move move.objectId chromiumId parentId (moveIndex siblings chromiumId (before.map Prod.fst))

/-- What a move of `applyMovesBatch` does, and the cache after it. -/
def cachedMoveAction (chromiumIds : Prefetched) (incoming : Uuid → Option String)
    (profile : Profile) (cache : ParentOrders) (move : RemoteMove) : MoveAction × ParentOrders :=
  match chromiumIds move.objectId with
  | none => (.skip, cache)
  | some chromiumId =>
    match chromiumIds move.parent with
    | none => (.defer ⟨move.objectId, move.objectType, move.parent⟩, cache)
    | some parentId =>
      let order := (cache.lookup parentId).getD (loadParentOrder profile incoming parentId)
      let sorted := order.sorted.filter fun other => other.1 ≠ chromiumId
      let index := sortedInsertIndex sorted move.position
      let before := sorted[index]?.map Prod.fst
      let others := (cache.filter fun entry => entry.1 ≠ parentId).map fun entry =>
        (entry.1, entry.2.without chromiumId)
      (.move move.objectId chromiumId parentId (moveIndex order.liveOrder chromiumId before),
        (parentId, (order.without chromiumId).with chromiumId move.position index before) :: others)

/-- What is done for a list of moves, until a call is rejected, if each is made by itself. -/
def singleActions (run : Run) : List RemoteMove → List MoveAction
  | [] => []
  | move :: moves =>
    if run.rejected then []
    else bookmarks.moveAction run.profile move :: singleActions (bookmarks.applyMove run move) moves

/-- What is done in a batch. -/
def cachedActions (chromiumIds : Prefetched) (incoming : Uuid → Option String) :
    Run × ParentOrders → List RemoteMove → List MoveAction
  | _, [] => []
  | state, move :: moves =>
    if state.1.rejected then []
    else (cachedMoveAction chromiumIds incoming state.1.profile state.2 move).1 ::
      cachedActions chromiumIds incoming (applyMoveCached chromiumIds incoming state move) moves

/-- The position a batch brings for an object. -/
def incomingPosition (moves : List RemoteMove) (objectId : Uuid) : Option String :=
  ((moves.filter fun move => move.objectId = objectId).getLast?).map RemoteMove.position

/-- The ids a batch looks up. -/
def batchIds (profile : Profile) (moves : List RemoteMove) : Prefetched :=
  bookmarks.chromiumIdsFor profile (moves.flatMap fun move => [move.objectId, move.parent])

/-- What `applyMovesBatch` does. -/
def batchActions (run : Run) (moves : List RemoteMove) : List MoveAction :=
  cachedActions (bookmarks.batchIds run.profile moves) (incomingPosition moves) (run, []) moves

/-! ### The two are what is done -/

theorem profile_effect (run : Run) (change : Profile → Profile) :
    (run.effect change).profile = run.profile ∨
      (run.effect change).profile = change run.profile := by
  rw [Run.effect]
  split_ifs
  · exact Or.inl rfl
  · exact Or.inr rfl

theorem applyMove_eq (run : Run) (move : RemoteMove) :
    bookmarks.applyMove run move = (bookmarks.moveAction run.profile move).perform run := by
  rw [applyMove, moveAction]
  cases bookmarks.chromiumIdFor run.profile move.objectId with
  | none => rfl
  | some chromiumId =>
    cases bookmarks.chromiumIdFor run.profile move.parent with
    | none => rfl
    | some parentId =>
      dsimp only
      rw [MoveAction.perform]
      rcases profile_effect run fun profile => profile.deleteDeferred [move.objectId] with h | h
      · rw [h]
        rfl
      · rw [h]
        rfl

theorem applyMoveCached_eq (chromiumIds : Prefetched) (incoming : Uuid → Option String)
    (state : Run × ParentOrders) (move : RemoteMove) :
    applyMoveCached chromiumIds incoming state move =
      ((cachedMoveAction chromiumIds incoming state.1.profile state.2 move).1.perform state.1,
        (cachedMoveAction chromiumIds incoming state.1.profile state.2 move).2) := by
  obtain ⟨run, cache⟩ := state
  rw [applyMoveCached, cachedMoveAction]
  cases chromiumIds move.objectId with
  | none => rfl
  | some chromiumId =>
    cases chromiumIds move.parent with
    | none => rfl
    | some parentId =>
      dsimp only
      rw [MoveAction.perform]
      rcases profile_effect run fun profile => profile.deleteDeferred [move.objectId] with h | h
      · rw [h]
      · rw [h]
        rfl

theorem applyMovesBatch_eq (run : Run) (moves : List RemoteMove) :
    bookmarks.applyMovesBatch run moves =
      (moves.foldl (applyMoveCached (bookmarks.batchIds run.profile moves)
        (incomingPosition moves)) (run, [])).1 := by
  rw [applyMovesBatch]
  cases moves with
  | nil => rfl
  | cons move moves => rfl

end BookmarksModule

/-! ### The order of positions -/

/-- Siblings are in the order of their positions. -/
abbrev SortedByPosition (siblings : List Positioned) : Prop :=
  siblings.Pairwise fun a b => codeUnits a.2 ≤ codeUnits b.2

section Positions

variable {siblings sorted : List Positioned} {position : String}

theorem pairwise_sortByPosition (siblings : List Positioned) :
    SortedByPosition (sortByPosition siblings) := by
  have : Std.Total fun a b : Positioned => codeUnits a.2 ≤ codeUnits b.2 :=
    ⟨fun _ _ => le_total _ _⟩
  have : IsTrans Positioned fun a b => codeUnits a.2 ≤ codeUnits b.2 := ⟨fun _ _ _ => le_trans⟩
  exact List.pairwise_insertionSort _ siblings

theorem sortByPosition_perm (siblings : List Positioned) :
    (sortByPosition siblings).Perm siblings := List.perm_insertionSort _ siblings

/-- The loop keeps what is not above the position to the left of its interval, and what is above it
to the right. -/
theorem insertIndexBetween_spec (hsorted : SortedByPosition sorted)
    {rounds lo hi : ℕ} (hrounds : hi - lo ≤ rounds) (hle : lo ≤ hi) (hhi : hi ≤ sorted.length)
    (hleft : ∀ i (h : i < sorted.length), i < lo → codeUnits sorted[i].2 ≤ codeUnits position)
    (hright : ∀ i (h : i < sorted.length), hi ≤ i → codeUnits position < codeUnits sorted[i].2) :
    insertIndexBetween sorted position rounds lo hi ≤ sorted.length ∧
      ∀ i (h : i < sorted.length),
        (i < insertIndexBetween sorted position rounds lo hi →
          codeUnits sorted[i].2 ≤ codeUnits position) ∧
        (insertIndexBetween sorted position rounds lo hi ≤ i →
          codeUnits position < codeUnits sorted[i].2) := by
  induction rounds generalizing lo hi with
  | zero =>
    obtain rfl : lo = hi := by omega
    exact ⟨hhi, fun i h => ⟨hleft i h, hright i h⟩⟩
  | succ rounds ih =>
    rw [insertIndexBetween]
    by_cases hlt : lo < hi
    · have hmid : (lo + hi) / 2 < sorted.length := by omega
      rw [if_pos hlt]
      dsimp only
      rw [List.getElem?_eq_getElem hmid]
      dsimp only
      split_ifs with hbelow
      · refine ih (by omega) (by omega) hhi (fun i h hi' => ?_) hright
        rcases Nat.lt_or_ge i ((lo + hi) / 2) with hless | hge
        · exact (List.pairwise_iff_getElem.mp hsorted i _ h hmid hless).trans hbelow
        · obtain rfl : i = (lo + hi) / 2 := by omega
          exact hbelow
      · refine ih (by omega) (by omega) hmid.le hleft fun i h hi' => ?_
        rcases Nat.lt_or_ge ((lo + hi) / 2) i with hmore | hge
        · exact (not_le.mp hbelow).trans_le (List.pairwise_iff_getElem.mp hsorted _ i hmid h hmore)
        · obtain rfl : i = (lo + hi) / 2 := by omega
          exact not_le.mp hbelow
    · obtain rfl : lo = hi := by omega
      rw [if_neg hlt]
      exact ⟨hhi, fun i h => ⟨hleft i h, hright i h⟩⟩

/-- **The insertion index** comes after what is not above the position, and before what is. -/
theorem sortedInsertIndex_spec (hsorted : SortedByPosition sorted) (position : String) :
    sortedInsertIndex sorted position ≤ sorted.length ∧ ∀ i (h : i < sorted.length),
      (i < sortedInsertIndex sorted position → codeUnits sorted[i].2 ≤ codeUnits position) ∧
      (sortedInsertIndex sorted position ≤ i → codeUnits position < codeUnits sorted[i].2) :=
  insertIndexBetween_spec hsorted (Nat.sub_zero _).le (Nat.zero_le _) le_rfl
    (fun _ _ h => absurd h (Nat.not_lt_zero _)) (fun _ h hle => absurd h (not_lt.mpr hle))

/-- At the insertion index stands the first one above the position. -/
theorem getElem?_sortedInsertIndex (hsorted : SortedByPosition sorted)
    (position : String) : sorted[sortedInsertIndex sorted position]? =
      sorted.find? fun other => codeUnits position < codeUnits other.2 := by
  obtain ⟨hle, hspec⟩ := sortedInsertIndex_spec hsorted position
  symm
  rcases Nat.lt_or_ge (sortedInsertIndex sorted position) sorted.length with hlt | hge
  · rw [List.getElem?_eq_getElem hlt, List.find?_eq_some_iff_getElem]
    refine ⟨by simpa using (hspec _ hlt).2 le_rfl, _, hlt, rfl, fun j hj => ?_⟩
    simpa only [Bool.not_eq_true', decide_eq_false_iff_not, not_lt] using
      (hspec j (hj.trans hlt)).1 hj
  · rw [List.getElem?_eq_none hge, List.find?_eq_none]
    intro other hother
    obtain ⟨i, hi, rfl⟩ := List.getElem_of_mem hother
    simpa only [decide_eq_true_eq, not_lt] using (hspec i hi).1 (by omega)

/-- A new position goes in at the insertion index. -/
theorem pairwise_insertIdx (hsorted : SortedByPosition sorted) (id : ChromiumId)
    (position : String) :
    SortedByPosition (sorted.insertIdx (sortedInsertIndex sorted position) (id, position)) := by
  obtain ⟨hle, hspec⟩ := sortedInsertIndex_spec hsorted position
  generalize sortedInsertIndex sorted position = index at hle hspec
  induction sorted generalizing index with
  | nil =>
    obtain rfl : index = 0 := Nat.le_zero.mp hle
    exact List.pairwise_singleton _ _
  | cons first rest ih =>
    obtain ⟨hfirst, hrest⟩ := List.pairwise_cons.mp hsorted
    cases index with
    | zero =>
      refine List.pairwise_cons.mpr ⟨fun other hother => ?_, hsorted⟩
      obtain ⟨i, hi, rfl⟩ := List.getElem_of_mem hother
      exact ((hspec i hi).2 (Nat.zero_le _)).le
    | succ index =>
      rw [List.insertIdx_succ_cons]
      refine List.pairwise_cons.mpr ⟨fun other hother => ?_, ?_⟩
      · rcases (List.mem_insertIdx (Nat.le_of_succ_le_succ hle)).mp hother with rfl | hother
        · exact (hspec 0 (Nat.succ_pos _)).1 (Nat.succ_pos _)
        · exact hfirst other hother
      · refine ih hrest index (Nat.le_of_succ_le_succ hle) fun i hi => ?_
        have := hspec (i + 1) (Nat.succ_lt_succ hi)
        exact ⟨fun hlt => this.1 (Nat.succ_lt_succ hlt), fun hge => this.2 (Nat.succ_le_succ hge)⟩

end Positions

/-! ### Calls of the browser -/

namespace Browser

variable {browser moved : Browser} {id parentId : ChromiumId} {index : ℕ}

theorem nodup_childIds (h : Distinct browser.nodes) (parentId : ChromiumId) :
    (browser.childIds parentId).Nodup := h.filter _

/-- Without one of them, there is one child less. -/
theorem length_filter_childIds (h : Distinct browser.nodes) (id parentId : ChromiumId) :
    ((browser.childIds parentId).filter (· ≠ id)).length =
      if id ∈ browser.childIds parentId then (browser.childIds parentId).length - 1
      else (browser.childIds parentId).length := by
  split_ifs with hmem
  · rw [← List.length_erase_of_mem hmem, (nodup_childIds h parentId).erase_eq_filter]
    congr 1
    exact List.filter_congr fun other _ => Bool.eq_iff_iff.mpr (by simp)
  · rw [List.filter_eq_self.mpr]
    intro other hother
    simpa using fun heq : other = id => hmem (heq ▸ hother)

/-- **A move** puts the node among the other children of the folder, where the index counts the node
only if it is in the folder before it, and takes it out of any other folder. -/
theorem move_spec (h : Distinct browser.nodes) (hmove : browser.move id parentId index = some moved) :
    (moved.childIds parentId = ((browser.childIds parentId).filter (· ≠ id)).insertIdx
      (if id ∈ browser.childIds parentId ∧ (browser.childIds parentId).idxOf id < index then index - 1
        else index) id) ∧
      (∀ other, other ≠ parentId →
        moved.childIds other = (browser.childIds other).filter (· ≠ id)) ∧
      Distinct moved.nodes := by
  rw [move] at hmove
  split_ifs at hmove with hallowed
  obtain ⟨hchange, -, hindex, -⟩ := hallowed
  obtain rfl := Option.some.inj hmove
  have hhas : browser.has id = true := by
    rw [canChange, Bool.and_eq_true] at hchange
    exact hchange.1
  obtain ⟨node, hnode⟩ := Option.isSome_iff_exists.mp hhas
  refine ⟨map_id_children_place h hnode ?_, fun other hother => ?_, h.place id parentId _⟩
  · have hlength := length_filter_childIds h id parentId
    change _ ≤ ((browser.childIds parentId).filter (· ≠ id)).length
    rw [hlength]
    by_cases hmem : id ∈ browser.childIds parentId
    · have hlt := List.idxOf_lt_length_of_mem hmem
      simp only [hmem, if_true, true_and]
      split_ifs <;> omega
    · simp only [hmem, if_false, false_and]
      exact hindex
  · exact map_id_children_place_of_ne hother _

end Browser

/-- Where a node is put among the others: before one of them, or at the end. -/
def placeBefore (others : List ChromiumId) (before : Option ChromiumId) : ℕ :=
  match before with
  | some before => others.idxOf before
  | none => others.length

/-- **The index passed to the browser** means the place before the sibling. -/
theorem moveIndex_spec (live : List ChromiumId) (id : ChromiumId) (before : Option ChromiumId) :
    (if id ∈ live ∧ live.idxOf id < moveIndex live id before then moveIndex live id before - 1
      else moveIndex live id before) = placeBefore (live.filter (· ≠ id)) before := by
  have hindex : moveIndex live id before =
      if id ∈ live ∧ live.idxOf id ≤ placeBefore (live.filter (· ≠ id)) before then
        placeBefore (live.filter (· ≠ id)) before + 1
      else placeBefore (live.filter (· ≠ id)) before := by
    cases before <;> rfl
  rw [hindex]
  by_cases hmem : id ∈ live
  · simp only [hmem, true_and]
    split_ifs <;> omega
  · simp [hmem]

/-- The children of a folder after a move to an index of it, which is read with the mover still in
place. -/
def childrenAfterMove (children : List ChromiumId) (moverId : ChromiumId) (index : ℕ) :
    List ChromiumId :=
  (children.filter (· ≠ moverId)).insertIdx
    (if moverId ∈ children ∧ children.idxOf moverId < index then index - 1 else index) moverId

/-- One is put directly before another, or last if that one is not there. -/
def PlacedBefore (others : List ChromiumId) (moverId : ChromiumId) (beforeId : Option ChromiumId)
    (placed : List ChromiumId) : Prop :=
  (∃ before front back, beforeId = some before ∧ others = front ++ before :: back ∧
    placed = front ++ moverId :: before :: back) ∨
  ((∀ before ∈ beforeId, before ∉ others) ∧ placed = others ++ [moverId])

theorem placedBefore_insertIdx (others : List ChromiumId) (moverId : ChromiumId)
    (beforeId : Option ChromiumId) : PlacedBefore others moverId beforeId
      (others.insertIdx (placeBefore others beforeId) moverId) := by
  cases beforeId with
  | none =>
    refine Or.inr ⟨by simp, ?_⟩
    rw [placeBefore, List.insertIdx_length_self]
  | some before =>
    rw [placeBefore]
    induction others with
    | nil => exact Or.inr ⟨by simp, rfl⟩
    | cons first others ih =>
      by_cases heq : first = before
      · subst heq
        rw [List.idxOf_cons_self, List.insertIdx_zero]
        exact Or.inl ⟨first, [], others, rfl, rfl, rfl⟩
      · rw [List.idxOf_cons_ne others heq, List.insertIdx_succ_cons]
        rcases ih with ⟨_, front, back, hbefore, hothers, hplaced⟩ | ⟨hnot, hplaced⟩
        · refine Or.inl ⟨_, first :: front, back, hbefore, ?_, ?_⟩
          · rw [hothers, List.cons_append]
          · rw [hplaced, List.cons_append]
        · refine Or.inr ⟨?_, ?_⟩
          · rintro _ ⟨⟩
            exact List.not_mem_cons_of_ne_of_not_mem (Ne.symm heq) (hnot before rfl)
          · rw [hplaced, List.cons_append]

/-- The insertion index is the first one above the position. -/
theorem sortedInsertIndex_eq_findIdx {sorted : List Positioned}
    (hsorted : SortedByPosition sorted) (position : String) :
    sortedInsertIndex sorted position =
      sorted.findIdx fun other => codeUnits position < codeUnits other.2 := by
  obtain ⟨hle, hspec⟩ := sortedInsertIndex_spec hsorted position
  rcases Nat.lt_or_ge (sortedInsertIndex sorted position) sorted.length with hlt | hge
  · refine ((List.findIdx_eq hlt).mpr ⟨?_, fun j hj => ?_⟩).symm
    · simpa using (hspec _ hlt).2 le_rfl
    · simpa only [decide_eq_false_iff_not, not_lt] using (hspec j (hj.trans hlt)).1 hj
  · rw [le_antisymm hle hge, List.findIdx_eq_length_of_false]
    intro other hother
    obtain ⟨i, hi, rfl⟩ := List.getElem_of_mem hother
    simpa only [decide_eq_false_iff_not, not_lt] using (hspec i hi).1 (by omega)

/-- **The indices of moves and insertions**: a move to `moveIndex` leaves the other children in their
order with the mover directly before the one it is to stand before, or last, and `sortedInsertIndex`
is the first index with a greater position, in the order of UTF-16 strings. -/
theorem moveIndex_placed_and_sortedInsertIndex_first :
    (∀ (children : List ChromiumId) (moverId : ChromiumId) (beforeId : Option ChromiumId),
      PlacedBefore (children.filter (· ≠ moverId)) moverId beforeId
        (childrenAfterMove children moverId (moveIndex children moverId beforeId))) ∧
      ∀ (sorted : List Positioned) (position : String),
        SortedByPosition sorted → sortedInsertIndex sorted position =
          sorted.findIdx fun other => codeUnits position < codeUnits other.2 := by
  refine ⟨fun children moverId beforeId => ?_, fun sorted position hsorted => ?_⟩
  · rw [childrenAfterMove, moveIndex_spec]
    exact placedBefore_insertIdx _ _ _
  · exact sortedInsertIndex_eq_findIdx hsorted position

/-- A child is moved before an earlier one, and a position goes in after an equal one. -/
theorem moveIndex_placed_and_sortedInsertIndex_first_three :
    PlacedBefore [11, 13] 12 (some 11) (childrenAfterMove [11, 12, 13] 12 0) ∧
      ([(11, "a"), (12, "c"), (13, "e")] : List Positioned).findIdx
        (fun other => codeUnits "c" < codeUnits other.2) = 2 :=
  ⟨moveIndex_placed_and_sortedInsertIndex_first.1 [11, 12, 13] 12 (some 11),
    (moveIndex_placed_and_sortedInsertIndex_first.2 [(11, "a"), (12, "c"), (13, "e")] "c"
      (by decide)).symm.trans (by decide)⟩

/-- The cached order puts the node there too. -/
theorem getD_idxOf?_eq_placeBefore (others : List ChromiumId) (before : Option ChromiumId) :
    (before.bind fun before => others.idxOf? before).getD others.length =
      placeBefore others before := by
  cases before with
  | none => rfl
  | some before =>
    rw [Option.bind_some, placeBefore]
    induction others with
    | nil => rfl
    | cons first others ih =>
      rw [List.idxOf?_cons, List.idxOf_cons, List.length_cons, ← ih]
      cases first == before with
      | true => rfl
      | false => cases others.idxOf? before <;> rfl

/-! ### A cached order is current -/

namespace BookmarksModule

/-- The nodes with a position. -/
def positioned (position : ChromiumId → Option String) (nodes : List ChromiumId) : List Positioned :=
  nodes.filterMap fun id => (position id).map (Prod.mk id)

/-- The order is what reading the folder gives, by the positions its children are counted at. -/
structure CachedParentOrder.IsCurrent (position : ChromiumId → Option String) (profile : Profile)
    (parentId : ChromiumId) (order : CachedParentOrder) : Prop where
  live : order.liveOrder = profile.browser.childIds parentId
  positions : order.sorted.Perm (positioned position (profile.browser.childIds parentId))
  sorted : SortedByPosition order.sorted

variable {bookmarks : BookmarksModule} {start now : Profile} {moves : List RemoteMove}
  {parentId id : ChromiumId} {position : ChromiumId → Option String}

/-- A node that is in a folder, or is moved there. -/
def Involved (bookmarks : BookmarksModule) (profile : Profile) (moves : List RemoteMove)
    (parentId id : ChromiumId) : Prop :=
  id ∈ profile.browser.childIds parentId ∨
    ∃ move ∈ moves, bookmarks.chromiumIdFor profile move.objectId = some id ∧
      bookmarks.chromiumIdFor profile move.parent = some parentId

/-- The positions the moves bring are recorded, for the objects and for the nodes that have one. A
built-in folder has no mapping, and so none. -/
structure Recorded (bookmarks : BookmarksModule) (profile : Profile) (moves : List RemoteMove) :
    Prop where
  tree : Distinct profile.browser.nodes
  object : ∀ move ∈ moves, positionOf profile move.objectId = some move.position
  node : ∀ move ∈ moves, ∀ id, bookmarks.chromiumIdFor profile move.objectId = some id →
    ∀ position ∈ profile.recordedPosition id, position = move.position

/-- A position of a node: the one recorded for it, or one that a move brings. -/
def HasPosition (bookmarks : BookmarksModule) (profile : Profile) (moves : List RemoteMove)
    (id : ChromiumId) (position : String) : Prop :=
  profile.recordedPosition id = some position ∨
    ∃ move ∈ moves, bookmarks.chromiumIdFor profile move.objectId = some id ∧
      move.position = position

/-- In each destination the positions differ. -/
def Apart (bookmarks : BookmarksModule) (profile : Profile) (moves : List RemoteMove) : Prop :=
  ∀ destination ∈ moves, ∀ parentId,
    bookmarks.chromiumIdFor profile destination.parent = some parentId → ∀ a b position,
      bookmarks.Involved profile moves parentId a → bookmarks.Involved profile moves parentId b →
      bookmarks.HasPosition profile moves a position →
      bookmarks.HasPosition profile moves b position → a = b

/-- A profile some of the moves lead to. -/
structure Follows (bookmarks : BookmarksModule) (moves : List RemoteMove) (start now : Profile) :
    Prop where
  mappings : now.mappings = start.mappings
  fields : now.fields = start.fields
  tree : Distinct now.browser.nodes
  children : ∀ parentId, ∀ id ∈ now.browser.childIds parentId,
    bookmarks.Involved start moves parentId id

theorem Follows.refl (h : Distinct start.browser.nodes) : bookmarks.Follows moves start start :=
  ⟨rfl, rfl, h, fun _ _ => Or.inl⟩

theorem Follows.chromiumIdFor (h : bookmarks.Follows moves start now) (objectId : Uuid) :
    bookmarks.chromiumIdFor now objectId = bookmarks.chromiumIdFor start objectId := by
  rw [BookmarksModule.chromiumIdFor, BookmarksModule.chromiumIdFor, Profile.mappedIdOf,
    Profile.mappedIdOf, h.mappings]

theorem Follows.positionOf (h : bookmarks.Follows moves start now) :
    positionOf now = positionOf start := by
  funext objectId
  rw [BookmarksModule.positionOf, BookmarksModule.positionOf, Profile.fieldValue,
    Profile.fieldValue, h.fields]

theorem Follows.recordedPosition (h : bookmarks.Follows moves start now) :
    now.recordedPosition = start.recordedPosition := by
  funext id
  rw [Profile.recordedPosition, Profile.recordedPosition, h.positionOf, Profile.mappingOf,
    Profile.mappingOf, h.mappings]

/-- Where a batch counts the nodes after a move: the moved one at the position the move brings. -/
def positionAfter (bookmarks : BookmarksModule) (start : Profile)
    (position : ChromiumId → Option String) (move : RemoteMove) : ChromiumId → Option String :=
  match bookmarks.chromiumIdFor start move.objectId, bookmarks.chromiumIdFor start move.parent with
  | some id, some _ => Function.update position id (some move.position)
  | _, _ => position

/-- Positions at which a batch may count the nodes: the recorded ones, and for nodes that have none,
those the moves bring. -/
structure Counts (bookmarks : BookmarksModule) (moves : List RemoteMove) (start : Profile)
    (position : ChromiumId → Option String) : Prop where
  recorded : ∀ id q, start.recordedPosition id = some q → position id = some q
  has : ∀ id q, position id = some q → bookmarks.HasPosition start moves id q

theorem Counts.initial : bookmarks.Counts moves start start.recordedPosition :=
  ⟨fun _ _ h => h, fun _ _ => Or.inl⟩

theorem Counts.update (h : bookmarks.Counts moves start position)
    (hrecorded : bookmarks.Recorded start moves) {move : RemoteMove} (hmove : move ∈ moves)
    (hid : bookmarks.chromiumIdFor start move.objectId = some id) :
    bookmarks.Counts moves start (Function.update position id (some move.position)) := by
  constructor
  · intro other q hq
    by_cases hother : other = id
    · subst hother
      rw [Function.update_self, hrecorded.node move hmove _ hid q hq]
    · rw [Function.update_of_ne hother]
      exact h.recorded other q hq
  · intro other q hq
    by_cases hother : other = id
    · subst hother
      rw [Function.update_self] at hq
      exact Or.inr ⟨move, hmove, hid, Option.some.inj hq⟩
    · rw [Function.update_of_ne hother] at hq
      exact h.has other q hq

/-- What a batch brings for an object is what is recorded. -/
theorem truthy_incomingPosition (hrecorded : bookmarks.Recorded start moves) (objectId : Uuid) :
    truthy ((incomingPosition moves objectId).or (positionOf start objectId)) =
      positionOf start objectId := by
  have htruthy : truthy (positionOf start objectId) = positionOf start objectId := by
    rw [positionOf, truthy, truthy, Option.filter_filter]
    simp
  rw [incomingPosition]
  cases hlast : (moves.filter fun move => move.objectId = objectId).getLast? with
  | none => exact htruthy
  | some move =>
    obtain ⟨hmem, hobject⟩ := List.mem_filter.mp (List.mem_of_getLast? hlast)
    have hposition := hrecorded.object move hmem
    rw [of_decide_eq_true hobject] at hposition
    rw [hposition] at htruthy ⊢
    exact htruthy

/-- **Reading a folder** gives a current order, if its children are counted as recorded. -/
theorem isCurrent_loadParentOrder (h : bookmarks.Follows moves start now)
    (hrecorded : bookmarks.Recorded start moves)
    (hunread : ∀ id ∈ now.browser.childIds parentId, position id = now.recordedPosition id) :
    CachedParentOrder.IsCurrent position now parentId
      (loadParentOrder now (incomingPosition moves) parentId) := by
  have hsiblings : ((now.browser.childIds parentId).filterMap fun id =>
      ((now.mappingOf id).bind fun objectId =>
        truthy ((incomingPosition moves objectId).or (positionOf now objectId))).map (Prod.mk id)) =
      positioned position (now.browser.childIds parentId) := by
    simp only [h.positionOf, truthy_incomingPosition hrecorded]
    refine List.filterMap_congr fun id hid => ?_
    rw [hunread id hid, Profile.recordedPosition, h.positionOf]
  refine ⟨rfl, ?_, ?_⟩
  · rw [loadParentOrder, hsiblings]
    exact sortByPosition_perm _
  · rw [loadParentOrder, hsiblings]
    exact pairwise_sortByPosition _

/-! ### The next sibling -/

section Next

variable {others : List ChromiumId} {p : String} {before before' : Option ChromiumId}

/-- The sibling a node is put before, if there is one, is the first in some order by position among
those above the position; else there are none. -/
structure IsNext (position : ChromiumId → Option String) (others : List ChromiumId) (p : String)
    (before : Option ChromiumId) : Prop where
  of_none : before = none → ∀ id ∈ others, ∀ q, position id = some q → codeUnits q ≤ codeUnits p
  of_some : ∀ sibling ∈ before, sibling ∈ others ∧ ∃ q, position sibling = some q ∧
    codeUnits p < codeUnits q ∧
    ∀ id ∈ others, ∀ q', position id = some q' → codeUnits p < codeUnits q' →
      codeUnits q ≤ codeUnits q'

theorem mem_positioned {child : Positioned} {nodes : List ChromiumId} :
    child ∈ positioned position nodes ↔ child.1 ∈ nodes ∧ position child.1 = some child.2 := by
  obtain ⟨id, q⟩ := child
  simp only [positioned, List.mem_filterMap, Option.map_eq_some_iff, Prod.mk.injEq]
  constructor
  · rintro ⟨id', hid', q', hq', rfl, rfl⟩
    exact ⟨hid', hq'⟩
  · rintro ⟨hid, hq⟩
    exact ⟨id, hid, q, hq, rfl, rfl⟩

theorem positioned_filter (position : ChromiumId → Option String) (nodes : List ChromiumId)
    (id : ChromiumId) : positioned position (nodes.filter (· ≠ id)) =
      (positioned position nodes).filter fun other => other.1 ≠ id := by
  rw [positioned, positioned, List.filterMap_filter, List.filter_filterMap]
  refine List.filterMap_congr fun other _ => ?_
  cases position other with
  | none => simp
  | some q => by_cases hother : other = id <;> simp [hother, Option.filter]

/-- What is searched for in the order of the positions is the next one. -/
theorem isNext_find? {sorted : List Positioned} (hsorted : SortedByPosition sorted)
    (hperm : sorted.Perm (positioned position others)) (p : String) :
    IsNext position others p
      ((sorted.find? fun other => codeUnits p < codeUnits other.2).map Prod.fst) := by
  have hmem : ∀ {child : Positioned}, child ∈ sorted ↔
      child.1 ∈ others ∧ position child.1 = some child.2 := hperm.mem_iff.trans mem_positioned
  constructor
  · intro hnone other hother q hq
    have hall := List.find?_eq_none.mp (Option.map_eq_none_iff.mp hnone) (other, q)
      (hmem.mpr ⟨hother, hq⟩)
    simpa only [decide_eq_true_eq, not_lt] using hall
  · intro sibling hsibling
    obtain ⟨⟨sibling', q⟩, hfind, rfl⟩ := Option.map_eq_some_iff.mp hsibling
    obtain ⟨habove, front, back, heq, hfront⟩ := List.find?_eq_some_iff_append.mp hfind
    obtain ⟨hothers, hposition⟩ := hmem.mp (heq ▸ List.mem_append_right front List.mem_cons_self)
    refine ⟨hothers, q, hposition, of_decide_eq_true habove, fun other hother q' hq' hlt => ?_⟩
    have hother' := hmem.mpr (show (other, q').1 ∈ _ ∧ _ from ⟨hother, hq'⟩)
    rw [heq, SortedByPosition, List.pairwise_append] at hsorted
    rw [heq] at hother'
    rcases List.mem_append.mp hother' with hother' | hother'
    · have hnot := hfront _ hother'
      simp only [Bool.not_eq_true', decide_eq_false_iff_not] at hnot
      exact absurd hlt hnot
    · rcases List.mem_cons.mp hother' with hsame | hother'
      · rw [(Prod.mk.inj hsame).2]
      · exact (List.pairwise_cons.mp hsorted.2.1).1 _ hother'

/-- If the positions differ, there is one next sibling. -/
theorem IsNext.unique (h : IsNext position others p before) (h' : IsNext position others p before')
    (hapart : ∀ a ∈ others, ∀ b ∈ others, ∀ q, position a = some q → position b = some q → a = b) :
    before = before' := by
  cases before with
  | none =>
    cases before' with
    | none => rfl
    | some sibling =>
      obtain ⟨hsibling, q, hq, hlt, -⟩ := h'.of_some sibling rfl
      exact absurd (h.of_none rfl sibling hsibling q hq) (not_le.mpr hlt)
  | some sibling =>
    obtain ⟨hsibling, q, hq, hlt, hleast⟩ := h.of_some sibling rfl
    cases before' with
    | none => exact absurd (h'.of_none rfl sibling hsibling q hq) (not_le.mpr hlt)
    | some sibling' =>
      obtain ⟨hsibling', q', hq', hlt', hleast'⟩ := h'.of_some sibling' rfl
      have heq : q = q' := codeUnits_inj.mp
        (le_antisymm (hleast sibling' hsibling' q' hq' hlt') (hleast' sibling hsibling q hq hlt))
      rw [hapart sibling hsibling sibling' hsibling' q hq (heq ▸ hq')]

/-- Counted by fewer positions, the next sibling is the same one if it is among these. -/
theorem IsNext.of_counts (h : IsNext position others p before)
    {recorded : ChromiumId → Option String}
    (hsub : ∀ id q, recorded id = some q → position id = some q)
    (hbefore : ∀ sibling ∈ before, (recorded sibling).isSome) : IsNext recorded others p before := by
  constructor
  · exact fun hnone id hid q hq => h.of_none hnone id hid q (hsub id q hq)
  · intro sibling hsibling
    obtain ⟨hothers, q, hq, hlt, hleast⟩ := h.of_some sibling hsibling
    obtain ⟨r, hr⟩ := Option.isSome_iff_exists.mp (hbefore sibling hsibling)
    obtain rfl : r = q := Option.some.inj ((hsub sibling r hr).symm.trans hq)
    exact ⟨hothers, r, hr, hlt, fun id hid q' hq' => hleast id hid q' (hsub id q' hq')⟩

end Next

/-! ### One move -/

section OneMove

variable {order : CachedParentOrder} {profile moved : Profile} {other : ChromiumId}

/-- The positions a single move reads. -/
theorem filterMap_others (profile : Profile) (nodes : List ChromiumId) (id : ChromiumId) :
    (nodes.filterMap fun other =>
      if other = id then none else (profile.recordedPosition other).map (Prod.mk other)) =
      positioned profile.recordedPosition (nodes.filter (· ≠ id)) := by
  rw [positioned, List.filterMap_filter]
  exact List.filterMap_congr fun other _ => by by_cases hid : other = id <;> simp [hid]

theorem positioned_update {nodes : List ChromiumId} (hid : id ∉ nodes) (p : Option String) :
    positioned (Function.update position id p) nodes = positioned position nodes :=
  List.filterMap_congr fun _ hother =>
    congrArg _ (Function.update_of_ne (ne_of_mem_of_not_mem hother hid) _ _)

theorem not_mem_filter (nodes : List ChromiumId) (id : ChromiumId) : id ∉ nodes.filter (· ≠ id) :=
  fun h => of_decide_eq_true (List.mem_filter.mp h).2 rfl

/-- A node that leaves a folder is dropped from its order. -/
theorem CachedParentOrder.IsCurrent.without (h : order.IsCurrent position profile other)
    (hchildren : moved.browser.childIds other = (profile.browser.childIds other).filter (· ≠ id))
    (p : Option String) :
    (order.without id).IsCurrent (Function.update position id p) moved other := by
  refine ⟨?_, ?_, h.sorted.filter _⟩
  · rw [hchildren, ← h.live]
    rfl
  · rw [hchildren, positioned_update (not_mem_filter _ id), positioned_filter]
    exact h.positions.filter _

/-- **A node that is put in a folder** is put in its order. -/
theorem CachedParentOrder.IsCurrent.with (h : order.IsCurrent position profile parentId)
    {before : Option ChromiumId}
    (hchildren : moved.browser.childIds parentId =
      ((profile.browser.childIds parentId).filter (· ≠ id)).insertIdx
        (placeBefore ((profile.browser.childIds parentId).filter (· ≠ id)) before) id)
    (p : String) :
    ((order.without id).with id p
      (sortedInsertIndex (order.sorted.filter fun other => other.1 ≠ id) p)
      before).IsCurrent (Function.update position id (some p)) moved parentId := by
  have hsorted := h.sorted.filter fun other => other.1 ≠ id
  have hindex := (sortedInsertIndex_spec hsorted p).1
  refine ⟨?_, ?_, ?_⟩
  · rw [hchildren, ← getD_idxOf?_eq_placeBefore, ← h.live]
    rfl
  · have hperm : (moved.browser.childIds parentId).Perm
        (id :: (profile.browser.childIds parentId).filter (· ≠ id)) := by
      rw [hchildren]
      refine List.perm_insertIdx _ _ ?_
      cases before with
      | none => exact le_rfl
      | some before => exact List.idxOf_le_length
    have hmoved := hperm.filterMap fun other =>
      (Function.update position id (some p) other).map (Prod.mk other)
    rw [List.filterMap_cons_some (b := (id, p)) (by rw [Function.update_self]; rfl)] at hmoved
    refine List.Perm.trans ?_ hmoved.symm
    change List.Perm _ ((id, p) :: positioned (Function.update position id (some p)) _)
    rw [positioned_update (not_mem_filter _ id), positioned_filter]
    exact (List.perm_insertIdx _ _ hindex).trans ((h.positions.filter _).cons _)
  · exact pairwise_insertIdx hsorted id p

/-- The sibling a node is put before: the first one above its position. -/
def CachedParentOrder.before (order : CachedParentOrder) (id : ChromiumId) (position : String) :
    Option ChromiumId :=
  let sorted := order.sorted.filter fun other => other.1 ≠ id
  sorted[sortedInsertIndex sorted position]?.map Prod.fst

/-- That is the next one, by the positions the nodes are counted at. -/
theorem CachedParentOrder.IsCurrent.isNext (h : order.IsCurrent position now parentId)
    (id : ChromiumId) (p : String) :
    IsNext position ((now.browser.childIds parentId).filter (· ≠ id)) p (order.before id p) := by
  have hsorted : SortedByPosition (order.sorted.filter fun other => other.1 ≠ id) :=
    h.sorted.filter _
  rw [CachedParentOrder.before, getElem?_sortedInsertIndex hsorted]
  refine isNext_find? hsorted ?_ p
  rw [positioned_filter]
  exact h.positions.filter _

/-- The place among the others says which one a node is put before. -/
theorem placeBefore_inj {others : List ChromiumId} {before before' : Option ChromiumId}
    (h : ∀ sibling ∈ before, sibling ∈ others) (h' : ∀ sibling ∈ before', sibling ∈ others)
    (heq : placeBefore others before = placeBefore others before') : before = before' := by
  cases before with
  | none =>
    cases before' with
    | none => rfl
    | some sibling => exact absurd heq (List.idxOf_lt_length_of_mem (h' sibling rfl)).ne'
  | some sibling =>
    cases before' with
    | none => exact absurd heq (List.idxOf_lt_length_of_mem (h sibling rfl)).ne
    | some sibling' => rw [(List.idxOf_inj (h sibling rfl)).mp heq]

theorem moveIndex_inj {live : List ChromiumId} {before before' : Option ChromiumId}
    (h : ∀ sibling ∈ before, sibling ∈ live.filter (· ≠ id))
    (h' : ∀ sibling ∈ before', sibling ∈ live.filter (· ≠ id)) :
    moveIndex live id before = moveIndex live id before' ↔ before = before' := by
  refine ⟨fun heq => placeBefore_inj h h' ?_, congrArg _⟩
  rw [← moveIndex_spec, ← moveIndex_spec, heq]

end OneMove

/-! ### A batch -/

section Batch

variable {run : Run} {cache : ParentOrders} {move : RemoteMove}

/-- The cached orders are current, and the children of the folders that were not read yet are
counted as recorded. -/
structure CacheCurrent (position : ChromiumId → Option String) (now : Profile)
    (cache : ParentOrders) : Prop where
  current : ∀ entry ∈ cache, CachedParentOrder.IsCurrent position now entry.1 entry.2
  unread : ∀ parentId, cache.lookup parentId = none →
    ∀ id ∈ now.browser.childIds parentId, position id = now.recordedPosition id

/-- The order a move goes by. -/
def orderOf (now : Profile) (moves : List RemoteMove) (cache : ParentOrders)
    (parentId : ChromiumId) : CachedParentOrder :=
  (cache.lookup parentId).getD (loadParentOrder now (incomingPosition moves) parentId)

/-- The order a move is made by is current, whether it is cached or read. -/
theorem isCurrent_orderOf (h : bookmarks.Follows moves start now)
    (hrecorded : bookmarks.Recorded start moves)
    (hcache : CacheCurrent position now cache) (parentId : ChromiumId) :
    (orderOf now moves cache parentId).IsCurrent position now parentId := by
  rw [orderOf]
  cases hlookup : cache.lookup parentId with
  | none => exact isCurrent_loadParentOrder h hrecorded (hcache.unread parentId hlookup)
  | some order =>
    obtain ⟨front, rest, rfl, -⟩ := List.lookup_eq_some_iff.mp hlookup
    exact hcache.current (parentId, order) (by simp)

theorem batchIds_objectId (hmove : move ∈ moves) :
    bookmarks.batchIds start moves move.objectId = bookmarks.chromiumIdFor start move.objectId :=
  if_pos (List.mem_flatMap.mpr ⟨move, hmove, List.mem_cons_self⟩)

theorem batchIds_parent (hmove : move ∈ moves) :
    bookmarks.batchIds start moves move.parent = bookmarks.chromiumIdFor start move.parent :=
  if_pos (List.mem_flatMap.mpr ⟨move, hmove, List.mem_cons_of_mem _ List.mem_cons_self⟩)

theorem cachedMoveAction_move (now : Profile) (cache : ParentOrders) (hmove : move ∈ moves)
    (hid : bookmarks.chromiumIdFor start move.objectId = some id)
    (hparent : bookmarks.chromiumIdFor start move.parent = some parentId) :
    cachedMoveAction (bookmarks.batchIds start moves) (incomingPosition moves) now cache move =
      (.move move.objectId id parentId (moveIndex (orderOf now moves cache parentId).liveOrder id
        ((orderOf now moves cache parentId).before id move.position)),
      (parentId, ((orderOf now moves cache parentId).without id).with id move.position
        (sortedInsertIndex ((orderOf now moves cache parentId).sorted.filter
          fun other => other.1 ≠ id) move.position)
        ((orderOf now moves cache parentId).before id move.position)) ::
        (cache.filter fun entry => entry.1 ≠ parentId).map fun entry =>
          (entry.1, entry.2.without id)) := by
  rw [cachedMoveAction, batchIds_objectId hmove, batchIds_parent hmove, hid, hparent]
  rfl

theorem cachedMoveAction_skip (hmove : move ∈ moves)
    (hid : bookmarks.chromiumIdFor start move.objectId = none) :
    cachedMoveAction (bookmarks.batchIds start moves) (incomingPosition moves) now cache move =
      (.skip, cache) := by
  rw [cachedMoveAction, batchIds_objectId hmove, hid]

theorem cachedMoveAction_defer (hmove : move ∈ moves)
    (hid : bookmarks.chromiumIdFor start move.objectId = some id)
    (hparent : bookmarks.chromiumIdFor start move.parent = none) :
    cachedMoveAction (bookmarks.batchIds start moves) (incomingPosition moves) now cache move =
      (.defer ⟨move.objectId, move.objectType, move.parent⟩, cache) := by
  rw [cachedMoveAction, batchIds_objectId hmove, batchIds_parent hmove, hid, hparent]

variable (bookmarks) in
/-- The next sibling above the position of a move, by the positions a batch counts the nodes at, has
a recorded position: it is not a built-in folder that the batch has moved there before. -/
def GoesByRecorded (start : Profile) (position : ChromiumId → Option String) (now : Profile)
    (move : RemoteMove) : Prop :=
  ∀ id parentId, bookmarks.chromiumIdFor start move.objectId = some id →
    bookmarks.chromiumIdFor start move.parent = some parentId →
    ∀ sibling, IsNext position ((now.browser.childIds parentId).filter (· ≠ id)) move.position
      (some sibling) → (start.recordedPosition sibling).isSome

/-- In a destination, the positions of different children differ, however they are counted. -/
theorem Follows.apart (h : bookmarks.Follows moves start now)
    (hapart : bookmarks.Apart start moves) (hcounts : bookmarks.Counts moves start position)
    (hmove : move ∈ moves) (hparent : bookmarks.chromiumIdFor start move.parent = some parentId)
    (id : ChromiumId) : ∀ a ∈ (now.browser.childIds parentId).filter (· ≠ id),
      ∀ b ∈ (now.browser.childIds parentId).filter (· ≠ id), ∀ q, position a = some q →
        position b = some q → a = b := fun a ha b hb q hqa hqb =>
  hapart move hmove parentId hparent a b q (h.children parentId a (List.mem_of_mem_filter ha))
    (h.children parentId b (List.mem_of_mem_filter hb)) (hcounts.has a q hqa) (hcounts.has b q hqb)

/-- **One move by the cache** does what the move does by itself exactly if it goes by the recorded
positions. -/
theorem cachedMoveAction_eq_iff (h : bookmarks.Follows moves start now)
    (hrecorded : bookmarks.Recorded start moves) (hapart : bookmarks.Apart start moves)
    (hcounts : bookmarks.Counts moves start position) (hcache : CacheCurrent position now cache)
    (hmove : move ∈ moves) :
    (cachedMoveAction (bookmarks.batchIds start moves) (incomingPosition moves) now cache move).1 =
      bookmarks.moveAction now move ↔ bookmarks.GoesByRecorded start position now move := by
  rw [moveAction, h.chromiumIdFor, h.chromiumIdFor]
  cases hid : bookmarks.chromiumIdFor start move.objectId with
  | none =>
    rw [cachedMoveAction_skip hmove hid]
    exact iff_of_true rfl fun id _ hid' => absurd (hid.symm.trans hid') (Option.some_ne_none id).symm
  | some id =>
    cases hparent : bookmarks.chromiumIdFor start move.parent with
    | none =>
      rw [cachedMoveAction_defer hmove hid hparent]
      exact iff_of_true rfl fun _ parentId _ hparent' =>
        absurd (hparent.symm.trans hparent') (Option.some_ne_none parentId).symm
    | some parentId =>
      have horder := isCurrent_orderOf h hrecorded hcache parentId
      have hcached := horder.isNext id move.position
      have hunique := h.apart hapart hcounts hmove hparent id
      have hsingle := isNext_find? (pairwise_sortByPosition _)
        (sortByPosition_perm (positioned now.recordedPosition
          ((now.browser.childIds parentId).filter (· ≠ id)))) move.position
      rw [h.recordedPosition] at hsingle
      rw [cachedMoveAction_move _ _ hmove hid hparent]
      dsimp only
      rw [filterMap_others, h.recordedPosition, horder.live, MoveAction.move.injEq, and_iff_right rfl,
        and_iff_right rfl, and_iff_right rfl,
        moveIndex_inj (fun sibling hs => (hcached.of_some sibling hs).1)
          (fun sibling hs => (hsingle.of_some sibling hs).1)]
      constructor
      · intro heq id' parentId' hid' hparent' sibling hnext
        obtain rfl := Option.some.inj (hid.symm.trans hid')
        obtain rfl := Option.some.inj (hparent.symm.trans hparent')
        have hbefore := hnext.unique hcached hunique
        obtain ⟨-, q, hq, -⟩ := hsingle.of_some sibling (heq ▸ hbefore.symm)
        exact Option.isSome_of_mem hq
      · intro hgoes
        refine (hcached.of_counts hcounts.recorded fun sibling hsibling => ?_).unique hsingle
          fun a ha b hb q hqa hqb =>
            hunique a ha b hb q (hcounts.recorded a q hqa) (hcounts.recorded b q hqb)
        exact hgoes id parentId hid hparent sibling (hsibling ▸ hcached)

/-- After a rejected call nothing more is done. -/
theorem perform_of_rejected (h : run.rejected = true) (action : MoveAction) :
    action.perform run = run := by
  have heffect : ∀ change, run.effect change = run := fun change => by rw [Run.effect, if_pos h]
  cases action with
  | skip => rfl
  | defer record => exact heffect fun profile => profile.putDeferred record
  | move objectId id parentId index =>
    rw [MoveAction.perform, heffect, Run.call]
    cases run.profile.browser.move id parentId index with
    | none => rw [← h]
    | some browser => exact heffect _

theorem foldl_alike (h : run.rejected = true) {chromiumIds : Prefetched}
    {incoming : Uuid → Option String} {rest : List RemoteMove} :
    (rest.foldl (applyMoveCached chromiumIds incoming) (run, cache)).1 =
      rest.foldl bookmarks.applyMove run := by
  induction rest generalizing cache with
  | nil => rfl
  | cons move rest ih =>
    rw [List.foldl_cons, List.foldl_cons, applyMoveCached_eq, applyMove_eq, perform_of_rejected h,
      perform_of_rejected h]
    exact ih

/-- What a move that is not rejected leaves. -/
theorem perform_move {objectId : Uuid} {index : ℕ} (hrun : run.rejected = false)
    (h : ((MoveAction.move objectId id parentId index).perform run).rejected = false) :
    ∃ browser, run.profile.browser.move id parentId index = some browser ∧
      ((MoveAction.move objectId id parentId index).perform run).profile =
        { run.profile.deleteDeferred [objectId] with browser := browser } := by
  have heffect : ∀ change, (run.effect change).profile = change run.profile ∧
      (run.effect change).rejected = false := by
    intro change
    rw [Run.effect, hrun]
    exact ⟨rfl, rfl⟩
  obtain ⟨hprofile, hrejected⟩ := heffect fun profile => profile.deleteDeferred [objectId]
  have hbrowser : (run.effect fun profile => profile.deleteDeferred [objectId]).profile.browser =
      run.profile.browser := by rw [hprofile]; rfl
  rw [MoveAction.perform, Run.call, hbrowser] at h ⊢
  cases hcall : run.profile.browser.move id parentId index with
  | none =>
    rw [hcall] at h
    exact absurd h (by simp)
  | some browser =>
    refine ⟨browser, rfl, ?_⟩
    simp only [Run.effect, hrun]
    rfl

/-- A call that goes through leads to a profile the moves lead to. -/
theorem Follows.call (h : bookmarks.Follows moves start now) (hmove : move ∈ moves)
    (hid : bookmarks.chromiumIdFor start move.objectId = some id)
    (hparent : bookmarks.chromiumIdFor start move.parent = some parentId) {index : ℕ}
    {browser : Browser} (hcall : now.browser.move id parentId index = some browser) :
    bookmarks.Follows moves start
      { now.deleteDeferred [move.objectId] with browser := browser } := by
  obtain ⟨hchildren, hothers, htree⟩ := Browser.move_spec h.tree hcall
  refine ⟨h.mappings, h.fields, htree, fun other child hchild => ?_⟩
  have hmem : child ∈ browser.childIds other := hchild
  by_cases hother : other = parentId
  · subst hother
    rw [hchildren] at hmem
    rcases List.mem_cons.mp (List.insertIdx_subset_cons _ _ _ hmem) with rfl | hold
    · exact Or.inr ⟨move, hmove, hid, hparent⟩
    · exact h.children other child (List.mem_of_mem_filter hold)
  · rw [hothers other hother] at hmem
    exact h.children other child (List.mem_of_mem_filter hmem)

/-- The children of a destination after a call: the node goes before the sibling. -/
theorem childIds_call (h : bookmarks.Follows moves start now)
    (hrecorded : bookmarks.Recorded start moves) (hcache : CacheCurrent position now cache)
    {before : Option ChromiumId} {browser : Browser}
    (hcall : now.browser.move id parentId
      (moveIndex (orderOf now moves cache parentId).liveOrder id before) = some browser) :
    browser.childIds parentId = ((now.browser.childIds parentId).filter (· ≠ id)).insertIdx
        (placeBefore ((now.browser.childIds parentId).filter (· ≠ id)) before) id ∧
      ∀ other, other ≠ parentId →
        browser.childIds other = (now.browser.childIds other).filter (· ≠ id) := by
  obtain ⟨hchildren, hothers, -⟩ := Browser.move_spec h.tree hcall
  rw [(isCurrent_orderOf h hrecorded hcache parentId).live, moveIndex_spec] at hchildren
  exact ⟨hchildren, hothers⟩

/-- A folder is not in the cache after a move only if it was not before, and is not the destination
of the move. -/
theorem lookup_others {order : CachedParentOrder} {other : ChromiumId}
    (h : ((parentId, order) :: (cache.filter fun entry => entry.1 ≠ parentId).map fun entry =>
      (entry.1, entry.2.without id)).lookup other = none) :
    other ≠ parentId ∧ cache.lookup other = none := by
  rw [List.lookup_eq_none_iff] at h ⊢
  have hne : other ≠ parentId := by simpa using h _ List.mem_cons_self
  refine ⟨hne, fun entry hentry => ?_⟩
  by_cases hentryId : entry.1 = parentId
  · simpa [hentryId] using hne
  · exact h (entry.1, entry.2.without id) (List.mem_cons_of_mem _
      (List.mem_map.mpr ⟨entry, List.mem_filter.mpr ⟨hentry, by simpa using hentryId⟩, rfl⟩))

/-- **One move** leads to a profile the moves lead to, and the cache stays current. -/
theorem perform_cachedMoveAction (h : bookmarks.Follows moves start run.profile)
    (hrecorded : bookmarks.Recorded start moves) (hcounts : bookmarks.Counts moves start position)
    (hcache : CacheCurrent position run.profile cache)
    (hmove : move ∈ moves) (hrun : run.rejected = false)
    (hperform : ((cachedMoveAction (bookmarks.batchIds start moves) (incomingPosition moves)
      run.profile cache move).1.perform run).rejected = false) :
    bookmarks.Follows moves start ((cachedMoveAction (bookmarks.batchIds start moves)
        (incomingPosition moves) run.profile cache move).1.perform run).profile ∧
      bookmarks.Counts moves start (bookmarks.positionAfter start position move) ∧
      CacheCurrent (bookmarks.positionAfter start position move)
        ((cachedMoveAction (bookmarks.batchIds start moves)
          (incomingPosition moves) run.profile cache move).1.perform run).profile
        (cachedMoveAction (bookmarks.batchIds start moves) (incomingPosition moves) run.profile
          cache move).2 := by
  cases hid : bookmarks.chromiumIdFor start move.objectId with
  | none =>
    rw [cachedMoveAction_skip hmove hid, positionAfter, hid]
    exact ⟨h, hcounts, hcache⟩
  | some id =>
    cases hparent : bookmarks.chromiumIdFor start move.parent with
    | none =>
      rw [cachedMoveAction_defer hmove hid hparent, MoveAction.perform, Run.effect, hrun,
        positionAfter, hid, hparent]
      refine ⟨⟨h.mappings, h.fields, h.tree, h.children⟩, hcounts, ⟨fun entry hentry => ?_,
        hcache.unread⟩⟩
      have hentry := hcache.current entry hentry
      exact ⟨hentry.live, hentry.positions, hentry.sorted⟩
    | some parentId =>
      rw [cachedMoveAction_move _ _ hmove hid hparent] at hperform ⊢
      obtain ⟨browser, hcall, hprofile⟩ := perform_move hrun hperform
      obtain ⟨hchildren, hothers⟩ := childIds_call h hrecorded hcache hcall
      rw [hprofile, positionAfter, hid, hparent]
      refine ⟨h.call hmove hid hparent hcall, hcounts.update hrecorded hmove hid,
        ⟨fun entry hentry => ?_, fun other hother child hchild => ?_⟩⟩
      · rcases List.mem_cons.mp hentry with rfl | hentry
        · exact CachedParentOrder.IsCurrent.with (isCurrent_orderOf h hrecorded hcache parentId)
            hchildren move.position
        · obtain ⟨old, hold, rfl⟩ := List.mem_map.mp hentry
          obtain ⟨hin, hne⟩ := List.mem_filter.mp hold
          exact (hcache.current old hin).without (hothers old.1 (of_decide_eq_true hne)) _
      · dsimp only at hother
        obtain ⟨hne, hunread⟩ := lookup_others hother
        have hchild : child ∈ browser.childIds other := hchild
        rw [hothers other hne] at hchild
        obtain ⟨hold, hchildNe⟩ := List.mem_filter.mp hchild
        exact (Function.update_of_ne (of_decide_eq_true hchildNe) _ _).trans
          (hcache.unread other hunread child hold)

variable (bookmarks) in
/-- Every move goes by the recorded positions, up to a call that the browser rejects. -/
def AllGoByRecorded (start : Profile) :
    (ChromiumId → Option String) → Run → List RemoteMove → Prop
  | _, _, [] => True
  | position, run, move :: rest => run.rejected = false →
    bookmarks.GoesByRecorded start position run.profile move ∧
      AllGoByRecorded start (bookmarks.positionAfter start position move)
        (bookmarks.applyMove run move) rest

/-- The moves that are left are made alike exactly if they go by the recorded positions. -/
theorem cachedActions_eq_iff (hrecorded : bookmarks.Recorded start moves)
    (hapart : bookmarks.Apart start moves) {rest : List RemoteMove}
    (hrest : ∀ move ∈ rest, move ∈ moves) (run : Run) (cache : ParentOrders)
    (position : ChromiumId → Option String)
    (h : run.rejected = false → bookmarks.Follows moves start run.profile ∧
      bookmarks.Counts moves start position ∧ CacheCurrent position run.profile cache) :
    (cachedActions (bookmarks.batchIds start moves) (incomingPosition moves) (run, cache) rest =
        bookmarks.singleActions run rest ↔ bookmarks.AllGoByRecorded start position run rest) ∧
      (bookmarks.AllGoByRecorded start position run rest →
        (rest.foldl (applyMoveCached (bookmarks.batchIds start moves) (incomingPosition moves))
          (run, cache)).1 = rest.foldl bookmarks.applyMove run) := by
  induction rest generalizing run cache position with
  | nil => exact ⟨iff_of_true rfl trivial, fun _ => rfl⟩
  | cons move rest ih =>
    have hmove := hrest move List.mem_cons_self
    rw [cachedActions, singleActions, List.foldl_cons, List.foldl_cons, applyMoveCached_eq,
      applyMove_eq, AllGoByRecorded, applyMove_eq]
    by_cases hrun : run.rejected = true
    · have hnot : run.rejected ≠ false := by simp [hrun]
      rw [if_pos hrun, if_pos hrun, perform_of_rejected hrun, perform_of_rejected hrun]
      refine ⟨iff_of_true rfl fun hfalse => absurd hfalse hnot, fun _ => ?_⟩
      exact foldl_alike hrun
    · have hfalse : run.rejected = false := Bool.eq_false_iff.mpr hrun
      obtain ⟨hfollows, hcounts, hcache⟩ := h hfalse
      have hsame := cachedMoveAction_eq_iff hfollows hrecorded hapart hcounts hcache hmove
      have hnext := perform_cachedMoveAction hfollows hrecorded hcounts hcache hmove hfalse
      rw [if_neg hrun, if_neg hrun, List.cons.injEq, hsame]
      by_cases hgoes : bookmarks.GoesByRecorded start position run.profile move
      · rw [hsame.mpr hgoes] at hnext ⊢
        obtain ⟨hactions, hruns⟩ := ih
          (fun other hother => hrest other (List.mem_cons_of_mem _ hother)) _ _
          (bookmarks.positionAfter start position move) hnext
        exact ⟨by simp only [hgoes, hfalse, true_and, forall_const, hactions],
          fun hall => hruns (hall hfalse).2⟩
      · exact ⟨iff_of_false (fun hall => hgoes hall.1) fun hall => hgoes (hall hfalse).1,
          fun hall => absurd (hall hfalse).1 hgoes⟩

end Batch

variable (bookmarks) in
/-- **When a batch makes the moves as if one after the other.** It makes the calls and the deferrals
that `applyMove` makes for each move in turn, up to a call the browser rejects, exactly if no move
goes before a built-in folder that the batch has moved itself: the cache counts it at the position it
was moved to, which no single move reads. Then it also leaves the same. -/
theorem batchActions_eq_iff (run : Run) (moves : List RemoteMove)
    (hrecorded : bookmarks.Recorded run.profile moves)
    (hapart : bookmarks.Apart run.profile moves) :
    (bookmarks.batchActions run moves = bookmarks.singleActions run moves ↔
        bookmarks.AllGoByRecorded run.profile run.profile.recordedPosition run moves) ∧
      (bookmarks.AllGoByRecorded run.profile run.profile.recordedPosition run moves →
        bookmarks.applyMovesBatch run moves = moves.foldl bookmarks.applyMove run) := by
  rw [applyMovesBatch_eq]
  exact cachedActions_eq_iff hrecorded hapart (fun _ h => h) run [] _
    fun _ => ⟨Follows.refl hrecorded.tree, .initial,
      ⟨fun _ h => absurd h List.not_mem_nil, fun _ _ _ _ => rfl⟩⟩

/-! ### A built-in folder among the moved ones -/

/-- The object id of the Mobile bookmarks. -/
def mobileBookmarksId : Uuid := 0x70008000000000000003

/-- The browser does not show the Mobile bookmarks, and a folder stands in for them. -/
def standInRoots : BookmarksModule := ⟨[(mobileBookmarksId, 20)], [20], false, fun _ => true⟩

/-- A folder with a bookmark, another bookmark next to it, and the folder that stands in. -/
def standInProfile : Profile where
  browser := ⟨[⟨0, none, ⟨"", none⟩⟩, ⟨1, some 0, ⟨"Bookmarks bar", none⟩⟩,
    ⟨2, some 0, ⟨"Other bookmarks", none⟩⟩, ⟨20, some 2, ⟨"Mobile bookmarks", none⟩⟩,
    ⟨10, some 1, ⟨"News", none⟩⟩, ⟨11, some 10, ⟨"One", some "https://one.example/"⟩⟩,
    ⟨12, some 1, ⟨"Two", some "https://two.example/"⟩⟩], 21⟩
  mappings := [(10, 100), (11, 101), (12, 102)]
  deferred := []
  fields slot := if slot.2 = .move then
      ([(mobileBookmarksId, "c"), (101, "e"), (102, "b")].lookup slot.1).map fun position =>
        ⟨⟨1, 1, 1⟩, .move, some (.object [("position", .string position)])⟩
    else none

/-- The folder that stands in is moved in front of the bookmark, and the other bookmark in front of
that folder. -/
def standInMoves : List RemoteMove :=
  [⟨mobileBookmarksId, .bookmarkFolder, 100, "c"⟩, ⟨102, .bookmark, 100, "b"⟩]

theorem recorded_standInMoves : standInRoots.Recorded standInProfile standInMoves where
  tree := show (standInProfile.browser.nodes.map Forest.Node.id).Nodup by decide
  object := by decide
  node := by
    intro move hmove id hid
    rcases List.mem_pair.mp hmove with rfl | rfl
    · obtain rfl : 20 = id := Option.some.inj hid
      decide
    · obtain rfl : 12 = id := Option.some.inj hid
      decide

theorem apart_standInMoves : standInRoots.Apart standInProfile standInMoves := by
  have hinvolved : ∀ a, standInRoots.Involved standInProfile standInMoves 10 a →
      a ∈ [11, 12, 20] := by
    rintro a (hchild | ⟨move, hmove, hid, -⟩)
    · exact List.mem_append_left [12, 20] hchild
    · rcases List.mem_pair.mp hmove with rfl | rfl
      · obtain rfl : 20 = a := Option.some.inj hid
        decide
      · obtain rfl : 12 = a := Option.some.inj hid
        decide
  have hposition : ∀ a q, standInRoots.HasPosition standInProfile standInMoves a q →
      a ∈ [11, 12, 20] → (a, q) ∈ [(11, "e"), (12, "b"), (20, "c")] := by
    rintro a q (hrecorded | ⟨move, hmove, hid, rfl⟩) ha
    · have hall : ∀ a ∈ [11, 12, 20], ∀ q ∈ standInProfile.recordedPosition a,
          (a, q) ∈ [(11, "e"), (12, "b"), (20, "c")] := by decide
      exact hall a ha q hrecorded
    · rcases List.mem_pair.mp hmove with rfl | rfl
      · obtain rfl : 20 = a := Option.some.inj hid
        decide
      · obtain rfl : 12 = a := Option.some.inj hid
        decide
  have hapart : ∀ x ∈ [(11, "e"), (12, "b"), (20, "c")], ∀ y ∈ [(11, "e"), (12, "b"), (20, "c")],
      x.2 = y.2 → x.1 = y.1 := by decide
  intro destination hdestination parentId hparent a b q ha hb hqa hqb
  obtain rfl : 10 = parentId := by
    rcases List.mem_pair.mp hdestination with rfl | rfl <;> exact Option.some.inj hparent
  exact hapart (a, q) (hposition a q hqa (hinvolved a ha)) (b, q) (hposition b q hqb (hinvolved b hb))
    rfl

theorem batchActions_eq_iff_standInMoves :
    (standInRoots.batchActions (Run.start standInProfile) standInMoves =
        standInRoots.singleActions (Run.start standInProfile) standInMoves ↔
      standInRoots.AllGoByRecorded standInProfile standInProfile.recordedPosition
        (Run.start standInProfile) standInMoves) ∧
      (standInRoots.AllGoByRecorded standInProfile standInProfile.recordedPosition
        (Run.start standInProfile) standInMoves →
      standInRoots.applyMovesBatch (Run.start standInProfile) standInMoves =
        standInMoves.foldl standInRoots.applyMove (Run.start standInProfile)) :=
  standInRoots.batchActions_eq_iff (Run.start standInProfile) standInMoves recorded_standInMoves
    apart_standInMoves

/-- The batch puts the bookmark before the folder that stands in, at index 0; by itself the move goes
by the bookmark that was there, to index 1. -/
theorem not_batchActions_eq : ¬∀ (bookmarks : BookmarksModule) (run : Run)
    (moves : List RemoteMove), bookmarks.Recorded run.profile moves →
    bookmarks.Apart run.profile moves →
    bookmarks.batchActions run moves = bookmarks.singleActions run moves := by
  intro h
  have hsame := h standInRoots (Run.start standInProfile) standInMoves recorded_standInMoves
    apart_standInMoves
  revert hsame
  decide

end BookmarksModule

end Client

end HelixSync
