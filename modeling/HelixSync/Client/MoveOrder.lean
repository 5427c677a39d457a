import HelixSync.Client.CachedMoves

/-!
# The order a batch of moves leaves

A batch of moves is to leave the children of every destination in the order of their positions
(`applyMovesBatch`, `extension/src/bookmarks/index.ts`). Each node is put before the first sibling
with a greater position. That sibling may itself be waiting for its move, as the cached order has it
by the position it is to get; where it stands now says nothing, and the node may end up among the
wrong neighbours (`HelixSync.Client.BookmarksModule.not_inOrder`).

The order is right in the end exactly if every move keeps the settled children in order, those that
no later move takes along. It does unless it goes before a waiting sibling that does not stand
between the settled children with smaller and with greater positions, or before a built-in folder,
which has no recorded position, that does not (`HelixSync.Client.BookmarksModule.inOrder_iff`).
-/

namespace HelixSync

namespace Client

open CodeUnits Forest

namespace BookmarksModule

variable (bookmarks : BookmarksModule)

/-! ### Settled children -/

/-- Children are in the order of their positions. -/
def InOrder (children : List Positioned) : Prop :=
  children.Pairwise fun a b => codeUnits a.2 < codeUnits b.2

/-- The nodes of some moves. -/
def movedNodes (profile : Profile) (moves : List RemoteMove) : List ChromiumId :=
  moves.filterMap fun move => bookmarks.chromiumIdFor profile move.objectId

/-- The nodes with a position, without those still to be moved. -/
def settled (position : ChromiumId → Option String) (waiting nodes : List ChromiumId) :
    List Positioned :=
  (nodes.filterMap fun id => (position id).map (Prod.mk id)).filter fun child => child.1 ∉ waiting

/-- The children of a folder with a position, without those still to be moved. -/
def settledChildren (waiting : List ChromiumId) (profile : Profile) (parentId : ChromiumId) :
    List Positioned :=
  settled profile.recordedPosition waiting (profile.browser.childIds parentId)

/-- The settled children of every destination are in order. -/
def SettledInOrder (start : Profile) (moves rest : List RemoteMove) (now : Profile) : Prop :=
  ∀ destination ∈ moves, ∀ parentId,
    bookmarks.chromiumIdFor start destination.parent = some parentId →
      InOrder (settledChildren (bookmarks.movedNodes start rest) now parentId)

/-- A node that the batch leaves in a folder, or moves there. -/
def Belongs (profile : Profile) (moves : List RemoteMove) (parentId id : ChromiumId) : Prop :=
  (id ∈ profile.browser.childIds parentId ∧ id ∉ bookmarks.movedNodes profile moves) ∨
    ∃ move ∈ moves, bookmarks.chromiumIdFor profile move.objectId = some id ∧
      bookmarks.chromiumIdFor profile move.parent = some parentId

/-- Moves of distinct nodes to mapped folders, with recorded positions that differ in each
destination, where the children that are not moved stand in order. -/
structure Reorders (profile : Profile) (moves : List RemoteMove) : Prop extends
    bookmarks.Recorded profile moves where
  mapped : ∀ move ∈ moves, (bookmarks.chromiumIdFor profile move.parent).isSome = true
  distinct : (bookmarks.movedNodes profile moves).Nodup
  apart : ∀ destination ∈ moves, ∀ parentId,
    bookmarks.chromiumIdFor profile destination.parent = some parentId → ∀ a b position,
      bookmarks.Belongs profile moves parentId a → bookmarks.Belongs profile moves parentId b →
      bookmarks.HasPosition profile moves a position →
      bookmarks.HasPosition profile moves b position → a = b
  ordered : bookmarks.SettledInOrder profile moves moves profile

/-- The browser takes the move, and the node is not put before a sibling that is waiting or has no
recorded position, or before one that stands after the settled children with smaller positions and
before those with greater ones. A built-in folder has no recorded position, so it may go anywhere. -/
def KeepsOrder (start : Profile) (moves : List RemoteMove) (state : Run × ParentOrders)
    (move : RemoteMove) (rest : List RemoteMove) : Prop :=
  ∀ id parentId, bookmarks.chromiumIdFor start move.objectId = some id →
    bookmarks.chromiumIdFor start move.parent = some parentId →
    let order := orderOf state.1.profile moves state.2 parentId
    let before := order.before id move.position
    let others := (state.1.profile.browser.childIds parentId).filter (· ≠ id)
    (state.1.profile.browser.move id parentId (moveIndex order.liveOrder id before)).isSome = true ∧
      ((start.recordedPosition id).isSome → ∀ sibling ∈ before,
        sibling ∈ bookmarks.movedNodes start rest ∨ start.recordedPosition sibling = none →
        ∀ child ∈ settledChildren (bookmarks.movedNodes start (move :: rest)) state.1.profile parentId,
          codeUnits child.2 < codeUnits move.position ↔
            others.idxOf child.1 < others.idxOf sibling)

/-- One move of a batch. -/
def moveStep (start : Profile) (moves : List RemoteMove) (state : Run × ParentOrders)
    (move : RemoteMove) : Run × ParentOrders :=
  applyMoveCached (bookmarks.batchIds start moves) (incomingPosition moves) state move

/-- Every move of a batch keeps the order. -/
def AllKeepOrder (start : Profile) (moves : List RemoteMove) :
    Run × ParentOrders → List RemoteMove → Prop
  | _, [] => True
  | state, move :: rest => bookmarks.KeepsOrder start moves state move rest ∧
      AllKeepOrder start moves (bookmarks.moveStep start moves state move) rest

/-! ### A node among settled children -/

section Insert

variable {front back : List Positioned} {node : Positioned}

/-- A node put into a list in order keeps the order exactly if it goes between those with smaller
and those with greater positions. -/
theorem inOrder_insert : InOrder (front ++ node :: back) ↔
    InOrder (front ++ back) ∧ (∀ child ∈ front, codeUnits child.2 < codeUnits node.2) ∧
      ∀ child ∈ back, codeUnits node.2 < codeUnits child.2 := by
  rw [InOrder, InOrder, List.pairwise_append, List.pairwise_append, List.pairwise_cons]
  constructor
  · rintro ⟨hfront, ⟨hnode, hback⟩, hcross⟩
    exact ⟨⟨hfront, hback, fun a ha b hb => hcross a ha b (List.mem_cons_of_mem _ hb)⟩,
      fun child hchild => hcross child hchild node List.mem_cons_self, hnode⟩
  · rintro ⟨⟨hfront, hback, hcross⟩, hsmaller, hgreater⟩
    refine ⟨hfront, ⟨hgreater, hback⟩, fun a ha b hb => ?_⟩
    rcases List.mem_cons.mp hb with rfl | hb
    · exact hsmaller a ha
    · exact hcross a ha b hb

end Insert

/-! ### Where a node is put -/

section Place

variable {position counted : ChromiumId → Option String} {waiting others : List ChromiumId}
  {child : Positioned} {p : String} {before : Option ChromiumId}

theorem mem_settled : child ∈ settled position waiting others ↔
    child.1 ∈ others ∧ position child.1 = some child.2 ∧ child.1 ∉ waiting := by
  obtain ⟨id, q⟩ := child
  simp only [settled, List.mem_filter, List.mem_filterMap, Option.map_eq_some_iff, Prod.mk.injEq,
    decide_eq_true_eq]
  constructor
  · rintro ⟨⟨id', hid', q', hq', rfl, rfl⟩, hwaiting⟩
    exact ⟨hid', hq', hwaiting⟩
  · rintro ⟨hid, hq, hwaiting⟩
    exact ⟨⟨id, hid, q, hq, rfl, rfl⟩, hwaiting⟩

theorem settled_append (front back : List ChromiumId) :
    settled position waiting (front ++ back) =
      settled position waiting front ++ settled position waiting back := by
  rw [settled, List.filterMap_append, List.filter_append]
  rfl

theorem mem_front_or_back (k : ℕ) (h : child ∈ settled position waiting others) :
    child ∈ settled position waiting (others.take k) ∨
      child ∈ settled position waiting (others.drop k) := by
  rw [← List.mem_append, ← settled_append, List.take_append_drop]
  exact h

theorem mem_of_mem_front {k : ℕ} (h : child ∈ settled position waiting (others.take k)) :
    child ∈ settled position waiting others ∧ others.idxOf child.1 < k := by
  obtain ⟨hmem, hrest⟩ := mem_settled.mp h
  have hothers := List.mem_of_mem_take hmem
  exact ⟨mem_settled.mpr ⟨hothers, hrest⟩, (List.mem_take_iff_idxOf_lt hothers).mp hmem⟩

theorem mem_of_mem_back (hnodup : others.Nodup) {k : ℕ}
    (h : child ∈ settled position waiting (others.drop k)) :
    child ∈ settled position waiting others ∧ ¬others.idxOf child.1 < k := by
  obtain ⟨hmem, hrest⟩ := mem_settled.mp h
  have hothers := List.mem_of_mem_drop hmem
  refine ⟨mem_settled.mpr ⟨hothers, hrest⟩, fun hlt => ?_⟩
  exact List.disjoint_take_drop hnodup le_rfl ((List.mem_take_iff_idxOf_lt hothers).mpr hlt) hmem

/-- **A node goes between** the settled siblings with smaller and with greater positions, unless it
goes before a waiting one, or one without a position, that does not stand there. -/
theorem between_iff (hnodup : others.Nodup) (hnext : IsNext counted others p before)
    (hcounted : ∀ id q, position id = some q → counted id = some q)
    (hne : ∀ child ∈ settled position waiting others, child.2 ≠ p)
    (horder : InOrder (settled position waiting others)) :
    ((∀ child ∈ settled position waiting (others.take (placeBefore others before)),
        codeUnits child.2 < codeUnits p) ∧
      ∀ child ∈ settled position waiting (others.drop (placeBefore others before)),
        codeUnits p < codeUnits child.2) ↔
      ∀ sibling ∈ before, sibling ∈ waiting ∨ position sibling = none →
        ∀ child ∈ settled position waiting others,
          codeUnits child.2 < codeUnits p ↔ others.idxOf child.1 < others.idxOf sibling := by
  have hbelow : ∀ child ∈ settled position waiting others,
      codeUnits child.2 ≤ codeUnits p → codeUnits child.2 < codeUnits p :=
    fun child hchild hle => lt_of_le_of_ne hle (codeUnits_inj.not.mpr (hne child hchild))
  have habove : ∀ child ∈ settled position waiting others,
      codeUnits p ≤ codeUnits child.2 → codeUnits p < codeUnits child.2 :=
    fun child hchild hle => lt_of_le_of_ne hle (codeUnits_inj.not.mpr (hne child hchild).symm)
  cases before with
  | none =>
    refine iff_of_true ⟨fun child hchild => ?_, fun child hchild => ?_⟩
      (fun sibling h => absurd h (by simp))
    · obtain ⟨hmem, -⟩ := mem_of_mem_front hchild
      obtain ⟨hothers, hposition, -⟩ := mem_settled.mp hmem
      exact hbelow child hmem (hnext.of_none rfl _ hothers _ (hcounted _ _ hposition))
    · rw [placeBefore, List.drop_length] at hchild
      exact absurd hchild List.not_mem_nil
  | some sibling =>
    obtain ⟨hsibling, q, hq, hpq, hleast⟩ := hnext.of_some sibling rfl
    rw [placeBefore]
    by_cases hwaiting : sibling ∈ waiting ∨ position sibling = none
    · constructor
      · rintro ⟨hfront, hback⟩ sibling' hsibling' - child hchild
        obtain rfl := Option.some.inj hsibling'
        rcases mem_front_or_back (others.idxOf sibling) hchild with hin | hin
        · exact iff_of_true (hfront child hin) (mem_of_mem_front hin).2
        · exact iff_of_false (lt_asymm (hback child hin)) (mem_of_mem_back hnodup hin).2
      · intro hall
        have hall' := hall sibling rfl hwaiting
        refine ⟨fun child hchild => ?_, fun child hchild => ?_⟩
        · obtain ⟨hmem, hlt⟩ := mem_of_mem_front hchild
          exact (hall' child hmem).mpr hlt
        · obtain ⟨hmem, hnot⟩ := mem_of_mem_back hnodup hchild
          exact habove child hmem (not_lt.mp fun hlt => hnot ((hall' child hmem).mp hlt))
    · -- the sibling is settled, so those before it are below it and those after it above it
      obtain ⟨hsettled, hsome⟩ := not_or.mp hwaiting
      obtain ⟨r, hr⟩ := Option.ne_none_iff_exists'.mp hsome
      obtain rfl : r = q := Option.some.inj ((hcounted _ _ hr).symm.trans hq)
      have hlt := List.idxOf_lt_length_of_mem hsibling
      have hback : settled position waiting (others.drop (others.idxOf sibling)) =
          (sibling, r) :: settled position waiting (others.drop (others.idxOf sibling + 1)) := by
        rw [List.drop_eq_getElem_cons hlt, List.getElem_idxOf]
        simp [settled, hr, hsettled]
      rw [← List.take_append_drop (others.idxOf sibling) others, settled_append, hback, InOrder,
        List.pairwise_append] at horder
      obtain ⟨-, hordered, hcross⟩ := horder
      refine iff_of_true ⟨fun child hchild => ?_, fun child hchild => ?_⟩
        (fun sibling' h hin => absurd (Option.some.inj h ▸ hin) hwaiting)
      · obtain ⟨hmem, -⟩ := mem_of_mem_front hchild
        obtain ⟨hothers, hposition, -⟩ := mem_settled.mp hmem
        by_contra hnot
        exact absurd (hcross child hchild _ List.mem_cons_self) (not_lt.mpr
          (hleast _ hothers _ (hcounted _ _ hposition) (habove child hmem (not_lt.mp hnot))))
      · rw [hback] at hchild
        rcases List.mem_cons.mp hchild with rfl | hchild
        · exact hpq
        · exact hpq.trans ((List.pairwise_cons.mp hordered).1 child hchild)

end Place

/-! ### One move -/

section OneMove

variable {bookmarks} {start now : Profile} {moves rest : List RemoteMove} {cache : ParentOrders}
  {move : RemoteMove} {id parentId : ChromiumId} {position : ChromiumId → Option String}

theorem settled_eq_filterMap (position : ChromiumId → Option String)
    (waiting nodes : List ChromiumId) : settled position waiting nodes =
      nodes.filterMap fun id => if id ∈ waiting then none else (position id).map (Prod.mk id) := by
  rw [settled, List.filter_filterMap]
  refine List.filterMap_congr fun id _ => ?_
  cases position id with
  | none => simp
  | some q => by_cases hwaiting : id ∈ waiting <;> simp [hwaiting]

/-- One more node to be moved is one sibling less. -/
theorem settled_cons_waiting (position : ChromiumId → Option String) (waiting nodes : List ChromiumId)
    (id : ChromiumId) :
    settled position (id :: waiting) nodes = settled position waiting (nodes.filter (· ≠ id)) := by
  rw [settled_eq_filterMap, settled_eq_filterMap, List.filterMap_filter]
  refine List.filterMap_congr fun other _ => ?_
  by_cases hother : other = id <;> simp [hother]

theorem insertIdx_eq_append {k : ℕ} {l : List ChromiumId} (h : k ≤ l.length) (id : ChromiumId) :
    l.insertIdx k id = l.take k ++ id :: l.drop k := by
  induction l generalizing k with
  | nil =>
    obtain rfl : k = 0 := Nat.le_zero.mp h
    rfl
  | cons first l ih =>
    cases k with
    | zero => rfl
    | succ k =>
      rw [List.insertIdx_succ_cons, ih (Nat.le_of_succ_le_succ h)]
      rfl

/-- The node among the settled ones. -/
theorem settled_insertIdx {position : ChromiumId → Option String} {waiting others : List ChromiumId}
    {k : ℕ} {p : String} (hk : k ≤ others.length) (hposition : position id = some p)
    (hwaiting : id ∉ waiting) :
    settled position waiting (others.insertIdx k id) =
      settled position waiting (others.take k) ++
        (id, p) :: settled position waiting (others.drop k) := by
  rw [insertIdx_eq_append hk, settled_append]
  congr 1
  simp [settled, hposition, hwaiting]

/-- A node without a position is not among the settled ones. -/
theorem settled_insertIdx_of_none {position : ChromiumId → Option String}
    {waiting others : List ChromiumId} {k : ℕ} (hk : k ≤ others.length) (hposition : position id = none) :
    settled position waiting (others.insertIdx k id) = settled position waiting others := by
  rw [insertIdx_eq_append hk, settled_append]
  conv_rhs => rw [← List.take_append_drop k others, settled_append]
  congr 1
  simp [settled, hposition]

/-- What a destination has besides the nodes to be moved, a later move finds there. -/
def Settles (bookmarks : BookmarksModule) (start : Profile) (moves rest : List RemoteMove)
    (now : Profile) : Prop :=
  ∀ parentId, ∀ id ∈ now.browser.childIds parentId, id ∉ bookmarks.movedNodes start rest →
    bookmarks.Belongs start moves parentId id

theorem movedNodes_cons (hid : bookmarks.chromiumIdFor start move.objectId = some id) :
    bookmarks.movedNodes start (move :: rest) = id :: bookmarks.movedNodes start rest :=
  List.filterMap_cons_some hid

variable {next : Profile}

variable (next) in
/-- **One move keeps the order** exactly if the node goes between the settled children. -/
theorem settledInOrder_step (h : bookmarks.Follows moves start now)
    (hreorders : bookmarks.Reorders start moves) (hcounts : bookmarks.Counts moves start position)
    (hcache : CacheCurrent position now cache)
    (hsettles : bookmarks.Settles start moves (move :: rest) now) (hmove : move ∈ moves)
    (hid : bookmarks.chromiumIdFor start move.objectId = some id)
    (hparent : bookmarks.chromiumIdFor start move.parent = some parentId)
    (hfresh : id ∉ bookmarks.movedNodes start rest)
    (hchildren : next.browser.childIds parentId =
      ((now.browser.childIds parentId).filter (· ≠ id)).insertIdx
        (placeBefore ((now.browser.childIds parentId).filter (· ≠ id))
          ((orderOf now moves cache parentId).before id move.position)) id)
    (hothers : ∀ other, other ≠ parentId →
      next.browser.childIds other = (now.browser.childIds other).filter (· ≠ id))
    (hpositions : next.recordedPosition = now.recordedPosition) :
    bookmarks.SettledInOrder start moves rest next ↔
      bookmarks.SettledInOrder start moves (move :: rest) now ∧
        ((start.recordedPosition id).isSome →
          ∀ sibling ∈ (orderOf now moves cache parentId).before id move.position,
          sibling ∈ bookmarks.movedNodes start rest ∨ start.recordedPosition sibling = none →
            ∀ child ∈ settledChildren (bookmarks.movedNodes start (move :: rest)) now parentId,
              codeUnits child.2 < codeUnits move.position ↔
                ((now.browser.childIds parentId).filter (· ≠ id)).idxOf child.1 <
                  ((now.browser.childIds parentId).filter (· ≠ id)).idxOf sibling) := by
  set others := (now.browser.childIds parentId).filter (· ≠ id) with hdef
  set before := (orderOf now moves cache parentId).before id move.position with hbeforeDef
  have hnext : IsNext position others move.position before :=
    (isCurrent_orderOf h hreorders.toRecorded hcache parentId).isNext id move.position
  have hnodup : others.Nodup := (Browser.nodup_childIds h.tree parentId).filter _
  have hk : placeBefore others before ≤ others.length := by
    cases before with
    | none => exact le_rfl
    | some before => exact List.idxOf_le_length
  have hwaiting : ∀ other, settledChildren (bookmarks.movedNodes start (move :: rest)) now other =
      settled start.recordedPosition (bookmarks.movedNodes start rest)
        ((now.browser.childIds other).filter (· ≠ id)) := by
    intro other
    rw [settledChildren, movedNodes_cons hid, settled_cons_waiting, h.recordedPosition]
  have helsewhere : ∀ other, other ≠ parentId →
      settledChildren (bookmarks.movedNodes start rest) next other =
        settledChildren (bookmarks.movedNodes start (move :: rest)) now other := by
    intro other hother
    rw [hwaiting, settledChildren, hothers other hother, hpositions, h.recordedPosition]
  have hne : ∀ child ∈ settled start.recordedPosition (bookmarks.movedNodes start rest) others,
      child.2 ≠ move.position := by
    intro child hchild heq
    obtain ⟨hmem, hchildPosition, hnotWaiting⟩ := mem_settled.mp hchild
    obtain ⟨hin, hchildNe⟩ := List.mem_filter.mp hmem
    have hchildNe := of_decide_eq_true hchildNe
    have hbelongs := hsettles parentId child.1 hin (by
      rw [movedNodes_cons hid]
      exact List.not_mem_cons_of_ne_of_not_mem hchildNe hnotWaiting)
    rw [heq] at hchildPosition
    exact hchildNe (hreorders.apart move hmove parentId hparent child.1 id _ hbelongs
      (Or.inr ⟨move, hmove, hid, hparent⟩) (Or.inl hchildPosition)
      (Or.inr ⟨move, hmove, hid, rfl⟩))
  -- the folder after the move: the node between two parts of what was settled before, if it has a
  -- position, and else what was settled before
  have hhere : InOrder (settledChildren (bookmarks.movedNodes start rest) next parentId) ↔
      InOrder (settledChildren (bookmarks.movedNodes start (move :: rest)) now parentId) ∧
        ((start.recordedPosition id).isSome → (∀ child ∈ settled start.recordedPosition
          (bookmarks.movedNodes start rest) (others.take (placeBefore others before)),
          codeUnits child.2 < codeUnits move.position) ∧
        ∀ child ∈ settled start.recordedPosition (bookmarks.movedNodes start rest)
          (others.drop (placeBefore others before)),
          codeUnits move.position < codeUnits child.2) := by
    rw [hwaiting, settledChildren, hchildren, hpositions, h.recordedPosition]
    cases hposition : start.recordedPosition id with
    | none =>
      rw [settled_insertIdx_of_none hk hposition]
      exact ⟨fun horder => ⟨horder, fun hsome => absurd hsome nofun⟩, And.left⟩
    | some q =>
      obtain rfl : q = move.position := hreorders.node move hmove id hid q hposition
      rw [settled_insertIdx hk hposition hfresh, inOrder_insert, ← settled_append,
        List.take_append_drop]
      exact ⟨fun horder => ⟨horder.1, fun _ => horder.2⟩, fun horder => ⟨horder.1, horder.2 rfl⟩⟩
  have hkeeps : ∀ horder : InOrder (settledChildren (bookmarks.movedNodes start (move :: rest)) now
      parentId), _ := fun horder =>
    imp_congr_right (a := ((start.recordedPosition id).isSome = true)) fun _ =>
      between_iff hnodup hnext hcounts.recorded hne (hwaiting parentId ▸ horder)
  constructor
  · intro hall
    obtain ⟨horder, hbetween⟩ := hhere.mp (hall move hmove parentId hparent)
    refine ⟨fun destination hdestination other hother => ?_, ?_⟩
    · by_cases hsame : other = parentId
      · exact hsame ▸ horder
      · exact helsewhere other hsame ▸ hall destination hdestination other hother
    · rw [hwaiting]
      exact (hkeeps horder).mp hbetween
  · rintro ⟨hall, hgoes⟩ destination hdestination other hother
    by_cases hsame : other = parentId
    · subst hsame
      have horder := hall destination hdestination other hother
      rw [hwaiting] at hgoes
      exact hhere.mpr ⟨horder, (hkeeps horder).mpr hgoes⟩
    · rw [helsewhere other hsame]
      exact hall destination hdestination other hother

variable (next) in
/-- What is in a folder and is not to be moved belongs there, after the move as well. -/
theorem Settles.step (h : bookmarks.Settles start moves (move :: rest) now) (hmove : move ∈ moves)
    (hid : bookmarks.chromiumIdFor start move.objectId = some id)
    (hparent : bookmarks.chromiumIdFor start move.parent = some parentId) {k : ℕ}
    (hchildren : next.browser.childIds parentId =
      ((now.browser.childIds parentId).filter (· ≠ id)).insertIdx k id)
    (hothers : ∀ other, other ≠ parentId →
      next.browser.childIds other = (now.browser.childIds other).filter (· ≠ id)) :
    bookmarks.Settles start moves rest next := by
  have hold : ∀ other, ∀ child ∈ (now.browser.childIds other).filter (· ≠ id),
      child ∉ bookmarks.movedNodes start rest → bookmarks.Belongs start moves other child := by
    intro other child hchild hrest
    obtain ⟨hin, hne⟩ := List.mem_filter.mp hchild
    refine h other child hin ?_
    rw [movedNodes_cons hid]
    exact List.not_mem_cons_of_ne_of_not_mem (of_decide_eq_true hne) hrest
  intro other child hchild hrest
  by_cases hsame : other = parentId
  · subst hsame
    rw [hchildren] at hchild
    rcases List.mem_cons.mp (List.insertIdx_subset_cons _ _ _ hchild) with rfl | hin
    · exact Or.inr ⟨move, hmove, hid, hparent⟩
    · exact hold other child hin hrest
  · rw [hothers other hsame] at hchild
    exact hold other child hchild hrest

end OneMove

/-! ### A batch -/

section Batch

variable {bookmarks} {start : Profile} {moves rest : List RemoteMove} {run : Run}
  {cache : ParentOrders} {move : RemoteMove} {id parentId : ChromiumId}

theorem foldl_of_rejected (h : run.rejected = true) :
    (rest.foldl (bookmarks.moveStep start moves) (run, cache)).1 = run := by
  induction rest generalizing cache with
  | nil => rfl
  | cons move rest ih =>
    rw [List.foldl_cons, moveStep, applyMoveCached_eq, perform_of_rejected h]
    exact ih

/-- A call is rejected exactly if the browser refuses the move. -/
theorem rejected_perform_move (objectId : Uuid) {index : ℕ} (hrun : run.rejected = false) :
    ((MoveAction.move objectId id parentId index).perform run).rejected = false ↔
      (run.profile.browser.move id parentId index).isSome = true := by
  have heffect : ∀ change, (run.effect change).profile = change run.profile ∧
      (run.effect change).rejected = false := by
    intro change
    rw [Run.effect, hrun]
    exact ⟨rfl, rfl⟩
  obtain ⟨hprofile, hrejected⟩ := heffect fun profile => profile.deleteDeferred [objectId]
  have hbrowser : (run.effect fun profile => profile.deleteDeferred [objectId]).profile.browser =
      run.profile.browser := by rw [hprofile]; rfl
  rw [MoveAction.perform, Run.call, hbrowser]
  cases run.profile.browser.move id parentId index with
  | none => simp
  | some browser => simp [Run.effect, hrun]

theorem keepsOrder_iff (hid : bookmarks.chromiumIdFor start move.objectId = some id)
    (hparent : bookmarks.chromiumIdFor start move.parent = some parentId) :
    bookmarks.KeepsOrder start moves (run, cache) move rest ↔
      (run.profile.browser.move id parentId (moveIndex
        (orderOf run.profile moves cache parentId).liveOrder id
        ((orderOf run.profile moves cache parentId).before id move.position))).isSome = true ∧
      ((start.recordedPosition id).isSome →
        ∀ sibling ∈ (orderOf run.profile moves cache parentId).before id move.position,
        sibling ∈ bookmarks.movedNodes start rest ∨ start.recordedPosition sibling = none →
          ∀ child ∈ settledChildren (bookmarks.movedNodes start (move :: rest)) run.profile parentId,
            codeUnits child.2 < codeUnits move.position ↔
              ((run.profile.browser.childIds parentId).filter (· ≠ id)).idxOf child.1 <
                ((run.profile.browser.childIds parentId).filter (· ≠ id)).idxOf sibling) := by
  constructor
  · exact fun h => h id parentId hid hparent
  · intro h id' parentId' hid' hparent'
    obtain rfl := Option.some.inj (hid.symm.trans hid')
    obtain rfl := Option.some.inj (hparent.symm.trans hparent')
    exact h

/-- **The rest of a batch** leaves the folders in order exactly if they are so far and every move
keeps the order. -/
theorem settledInOrder_foldl (run : Run) (cache : ParentOrders)
    (position : ChromiumId → Option String) (hreorders : bookmarks.Reorders start moves)
    (hrest : ∀ move ∈ rest, move ∈ moves) (hdistinct : (bookmarks.movedNodes start rest).Nodup)
    (hrun : run.rejected = false) (h : bookmarks.Follows moves start run.profile)
    (hcounts : bookmarks.Counts moves start position)
    (hcache : CacheCurrent position run.profile cache)
    (hsettles : bookmarks.Settles start moves rest run.profile) :
    ((rest.foldl (bookmarks.moveStep start moves) (run, cache)).1.rejected = false ∧
      bookmarks.SettledInOrder start moves []
        (rest.foldl (bookmarks.moveStep start moves) (run, cache)).1.profile) ↔
    bookmarks.SettledInOrder start moves rest run.profile ∧
      bookmarks.AllKeepOrder start moves (run, cache) rest := by
  induction rest generalizing run cache position with
  | nil => exact ⟨fun hdone => ⟨hdone.2, trivial⟩, fun hdone => ⟨hrun, hdone.1⟩⟩
  | cons move rest ih =>
    have hmove := hrest move List.mem_cons_self
    have hrest' : ∀ other ∈ rest, other ∈ moves :=
      fun other hother => hrest other (List.mem_cons_of_mem _ hother)
    obtain ⟨parentId, hparent⟩ := Option.isSome_iff_exists.mp (hreorders.mapped move hmove)
    rw [List.foldl_cons, AllKeepOrder]
    cases hid : bookmarks.chromiumIdFor start move.objectId with
    | none =>
      have hnodes : bookmarks.movedNodes start (move :: rest) = bookmarks.movedNodes start rest :=
        List.filterMap_cons_none hid
      have hkeeps : bookmarks.KeepsOrder start moves (run, cache) move rest := by
        intro id parentId hid'
        rw [hid] at hid'
        exact absurd hid' (by simp)
      have hstep : bookmarks.moveStep start moves (run, cache) move = (run, cache) := by
        rw [moveStep, applyMoveCached_eq, cachedMoveAction_skip hmove hid]
        rfl
      have hsame : bookmarks.SettledInOrder start moves (move :: rest) run.profile ↔
          bookmarks.SettledInOrder start moves rest run.profile := by
        rw [SettledInOrder, SettledInOrder, hnodes]
      rw [hnodes] at hdistinct
      rw [hstep, hsame, and_iff_right hkeeps]
      refine ih _ _ _ hrest' hdistinct hrun h hcounts hcache fun other child hchild hwaiting => ?_
      exact hsettles other child hchild (by rwa [hnodes])
    | some id =>
      rw [movedNodes_cons hid] at hdistinct
      obtain ⟨hfresh, hdistinct⟩ := List.nodup_cons.mp hdistinct
      have hperform := perform_cachedMoveAction h hreorders.toRecorded hcounts hcache hmove hrun
      have haction := cachedMoveAction_move run.profile cache hmove hid hparent
      rw [moveStep, applyMoveCached_eq, keepsOrder_iff hid hparent]
      rw [haction] at hperform ⊢
      dsimp only at hperform ⊢
      rw [← rejected_perform_move move.objectId hrun]
      by_cases hrejected : ((MoveAction.move move.objectId id parentId (moveIndex
          (orderOf run.profile moves cache parentId).liveOrder id
          ((orderOf run.profile moves cache parentId).before id move.position))).perform
            run).rejected = false
      · obtain ⟨browser, hcall, hprofile⟩ := perform_move hrun hrejected
        obtain ⟨hchildren, hothers⟩ := childIds_call h hreorders.toRecorded hcache hcall
        obtain ⟨hfollows, hcounts', hcurrent⟩ := hperform hrejected
        have hstep := settledInOrder_step
          { run.profile.deleteDeferred [move.objectId] with browser := browser }
          h hreorders hcounts hcache hsettles hmove hid hparent hfresh hchildren hothers rfl
        have hnext := hsettles.step
          { run.profile.deleteDeferred [move.objectId] with browser := browser }
          hmove hid hparent hchildren hothers
        rw [← hprofile] at hstep hnext
        rw [ih _ _ _ hrest' hdistinct hrejected hfollows hcounts' hcurrent hnext, hstep,
          and_iff_right hrejected, and_assoc]
      · have htrue := Bool.not_eq_false _ |>.mp hrejected
        rw [foldl_of_rejected htrue]
        exact iff_of_false (fun hdone => hrejected hdone.1) fun hdone => hrejected hdone.2.1.1

end Batch

/-- **When a batch of moves leaves the destinations in order**: exactly if the browser takes every
move, and none goes before a sibling that is still to be moved, or is a built-in folder, and does not
stand between the settled children with smaller and with greater positions. -/
theorem inOrder_iff (profile : Profile) (moves : List RemoteMove)
    (h : bookmarks.Reorders profile moves) :
    ((bookmarks.applyMovesBatch (Run.start profile) moves).rejected = false ∧
      ∀ destination ∈ moves, ∀ parentId,
        bookmarks.chromiumIdFor profile destination.parent = some parentId →
          InOrder ((bookmarks.applyMovesBatch (Run.start profile) moves).profile.positionedChildren
            parentId)) ↔
      bookmarks.AllKeepOrder profile moves (Run.start profile, []) moves := by
  have hrun := settledInOrder_foldl (Run.start profile) [] profile.recordedPosition h
    (fun _ hmem => hmem) h.distinct rfl (Follows.refl h.tree) .initial
    ⟨fun _ hmem => absurd hmem List.not_mem_nil, fun _ _ _ _ => rfl⟩
    fun _ _ hchild hwaiting => Or.inl ⟨hchild, hwaiting⟩
  have hall : ∀ now parentId, settledChildren [] now parentId = now.positionedChildren parentId :=
    fun now parentId => List.filter_eq_self.mpr fun child _ => by simp
  have horder : bookmarks.SettledInOrder profile moves moves (Run.start profile).profile := h.ordered
  rw [and_iff_right horder] at hrun
  rw [applyMovesBatch_eq, ← hrun]
  simp only [SettledInOrder, movedNodes, List.filterMap_nil, hall]
  rfl

/-! ### A node put before one that is still to be moved -/

/-- No built-in folder is involved. -/
def noRoots : BookmarksModule := ⟨[], [], false, fun _ => true⟩

/-- A folder with three bookmarks, of which the first is to go between the other two, and a bookmark
next to it that is to go before that one. -/
def waitingProfile : Profile where
  browser := ⟨[⟨0, none, ⟨"", none⟩⟩, ⟨1, some 0, ⟨"Bookmarks bar", none⟩⟩,
    ⟨10, some 1, ⟨"News", none⟩⟩, ⟨11, some 10, ⟨"One", some "https://one.example/"⟩⟩,
    ⟨12, some 10, ⟨"Two", some "https://two.example/"⟩⟩,
    ⟨13, some 10, ⟨"Three", some "https://three.example/"⟩⟩,
    ⟨14, some 1, ⟨"Four", some "https://four.example/"⟩⟩], 15⟩
  mappings := [(10, 100), (11, 101), (12, 102), (13, 103), (14, 104)]
  deferred := []
  fields slot := if slot.2 = .move then
      ([(101, "5"), (102, "1"), (103, "6"), (104, "4")].lookup slot.1).map fun position =>
        ⟨⟨1, 1, 1⟩, .move, some (.object [("position", .string position)])⟩
    else none

def waitingMoves : List RemoteMove := [⟨104, .bookmark, 100, "4"⟩, ⟨101, .bookmark, 100, "5"⟩]

theorem reorders_waitingMoves : noRoots.Reorders waitingProfile waitingMoves where
  tree := show (waitingProfile.browser.nodes.map Forest.Node.id).Nodup by decide
  object := by decide
  node := by
    intro move hmove id hid
    rcases List.mem_pair.mp hmove with rfl | rfl
    · obtain rfl : 14 = id := Option.some.inj hid
      decide
    · obtain rfl : 11 = id := Option.some.inj hid
      decide
  mapped := by decide
  distinct := by decide
  apart := by
    have hbelongs : ∀ a, noRoots.Belongs waitingProfile waitingMoves 10 a → a ∈ [11, 12, 13, 14] := by
      rintro a (⟨hchild, -⟩ | ⟨move, hmove, hid, -⟩)
      · exact List.mem_append_left [14] hchild
      · rcases List.mem_pair.mp hmove with rfl | rfl
        · obtain rfl : 14 = a := Option.some.inj hid
          decide
        · obtain rfl : 11 = a := Option.some.inj hid
          decide
    have hposition : ∀ a q, noRoots.HasPosition waitingProfile waitingMoves a q →
        waitingProfile.recordedPosition a = some q := by
      rintro a q (hrecorded | ⟨move, hmove, hid, rfl⟩)
      · exact hrecorded
      · rcases List.mem_pair.mp hmove with rfl | rfl
        · obtain rfl : 14 = a := Option.some.inj hid
          decide
        · obtain rfl : 11 = a := Option.some.inj hid
          decide
    have hapart : ∀ a ∈ [11, 12, 13, 14], ∀ b ∈ [11, 12, 13, 14],
        waitingProfile.recordedPosition a = waitingProfile.recordedPosition b → a = b := by decide
    intro destination hdestination parentId hparent a b position ha hb hpositionA hpositionB
    obtain rfl : 10 = parentId := by
      rcases List.mem_pair.mp hdestination with rfl | rfl <;> exact Option.some.inj hparent
    exact hapart a (hbelongs a ha) b (hbelongs b hb)
      ((hposition a position hpositionA).trans (hposition b position hpositionB).symm)
  ordered := by
    intro destination hdestination parentId hparent
    obtain rfl : 10 = parentId := by
      rcases List.mem_pair.mp hdestination with rfl | rfl <;> exact Option.some.inj hparent
    change List.Pairwise _ _
    decide

theorem inOrder_iff_waitingMoves :
    ((noRoots.applyMovesBatch (Run.start waitingProfile) waitingMoves).rejected = false ∧
      ∀ destination ∈ waitingMoves, ∀ parentId,
        noRoots.chromiumIdFor waitingProfile destination.parent = some parentId →
          InOrder ((noRoots.applyMovesBatch (Run.start waitingProfile)
            waitingMoves).profile.positionedChildren parentId)) ↔
      noRoots.AllKeepOrder waitingProfile waitingMoves (Run.start waitingProfile, []) waitingMoves :=
  noRoots.inOrder_iff waitingProfile waitingMoves reorders_waitingMoves

/-- The fourth bookmark goes before the first, which is the next by position but still stands in
front of all others. -/
theorem not_inOrder : ¬∀ (bookmarks : BookmarksModule) (profile : Profile) (moves : List RemoteMove),
    bookmarks.Reorders profile moves →
    (bookmarks.applyMovesBatch (Run.start profile) moves).rejected = false →
      ∀ destination ∈ moves, ∀ parentId,
        bookmarks.chromiumIdFor profile destination.parent = some parentId →
          InOrder ((bookmarks.applyMovesBatch (Run.start profile) moves).profile.positionedChildren
            parentId) := by
  intro h
  have horder := h noRoots waitingProfile waitingMoves reorders_waitingMoves (by decide)
    ⟨104, .bookmark, 100, "4"⟩ List.mem_cons_self 10 rfl
  change List.Pairwise _ _ at horder
  revert horder
  decide

end BookmarksModule

end Client

end HelixSync
