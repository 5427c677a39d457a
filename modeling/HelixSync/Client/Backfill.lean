import HelixSync.Client.FractionalIndex
import HelixSync.Client.RemoteApply

/-!
# The backfill of the bookmarks

Bookmarks older than the extension are captured by one walk over the browser's tree
(`flattenForBackfill`, `extension/src/bookmarks/index.ts`). A node that is not a built-in
root and not mapped yet gets an object id and a position between what came before it in its
folder, `runningLo`, and the next sibling that has a position already.

The walk goes folder by folder, and the folders do not concern each other: what it emits
for one is a segment of its output per child
(`HelixSync.Client.Backfill.processChildren_spec`). Within a folder what has to be carried
is that `runningLo` is below every recorded position still to come; then each new key fits
in the gap it falls in, and the next `runningLo` is below them again.
-/

namespace HelixSync

namespace Client

open CodeUnits

/-- `BookmarkTreeNode`: a node with its children in order. A bookmark has none. -/
inductive BookmarkTreeNode where
  | node (id : ChromiumId) (title : String) (url : Option String)
    (children : List BookmarkTreeNode)

namespace BookmarkTreeNode

/-- The id of a node. -/
def id : BookmarkTreeNode → ChromiumId
  | node id _ _ _ => id

/-- The title of a node. -/
def title : BookmarkTreeNode → String
  | node _ title _ _ => title

/-- The URL of a node. -/
def url : BookmarkTreeNode → Option String
  | node _ _ url _ => url

/-- The children of a node. -/
def children : BookmarkTreeNode → List BookmarkTreeNode
  | node _ _ _ children => children

mutual

/-- A node and all below it, in the order of the tree. -/
def nodes : BookmarkTreeNode → List BookmarkTreeNode
  | node id title url children => node id title url children :: nodesOf children

/-- The nodes of some trees. -/
def nodesOf : List BookmarkTreeNode → List BookmarkTreeNode
  | [] => []
  | first :: rest => nodes first ++ nodesOf rest

end

end BookmarkTreeNode

/-- `bookmarkObjectType`. -/
def bookmarkObjectType (url : Option String) : ObjectType :=
  if url.any (· ≠ "") then .bookmark else .bookmarkFolder

/-- `BackfillMapping` and `BackfillNode`: what is emitted for a node. -/
structure BackfillNode where
  chromiumLocalId : ChromiumId
  objectType : ObjectType
  objectId : Uuid
  payload : BookmarkPayload

/-- What a walk is given: the built-in roots, the nodes mapped before it started with their
objects, the positions recorded for these, and the object ids it hands out. -/
structure Backfill where
  rootObjectIdByChromiumId : ChromiumId → Option Uuid
  alreadyMapped : ChromiumId → Option Uuid
  positionsForAlreadyMapped : Uuid → Option String
  uuidv7 : ℕ → Uuid

/-- The position in a `move` field state, if it has one. -/
def recordedPosition (state : FieldStateRecord) : Option String :=
  truthy (recordedMove state.value).2

/-- What the walk is given by `backfillExisting`. A mapping without a `move` field state is
what an interrupted write left, and its node is captured again. -/
def Backfill.ofStores (rootObjectIdByChromiumId : ChromiumId → Option Uuid)
    (mappings : ChromiumId → Option Uuid) (fieldStates : FieldStore) (uuidv7 : ℕ → Uuid) :
    Backfill where
  rootObjectIdByChromiumId := rootObjectIdByChromiumId
  alreadyMapped := fun id =>
    (mappings id).filter fun objectId => (fieldStates (objectId, .move)).isSome
  positionsForAlreadyMapped := fun objectId =>
    (fieldStates (objectId, .move)).bind recordedPosition
  uuidv7 := uuidv7

namespace Backfill

variable (b : Backfill)

/-- Whether a node is a built-in root. -/
def isRoot (node : BookmarkTreeNode) : Bool := (b.rootObjectIdByChromiumId node.id).isSome

/-- Whether a node is mapped already, and no root. -/
def isOld (node : BookmarkTreeNode) : Bool :=
  !b.isRoot node && (b.alreadyMapped node.id).isSome

/-- Whether a node has to be emitted. -/
def isNew (node : BookmarkTreeNode) : Bool :=
  !b.isRoot node && (b.alreadyMapped node.id).isNone

/-- `existingPositionOf`. -/
def existingPositionOf (node : BookmarkTreeNode) : Option String :=
  if b.isRoot node then none
  else (b.alreadyMapped node.id).bind b.positionsForAlreadyMapped

/-- `nextExistingPosition`, from the siblings that follow. -/
def nextExistingPosition : List BookmarkTreeNode → Option String
  | [] => none
  | next :: rest => (b.existingPositionOf next).orElse fun _ => nextExistingPosition rest

/-- Where the walk over a folder stands. -/
structure Walk where
  runningLo : Option String
  emitted : List BackfillNode

/-- The upper bound of a new key: existing siblings that are out of order leave no gap. -/
def upperBound (runningLo hi : Option String) : Option String :=
  hi.filter fun hi => runningLo.all fun lo => codeUnits lo < codeUnits hi

/-- One child: the object id it has or gets. -/
def visit (child : BookmarkTreeNode) (parentObjectId : Option Uuid) (hi : Option String)
    (w : Walk) : Except KeyError (Uuid × Walk) :=
  match b.rootObjectIdByChromiumId child.id with
  | some rootObjectId => .ok (rootObjectId, w)
  | none =>
    match b.alreadyMapped child.id with
    | some ownObjectId =>
      .ok (ownObjectId,
        { w with runningLo := (b.positionsForAlreadyMapped ownObjectId).orElse fun _ => w.runningLo })
    | none => do
      let position ← keyBetween w.runningLo (upperBound w.runningLo hi)
      let ownObjectId := b.uuidv7 w.emitted.length
      let emitted : BackfillNode :=
        ⟨child.id, bookmarkObjectType child.url, ownObjectId,
          ⟨child.title, child.url, parentObjectId, position⟩⟩
      pure (ownObjectId, ⟨some position, w.emitted ++ [emitted]⟩)

mutual

/-- One turn of the loop of `processChildren`: a child, and then what is below it. -/
def processChild : BookmarkTreeNode → Option Uuid → Option String → Walk → Except KeyError Walk
  | .node id title url children, parentObjectId, hi, w => do
    let (ownObjectId, w) ← b.visit (.node id title url children) parentObjectId hi w
    let below ← processChildren children (some ownObjectId) ⟨none, w.emitted⟩
    pure ⟨w.runningLo, below.emitted⟩

/-- `processChildren`, from a place in the list of the siblings. -/
def processChildren : List BookmarkTreeNode → Option Uuid → Walk → Except KeyError Walk
  | [], _, w => pure w
  | child :: rest, parentObjectId, w => do
    let w ← processChild child parentObjectId (b.nextExistingPosition rest) w
    processChildren rest parentObjectId w

end

/-- `flattenForBackfill`: what is emitted, in order. -/
def flattenForBackfill (root : BookmarkTreeNode) : Except KeyError (List BackfillNode) :=
  (b.processChildren [root] none ⟨none, []⟩).map Walk.emitted

/-- `backfillExisting`, up to the commit of what is emitted. -/
def backfillExisting (rootObjectIdByChromiumId : ChromiumId → Option Uuid)
    (mappings : ChromiumId → Option Uuid) (fieldStates : FieldStore) (uuidv7 : ℕ → Uuid)
    (root : BookmarkTreeNode) : Except KeyError (List BackfillNode) :=
  (ofStores rootObjectIdByChromiumId mappings fieldStates uuidv7).flattenForBackfill root

/-! ### What a walk has to emit -/

variable {b} {emitted more : List BackfillNode} {node p c : BookmarkTreeNode} {k : String}
  {o : Uuid} {siblings children rest : List BookmarkTreeNode} {lo : Option String}

/-- What is emitted for a node. -/
structure EmittedFor (c : BookmarkTreeNode) (e : BackfillNode) : Prop where
  chromiumLocalId : e.chromiumLocalId = c.id
  objectType : e.objectType = bookmarkObjectType c.url
  title : e.payload.title = c.title
  url : e.payload.url = c.url

/-- The object id of a node: that of a root, that it is mapped to, or that it was emitted
with. -/
def HasObjectId (b : Backfill) (emitted : List BackfillNode) (node : BookmarkTreeNode) (o : Uuid) :
    Prop :=
  b.rootObjectIdByChromiumId node.id = some o ∨
    b.isOld node = true ∧ b.alreadyMapped node.id = some o ∨
    b.isNew node = true ∧ ∃ e ∈ emitted, EmittedFor node e ∧ e.objectId = o

/-- The children of a folder that have to be emitted are emitted under its object id, after
the folder if it is emitted itself. -/
def EmitsChildren (b : Backfill) (emitted : List BackfillNode) (p : BookmarkTreeNode) : Prop :=
  ∀ c ∈ p.children, b.isNew c = true → ∃ before e after o, emitted = before ++ e :: after ∧
    EmittedFor c e ∧ e.payload.parent = some o ∧ HasObjectId b before p o

/-- The position of a node: that recorded for it, or that it was emitted with. -/
def HasPosition (b : Backfill) (emitted : List BackfillNode) (c : BookmarkTreeNode) (k : String) :
    Prop :=
  b.isOld c = true ∧ b.existingPositionOf c = some k ∨
    b.isNew c = true ∧ ∃ e ∈ emitted, EmittedFor c e ∧ e.payload.position = k

/-- The recorded positions of some siblings, if all that are mapped have one. -/
def Recorded (b : Backfill) (siblings : List BookmarkTreeNode) (existing : List String) : Prop :=
  (siblings.filter b.isOld).map b.existingPositionOf = existing.map some

/-- The positions of some siblings, old and emitted, are in their order above a bound. -/
def PlacesAbove (b : Backfill) (emitted : List BackfillNode) (siblings : List BookmarkTreeNode)
    (lo : Option String) : Prop :=
  ∃ ks, List.Forall₂ (HasPosition b emitted) (siblings.filter fun c => !b.isRoot c) ks ∧
    Ascending ks ∧ ∀ l ∈ lo, ∀ k ∈ ks, codeUnits l < codeUnits k

/-- Some siblings get positions in their order above a bound, if those they have are so. -/
def KeepsOrder (b : Backfill) (emitted : List BackfillNode) (siblings : List BookmarkTreeNode)
    (lo : Option String) : Prop :=
  ∀ existing, Recorded b siblings existing →
    existing.Pairwise (codeUnits · < codeUnits ·) →
    (∀ l ∈ lo, ∀ k ∈ existing, codeUnits l < codeUnits k) → PlacesAbove b emitted siblings lo

/-- The recorded positions are valid keys. -/
def ValidPositions (b : Backfill) : Prop :=
  ∀ o k, b.positionsForAlreadyMapped o = some k → IsKey k

theorem HasObjectId.append (h : HasObjectId b emitted node o) :
    HasObjectId b (emitted ++ more) node o :=
  h.imp_right (Or.imp_right (And.imp_right fun ⟨e, he, hfor⟩ =>
    ⟨e, List.mem_append_left _ he, hfor⟩))

theorem EmitsChildren.append (h : EmitsChildren b emitted p) :
    EmitsChildren b (emitted ++ more) p := by
  intro c hc hnew
  obtain ⟨before, e, after, o, rfl, hfor, hparent, ho⟩ := h c hc hnew
  exact ⟨before, e, after ++ more, o, by simp, hfor, hparent, ho⟩

theorem HasPosition.mono {emitted' : List BackfillNode} (hsub : emitted ⊆ emitted')
    (h : HasPosition b emitted c k) : HasPosition b emitted' c k :=
  h.imp_right (And.imp_right fun ⟨e, he, hfor⟩ => ⟨e, hsub he, hfor⟩)

theorem KeepsOrder.mono {emitted' : List BackfillNode} (hsub : emitted ⊆ emitted')
    (h : KeepsOrder b emitted siblings lo) : KeepsOrder b emitted' siblings lo := by
  intro existing hrec hsorted hlo
  obtain ⟨ks, hks, hasc, hlow⟩ := h existing hrec hsorted hlo
  exact ⟨ks, hks.imp fun _ _ => HasPosition.mono hsub, hasc, hlow⟩

/-! ### One child -/

theorem isRoot_eq_false_of_isOld (h : b.isOld c = true) : b.isRoot c = false := by
  simp only [isOld, Bool.and_eq_true, Bool.not_eq_true'] at h
  exact h.1

theorem isRoot_eq_false_of_isNew (h : b.isNew c = true) : b.isRoot c = false := by
  simp only [isNew, Bool.and_eq_true, Bool.not_eq_true'] at h
  exact h.1

theorem isKey_existingPositionOf (hb : b.ValidPositions) (h : b.existingPositionOf c = some k) :
    IsKey k := by
  unfold existingPositionOf at h
  split at h
  · exact absurd h nofun
  · obtain ⟨o, -, ho⟩ := Option.bind_eq_some_iff.mp h
    exact hb o k ho

/-- Only a mapped node has a recorded position. -/
theorem isOld_of_existingPositionOf (h : b.existingPositionOf c = some k) : b.isOld c = true := by
  unfold existingPositionOf at h
  split at h
  · exact absurd h nofun
  · rename_i hroot
    obtain ⟨o, ho, -⟩ := Option.bind_eq_some_iff.mp h
    simp [isOld, hroot, ho]

/-- The next recorded position is valid. -/
theorem isKey_nextExistingPosition (hb : b.ValidPositions) :
    ∀ k ∈ b.nextExistingPosition siblings, IsKey k := by
  intro k hk
  induction siblings with
  | nil => exact absurd hk nofun
  | cons next rest ih =>
    rw [nextExistingPosition] at hk
    rcases hpos : b.existingPositionOf next with _ | position
    · rw [hpos] at hk
      exact ih hk
    · rw [hpos] at hk
      obtain rfl : position = k := Option.some.inj hk
      exact isKey_existingPositionOf hb hpos

/-- The next recorded position is the first of those that are recorded. -/
theorem nextExistingPosition_of_recorded {existing : List String} (h : Recorded b siblings existing) :
    b.nextExistingPosition siblings = existing.head? := by
  induction siblings with
  | nil =>
    obtain rfl : existing = [] := by simpa [Recorded] using h.symm
    rfl
  | cons next rest ih =>
    rw [nextExistingPosition]
    by_cases hold : b.isOld next = true
    · rw [Recorded, List.filter_cons_of_pos hold, List.map_cons] at h
      cases existing with
      | nil => exact absurd h nofun
      | cons k existing =>
        rw [List.map_cons, List.cons.injEq] at h
        rw [h.1]
        rfl
    · have hnone : b.existingPositionOf next = none := by
        by_contra hne
        obtain ⟨k, hk⟩ := Option.ne_none_iff_exists'.mp hne
        exact hold (isOld_of_existingPositionOf hk)
      rw [Recorded, List.filter_cons_of_neg hold] at h
      rw [hnone]
      exact ih h

/-- **A new key never fails.** -/
theorem exists_position {lo hi : Option String} (hlo : ∀ l ∈ lo, IsKey l) (hhi : ∀ h ∈ hi, IsKey h) :
    ∃ k, keyBetween lo (upperBound lo hi) = .ok k ∧ IsKey k ∧ Between lo (upperBound lo hi) k := by
  refine exists_keyBetween hlo (fun h hh => hhi h ?_) fun l hl h hh => ?_
  · exact (Option.filter_eq_some_iff.mp hh).1
  · have hall := (Option.filter_eq_some_iff.mp hh).2
    obtain rfl := hl
    simpa using hall

/-- What a turn of the loop does before it goes below the child. -/
structure Visits (b : Backfill) (child : BookmarkTreeNode) (parentObjectId : Option Uuid)
    (hi : Option String) (w : Walk) (own : Uuid) (lo : Option String) (new : List BackfillNode) :
    Prop where
  objectId : HasObjectId b (w.emitted ++ new) child own
  isKey : ∀ l ∈ lo, IsKey l
  cases : b.isRoot child = true ∧ lo = w.runningLo ∧ new = [] ∨
    b.isOld child = true ∧ lo = ((b.existingPositionOf child).orElse fun _ => w.runningLo) ∧
      new = [] ∨
    b.isNew child = true ∧ ∃ e, new = [e] ∧ EmittedFor child e ∧
      e.payload.parent = parentObjectId ∧ IsKey e.payload.position ∧
      Between w.runningLo (upperBound w.runningLo hi) e.payload.position ∧
      lo = some e.payload.position

/-- **A visit never fails.** -/
theorem exists_visit (hb : b.ValidPositions) (child : BookmarkTreeNode)
    (parentObjectId : Option Uuid) {hi : Option String} {w : Walk}
    (hlo : ∀ l ∈ w.runningLo, IsKey l) (hhi : ∀ h ∈ hi, IsKey h) :
    ∃ own lo new, b.visit child parentObjectId hi w = .ok (own, ⟨lo, w.emitted ++ new⟩) ∧
      Visits b child parentObjectId hi w own lo new := by
  unfold visit
  rcases hroot : b.rootObjectIdByChromiumId child.id with _ | rootObjectId
  · have hnotRoot : b.isRoot child = false := by simp [isRoot, hroot]
    rcases hmapped : b.alreadyMapped child.id with _ | own
    · have hnew : b.isNew child = true := by simp [isNew, hnotRoot, hmapped]
      obtain ⟨k, hok, hkey, hbetween⟩ := exists_position hlo hhi
      refine ⟨b.uuidv7 w.emitted.length, some k, [⟨child.id, bookmarkObjectType child.url,
        b.uuidv7 w.emitted.length, ⟨child.title, child.url, parentObjectId, k⟩⟩], ?_, ?_, ?_, ?_⟩
      · simp only [hok]
        rfl
      · exact Or.inr (Or.inr ⟨hnew, _, List.mem_append_right _ (List.mem_singleton.mpr rfl),
          ⟨rfl, rfl, rfl, rfl⟩, rfl⟩)
      · rintro _ ⟨⟩
        exact hkey
      · exact Or.inr (Or.inr ⟨hnew, _, rfl, ⟨rfl, rfl, rfl, rfl⟩, rfl, hkey, hbetween, rfl⟩)
    · have hold : b.isOld child = true := by simp [isOld, hnotRoot, hmapped]
      have hpos : b.existingPositionOf child = b.positionsForAlreadyMapped own := by
        simp [existingPositionOf, hnotRoot, hmapped]
      refine ⟨own, _, [], by rw [List.append_nil], Or.inr (Or.inl ⟨hold, hmapped⟩), ?_,
        Or.inr (Or.inl ⟨hold, by rw [hpos], rfl⟩)⟩
      intro l hl
      rw [← hpos] at hl
      rcases hposition : b.existingPositionOf child with _ | k
      · rw [hposition] at hl
        exact hlo l hl
      · rw [hposition] at hl
        obtain rfl : k = l := Option.some.inj hl
        exact isKey_existingPositionOf hb hposition
  · have hisRoot : b.isRoot child = true := by simp [isRoot, hroot]
    exact ⟨rootObjectId, w.runningLo, [], by rw [List.append_nil], Or.inl hroot, hlo,
      Or.inl ⟨hisRoot, rfl, rfl⟩⟩

/-! ### One folder -/

/-- **One more sibling**: if those that follow get positions in order above the new bound,
it and they do above the old one. -/
theorem Visits.keepsOrder {own : Uuid} {w : Walk} {parentObjectId : Option Uuid}
    {new all : List BackfillNode} (hb : b.ValidPositions)
    (h : Visits b c parentObjectId (b.nextExistingPosition rest) w own lo new)
    (hsub : new ⊆ all) (hrest : KeepsOrder b all rest lo) :
    KeepsOrder b all (c :: rest) w.runningLo := by
  intro existing hrec hsorted hlow
  rcases h.cases with ⟨hroot, rfl, rfl⟩ | ⟨hold, hlo, rfl⟩ | ⟨hnew, e, rfl, hfor, -, hkey, hbetween, rfl⟩
  · have hnotOld : ¬ b.isOld c = true := fun hold => by
      rw [isRoot_eq_false_of_isOld hold] at hroot
      exact absurd hroot nofun
    rw [Recorded, List.filter_cons_of_neg hnotOld] at hrec
    obtain ⟨ks, hks, hasc, habove⟩ := hrest existing hrec hsorted hlow
    refine ⟨ks, ?_, hasc, habove⟩
    rwa [List.filter_cons_of_neg (by simp [hroot])]
  · rw [Recorded, List.filter_cons_of_pos hold, List.map_cons] at hrec
    obtain _ | ⟨k, existing⟩ := existing
    · exact absurd hrec nofun
    rw [List.map_cons, List.cons.injEq] at hrec
    rw [hrec.1] at hlo
    obtain rfl : lo = some k := hlo
    obtain ⟨hk, hsorted⟩ := List.pairwise_cons.mp hsorted
    obtain ⟨ks, hks, hasc, habove⟩ := hrest existing hrec.2 hsorted
      (fun l hl k' hk' => by obtain rfl := Option.some.inj hl; exact hk k' hk')
    refine ⟨k :: ks, ?_, hasc.cons (isKey_existingPositionOf hb hrec.1) (habove k rfl), ?_⟩
    · rw [List.filter_cons_of_pos (by simp [isRoot_eq_false_of_isOld hold])]
      exact List.Forall₂.cons (Or.inl ⟨hold, hrec.1⟩) hks
    · intro l hl k' hk'
      have hlk := hlow l hl k List.mem_cons_self
      rcases List.mem_cons.mp hk' with rfl | hk'
      · exact hlk
      · exact hlk.trans (habove k rfl k' hk')
  · have hnotOld : ¬ b.isOld c = true := by
      simp only [isNew, isOld, Bool.and_eq_true, Option.isNone_iff_eq_none] at hnew ⊢
      simp [hnew.2]
    rw [Recorded, List.filter_cons_of_neg hnotOld] at hrec
    -- The bound from above is the first of the recorded positions that follow.
    have hupper : ∀ k ∈ existing, codeUnits e.payload.position < codeUnits k := by
      intro k hk
      obtain ⟨first, later, rfl⟩ := List.exists_cons_of_ne_nil (List.ne_nil_of_mem hk)
      have hfirst : codeUnits e.payload.position < codeUnits first := by
        refine hbetween.2 first ?_
        rw [nextExistingPosition_of_recorded hrec, upperBound, List.head?_cons]
        refine Option.filter_eq_some_iff.mpr ⟨rfl, ?_⟩
        rcases hlo : w.runningLo with _ | l
        · rfl
        · simpa using hlow l hlo first List.mem_cons_self
      rcases List.mem_cons.mp hk with rfl | hk
      · exact hfirst
      · exact hfirst.trans (List.rel_of_pairwise_cons hsorted hk)
    obtain ⟨ks, hks, hasc, habove⟩ := hrest existing hrec hsorted
      (fun l hl k hk => by obtain rfl := Option.some.inj hl; exact hupper k hk)
    refine ⟨e.payload.position :: ks, ?_, hasc.cons hkey (habove _ rfl), ?_⟩
    · rw [List.filter_cons_of_pos (by simp [isRoot_eq_false_of_isNew hnew])]
      exact List.Forall₂.cons
        (Or.inr ⟨hnew, e, hsub (List.mem_singleton.mpr rfl), hfor, rfl⟩) hks
    · intro l hl k hk
      have hlk := hbetween.1 l hl
      rcases List.mem_cons.mp hk with rfl | hk
      · exact hlk
      · exact hlk.trans (habove _ rfl k hk)

/-! ### The whole walk -/

/-- What the walk over some siblings emits, for them and for what is below them. -/
structure Covers (b : Backfill) (siblings : List BookmarkTreeNode) (parentObjectId : Option Uuid)
    (w : Walk) (new : List BackfillNode) : Prop where
  ids : new.map BackfillNode.chromiumLocalId =
    ((BookmarkTreeNode.nodesOf siblings).filter b.isNew).map BookmarkTreeNode.id
  here : ∀ c ∈ siblings, b.isNew c = true → ∃ before e after, new = before ++ e :: after ∧
    EmittedFor c e ∧ e.payload.parent = parentObjectId
  below : ∀ p ∈ BookmarkTreeNode.nodesOf siblings, EmitsChildren b (w.emitted ++ new) p
  order : KeepsOrder b new siblings w.runningLo
  orderBelow : ∀ p ∈ BookmarkTreeNode.nodesOf siblings, KeepsOrder b new p.children none

/-- Nothing to walk over. -/
theorem covers_nil (parentObjectId : Option Uuid) (w : Walk) : Covers b [] parentObjectId w [] :=
  { ids := rfl
    here := fun c hc => absurd hc List.not_mem_nil
    below := fun p hp => absurd hp List.not_mem_nil
    order := fun _ _ _ _ => ⟨[], List.Forall₂.nil, ascending_nil, by simp⟩
    orderBelow := fun p hp => absurd hp List.not_mem_nil }

theorem Visits.ids {own : Uuid} {w : Walk} {parentObjectId : Option Uuid} {hi : Option String}
    {new : List BackfillNode} (h : Visits b c parentObjectId hi w own lo new) :
    new.map BackfillNode.chromiumLocalId = ([c].filter b.isNew).map BookmarkTreeNode.id := by
  rcases h.cases with ⟨hroot, -, rfl⟩ | ⟨hold, -, rfl⟩ | ⟨hnew, e, rfl, hfor, -⟩
  · rw [List.filter_cons_of_neg (by simp [isNew, hroot])]
    rfl
  · rw [List.filter_cons_of_neg]
    · rfl
    · simp only [isOld, isNew, Bool.and_eq_true, Option.isSome_iff_exists] at hold ⊢
      obtain ⟨-, o, ho⟩ := hold
      simp [ho]
  · rw [List.filter_cons_of_pos hnew]
    simp [hfor.chromiumLocalId]

/-- **A child, what is below it, and the siblings that follow.** -/
theorem Visits.covers {own : Uuid} {w : Walk} {parentObjectId : Option Uuid}
    {first below after : List BackfillNode} (hb : b.ValidPositions)
    (h : Visits b c parentObjectId (b.nextExistingPosition rest) w own lo first)
    (hbelow : Covers b c.children (some own) ⟨none, w.emitted ++ first⟩ below)
    (hafter : Covers b rest parentObjectId ⟨lo, w.emitted ++ first ++ below⟩ after) :
    Covers b (c :: rest) parentObjectId w (first ++ below ++ after) where
  ids := by
    have hnodes : BookmarkTreeNode.nodesOf (c :: rest) =
        [c] ++ BookmarkTreeNode.nodesOf c.children ++ BookmarkTreeNode.nodesOf rest := by
      obtain ⟨id, title, url, children⟩ := c
      rfl
    rw [hnodes, List.filter_append, List.filter_append, List.map_append, List.map_append,
      List.map_append, List.map_append, h.ids, hbelow.ids, hafter.ids]
  here := by
    intro d hd hnew
    rcases List.mem_cons.mp hd with rfl | hd
    · rcases h.cases with ⟨hroot, -, -⟩ | ⟨hold, -, -⟩ | ⟨-, e, rfl, hfor, hparent, -⟩
      · rw [isRoot_eq_false_of_isNew hnew] at hroot
        exact absurd hroot nofun
      · simp only [isOld, isNew, Bool.and_eq_true, Option.isNone_iff_eq_none] at hold hnew
        rw [hnew.2] at hold
        exact absurd hold.2 nofun
      · exact ⟨[], e, below ++ after, by simp, hfor, hparent⟩
    · obtain ⟨before, e, later, rfl, hfor, hparent⟩ := hafter.here d hd hnew
      exact ⟨first ++ below ++ before, e, later, by simp, hfor, hparent⟩
  below := by
    intro p hp
    obtain ⟨id, title, url, children⟩ := c
    rcases List.mem_append.mp hp with hp | hp
    · have htotal : w.emitted ++ (first ++ below ++ after) =
          w.emitted ++ first ++ below ++ after := by simp
      rw [htotal]
      rcases List.mem_cons.mp hp with rfl | hp
      · -- The child itself: what is emitted under it comes after it.
        intro d hd hnew
        obtain ⟨before, e, later, rfl, hfor, hparent⟩ := hbelow.here d hd hnew
        exact ⟨w.emitted ++ first ++ before, e, later ++ after, own, by simp, hfor, hparent,
          h.objectId.append⟩
      · exact (hbelow.below p hp).append
    · have hall := hafter.below p hp
      rwa [show w.emitted ++ (first ++ below ++ after) =
        w.emitted ++ first ++ below ++ after by simp]
  order := h.keepsOrder hb (fun e he => by simp [he])
    (hafter.order.mono fun e he => List.mem_append_right _ he)
  orderBelow := by
    intro p hp
    obtain ⟨id, title, url, children⟩ := c
    have hsub : below ⊆ first ++ below ++ after := fun e he => by simp [he]
    rcases List.mem_append.mp hp with hp | hp
    · rcases List.mem_cons.mp hp with rfl | hp
      · exact hbelow.order.mono hsub
      · exact (hbelow.orderBelow p hp).mono hsub
    · exact (hafter.orderBelow p hp).mono fun e he => List.mem_append_right _ he

mutual

/-- One turn of the loop: the child is visited, and what is below it is covered. -/
theorem processChild_spec (hb : b.ValidPositions) : ∀ (child : BookmarkTreeNode)
    (parentObjectId : Option Uuid) (hi : Option String) (w : Walk),
    (∀ l ∈ w.runningLo, IsKey l) → (∀ h ∈ hi, IsKey h) →
    ∃ own lo first below, b.processChild child parentObjectId hi w =
        .ok ⟨lo, w.emitted ++ first ++ below⟩ ∧
      Visits b child parentObjectId hi w own lo first ∧
      Covers b child.children (some own) ⟨none, w.emitted ++ first⟩ below
  | .node id title url children, parentObjectId, hi, w, hlo, hhi => by
    obtain ⟨own, lo, first, hvisit, hvisits⟩ :=
      exists_visit hb (.node id title url children) parentObjectId hlo hhi
    obtain ⟨lo', below, hok, hcovers⟩ := processChildren_spec hb children (some own)
      ⟨none, w.emitted ++ first⟩ (by simp)
    refine ⟨own, lo, first, below, ?_, hvisits, hcovers⟩
    rw [processChild, hvisit]
    change (do
      let below ← b.processChildren children (some own) ⟨none, w.emitted ++ first⟩
      pure (⟨lo, below.emitted⟩ : Walk)) = Except.ok _
    rw [hok]
    rfl

/-- **The walk over some siblings** never fails, and covers them. -/
theorem processChildren_spec (hb : b.ValidPositions) : ∀ (siblings : List BookmarkTreeNode)
    (parentObjectId : Option Uuid) (w : Walk), (∀ l ∈ w.runningLo, IsKey l) →
    ∃ lo new, b.processChildren siblings parentObjectId w = .ok ⟨lo, w.emitted ++ new⟩ ∧
      Covers b siblings parentObjectId w new
  | [], parentObjectId, w, _ =>
    ⟨w.runningLo, [], by rw [List.append_nil]; rfl, covers_nil parentObjectId w⟩
  | child :: rest, parentObjectId, w, hlo => by
    obtain ⟨own, lo, first, below, hchild, hvisits, hbelow⟩ := processChild_spec hb child
      parentObjectId (b.nextExistingPosition rest) w hlo (isKey_nextExistingPosition hb)
    obtain ⟨lo', after, hok, hafter⟩ := processChildren_spec hb rest parentObjectId
      ⟨lo, w.emitted ++ first ++ below⟩ hvisits.isKey
    refine ⟨lo', first ++ below ++ after, ?_, hvisits.covers hb hbelow hafter⟩
    rw [processChildren, hchild]
    change b.processChildren rest parentObjectId ⟨lo, w.emitted ++ first ++ below⟩ = _
    rw [hok]
    simp

end

mutual

/-- Every node of a tree but the topmost is a child of one. -/
theorem exists_parent_of_mem_nodes : ∀ (top : BookmarkTreeNode), ∀ c ∈ top.nodes,
    c = top ∨ ∃ p ∈ top.nodes, c ∈ p.children
  | .node id title url children => by
    intro c hc
    rcases List.mem_cons.mp hc with rfl | hc
    · exact Or.inl rfl
    · rcases exists_parent_of_mem_nodesOf children c hc with hmem | ⟨p, hp, hmem⟩
      · exact Or.inr ⟨_, List.mem_cons_self, hmem⟩
      · exact Or.inr ⟨p, List.mem_cons_of_mem _ hp, hmem⟩

theorem exists_parent_of_mem_nodesOf : ∀ (tops : List BookmarkTreeNode),
    ∀ c ∈ BookmarkTreeNode.nodesOf tops,
      c ∈ tops ∨ ∃ p ∈ BookmarkTreeNode.nodesOf tops, c ∈ p.children
  | [] => fun _ hc => absurd hc List.not_mem_nil
  | top :: rest => by
    intro c hc
    rcases List.mem_append.mp hc with hc | hc
    · rcases exists_parent_of_mem_nodes top c hc with rfl | ⟨p, hp, hmem⟩
      · exact Or.inl List.mem_cons_self
      · exact Or.inr ⟨p, List.mem_append_left _ hp, hmem⟩
    · rcases exists_parent_of_mem_nodesOf rest c hc with hmem | ⟨p, hp, hmem⟩
      · exact Or.inl (List.mem_cons_of_mem _ hmem)
      · exact Or.inr ⟨p, List.mem_append_right _ hp, hmem⟩

end

/-- **Backfill covers the tree in order.** The walk never fails; it emits every node that is
neither a root nor mapped already, each once; a node is emitted under the object id of its
parent, after the parent if that is emitted too; and a folder whose mapped children have
positions in the browser's order has all its children but the roots in that order. -/
theorem flattenForBackfill_covers (b : Backfill) (root : BookmarkTreeNode)
    (hroot : b.isRoot root = true) (hids : (root.nodes.map BookmarkTreeNode.id).Nodup)
    (hb : b.ValidPositions) :
    ∃ emitted, b.flattenForBackfill root = .ok emitted ∧
      emitted.map BackfillNode.chromiumLocalId =
        (root.nodes.filter b.isNew).map BookmarkTreeNode.id ∧
      (emitted.map BackfillNode.chromiumLocalId).Nodup ∧
      (∀ c ∈ root.nodes, b.isNew c = true → ∃ p ∈ root.nodes, c ∈ p.children) ∧
      (∀ p ∈ root.nodes, EmitsChildren b emitted p) ∧
      ∀ p ∈ root.nodes, ∀ existing, Recorded b p.children existing →
        existing.Pairwise (codeUnits · < codeUnits ·) →
        ∃ ks, List.Forall₂ (HasPosition b emitted) (p.children.filter fun c => !b.isRoot c) ks ∧
          ks.Pairwise (codeUnits · < codeUnits ·) := by
  obtain ⟨lo, emitted, hok, hcovers⟩ := processChildren_spec hb [root] none ⟨none, []⟩ (by simp)
  have hnodes : BookmarkTreeNode.nodesOf [root] = root.nodes := List.append_nil _
  have hmap := hcovers.ids
  rw [hnodes] at hmap
  refine ⟨emitted, by rw [flattenForBackfill, hok]; rfl, hmap, ?_, fun c hc hnew => ?_,
    fun p hp => hcovers.below p (hnodes ▸ hp), fun p hp existing hrec hsorted => ?_⟩
  · rw [hmap]
    exact hids.sublist (List.filter_sublist.map _)
  · rcases exists_parent_of_mem_nodes root c hc with rfl | hparent
    · rw [isRoot_eq_false_of_isNew hnew] at hroot
      exact absurd hroot nofun
    · exact hparent
  · obtain ⟨ks, hks, hasc, -⟩ := hcovers.orderBelow p (hnodes ▸ hp) existing hrec hsorted (by simp)
    exact ⟨ks, hks, hasc.sorted⟩

/-- **A backfill over stores whose positions are valid** never fails. -/
theorem exists_backfillExisting {rootObjectIdByChromiumId : ChromiumId → Option Uuid}
    {mappings : ChromiumId → Option Uuid} {fieldStates : FieldStore} {uuidv7 : ℕ → Uuid}
    (h : ∀ key state, fieldStates key = some state → ∀ k ∈ recordedPosition state, IsKey k)
    (root : BookmarkTreeNode) :
    ∃ emitted, backfillExisting rootObjectIdByChromiumId mappings fieldStates uuidv7 root =
      .ok emitted := by
  have hvalid :
      (ofStores rootObjectIdByChromiumId mappings fieldStates uuidv7).ValidPositions := by
    intro o k hk
    obtain ⟨state, hstate, hposition⟩ := Option.bind_eq_some_iff.mp hk
    exact h (o, .move) state hstate k hposition
  obtain ⟨lo, emitted, hok, -⟩ := processChildren_spec hvalid [root] none ⟨none, []⟩ (by simp)
  exact ⟨emitted, by rw [backfillExisting, flattenForBackfill, hok]; rfl⟩

/-- A root with a mapped bookmark at `V` between two new ones, the first of which is a folder
with a bookmark in it. -/
def exampleTree : BookmarkTreeNode :=
  .node 0 "" none [.node 5 "old news" none [.node 6 "six" (some "https://six.example") []],
    .node 7 "seven" (some "https://seven.example") [], .node 8 "eight" (some "https://eight.example") []]

/-- The example's root and mapped bookmark. -/
def exampleBackfill : Backfill where
  rootObjectIdByChromiumId := fun id => if id = 0 then some 100 else none
  alreadyMapped := fun id => if id = 7 then some 107 else none
  positionsForAlreadyMapped := fun o => if o = 107 then some "V" else none
  uuidv7 := fun n => Fin.ofNat _ (200 + n)

theorem exampleBackfill_validPositions : exampleBackfill.ValidPositions := by
  intro o k hk
  have hV : k = "V" := by
    simp only [exampleBackfill] at hk
    split at hk
    · exact (Option.some.inj hk).symm
    · exact absurd hk nofun
  rw [hV]
  decide

/-- The three new nodes of the example are emitted, and the root's children are in order. -/
theorem flattenForBackfill_covers_exampleTree :
    ∃ emitted, exampleBackfill.flattenForBackfill exampleTree = .ok emitted ∧
      emitted.map BackfillNode.chromiumLocalId =
        (exampleTree.nodes.filter exampleBackfill.isNew).map BookmarkTreeNode.id :=
  let ⟨emitted, hok, hids, _⟩ := flattenForBackfill_covers exampleBackfill exampleTree
    (by decide) (by decide) exampleBackfill_validPositions
  ⟨emitted, hok, hids⟩

end Backfill

end Client

end HelixSync
