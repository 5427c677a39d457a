import HelixSync.Client.FractionalIndex
import HelixSync.Client.RestorePlans

/-!
# Capturing a restore point

The nodes of a restore point are those of the browser's bookmarks, and for a point made after
many were removed those just removed as well (`buildPointNodes`,
`extension/src/restore-points/snapshot.ts`). They are listed in preorder from the built-in
folders, without what a browser policy manages and what is below it. Siblings keep the
browser's order, a removed one goes before the first sibling with a larger position, and
positions that are missing or out of order are derived from their neighbours
(`normalizePositions`).

The stack of the loop holds frames, which are the siblings of one folder with their positions
and how far the loop has come. A frame is only read from front to back and is popped when it
is at its end, so the stack is held here as what is left in its frames, the top first.
-/

namespace HelixSync

namespace Client

open CodeUnits ParentChains TreeWalk

/-! ### Positions -/

/-- Whether a position is one, and above the position before. -/
def isUsable (prev : Option String) (position : String) : Bool :=
  position ≠ "" && prev.all fun prev => codeUnits prev < codeUnits position

/-- The loop of `normalizePositions`. -/
def normalizePositions (prev : Option String) : List LiveBookmarkNode → Except KeyError (List String)
  | [] => pure []
  | sibling :: later =>
    match sibling.position.filter (isUsable prev) with
    | some own => do
      let positions ← normalizePositions (some own) later
      pure (own :: positions)
    | none => do
      let hi := later.findSome? fun sibling => sibling.position.filter (isUsable prev)
      let key ← keyBetween prev hi
      let positions ← normalizePositions (some key) later
      pure (key :: positions)

/-! ### Siblings -/

/-- A removed node among its siblings: before the first with a larger position, else last. -/
def insertRemoved (siblings : List LiveBookmarkNode) (node : LiveBookmarkNode) :
    List LiveBookmarkNode :=
  let place := node.position.bind fun position =>
    siblings.findIdx? fun sibling => sibling.position.any fun s => codeUnits position < codeUnits s
  match place with
  | none => siblings ++ [node]
  | some place => siblings.insertIdx place node

/-- The removed nodes that the browser does not have again. -/
def gone (live extra : List LiveBookmarkNode) : List LiveBookmarkNode :=
  extra.filter fun node => node.objectId ∉ live.map LiveBookmarkNode.objectId

/-- `childrenOf.get`. -/
def childrenOf (live extra : List LiveBookmarkNode) (parent : String) : List LiveBookmarkNode :=
  ((gone live extra).filter fun node => node.parentObjectId = parent).foldl insertRemoved
    (live.filter fun node => node.parentObjectId = parent)

/-- The siblings of a frame. -/
def siblingsOf (live extra : List LiveBookmarkNode) (parent : String) : List LiveBookmarkNode :=
  (childrenOf live extra parent).filter fun node => !node.unmodifiable

/-- `push`: the frame of a folder. -/
def pushFrame (live extra : List LiveBookmarkNode) (parent : String) :
    Except KeyError (List (LiveBookmarkNode × String)) := do
  let siblings := siblingsOf live extra parent
  let positions ← normalizePositions none siblings
  pure (siblings.zip positions)

/-! ### The nodes of a point -/

/-- The node of a point for a node with its position. -/
def pointNode (entry : LiveBookmarkNode × String) : PointNode :=
  { o := entry.1.objectId
    k := entry.1.kind
    t := entry.1.title
    u := if entry.1.kind = .bookmark then entry.1.url else none
    p := entry.1.parentObjectId
    x := entry.2 }

/-- The loop of `buildPointNodes`. -/
def buildLoop (live extra : List LiveBookmarkNode) :
    ℕ → List (LiveBookmarkNode × String) → Except KeyError (List PointNode)
  | _, [] => pure []
  | 0, _ :: _ => .error .unfinished
  | fuel + 1, entry :: stack => do
    let frame ← if entry.1.kind = .folder then pushFrame live extra entry.1.objectId else pure []
    let nodes ← buildLoop live extra fuel (frame ++ stack)
    pure (pointNode entry :: nodes)

/-- `buildPointNodes`. The frames of the roots are pushed in reverse, so that the first root is
on top. -/
def buildPointNodes (live extra : List LiveBookmarkNode) : Except KeyError (List PointNode) := do
  let frames ← rootIds.reverse.mapM (pushFrame live extra)
  buildLoop live extra (live.length + extra.length) frames.reverse.flatten

/-! ### Repaired positions -/

/-- What positions are, where they are recorded. -/
def PositionsAreKeys (nodes : List LiveBookmarkNode) : Prop :=
  ∀ node ∈ nodes, ∀ position ∈ node.position, position ≠ "" → IsKey position

instance : DecidablePred PositionsAreKeys := fun nodes =>
  inferInstanceAs (Decidable (∀ node ∈ nodes, ∀ position ∈ node.position, position ≠ "" → IsKey position))

/-- Positions that are all there, and in order. -/
def IsAscending (positions : List (Option String)) : Prop :=
  ∃ keys : List String, positions = keys.map some ∧ "" ∉ keys ∧
    keys.Pairwise (codeUnits · < codeUnits ·)

theorem isUsable_iff {prev : Option String} {position : String} :
    isUsable prev position = true ↔
      position ≠ "" ∧ ∀ l ∈ prev, codeUnits l < codeUnits position := by
  simp [isUsable, Option.all_eq_true]

theorem usable_of_filter {node : LiveBookmarkNode} {prev : Option String} {own : String}
    (hown : node.position.filter (isUsable prev) = some own) :
    own ∈ node.position ∧ own ≠ "" ∧ ∀ l ∈ prev, codeUnits l < codeUnits own := by
  obtain ⟨hmem, husable⟩ := Option.filter_eq_some_iff.mp hown
  exact ⟨hmem, isUsable_iff.mp husable⟩

/-- A position above the one before, and then those above it. -/
theorem Ascending.after {prev : Option String} {key : String} {keys : List String}
    (h : Ascending (key :: keys)) (hprev : ∀ l ∈ prev, IsKey l)
    (hlt : ∀ l ∈ prev, codeUnits l < codeUnits key) : Ascending (prev.toList ++ key :: keys) := by
  cases prev with
  | none => exact h
  | some l =>
    refine h.cons (hprev l rfl) fun k hk => ?_
    rcases List.mem_cons.mp hk with rfl | hk
    · exact hlt l rfl
    · exact (hlt l rfl).trans (List.rel_of_pairwise_cons h.sorted hk)

/-- **Whatever positions siblings have, they get positions in order**, above the one before. -/
theorem exists_normalizePositions {siblings : List LiveBookmarkNode} (hkeys : PositionsAreKeys siblings)
    {prev : Option String} (hprev : ∀ l ∈ prev, IsKey l) :
    ∃ positions, normalizePositions prev siblings = .ok positions ∧
      positions.length = siblings.length ∧ Ascending (prev.toList ++ positions) := by
  induction siblings generalizing prev with
  | nil =>
    refine ⟨[], rfl, rfl, ?_⟩
    cases prev with
    | none => exact ascending_nil
    | some l => exact ascending_nil.cons (hprev l rfl) (by simp)
  | cons sibling later ih =>
    have hlater : PositionsAreKeys later := fun node hnode => hkeys node (List.mem_cons_of_mem _ hnode)
    cases hown : sibling.position.filter (isUsable prev) with
    | some own =>
      obtain ⟨hmem, hne, hlt⟩ := usable_of_filter hown
      have hkey : IsKey own := hkeys sibling List.mem_cons_self own hmem hne
      obtain ⟨positions, hok, hlength, hsorted⟩ := @ih hlater (some own) (by simpa using hkey)
      refine ⟨own :: positions, ?_, congrArg (· + 1) hlength, hsorted.after hprev hlt⟩
      rw [normalizePositions, hown]
      exact bind_eq_ok.mpr ⟨positions, hok, rfl⟩
    | none =>
      have hhi : ∀ hi ∈ later.findSome? fun sibling => sibling.position.filter (isUsable prev),
          IsKey hi ∧ ∀ l ∈ prev, codeUnits l < codeUnits hi := by
        intro hi hfound
        obtain ⟨node, hnode, hfound⟩ := List.exists_of_findSome?_eq_some hfound
        obtain ⟨hmem, hne, hlt⟩ := usable_of_filter hfound
        exact ⟨hlater node hnode hi hmem hne, hlt⟩
      obtain ⟨key, hbetween, hkey, hlow, -⟩ := exists_keyBetween hprev (fun hi h => (hhi hi h).1)
        fun l hl hi h => (hhi hi h).2 l hl
      obtain ⟨positions, hok, hlength, hsorted⟩ := @ih hlater (some key) (by simpa using hkey)
      refine ⟨key :: positions, ?_, congrArg (· + 1) hlength, hsorted.after hprev hlow⟩
      rw [normalizePositions, hown]
      exact bind_eq_ok.mpr ⟨key, hbetween, bind_eq_ok.mpr ⟨positions, hok, rfl⟩⟩

/-- **Positions in order are kept.** -/
theorem normalizePositions_of_sorted {siblings : List LiveBookmarkNode} {prev : Option String}
    {keys : List String} (hpositions : siblings.map LiveBookmarkNode.position = keys.map some)
    (hne : "" ∉ keys) (hsorted : (prev.toList ++ keys).Pairwise (codeUnits · < codeUnits ·)) :
    normalizePositions prev siblings = .ok keys := by
  induction siblings generalizing prev keys with
  | nil =>
    obtain rfl : keys = [] := by simpa using hpositions.symm
    rfl
  | cons sibling later ih =>
    cases keys with
    | nil => exact absurd hpositions (by simp)
    | cons key keys =>
      obtain ⟨hposition, hlater⟩ := List.cons.inj hpositions
      obtain ⟨-, hkeys, habove⟩ := List.pairwise_append.mp hsorted
      have husable : isUsable prev key = true := by
        refine isUsable_iff.mpr ⟨fun h => hne (h ▸ List.mem_cons_self), fun l hl => ?_⟩
        exact habove l (by simpa using hl) key List.mem_cons_self
      have hrest : normalizePositions (some key) later = .ok keys :=
        ih hlater (fun h => hne (List.mem_cons_of_mem _ h)) hkeys
      rw [normalizePositions, hposition, Option.filter_some, if_pos husable]
      exact bind_eq_ok.mpr ⟨keys, hrest, rfl⟩

/-! ### Frames -/

/-- The nodes there are: those of the browser, and the removed ones. -/
def captured (live extra : List LiveBookmarkNode) : List LiveBookmarkNode := live ++ gone live extra

/-- What a point can be made of: **ids are distinct, none is that of a built-in folder, and
positions are keys**. -/
structure IsCapturable (live extra : List LiveBookmarkNode) : Prop where
  distinct : ((captured live extra).map LiveBookmarkNode.objectId).Nodup
  notRoot : ∀ node ∈ captured live extra, node.objectId ∉ rootIds
  isKey : PositionsAreKeys (captured live extra)

theorem insertRemoved_perm (siblings : List LiveBookmarkNode) (node : LiveBookmarkNode) :
    (insertRemoved siblings node).Perm (node :: siblings) := by
  rw [insertRemoved]
  cases hplace : node.position.bind fun position =>
    siblings.findIdx? fun sibling => sibling.position.any fun s => codeUnits position < codeUnits s with
  | none => exact List.perm_append_singleton node siblings
  | some place =>
    obtain ⟨position, -, hfound⟩ := Option.bind_eq_some_iff.mp hplace
    obtain ⟨hlt, -⟩ := List.findIdx?_eq_some_iff_getElem.mp hfound
    exact List.perm_insertIdx node siblings hlt.le

theorem foldl_insertRemoved_perm (siblings nodes : List LiveBookmarkNode) :
    (nodes.foldl insertRemoved siblings).Perm (siblings ++ nodes) := by
  induction nodes generalizing siblings with
  | nil => rw [List.append_nil, List.foldl_nil]
  | cons node nodes ih =>
    refine (ih (insertRemoved siblings node)).trans ?_
    exact ((insertRemoved_perm siblings node).append_right nodes).trans List.perm_middle.symm

/-- **The children of a folder** are its nodes, in some order. -/
theorem childrenOf_perm (live extra : List LiveBookmarkNode) (parent : String) :
    (childrenOf live extra parent).Perm
      ((captured live extra).filter fun node => node.parentObjectId = parent) := by
  rw [captured, List.filter_append]
  exact foldl_insertRemoved_perm _ _

theorem mem_siblingsOf {live extra : List LiveBookmarkNode} {parent : String} {node : LiveBookmarkNode} :
    node ∈ siblingsOf live extra parent ↔
      node ∈ captured live extra ∧ node.parentObjectId = parent ∧ node.unmodifiable = false := by
  rw [siblingsOf, List.mem_filter, (childrenOf_perm live extra parent).mem_iff, List.mem_filter]
  simp [and_assoc]

/-- What `push` puts on the stack. -/
def frameOf (live extra : List LiveBookmarkNode) (parent : String) : List (LiveBookmarkNode × String) :=
  (pushFrame live extra parent).toOption.getD []

namespace IsCapturable

variable {live extra : List LiveBookmarkNode} (h : IsCapturable live extra)

include h

theorem nodup_siblingsOf (parent : String) : (siblingsOf live extra parent).Nodup := by
  refine List.Nodup.filter _ ((childrenOf_perm live extra parent).nodup_iff.mpr ?_)
  exact h.distinct.of_map.filter _

/-- **Every frame can be pushed**, and has its siblings in order. -/
theorem pushFrame_eq (parent : String) :
    pushFrame live extra parent = .ok (frameOf live extra parent) ∧
      (frameOf live extra parent).map Prod.fst = siblingsOf live extra parent ∧
      Ascending ((frameOf live extra parent).map Prod.snd) := by
  have hkeys : PositionsAreKeys (siblingsOf live extra parent) :=
    fun node hnode => h.isKey node (mem_siblingsOf.mp hnode).1
  obtain ⟨positions, hok, hlength, hsorted⟩ := @exists_normalizePositions _ hkeys none (by simp)
  have hpush : pushFrame live extra parent =
      .ok ((siblingsOf live extra parent).zip positions) := bind_eq_ok.mpr ⟨positions, hok, rfl⟩
  have hframe : frameOf live extra parent = (siblingsOf live extra parent).zip positions := by
    rw [frameOf, hpush]
    rfl
  rw [hframe]
  refine ⟨hpush, List.map_fst_zip hlength.ge, ?_⟩
  rw [List.map_snd_zip hlength.le]
  exact hsorted

end IsCapturable

/-! ### The walk -/

/-- The nodes a point is to hold: **not managed, and in a built-in folder or in such a
folder**. -/
inductive Shown (nodes : List LiveBookmarkNode) : LiveBookmarkNode → Prop
  | root {node : LiveBookmarkNode} (hmem : node ∈ nodes) (hfree : node.unmodifiable = false)
      (hparent : node.parentObjectId ∈ rootIds) : Shown nodes node
  | inside {node folder : LiveBookmarkNode} (hmem : node ∈ nodes) (hfree : node.unmodifiable = false)
      (hfolder : Shown nodes folder) (hkind : folder.kind = .folder)
      (hparent : node.parentObjectId = folder.objectId) : Shown nodes node

theorem Shown.mem {nodes : List LiveBookmarkNode} {node : LiveBookmarkNode} (h : Shown nodes node) :
    node ∈ nodes := by
  cases h with
  | root hmem => exact hmem
  | inside hmem => exact hmem

/-- A folder whose contents a point is to hold. -/
def IsOpen (nodes : List LiveBookmarkNode) (id : String) : Prop :=
  id ∈ rootIds ∨ ∃ folder, Shown nodes folder ∧ folder.kind = .folder ∧ folder.objectId = id

theorem Shown.isOpen_parent {nodes : List LiveBookmarkNode} {node : LiveBookmarkNode}
    (h : Shown nodes node) : IsOpen nodes node.parentObjectId := by
  cases h with
  | root _ _ hparent => exact Or.inl hparent
  | inside _ _ hfolder hkind hparent => exact Or.inr ⟨_, hfolder, hkind, hparent.symm⟩

/-- What is pushed when a node is taken from the stack. -/
def entriesIn (live extra : List LiveBookmarkNode) (entry : LiveBookmarkNode × String) :
    List (LiveBookmarkNode × String) :=
  if entry.1.kind = .folder then frameOf live extra entry.1.objectId else []

/-- The stack the loop begins with. -/
def rootEntries (live extra : List LiveBookmarkNode) : List (LiveBookmarkNode × String) :=
  rootIds.flatMap (frameOf live extra)

namespace IsCapturable

variable {live extra : List LiveBookmarkNode} (h : IsCapturable live extra)

include h

theorem mem_frameOf {parent : String} {entry : LiveBookmarkNode × String}
    (hentry : entry ∈ frameOf live extra parent) :
    entry.1 ∈ captured live extra ∧ entry.1.parentObjectId = parent ∧ entry.1.unmodifiable = false := by
  have hmem := List.mem_map_of_mem (f := Prod.fst) hentry
  rw [(h.pushFrame_eq parent).2.1] at hmem
  exact mem_siblingsOf.mp hmem

theorem exists_entry {parent : String} {node : LiveBookmarkNode} (hmem : node ∈ captured live extra)
    (hparent : node.parentObjectId = parent) (hfree : node.unmodifiable = false) :
    ∃ x, (node, x) ∈ frameOf live extra parent := by
  have hsibling : node ∈ (frameOf live extra parent).map Prod.fst := by
    rw [(h.pushFrame_eq parent).2.1]
    exact mem_siblingsOf.mpr ⟨hmem, hparent, hfree⟩
  obtain ⟨⟨node, x⟩, hentry, rfl⟩ := List.mem_map.mp hsibling
  exact ⟨x, hentry⟩

/-- An entry on the stack is of a node that is to be held, and in the frame of its parent. -/
theorem shown_of_reached {entry : LiveBookmarkNode × String}
    (hentry : Reached (entriesIn live extra) (rootEntries live extra) entry) :
    Shown (captured live extra) entry.1 ∧ entry ∈ frameOf live extra entry.1.parentObjectId := by
  induction hentry with
  | start hentry =>
    obtain ⟨root, hroot, hentry⟩ := List.mem_flatMap.mp hentry
    obtain ⟨hmem, rfl, hfree⟩ := h.mem_frameOf hentry
    exact ⟨.root hmem hfree hroot, hentry⟩
  | @kid folder entry _ hentry ih =>
    rw [entriesIn] at hentry
    split_ifs at hentry with hkind
    · obtain ⟨hmem, hparent, hfree⟩ := h.mem_frameOf hentry
      exact ⟨.inside hmem hfree ih.1 hkind hparent, hparent ▸ hentry⟩
    · exact absurd hentry List.not_mem_nil

/-- **What is to be held comes onto the stack.** -/
theorem exists_reached {node : LiveBookmarkNode} (hnode : Shown (captured live extra) node) :
    ∃ x, Reached (entriesIn live extra) (rootEntries live extra) (node, x) := by
  induction hnode with
  | root hmem hfree hparent =>
    obtain ⟨x, hentry⟩ := h.exists_entry hmem rfl hfree
    exact ⟨x, .start (List.mem_flatMap.mpr ⟨_, hparent, hentry⟩)⟩
  | @inside node folder hmem hfree _ hkind hparent ih =>
    obtain ⟨x, hfolder⟩ := ih
    obtain ⟨y, hentry⟩ := h.exists_entry hmem hparent hfree
    refine ⟨y, .kid hfolder ?_⟩
    rwa [entriesIn, if_pos hkind]

/-- A node comes onto the stack with one position. -/
theorem reached_unique {entry other : LiveBookmarkNode × String}
    (hentry : Reached (entriesIn live extra) (rootEntries live extra) entry)
    (hother : Reached (entriesIn live extra) (rootEntries live extra) other)
    (hid : entry.1.objectId = other.1.objectId) : entry = other := by
  obtain ⟨hshown, hframe⟩ := h.shown_of_reached hentry
  obtain ⟨hshown', hframe'⟩ := h.shown_of_reached hother
  have hnode : entry.1 = other.1 := List.inj_on_of_nodup_map h.distinct hshown.mem hshown'.mem hid
  rw [← hnode] at hframe'
  refine List.inj_on_of_nodup_map ?_ hframe hframe' hnode
  rw [(h.pushFrame_eq _).2.1]
  exact h.nodup_siblingsOf _

theorem nodup_frameOf (parent : String) : (frameOf live extra parent).Nodup := by
  refine List.Nodup.of_map Prod.fst ?_
  rw [(h.pushFrame_eq parent).2.1]
  exact h.nodup_siblingsOf parent

theorem nodup_entriesIn (entry : LiveBookmarkNode × String) : (entriesIn live extra entry).Nodup := by
  rw [entriesIn]
  split_ifs
  · exact h.nodup_frameOf _
  · exact List.nodup_nil

theorem parent_of_mem_entriesIn {folder entry : LiveBookmarkNode × String}
    (hentry : entry ∈ entriesIn live extra folder) :
    folder.1.kind = .folder ∧ entry.1.parentObjectId = folder.1.objectId := by
  rw [entriesIn] at hentry
  split_ifs at hentry with hkind
  · exact ⟨hkind, (h.mem_frameOf hentry).2.1⟩
  · exact absurd hentry List.not_mem_nil

/-- **The loop comes to no node twice.** -/
theorem isTree : IsTree (entriesIn live extra) (rootEntries live extra) where
  start_nodup := by
    refine List.nodup_flatMap.mpr ⟨fun root _ => h.nodup_frameOf root, ?_⟩
    have hroots : rootIds.Nodup := by decide
    refine hroots.imp fun hne => ?_
    intro entry hentry hentry'
    exact hne ((h.mem_frameOf hentry).2.1.symm.trans (h.mem_frameOf hentry').2.1)
  kids_nodup entry _ := h.nodup_entriesIn entry
  parent_unique folder folder' entry hfolder hfolder' hentry hentry' := by
    refine h.reached_unique hfolder hfolder' ?_
    exact (h.parent_of_mem_entriesIn hentry).2.symm.trans (h.parent_of_mem_entriesIn hentry').2
  not_kid folder hfolder entry hentry hkid := by
    obtain ⟨root, hroot, hentry⟩ := List.mem_flatMap.mp hentry
    have hparent := (h.parent_of_mem_entriesIn hkid).2
    rw [(h.mem_frameOf hentry).2.1] at hparent
    exact h.notRoot _ (h.shown_of_reached hfolder).1.mem (hparent ▸ hroot)

/-- The loop gets through. -/
theorem left_eq_nil : left (entriesIn live extra) (live.length + extra.length) (rootEntries live extra) = [] := by
  have hle : (gone live extra).length ≤ extra.length := List.length_filter_le _ _
  refine @left_eq_nil_of_injOn _ _ _ _ h.isTree (fun entry => entry.1.objectId)
    (fun _ _ => h.reached_unique) ((captured live extra).map LiveBookmarkNode.objectId) ?_ _ ?_
  · exact fun entry hentry => List.mem_map_of_mem (h.shown_of_reached hentry).1.mem
  · rw [List.length_map, captured, List.length_append]
    omega

/-- The entries in the order the loop takes them from the stack. -/
theorem buildLoop_eq {fuel : ℕ} {stack : List (LiveBookmarkNode × String)}
    (hdone : left (entriesIn live extra) fuel stack = []) :
    buildLoop live extra fuel stack = .ok ((walk (entriesIn live extra) fuel stack).map pointNode) := by
  induction fuel generalizing stack with
  | zero =>
    obtain rfl : stack = [] := hdone
    rfl
  | succ fuel ih =>
    cases stack with
    | nil => rfl
    | cons entry stack =>
      have hrest : buildLoop live extra fuel (entriesIn live extra entry ++ stack) = _ := ih hdone
      rw [buildLoop]
      split_ifs with hkind
      · have hentries : entriesIn live extra entry = frameOf live extra entry.1.objectId := if_pos hkind
        rw [hentries] at hrest
        refine bind_eq_ok.mpr ⟨_, (h.pushFrame_eq _).1, bind_eq_ok.mpr ⟨_, hrest, ?_⟩⟩
        rw [walk, List.map_cons, hentries]
        rfl
      · have hentries : entriesIn live extra entry = [] := if_neg hkind
        rw [hentries] at hrest
        refine bind_eq_ok.mpr ⟨_, rfl, bind_eq_ok.mpr ⟨_, hrest, ?_⟩⟩
        rw [walk, List.map_cons, hentries]
        rfl

end IsCapturable

/-! ### The captured nodes -/

/-- The nodes of a point that are in a folder. -/
theorem filter_map_pointNode (entries : List (LiveBookmarkNode × String)) (parent : String) :
    (entries.map pointNode).filter (fun point => point.p = parent) =
      (entries.filter fun entry => entry.1.parentObjectId = parent).map pointNode := by
  rw [List.filter_map]
  rfl

/-- What `buildPointNodes` returns: **each node that is to be held is there once and no other is,
parents come before children, and siblings are in order with positions that increase**, their
own if those do. -/
structure IsCapture (live extra : List LiveBookmarkNode) (nodes : List PointNode) : Prop where
  once : (nodes.map PointNode.o).Nodup
  complete : ∀ node, Shown (captured live extra) node → ∃ x, pointNode (node, x) ∈ nodes
  sound : ∀ point ∈ nodes, ∃ node, Shown (captured live extra) node ∧ point = pointNode (node, point.x)
  parentFirst : ∀ earlier point rest, nodes = earlier ++ point :: rest →
    point.p ∈ rootIds ∨ point.p ∈ earlier.map PointNode.o
  increasing : ∀ parent, Ascending ((nodes.filter fun point => point.p = parent).map PointNode.x)
  order : ∀ parent, IsOpen (captured live extra) parent →
    (nodes.filter fun point => point.p = parent).map PointNode.o =
      (siblingsOf live extra parent).map LiveBookmarkNode.objectId
  kept : ∀ parent, IsAscending ((siblingsOf live extra parent).map LiveBookmarkNode.position) →
    ∀ point ∈ nodes, point.p = parent →
      ∃ node ∈ siblingsOf live extra parent, node.objectId = point.o ∧ node.position = some point.x

namespace IsCapturable

variable {live extra : List LiveBookmarkNode} (h : IsCapturable live extra)

include h

/-- Siblings whose positions are in order keep them. -/
theorem position_of_isAscending {parent : String}
    (hascending : IsAscending ((siblingsOf live extra parent).map LiveBookmarkNode.position))
    {entry : LiveBookmarkNode × String} (hentry : entry ∈ frameOf live extra parent) :
    entry.1.position = some entry.2 := by
  obtain ⟨keys, hkeys, hne, hsorted⟩ := hascending
  have hok : normalizePositions none (siblingsOf live extra parent) = .ok keys :=
    normalizePositions_of_sorted hkeys hne hsorted
  have hpush : pushFrame live extra parent = .ok ((siblingsOf live extra parent).zip keys) :=
    bind_eq_ok.mpr ⟨keys, hok, rfl⟩
  rw [(h.pushFrame_eq parent).1] at hpush
  rw [Except.ok.inj hpush] at hentry
  obtain ⟨i, hi, rfl⟩ := List.getElem_of_mem hentry
  have hget := congrArg (fun positions => positions[i]?) hkeys
  rw [List.length_zip] at hi
  simpa [List.getElem?_eq_getElem (lt_min_iff.mp hi).1, List.getElem?_eq_getElem (lt_min_iff.mp hi).2]
    using hget

/-- The siblings in a folder that is come to stand in the walk in their order. -/
theorem frameOf_sublist {parent : String} (hparent : IsOpen (captured live extra) parent) :
    (frameOf live extra parent).Sublist
      (walk (entriesIn live extra) (live.length + extra.length) (rootEntries live extra)) := by
  rcases hparent with hroot | ⟨folder, hfolder, hkind, rfl⟩
  · have hframe : (frameOf live extra parent).Sublist (rootEntries live extra) := by
      rw [rootEntries, List.flatMap_def]
      exact List.sublist_flatten_of_mem (List.mem_map_of_mem hroot)
    exact hframe.trans (sublist_walk h.left_eq_nil)
  · obtain ⟨x, hreached⟩ := h.exists_reached hfolder
    have hsub := kids_sublist_walk h.left_eq_nil ((mem_walk_iff h.left_eq_nil).mpr hreached)
    rwa [entriesIn, if_pos hkind] at hsub

/-- **The nodes of a folder are its frame.** -/
theorem filter_walk {parent : String} (hparent : IsOpen (captured live extra) parent) :
    (walk (entriesIn live extra) (live.length + extra.length) (rootEntries live extra)).filter
      (fun entry => entry.1.parentObjectId = parent) = frameOf live extra parent := by
  refine filter_eq_of_sublist (nodup_walk h.isTree _) (h.frameOf_sublist hparent) fun entry hentry => ?_
  rw [decide_eq_true_iff]
  constructor
  · rintro rfl
    exact (h.shown_of_reached (reached_of_mem_walk hentry)).2
  · exact fun hframe => (h.mem_frameOf hframe).2.1

/-- The nodes that are listed. -/
theorem buildPointNodes_eq : buildPointNodes live extra =
    .ok ((walk (entriesIn live extra) (live.length + extra.length) (rootEntries live extra)).map
      pointNode) := by
  have hpush : pushFrame live extra = fun parent => pure (frameOf live extra parent) :=
    funext fun parent => (h.pushFrame_eq parent).1
  have hframes : rootIds.reverse.mapM (pushFrame live extra) =
      .ok (rootIds.reverse.map (frameOf live extra)) := by
    rw [hpush]
    exact List.mapM_pure
  have hstack : (rootIds.reverse.map (frameOf live extra)).reverse.flatten = rootEntries live extra := by
    rw [List.map_reverse, List.reverse_reverse, rootEntries, List.flatMap_def]
  rw [← hstack]
  exact bind_eq_ok.mpr ⟨_, hframes, h.buildLoop_eq (hstack ▸ h.left_eq_nil)⟩

/-- **A capture succeeds, with the nodes as they should be.** -/
theorem exists_isCapture :
    ∃ nodes, buildPointNodes live extra = .ok nodes ∧ IsCapture live extra nodes := by
  have hreached : ∀ entry ∈ walk (entriesIn live extra) (live.length + extra.length)
      (rootEntries live extra), Reached (entriesIn live extra) (rootEntries live extra) entry :=
    fun entry => reached_of_mem_walk
  refine ⟨_, h.buildPointNodes_eq, ?_, fun node hnode => ?_, fun point hpoint => ?_,
    fun earlier point rest heq => ?_, fun parent => ?_, fun parent hparent => ?_,
    fun parent hascending point hpoint hp => ?_⟩
  · rw [List.map_map]
    refine (nodup_walk h.isTree _).map_on fun entry hentry other hother hid => ?_
    exact h.reached_unique (hreached entry hentry) (hreached other hother) hid
  · obtain ⟨x, hentry⟩ := h.exists_reached hnode
    exact ⟨x, List.mem_map_of_mem ((mem_walk_iff h.left_eq_nil).mpr hentry)⟩
  · obtain ⟨entry, hentry, rfl⟩ := List.mem_map.mp hpoint
    exact ⟨entry.1, (h.shown_of_reached (hreached entry hentry)).1, rfl⟩
  · obtain ⟨before, entries, hsplit, rfl, hentries⟩ := List.map_eq_append_iff.mp heq
    obtain ⟨entry, after, rfl, rfl, -⟩ := List.map_eq_cons_iff.mp hentries
    rcases mem_or_exists_of_walk_eq hsplit with hroot | ⟨folder, hfolder, hentry⟩
    · obtain ⟨root, hroot, hentry⟩ := List.mem_flatMap.mp hroot
      obtain ⟨-, rfl, -⟩ := h.mem_frameOf hentry
      exact Or.inl hroot
    · refine Or.inr (List.mem_map.mpr ⟨pointNode folder, List.mem_map_of_mem hfolder, ?_⟩)
      exact (h.parent_of_mem_entriesIn hentry).2.symm
  · rw [filter_map_pointNode]
    by_cases hparent : IsOpen (captured live extra) parent
    · rw [h.filter_walk hparent, List.map_map]
      exact (h.pushFrame_eq parent).2.2
    · rw [List.filter_eq_nil_iff.mpr]
      · exact ascending_nil
      · intro entry hentry hp
        obtain rfl := of_decide_eq_true hp
        exact hparent (h.shown_of_reached (hreached entry hentry)).1.isOpen_parent
  · have hsiblings := (h.pushFrame_eq parent).2.1
    rw [filter_map_pointNode, h.filter_walk hparent, ← hsiblings, List.map_map, List.map_map]
    rfl
  · obtain ⟨entry, hentry, rfl⟩ := List.mem_map.mp hpoint
    have hframe := (h.shown_of_reached (hreached entry hentry)).2
    rw [show entry.1.parentObjectId = parent from hp] at hframe
    exact ⟨entry.1, mem_siblingsOf.mpr (h.mem_frameOf hframe), rfl, h.position_of_isAscending hascending hframe⟩

end IsCapturable

end Client

end HelixSync
