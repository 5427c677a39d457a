import Mathlib.Data.List.Basic
import Mathlib.Data.List.InsertIdx
import Mathlib.Data.List.Nodup

/-!
# Forests

A forest as the list of its nodes: each has an id and the id of its parent, if it has one, and
the children of a node are in the order of the list. It can grow at the end of a folder's
children (`Forest.append`), lose a whole subtree (`Forest.prune`), or have one node, with all
that is below it, put elsewhere (`Forest.place`).
-/

/-- A node of a forest. -/
structure Forest.Node (ι α : Type) where
  id : ι
  parent : Option ι
  value : α
  deriving DecidableEq

/-- A forest. -/
abbrev Forest (ι α : Type) := List (Forest.Node ι α)

namespace Forest

variable {ι α : Type} [DecidableEq ι]

/-- The node with an id. -/
def node? (forest : Forest ι α) (id : ι) : Option (Node ι α) :=
  forest.find? fun node => node.id = id

/-- The children of a node, in order. -/
def children (forest : Forest ι α) (id : ι) : List (Node ι α) :=
  forest.filter fun node => node.parent = some id

/-- Whether a node is below another, at most so many levels down. -/
def isBelow (forest : Forest ι α) (top : ι) : ℕ → ι → Bool
  | 0, _ => false
  | levels + 1, id =>
    match (forest.node? id).bind Node.parent with
    | none => false
    | some parent => parent = top || isBelow forest top levels parent

/-- The ids of the nodes below a node. -/
def below (forest : Forest ι α) (top : ι) : List ι :=
  (forest.filter fun node => forest.isBelow top forest.length node.id).map Node.id

/-- The forest without a node and without what is below it. -/
def prune (forest : Forest ι α) (top : ι) : Forest ι α :=
  forest.filter fun node => node.id ≠ top ∧ forest.isBelow top forest.length node.id = false

/-- The forest with a node at the end. -/
def append (forest : Forest ι α) (node : Node ι α) : Forest ι α := forest ++ [node]

/-- The list with an element put before the first one that has an id, or at the end. -/
def insertBefore (node : Node ι α) (before : Option ι) : Forest ι α → Forest ι α
  | [] => [node]
  | other :: rest =>
    if some other.id = before then node :: other :: rest
    else other :: insertBefore node before rest

/-- The forest with a node put under a parent, as the child with an index. -/
def place (forest : Forest ι α) (id parent : ι) (index : ℕ) : Forest ι α :=
  match forest.node? id with
  | none => forest
  | some node =>
    let others := forest.filter fun other => other.id ≠ id
    insertBefore { node with parent := some parent }
      ((children others parent)[index]?.map Node.id) others

/-- The forest with the value of a node changed. -/
def revalue (forest : Forest ι α) (id : ι) (change : α → α) : Forest ι α :=
  forest.map fun node => if node.id = id then { node with value := change node.value } else node

/-! ### What is placed where -/

variable {forest : Forest ι α} {node : Node ι α} {id parent other : ι}

/-- No id is used twice. -/
def Distinct (forest : Forest ι α) : Prop := (forest.map Node.id).Nodup

theorem mem_children : node ∈ forest.children id ↔ node ∈ forest ∧ node.parent = some id := by
  rw [children, List.mem_filter, decide_eq_true_eq]

theorem id_eq_of_node? (h : forest.node? id = some node) : node.id = id := by
  rw [node?] at h
  exact of_decide_eq_true (List.find?_some (p := fun node : Node ι α => node.id = id) h)

omit [DecidableEq ι] in
theorem Distinct.filter (h : Distinct forest) (p : Node ι α → Bool) : Distinct (forest.filter p) :=
  List.Nodup.sublist (List.filter_sublist.map _) h

omit [DecidableEq ι] in
theorem eq_of_mem_of_id_eq (h : Distinct forest) {a b : Node ι α} (ha : a ∈ forest)
    (hb : b ∈ forest) (hid : a.id = b.id) : a = b :=
  List.inj_on_of_nodup_map h ha hb hid

theorem insertBefore_perm (node : Node ι α) (before : Option ι) (forest : Forest ι α) :
    (insertBefore node before forest).Perm (node :: forest) := by
  induction forest with
  | nil => exact List.Perm.refl _
  | cons first rest ih =>
    rw [insertBefore]
    split_ifs
    · exact List.Perm.refl _
    · exact (ih.cons first).trans (List.Perm.swap _ _ _)

/-- A node does not show up among the children of a node that is not its parent. -/
theorem children_insertBefore_of_ne (h : node.parent ≠ some other) (before : Option ι) :
    (insertBefore node before forest).children other = forest.children other := by
  induction forest with
  | nil => simp [insertBefore, children, h]
  | cons first rest ih =>
    rw [insertBefore]
    split_ifs
    · simp [children, h]
    · simp only [children, List.filter_cons] at ih ⊢
      rw [ih]

/-- Before a child of its parent, a node is put before it among the children too. -/
theorem children_insertBefore (hparent : node.parent = some parent) (h : Distinct forest)
    {before : Option ι} (hbefore : ∀ id ∈ before, ∃ child ∈ forest.children parent, child.id = id) :
    (insertBefore node before forest).children parent =
      insertBefore node before (forest.children parent) := by
  induction forest with
  | nil => simp [insertBefore, children, hparent]
  | cons first rest ih =>
    have hrest : Distinct rest := (List.nodup_cons.mp h).2
    rw [insertBefore]
    by_cases hhit : some first.id = before
    · obtain ⟨child, hchild, hid⟩ := hbefore first.id hhit.symm
      have hsame : child = first :=
        eq_of_mem_of_id_eq h (mem_children.mp hchild).1 List.mem_cons_self hid
      have hfirst : first.parent = some parent := hsame ▸ (mem_children.mp hchild).2
      simp [children, insertBefore, hhit, hparent, hfirst]
    · have hbefore' : ∀ id ∈ before, ∃ child ∈ children rest parent, child.id = id := by
        intro id hid
        obtain ⟨child, hchild, heq⟩ := hbefore id hid
        obtain ⟨hmem, hparent⟩ := mem_children.mp hchild
        rcases List.mem_cons.mp hmem with rfl | hin
        · exact absurd (heq ▸ hid.symm) hhit
        · exact ⟨child, mem_children.mpr ⟨hin, hparent⟩, heq⟩
      have hnext := ih hrest hbefore'
      rw [if_neg hhit]
      simp only [children, List.filter_cons] at hnext ⊢
      rw [hnext]
      split_ifs
      · rw [insertBefore, if_neg hhit]
      · rfl

/-- Put before the node with an index, a node has that index. -/
theorem map_id_insertBefore (h : Distinct forest) {index : ℕ} (hindex : index ≤ forest.length) :
    (insertBefore node (forest[index]?.map Node.id) forest).map Node.id =
      (forest.map Node.id).insertIdx index node.id := by
  induction forest generalizing index with
  | nil =>
    obtain rfl : index = 0 := Nat.le_zero.mp hindex
    rfl
  | cons first rest ih =>
    obtain ⟨hfirst, hrest⟩ := List.nodup_cons.mp h
    cases index with
    | zero => simp [insertBefore]
    | succ index =>
      have hne : some first.id ≠ rest[index]?.map Node.id := by
        intro heq
        obtain ⟨found, hfound, hid⟩ := Option.map_eq_some_iff.mp heq.symm
        exact hfirst (hid ▸ List.mem_map_of_mem (List.mem_of_getElem? hfound))
      rw [List.getElem?_cons_succ, insertBefore, if_neg hne, List.map_cons, List.map_cons,
        List.insertIdx_succ_cons, ih hrest (Nat.le_of_succ_le_succ hindex)]

/-- **The children of the new parent** are those it has without the node, and the node. -/
theorem map_id_children_place (h : Distinct forest) (hnode : forest.node? id = some node)
    {index : ℕ} (hindex : index ≤ (((forest.children parent).map Node.id).filter (· ≠ id)).length) :
    ((forest.place id parent index).children parent).map Node.id =
      (((forest.children parent).map Node.id).filter (· ≠ id)).insertIdx index id := by
  have hothers : (children (forest.filter fun other => other.id ≠ id) parent).map Node.id =
      ((forest.children parent).map Node.id).filter (· ≠ id) := by
    rw [children, children, List.filter_comm, List.filter_map]
    rfl
  have hdistinct := h.filter fun other => other.id ≠ id
  have hchildren : Distinct (children (forest.filter fun other => other.id ≠ id) parent) :=
    hdistinct.filter _
  have hid : node.id = id := id_eq_of_node? hnode
  rw [place, hnode]
  dsimp only
  rw [children_insertBefore rfl hdistinct, map_id_insertBefore hchildren, hothers, hid]
  · rwa [← hothers, List.length_map] at hindex
  · intro id hid
    obtain ⟨child, hchild, heq⟩ := Option.map_eq_some_iff.mp hid
    exact ⟨child, List.mem_of_getElem? hchild, heq⟩

/-- **The children of any other node** are those it has without the node. -/
theorem map_id_children_place_of_ne (hne : other ≠ parent) (index : ℕ) :
    ((forest.place id parent index).children other).map Node.id =
      ((forest.children other).map Node.id).filter (· ≠ id) := by
  have hothers : (children (forest.filter fun other => other.id ≠ id) other).map Node.id =
      ((forest.children other).map Node.id).filter (· ≠ id) := by
    rw [children, children, List.filter_comm, List.filter_map]
    rfl
  rw [place]
  cases hnode : forest.node? id with
  | none =>
    have hnone : ∀ child ∈ (forest.children other).map Node.id, child ≠ id := by
      intro child hchild heq
      obtain ⟨found, hfound, rfl⟩ := List.mem_map.mp hchild
      have hmem := (mem_children.mp hfound).1
      exact absurd heq (by simpa using List.find?_eq_none.mp hnode found hmem)
    exact (List.filter_eq_self.mpr fun child hchild => by simpa using hnone child hchild).symm
  | some node =>
    dsimp only
    rw [children_insertBefore_of_ne fun heq => hne (Option.some.inj heq).symm, hothers]

/-- After a node was placed there are no nodes but those there were, and the one with its new parent. -/
theorem mem_place {index : ℕ} (h : node ∈ forest.place id parent index) :
    (∃ old ∈ forest, old.id = id ∧ node = { old with parent := some parent }) ∨
      node ∈ forest ∧ node.id ≠ id := by
  rw [place] at h
  cases hnode : forest.node? id with
  | none =>
    rw [hnode] at h
    exact Or.inr ⟨h, by simpa using List.find?_eq_none.mp hnode node h⟩
  | some old =>
    rw [hnode] at h
    rcases List.mem_cons.mp ((insertBefore_perm _ _ _).mem_iff.mp h) with hself | hother
    · exact Or.inl ⟨old, List.mem_of_find?_eq_some hnode, id_eq_of_node? hnode, hself⟩
    · exact Or.inr ⟨List.mem_of_mem_filter hother, by simpa using (List.mem_filter.mp hother).2⟩

/-- Placing a node leaves the ids as they are. -/
theorem map_id_place_perm (h : Distinct forest) (id parent : ι) (index : ℕ) :
    ((forest.place id parent index).map Node.id).Perm (forest.map Node.id) := by
  rw [place]
  cases hnode : forest.node? id with
  | none => exact List.Perm.refl _
  | some node =>
    have hid : node.id = id := id_eq_of_node? hnode
    have hmem : id ∈ forest.map Node.id := hid ▸ List.mem_map_of_mem (List.mem_of_find?_eq_some hnode)
    have hothers : (forest.filter fun other => other.id ≠ id).map Node.id =
        (forest.map Node.id).erase id := by
      rw [List.Nodup.erase_eq_filter h, List.filter_map]
      congr 1
      exact List.filter_congr fun other _ => Bool.eq_iff_iff.mpr (by simp)
    refine ((insertBefore_perm _ _ _).map Node.id).trans ?_
    rw [List.map_cons, hothers, hid]
    exact (List.perm_cons_erase hmem).symm

/-- Placing a node uses no id twice. -/
theorem Distinct.place (h : Distinct forest) (id parent : ι) (index : ℕ) :
    Distinct (forest.place id parent index) :=
  (map_id_place_perm h id parent index).nodup_iff.mpr h

end Forest
