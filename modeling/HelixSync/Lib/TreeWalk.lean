import Mathlib.Data.List.Nodup
import Mathlib.Data.List.Perm.Subperm

/-!
# Walks over a tree

A walk that keeps what it still has to visit in a worklist: the first element is visited and
replaced by its children (`TreeWalk.walk`). It visits what can be reached from where it
starts, and nothing before what it is reached from (`TreeWalk.mem_or_exists_of_walk_eq`). If
each element is a child of at most one other, and those it starts from are children of none
it reaches, then nothing is visited twice (`TreeWalk.nodup_walk`), and a walk with more fuel
than there are elements gets through (`TreeWalk.left_eq_nil`). Siblings are visited in their
order, with what is below each of them in between (`TreeWalk.kids_sublist_walk`).
-/

namespace TreeWalk

variable {α : Type} {kids : α → List α} {start : List α}

/-- The elements visited. -/
def walk (kids : α → List α) : ℕ → List α → List α
  | 0, _ => []
  | _ + 1, [] => []
  | fuel + 1, x :: rest => x :: walk kids fuel (kids x ++ rest)

/-- What is left in the worklist. -/
def left (kids : α → List α) : ℕ → List α → List α
  | 0, work => work
  | _ + 1, [] => []
  | fuel + 1, x :: rest => left kids fuel (kids x ++ rest)

/-- What can be reached. -/
inductive Reached (kids : α → List α) (start : List α) : α → Prop
  | start {x : α} (h : x ∈ start) : Reached kids start x
  | kid {x y : α} (hx : Reached kids start x) (hy : y ∈ kids x) : Reached kids start y

/-- What a walk needs in order not to come to an element twice. -/
structure IsTree (kids : α → List α) (start : List α) : Prop where
  start_nodup : start.Nodup
  kids_nodup : ∀ x, Reached kids start x → (kids x).Nodup
  parent_unique : ∀ x x' y, Reached kids start x → Reached kids start x' → y ∈ kids x →
    y ∈ kids x' → x = x'
  not_kid : ∀ x, Reached kids start x → ∀ y ∈ start, y ∉ kids x

theorem Reached.trans {work : List α} {x : α} (hwork : ∀ y ∈ work, Reached kids start y)
    (h : Reached kids work x) : Reached kids start x := by
  induction h with
  | start hx => exact hwork _ hx
  | kid _ hy ih => exact .kid ih hy

/-! ### What is visited -/

theorem mem_or_reached_of_mem {fuel : ℕ} {work : List α} {x : α}
    (h : x ∈ walk kids fuel work ∨ x ∈ left kids fuel work) : Reached kids work x := by
  induction fuel generalizing work with
  | zero => exact h.elim (fun h => absurd h List.not_mem_nil) .start
  | succ fuel ih =>
    cases work with
    | nil => exact h.elim (fun h => absurd h List.not_mem_nil) (fun h => absurd h List.not_mem_nil)
    | cons first rest =>
      have hrest : x ∈ walk kids fuel (kids first ++ rest) ∨ x ∈ left kids fuel (kids first ++ rest) →
          Reached kids (first :: rest) x := by
        refine fun h => (ih h).trans fun y hy => ?_
        rcases List.mem_append.mp hy with hkid | hrest
        · exact .kid (.start List.mem_cons_self) hkid
        · exact .start (List.mem_cons_of_mem _ hrest)
      rcases h with hwalk | hleft
      · rcases List.mem_cons.mp hwalk with rfl | hwalk
        · exact .start List.mem_cons_self
        · exact hrest (Or.inl hwalk)
      · exact hrest (Or.inr hleft)

theorem reached_of_mem_walk {fuel : ℕ} {x : α} (h : x ∈ walk kids fuel start) :
    Reached kids start x :=
  mem_or_reached_of_mem (Or.inl h)

/-- **An element is visited after what it is reached from.** -/
theorem mem_or_exists_of_walk_eq {fuel : ℕ} {work earlier rest : List α} {x : α}
    (h : walk kids fuel work = earlier ++ x :: rest) : x ∈ work ∨ ∃ y ∈ earlier, x ∈ kids y := by
  induction fuel generalizing work earlier with
  | zero => exact absurd h (by simp [walk])
  | succ fuel ih =>
    cases work with
    | nil => exact absurd h (by simp [walk])
    | cons first others =>
      cases earlier with
      | nil =>
        obtain ⟨rfl, -⟩ := List.cons.inj h
        exact Or.inl List.mem_cons_self
      | cons y earlier =>
        obtain ⟨rfl, hrest⟩ := List.cons.inj h
        rcases ih hrest with hmem | ⟨y, hy, hkid⟩
        · rcases List.mem_append.mp hmem with hkid | hothers
          · exact Or.inr ⟨first, List.mem_cons_self, hkid⟩
          · exact Or.inl (List.mem_cons_of_mem _ hothers)
        · exact Or.inr ⟨y, List.mem_cons_of_mem _ hy, hkid⟩

/-- What is in the worklist is visited in its order. -/
theorem sublist_walk {fuel : ℕ} {work : List α} (hdone : left kids fuel work = []) :
    work.Sublist (walk kids fuel work) := by
  induction fuel generalizing work with
  | zero =>
    obtain rfl : work = [] := hdone
    exact List.Sublist.refl _
  | succ fuel ih =>
    cases work with
    | nil => exact List.nil_sublist _
    | cons first rest =>
      have hrest : (kids first ++ rest).Sublist (walk kids fuel (kids first ++ rest)) := ih hdone
      exact ((List.sublist_append_right _ _).trans hrest).cons_cons first

/-- **The children of what is visited** are visited in their order. -/
theorem kids_sublist_walk {fuel : ℕ} {work : List α} (hdone : left kids fuel work = []) {x : α}
    (hx : x ∈ walk kids fuel work) : (kids x).Sublist (walk kids fuel work) := by
  induction fuel generalizing work with
  | zero => exact absurd hx List.not_mem_nil
  | succ fuel ih =>
    cases work with
    | nil => exact absurd hx List.not_mem_nil
    | cons first rest =>
      have hrest : left kids fuel (kids first ++ rest) = [] := hdone
      refine List.Sublist.cons first ?_
      rcases List.mem_cons.mp hx with rfl | hx
      · exact (List.sublist_append_left _ _).trans (sublist_walk hrest)
      · exact ih hrest hx

/-- **A walk that gets through** visits all that can be reached. -/
theorem mem_walk_iff {fuel : ℕ} (hdone : left kids fuel start = []) {x : α} :
    x ∈ walk kids fuel start ↔ Reached kids start x := by
  refine ⟨reached_of_mem_walk, fun h => ?_⟩
  induction h with
  | start hx => exact (sublist_walk hdone).subset hx
  | kid _ hy ih => exact (kids_sublist_walk hdone ih).subset hy

/-! ### Nothing is visited twice -/

/-- Once some elements are visited, what is visited and what is still to come are all
different: a new child is not among them, since its parent was not visited before. -/
theorem nodup_append_walk (htree : IsTree kids start) {fuel : ℕ} {seen work : List α}
    (hnodup : (seen ++ work).Nodup) (hreached : ∀ x ∈ seen ++ work, Reached kids start x)
    (hfrom : ∀ x ∈ seen ++ work, x ∈ start ∨ ∃ y ∈ seen, x ∈ kids y) :
    (seen ++ (walk kids fuel work ++ left kids fuel work)).Nodup := by
  induction fuel generalizing seen work with
  | zero => exact hnodup
  | succ fuel ih =>
    cases work with
    | nil => exact hnodup
    | cons first rest =>
      have hfirst : Reached kids start first :=
        hreached first (List.mem_append_right _ List.mem_cons_self)
      have hunseen : first ∉ seen := by
        intro hmem
        exact (List.nodup_append.mp hnodup).2.2 first hmem first List.mem_cons_self rfl
      have hnew : ∀ x ∈ seen ++ first :: rest, x ∉ kids first := by
        intro x hx hkid
        rcases hfrom x hx with hstart | ⟨y, hy, hkid'⟩
        · exact htree.not_kid first hfirst x hstart hkid
        · have heq := htree.parent_unique first y x hfirst
            (hreached y (List.mem_append_left _ hy)) hkid hkid'
          exact hunseen (heq ▸ hy)
      have hmove : (seen ++ [first] ++ (kids first ++ rest)).Perm (kids first ++ (seen ++ first :: rest)) := by
        rw [List.append_assoc, ← List.append_assoc seen]
        refine (List.perm_append_comm_assoc _ _ _).trans ?_
        rw [List.append_assoc, List.singleton_append]
      have hstep : (seen ++ [first] ++ (kids first ++ rest)).Nodup := by
        rw [hmove.nodup_iff, List.nodup_append]
        refine ⟨htree.kids_nodup first hfirst, hnodup, ?_⟩
        rintro x hkid y hy rfl
        exact hnew x hy hkid
      have hmem : ∀ x, x ∈ seen ++ [first] ++ (kids first ++ rest) ↔
          x ∈ kids first ∨ x ∈ seen ++ first :: rest := fun x => by
        rw [hmove.mem_iff, List.mem_append]
      have hgo := ih hstep ?_ ?_
      · rw [List.append_assoc] at hgo
        exact hgo
      · intro x hx
        rcases (hmem x).mp hx with hkid | hold
        · exact .kid hfirst hkid
        · exact hreached x hold
      · intro x hx
        rcases (hmem x).mp hx with hkid | hold
        · exact Or.inr ⟨first, List.mem_append_right _ (List.mem_singleton_self _), hkid⟩
        · exact (hfrom x hold).imp_right fun ⟨y, hy, hkid⟩ => ⟨y, List.mem_append_left _ hy, hkid⟩

theorem nodup_walk_append_left (htree : IsTree kids start) (fuel : ℕ) :
    (walk kids fuel start ++ left kids fuel start).Nodup :=
  @nodup_append_walk α kids start htree fuel [] start htree.start_nodup (fun _ hx => .start hx)
    fun _ hx => Or.inl hx

/-- **Nothing is visited twice.** -/
theorem nodup_walk (htree : IsTree kids start) (fuel : ℕ) : (walk kids fuel start).Nodup :=
  (List.nodup_append.mp (nodup_walk_append_left htree fuel)).1

theorem length_walk {fuel : ℕ} {work : List α} (hleft : left kids fuel work ≠ []) :
    (walk kids fuel work).length = fuel := by
  induction fuel generalizing work with
  | zero => rfl
  | succ fuel ih =>
    cases work with
    | nil => exact absurd rfl hleft
    | cons first rest => exact congrArg (· + 1) (ih hleft)

/-- **A walk with more fuel than there are elements gets through**, where the elements that can
be reached are told apart by something there are so many of. -/
theorem left_eq_nil_of_injOn {β : Type} (htree : IsTree kids start) {f : α → β}
    (hinj : ∀ x y, Reached kids start x → Reached kids start y → f x = f y → x = y) {all : List β}
    (hall : ∀ x, Reached kids start x → f x ∈ all) {fuel : ℕ} (hfuel : all.length ≤ fuel) :
    left kids fuel start = [] := by
  by_contra hleft
  have hreached : ∀ x ∈ walk kids fuel start ++ left kids fuel start, Reached kids start x :=
    fun x hx => mem_or_reached_of_mem (List.mem_append.mp hx)
  have hnodup : ((walk kids fuel start ++ left kids fuel start).map f).Nodup :=
    (nodup_walk_append_left htree fuel).map_on fun x hx y hy => hinj x y (hreached x hx) (hreached y hy)
  have hsub : (walk kids fuel start ++ left kids fuel start).map f ⊆ all := by
    intro b hb
    obtain ⟨x, hx, rfl⟩ := List.mem_map.mp hb
    exact hall x (hreached x hx)
  have hle := (hnodup.subperm hsub).length_le
  have hpos := List.length_pos_iff.mpr hleft
  rw [List.length_map, List.length_append, length_walk hleft] at hle
  omega

/-- **A walk with more fuel than there are elements gets through.** -/
theorem left_eq_nil (htree : IsTree kids start) {all : List α} {fuel : ℕ}
    (hall : ∀ x, Reached kids start x → x ∈ all) (hfuel : all.length ≤ fuel) :
    left kids fuel start = [] :=
  @left_eq_nil_of_injOn α kids start α htree id (fun _ _ _ _ h => h) all hall fuel hfuel

/-! ### Siblings -/

/-- What belongs together, if it stands in a list in its order and the list has nothing twice. -/
theorem filter_eq_of_sublist {l siblings : List α} (hl : l.Nodup) (hsub : siblings.Sublist l)
    {p : α → Bool} (hp : ∀ x ∈ l, p x = true ↔ x ∈ siblings) : l.filter p = siblings := by
  have hself : siblings.filter p = siblings :=
    List.filter_eq_self.mpr fun x hx => (hp x (hsub.subset hx)).mpr hx
  have hle : siblings.Sublist (l.filter p) := hself ▸ hsub.filter p
  have hmem : l.filter p ⊆ siblings := by
    intro x hx
    obtain ⟨hx, hpx⟩ := List.mem_filter.mp hx
    exact (hp x hx).mp hpx
  exact (hle.eq_of_length_le ((hl.filter p).subperm hmem).length_le).symm

end TreeWalk
