import Mathlib.Order.Lattice

/-!
# Registers that keep the greatest key

A register takes a value if it is empty or the value has a greater key than the one it
holds. After any values, in any order and with any repetitions, it holds one with the
greatest key (`MaxRegister.le_of_foldl`, `MaxRegister.mem_of_foldl`), and a value whose key is
not greater changes nothing (`MaxRegister.write_eq_self`). The one it holds is the first of those
(`MaxRegister.exists_first_greatest` cuts a list there).
-/

namespace MaxRegister

variable {ρ κ : Type} [LinearOrder κ] (key : ρ → κ)

/-- One write. -/
def write (current : Option ρ) (value : ρ) : Option ρ :=
  match current with
  | none => some value
  | some held => if key held < key value then some value else some held

variable {key} {current : Option ρ} {value held : ρ} {values : List ρ}

/-- What is held has at least the key written, -/
theorem le_of_write (h : write key current value = some held) : key value ≤ key held := by
  unfold write at h
  split at h
  · rw [Option.some.inj h]
  · split at h
    · rw [Option.some.inj h]
    · rename_i hlt
      rw [← Option.some.inj h]
      exact not_lt.mp hlt

/-- and at least the key held before. -/
theorem mono_write {before : ρ} (hbefore : current = some before)
    (h : write key current value = some held) : key before ≤ key held := by
  rw [hbefore, write] at h
  split at h
  · rename_i hlt
    rw [← Option.some.inj h]
    exact le_of_lt hlt
  · rw [Option.some.inj h]

theorem write_ne_none : write key current value ≠ none := by
  unfold write
  split
  · simp
  · split <;> simp

/-- A value whose key is not greater changes nothing. -/
theorem write_eq_self (h : key value ≤ key held) : write key (some held) value = some held := by
  rw [write, if_neg (not_lt.mpr h)]

/-- What is held reaches a bound if it did before or the value does. -/
theorem exists_le_write_iff {bound : κ} :
    (∃ held, write key current value = some held ∧ bound ≤ key held) ↔
      (∃ held, current = some held ∧ bound ≤ key held) ∨ bound ≤ key value := by
  cases current with
  | none => simp [write]
  | some before =>
    by_cases hlt : key before < key value
    · simp only [write, if_pos hlt, Option.some.injEq, exists_eq_left']
      exact ⟨Or.inr, fun h => h.elim (fun h => h.trans hlt.le) id⟩
    · simp only [write, if_neg hlt, Option.some.injEq, exists_eq_left']
      exact ⟨Or.inl, fun h => h.elim id fun h => h.trans (not_lt.mp hlt)⟩

theorem mem_of_write (h : write key current value = some held) :
    current = some held ∨ held = value := by
  unfold write at h
  split at h
  · exact Or.inr (Option.some.inj h).symm
  · split at h
    · exact Or.inr (Option.some.inj h).symm
    · exact Or.inl h

theorem mono_foldl {before : ρ} (hbefore : current = some before)
    (h : values.foldl (write key) current = some held) : key before ≤ key held := by
  induction values generalizing current before with
  | nil =>
    rw [List.foldl_nil, hbefore] at h
    rw [Option.some.inj h]
  | cons value values ih =>
    obtain ⟨next, hnext⟩ := Option.ne_none_iff_exists'.mp
      (@write_ne_none _ _ _ key current value)
    exact le_trans (mono_write hbefore hnext) (ih hnext h)

/-- **The greatest key**: nothing written has a greater one. -/
theorem le_of_foldl (hvalue : value ∈ values) (h : values.foldl (write key) current = some held) :
    key value ≤ key held := by
  induction values generalizing current with
  | nil => exact absurd hvalue List.not_mem_nil
  | cons v values ih =>
    rcases List.mem_cons.mp hvalue with rfl | hvalue
    · obtain ⟨next, hnext⟩ := Option.ne_none_iff_exists'.mp
        (@write_ne_none _ _ _ key current value)
      exact le_trans (le_of_write hnext) (mono_foldl hnext h)
    · exact ih hvalue h

/-- What is held at the end was held at first, or written. -/
theorem mem_of_foldl (h : values.foldl (write key) current = some held) :
    current = some held ∨ held ∈ values := by
  induction values generalizing current with
  | nil => exact Or.inl h
  | cons v values ih =>
    rcases ih h with hcurrent | hmem
    · rcases mem_of_write hcurrent with hbefore | rfl
      · exact Or.inl hbefore
      · exact Or.inr List.mem_cons_self
    · exact Or.inr (List.mem_cons_of_mem _ hmem)

variable (key) in
theorem foldl_some_ne_none (values : List ρ) (held : ρ) :
    values.foldl (write key) (some held) ≠ none := by
  induction values generalizing held with
  | nil => simp
  | cons v values ih =>
    obtain ⟨next, hnext⟩ := Option.ne_none_iff_exists'.mp
      (@write_ne_none _ _ _ key (some held) v)
    rw [List.foldl_cons, hnext]
    exact ih next

theorem foldl_ne_none (h : value ∈ values) : values.foldl (write key) current ≠ none := by
  cases values with
  | nil => exact absurd h List.not_mem_nil
  | cons v values =>
    obtain ⟨next, hnext⟩ := Option.ne_none_iff_exists'.mp
      (@write_ne_none _ _ _ key current v)
    rw [List.foldl_cons, hnext]
    exact foldl_some_ne_none key values next

/-- **The value of the greatest key** is held at the end, if keys tell the values apart. -/
theorem foldl_eq_of_greatest (hvalue : value ∈ values)
    (hgreatest : ∀ v ∈ values, key v ≤ key value)
    (hinj : ∀ v ∈ values, key v = key value → v = value) :
    values.foldl (write key) none = some value := by
  obtain ⟨held, hheld⟩ := Option.ne_none_iff_exists'.mp
    (@foldl_ne_none _ _ _ key none _ _ hvalue)
  rcases mem_of_foldl hheld with hnone | hmem
  · exact absurd hnone (by simp)
  · have hkey : key held = key value :=
      le_antisymm (hgreatest held hmem) (le_of_foldl hvalue hheld)
    rw [hheld, hinj held hmem hkey]

/-- **The first of the greatest**: it exceeds what comes before it, and nothing after it exceeds
it. -/
theorem exists_first_greatest (key : ρ → κ) {values : List ρ} (hvalues : values ≠ []) :
    ∃ before value after, values = before ++ value :: after ∧
      (∀ v ∈ before, key v < key value) ∧ ∀ v ∈ after, key v ≤ key value := by
  induction values with
  | nil => exact absurd rfl hvalues
  | cons first values ih =>
    rcases eq_or_ne values [] with rfl | hne
    · exact ⟨[], first, [], rfl, by simp, by simp⟩
    · obtain ⟨before, value, after, rfl, hbefore, hafter⟩ := ih hne
      rcases lt_or_ge (key first) (key value) with hlt | hge
      · refine ⟨first :: before, value, after, rfl, ?_, hafter⟩
        rintro v (_ | ⟨_, hv⟩)
        · exact hlt
        · exact hbefore v hv
      · refine ⟨[], first, before ++ value :: after, rfl, by simp, fun v hv => ?_⟩
        rcases List.mem_append.mp hv with hv | hv
        · exact ((hbefore v hv).trans_le hge).le
        · rcases List.mem_cons.mp hv with rfl | hv
          · exact hge
          · exact (hafter v hv).trans hge

end MaxRegister
