import HelixSync.Server.RestorePointCaps

/-!
# What the answer to an upload means

A client learns of a restore point only from the answer to its upload. An upload stays with the key it
was called with from its first statement to its last, whatever other handlers do in between, and it
answers with success only once the table has a point with that key, its own or one that an earlier
upload of the same id has left (`HelixSync.PointServer.Tracked.step`).
-/

namespace HelixSync

/-- The key of the point that a handler uploads. -/
def PointCall.uploadKey? : PointCall → Option PointKey
  | .uploadLock userId _ req | .uploadLookup userId _ req | .uploadSettings userId _ req
  | .uploadRecent userId _ req | .uploadInsert userId _ req => some (userId, req.id)
  | .uploadUsage pending | .uploadEvict pending | .uploadAdjust pending
  | .uploadCommit pending _ => some pending.row.key
  | _ => none

/-- The slot an event calls a handler in. -/
def PointEvent.enters? : PointEvent → Option ℕ
  | .upload slot _ _ | .setPinned slot _ _ _ | .deletePoint slot _ _ | .prune slot _ => some slot
  | _ => none

namespace PointServer

variable {limits : RestorePointLimits} {requireEncryption : Bool} {s s' : PointServer} {slot : ℕ}
  {key : PointKey}

/-! ### A step leaves other slots alone -/

/-- Only one slot goes on, and only that slot answers. -/
structure Apart (slot : ℕ) (s s' : PointServer) : Prop where
  calls : ∀ other, other ≠ slot → s'.calls other = s.calls other
  answers : ∀ answer ∈ s'.answers, answer ∈ s.answers ∨ answer.1 = slot

theorem apart_refl : Apart slot s s := ⟨fun _ _ => rfl, fun _ h => Or.inl h⟩

theorem apart_goto (hcalls : s'.calls = s.calls) (hanswers : s'.answers = s.answers)
    (call : PointCall) : Apart slot s (s'.goto slot call) where
  calls other hne := (Function.update_of_ne hne _ _).trans (congrFun hcalls other)
  answers _ h := Or.inl (hanswers ▸ h)

theorem apart_finish (hcalls : s'.calls = s.calls) (hanswers : s'.answers = s.answers)
    (answer : Except PointError Unit) : Apart slot s (s'.finish slot answer) where
  calls other hne := (Function.update_of_ne hne _ _).trans (congrFun hcalls other)
  answers given hgiven := by
    rcases List.mem_append.mp hgiven with hgiven | hgiven
    · exact Or.inl (hanswers ▸ hgiven)
    · rw [List.mem_singleton.mp hgiven]
      exact Or.inr rfl

theorem apart_enter (first : Except PointError PointCall) : Apart slot s (s.enter slot first) := by
  unfold enter
  split
  · exact apart_refl
  · cases first with
    | error e =>
      refine ⟨fun _ _ => rfl, fun answer hanswer => ?_⟩
      rcases List.mem_append.mp hanswer with hanswer | hanswer
      · exact Or.inl hanswer
      · rw [List.mem_singleton.mp hanswer]
        exact Or.inr rfl
    | ok call => exact apart_goto rfl rfl call

theorem apart_lockUserStats (userId : Uuid) (call : PointCall) :
    Apart slot s (s.lockUserStats slot userId call) := by
  unfold lockUserStats
  split
  · refine apart_goto ?_ ?_ call <;> rfl
  · exact apart_refl

theorem apart_adjust (userId : Uuid) (delta : ℤ) (call : ℤ → PointCall) :
    Apart slot s (s.adjustRestorePointBytes slot userId delta call) := by
  unfold adjustRestorePointBytes
  split
  · refine apart_goto ?_ ?_ _ <;> rfl
  · exact apart_refl

variable (limits requireEncryption s slot) in
/-- **A handler's statement is its own**: it moves no other handler and gives no other answer. -/
theorem apart_advance (chunk : List RestorePointRow) :
    Apart slot s (s.advance limits requireEncryption slot chunk) := by
  unfold advance
  cases s.calls slot with
  | none => exact apart_refl
  | some call =>
    cases call with
    | uploadLock | pinLock | deleteLock => exact apart_lockUserStats _ _
    | uploadLookup userId now req =>
      simp only [uploadLookup]
      split
      · refine apart_finish ?_ ?_ _ <;> rfl
      · refine apart_goto ?_ ?_ _ <;> rfl
    | uploadSettings userId now req =>
      simp only [uploadSettings]
      split
      · refine apart_finish ?_ ?_ _ <;> rfl
      · split_ifs
        · refine apart_finish ?_ ?_ _ <;> rfl
        · refine apart_finish ?_ ?_ _ <;> rfl
        · refine apart_goto ?_ ?_ _ <;> rfl
        · refine apart_goto ?_ ?_ _ <;> rfl
    | uploadRecent userId now req =>
      simp only [uploadRecent]
      split
      · refine apart_finish ?_ ?_ _ <;> rfl
      · refine apart_goto ?_ ?_ _ <;> rfl
    | uploadInsert userId now req =>
      simp only [uploadInsert]
      split
      · refine apart_finish ?_ ?_ _ <;> rfl
      · refine apart_goto ?_ ?_ _ <;> rfl
    | uploadUsage pending =>
      simp only [uploadUsage]
      split
      · refine apart_goto ?_ ?_ _ <;> rfl
      · refine apart_goto ?_ ?_ _ <;> rfl
    | uploadEvict pending =>
      simp only [uploadEvict]
      split
      · refine apart_goto ?_ ?_ _ <;> rfl
      · split
        · refine apart_finish ?_ ?_ _ <;> rfl
        · refine apart_goto ?_ ?_ _ <;> rfl
    | uploadAdjust | deleteAdjust => exact apart_adjust _ _ _
    | uploadCommit | pinCommit | deleteCommit | pruneCommit =>
      simp only [uploadCommit, pinCommit, deleteCommit, pruneCommit]
      refine apart_finish ?_ ?_ _ <;> rfl
    | pinLookup userId id pinned =>
      simp only [pinLookup]
      split
      · refine apart_finish ?_ ?_ _ <;> rfl
      · split_ifs
        · refine apart_finish ?_ ?_ _ <;> rfl
        · refine apart_goto ?_ ?_ _ <;> rfl
        · refine apart_goto ?_ ?_ _ <;> rfl
    | pinCount userId id =>
      simp only [pinCount]
      split
      · refine apart_finish ?_ ?_ _ <;> rfl
      · refine apart_goto ?_ ?_ _ <;> rfl
    | pinUpdate userId id pinned =>
      simp only [pinUpdate]
      split
      · refine apart_finish ?_ ?_ _ <;> rfl
      · split
        · refine apart_goto ?_ ?_ _ <;> rfl
        · exact apart_refl
    | deleteRow userId id =>
      simp only [deleteRow]
      split
      · refine apart_finish ?_ ?_ _ <;> rfl
      · split
        · refine apart_goto ?_ ?_ _ <;> rfl
        · exact apart_refl
    | pruneRows cutoff =>
      simp only [pruneRows]
      split
      · split
        · refine apart_finish ?_ ?_ _ <;> rfl
        · refine apart_goto ?_ ?_ _ <;> rfl
      · exact apart_refl
    | pruneAdjust deleted =>
      simp only [pruneAdjust]
      split
      · refine apart_goto ?_ ?_ _ <;> rfl
      · exact apart_refl

/-! ### An upload and its key -/

/-- A step of an upload: it goes on with its key, or ends; and it answers with success only if the
table has a point with the key by then. -/
structure Follows (slot : ℕ) (key : PointKey) (s s' : PointServer) : Prop where
  call : ∀ next, s'.calls slot = some next → next.uploadKey? = some key
  answer : (slot, .ok ()) ∈ s'.answers → (slot, .ok ()) ∈ s.answers ∨
    key ∈ s'.points.map RestorePointRow.key

theorem follows_goto {next : PointCall} (hnext : next.uploadKey? = some key)
    (hanswers : s'.answers = s.answers) : Follows slot key s (s'.goto slot next) where
  call next' h := by
    simp only [goto, Function.update_self] at h
    exact Option.some.inj h ▸ hnext
  answer h := Or.inl (hanswers ▸ h)

theorem follows_error (e : PointError) : Follows slot key s (s.finish slot (.error e)) where
  call next h := by simp [PointServer.finish, release] at h
  answer h := by
    rcases List.mem_append.mp h with h | h
    · exact Or.inl h
    · cases List.mem_singleton.mp h

theorem follows_ok (hkey : key ∈ s'.points.map RestorePointRow.key) :
    Follows slot key s (s'.finish slot (.ok ())) where
  call next h := by simp [PointServer.finish, release] at h
  answer _ := Or.inr hkey

theorem follows_refl (h : ∀ next, s.calls slot = some next → next.uploadKey? = some key) :
    Follows slot key s s :=
  ⟨h, Or.inl⟩

variable (limits requireEncryption) in
/-- **A statement of an upload** goes on with its key, and success means that the point is there. -/
theorem follows_advance {call : PointCall} (hcall : s.calls slot = some call)
    (hkey : call.uploadKey? = some key) (chunk : List RestorePointRow) :
    Follows slot key s (s.advance limits requireEncryption slot chunk) := by
  have hrefl : Follows slot key s s :=
    follows_refl fun next hnext => Option.some.inj (hcall.symm.trans hnext) ▸ hkey
  unfold advance
  rw [hcall]
  cases call with
  | uploadLock userId now req =>
    simp only [lockUserStats]
    split
    · exact follows_goto hkey rfl
    · exact hrefl
  | uploadLookup userId now req =>
    simp only [uploadLookup]
    split
    · rename_i row hfound
      obtain ⟨hrow, hrowKey⟩ := findPoint_some hfound
      refine follows_ok (List.mem_map.mpr ⟨row, hrow, hrowKey.trans (Option.some.inj hkey)⟩)
    · exact follows_goto hkey rfl
  | uploadSettings userId now req =>
    simp only [uploadSettings]
    split
    · exact follows_error _
    · split_ifs
      · exact follows_error _
      · exact follows_error _
      · exact follows_goto hkey rfl
      · exact follows_goto hkey rfl
  | uploadRecent userId now req =>
    simp only [uploadRecent]
    split
    · exact follows_error _
    · exact follows_goto hkey rfl
  | uploadInsert userId now req =>
    simp only [uploadInsert]
    split
    · exact follows_error _
    · exact follows_goto hkey rfl
  | uploadUsage pending =>
    simp only [uploadUsage]
    split
    · exact follows_goto hkey rfl
    · exact follows_goto hkey rfl
  | uploadEvict pending =>
    simp only [uploadEvict]
    split
    · exact follows_goto hkey rfl
    · split
      · exact follows_error _
      · exact follows_goto hkey rfl
  | uploadAdjust pending =>
    simp only [adjustRestorePointBytes]
    split
    · exact follows_goto hkey rfl
    · exact hrefl
  | uploadCommit pending bytes =>
    refine follows_ok ?_
    rw [List.map_append, List.mem_append]
    exact Or.inr (List.mem_singleton.mpr (Option.some.inj hkey).symm)
  | pinLock | pinLookup | pinCount | pinUpdate | pinCommit | deleteLock | deleteRow | deleteAdjust
  | deleteCommit | pruneRows | pruneAdjust | pruneCommit => cases hkey

/-- What is known of a slot that an upload with a key was called in, and no other handler: the upload
is under way with its key, or over, and success was answered only if the point has been stored. -/
structure Tracked (stored : PointKey → Prop) (s : PointServer) (slot : ℕ) (key : PointKey) : Prop where
  call : ∀ next, s.calls slot = some next → next.uploadKey? = some key
  answer : (slot, .ok ()) ∈ s.answers → stored key

/-- A slot that is not used yet has no answer. -/
structure Unused (s : PointServer) (slot : ℕ) : Prop where
  call : s.calls slot = none
  answer : ∀ answer ∈ s.answers, answer.1 ≠ slot

variable (limits requireEncryption) in
theorem apart_step {event : PointEvent} (hslot : event.slot? = some slot) :
    Apart slot s (step limits requireEncryption s event) := by
  cases event with
  | tick | settings => cases hslot
  | upload | setPinned | deletePoint | prune =>
    obtain rfl := Option.some.inj hslot
    rw [step]
    exact apart_enter _
  | advance =>
    obtain rfl := Option.some.inj hslot
    exact apart_advance limits requireEncryption s _ _
  | drop =>
    obtain rfl := Option.some.inj hslot
    exact ⟨fun other hne => Function.update_of_ne hne _ _, fun _ h => Or.inl h⟩

variable (limits requireEncryption) in
/-- A step in another slot, or in none, leaves the handler and the answers of a slot alone. -/
theorem beside_slot {event : PointEvent} (hslot : event.slot? ≠ some slot) :
    (step limits requireEncryption s event).calls slot = s.calls slot ∧
      ∀ answer ∈ (step limits requireEncryption s event).answers, answer.1 = slot →
        answer ∈ s.answers := by
  cases hother : event.slot? with
  | none =>
    cases event with
    | tick | settings => exact ⟨rfl, fun _ h _ => h⟩
    | upload | setPinned | deletePoint | prune | advance | drop => cases hother
  | some other =>
    have hne : slot ≠ other := fun heq => hslot (hother.trans (congrArg some heq.symm))
    have hapart := apart_step limits requireEncryption (s := s) hother
    refine ⟨hapart.calls slot hne, fun answer hanswer heq => ?_⟩
    rcases hapart.answers answer hanswer with h | h
    · exact h
    · exact absurd (heq.symm.trans h) hne

variable (limits requireEncryption) in
/-- **An upload is tracked through every step** that calls no other handler in its slot. -/
theorem Tracked.step {stored : PointKey → Prop} (h : Tracked stored s slot key) {event : PointEvent}
    (henters : event.enters? ≠ some slot)
    (hstored : ∀ row ∈ (step limits requireEncryption s event).points, stored row.key) :
    Tracked stored (PointServer.step limits requireEncryption s event) slot key := by
  by_cases hslot : event.slot? = some slot
  · cases event with
    | tick | settings => cases hslot
    | upload | setPinned | deletePoint | prune => exact absurd hslot henters
    | advance other chunk =>
      obtain rfl : other = slot := Option.some.inj hslot
      cases hcall : s.calls other with
      | none =>
        have hsame : PointServer.step limits requireEncryption s (.advance other chunk) = s := by
          rw [PointServer.step, advance, hcall]
        rw [hsame]
        exact h
      | some call =>
        have hfollows := follows_advance limits requireEncryption hcall (h.call call hcall) chunk
        refine ⟨hfollows.call, fun hanswer => ?_⟩
        rcases hfollows.answer hanswer with hold | hkey
        · exact h.answer hold
        · obtain ⟨row, hrow, rfl⟩ := List.mem_map.mp hkey
          exact hstored row hrow
    | drop other =>
      obtain rfl : other = slot := Option.some.inj hslot
      exact ⟨fun next hnext => by simp [PointServer.step, release] at hnext, h.answer⟩
  · obtain ⟨hcalls, hanswers⟩ := beside_slot limits requireEncryption (s := s) hslot
    refine ⟨fun next hnext => h.call next (hcalls ▸ hnext), fun hanswer => h.answer ?_⟩
    exact hanswers _ hanswer rfl

variable (limits requireEncryption) in
/-- An upload that is called in an unused slot is tracked. -/
theorem Unused.tracked {stored : PointKey → Prop} (h : Unused s slot) (userId : Uuid)
    (req : UploadPointRequest) :
    Tracked stored (PointServer.step limits requireEncryption s (.upload slot userId req)) slot
      (userId, req.id) := by
  simp only [PointServer.step, enter, h.call, Option.isSome_none, Bool.false_eq_true, if_false]
  cases validateUpload limits req with
  | error e =>
    refine ⟨fun next hnext => ?_, fun hanswer => ?_⟩
    · simp [Except.map, h.call] at hnext
    · rcases List.mem_append.mp hanswer with hanswer | hanswer
      · exact absurd rfl (h.answer _ hanswer)
      · cases List.mem_singleton.mp hanswer
  | ok =>
    refine ⟨fun next hnext => ?_, fun hanswer => absurd rfl (h.answer _ hanswer)⟩
    simp only [Except.map, goto, Function.update_self] at hnext
    exact Option.some.inj hnext ▸ rfl

variable (limits requireEncryption) in
/-- A slot stays unused until a handler is called in it. -/
theorem Unused.step (h : Unused s slot) {event : PointEvent} (henters : event.enters? ≠ some slot) :
    Unused (PointServer.step limits requireEncryption s event) slot := by
  by_cases hslot : event.slot? = some slot
  · cases event with
    | tick | settings => cases hslot
    | upload | setPinned | deletePoint | prune => exact absurd hslot henters
    | advance other chunk =>
      obtain rfl : other = slot := Option.some.inj hslot
      have hsame : PointServer.step limits requireEncryption s (.advance other chunk) = s := by
        rw [PointServer.step, advance, h.call]
      rwa [hsame]
    | drop other =>
      obtain rfl : other = slot := Option.some.inj hslot
      exact ⟨Function.update_self _ _ _, h.answer⟩
  · obtain ⟨hcalls, hanswers⟩ := beside_slot limits requireEncryption (s := s) hslot
    exact ⟨hcalls.trans h.call, fun answer hanswer heq => h.answer answer (hanswers answer hanswer heq) heq⟩

/-- What is known of a slot is known with more points stored. -/
theorem Tracked.mono {stored stored' : PointKey → Prop} (h : Tracked stored s slot key)
    (himp : ∀ key, stored key → stored' key) : Tracked stored' s slot key :=
  ⟨h.call, fun hanswer => himp key (h.answer hanswer)⟩

end PointServer

end HelixSync
