import HelixSync.Server.RestorePointCaps

/-!
# Who touches the points of a user

Whoever has locked a restore point, or a row of `sync_stats`, holds the lock of its user or is a
prune (`HelixSync.PointServer.Guarded`); and a handler that is no prune changes the points and the
byte count of no user whose lock it does not hold (`HelixSync.PointServer.Disciplined`). So while a
handler holds the lock of a user and no prune is under way, the user's points and their count stay
as they are until it commits (`HelixSync.PointServer.beside_step`).

This is about any table: it may hold more points than the limits allow, and the byte counts may be
anything, as when the limits were lowered since.
-/

namespace HelixSync

/-! ### Who touches the points of a user -/

namespace PointCall

/-- A prune under way. -/
def isPrune : PointCall → Bool
  | .pruneRows _ | .pruneAdjust _ | .pruneCommit _ _ => true
  | _ => false

/-- The user whose lock a handler holds. -/
def lockedUser? : PointCall → Option Uuid
  | .uploadLookup userId _ _ | .uploadSettings userId _ _ | .uploadRecent userId _ _
  | .uploadInsert userId _ _ | .pinLookup userId _ _ | .pinCount userId _ | .pinUpdate userId _ _
  | .deleteRow userId _ => some userId
  | .uploadUsage pending | .uploadEvict pending | .uploadAdjust pending
  | .uploadCommit pending _ => some pending.row.userId
  | .pinCommit row _ | .deleteAdjust row | .deleteCommit row _ => some row.userId
  | .uploadLock _ _ _ | .pinLock _ _ _ | .deleteLock _ _ | .pruneRows _ | .pruneAdjust _
  | .pruneCommit _ _ => none

/-- The upload of a handler that has inserted its row. -/
def pending? : PointCall → Option PendingUpload
  | .uploadUsage pending | .uploadEvict pending | .uploadAdjust pending
  | .uploadCommit pending _ => some pending
  | _ => none

end PointCall

namespace PointServer

variable {limits : RestorePointLimits} {requireEncryption : Bool} {s s' : PointServer}
  {slot : ℕ} {call next : PointCall} {userId : Uuid} {pending : PendingUpload}

/-- An upload that has inserted its row has a row that is new, and evicts points of its user. -/
structure Owning (points : List RestorePointRow) (pending : PendingUpload) : Prop where
  fresh : pending.row.key ∉ points.map RestorePointRow.key
  owner : ∀ row ∈ pending.evicted, row.userId = pending.row.userId

/-- **The discipline of the locks**: what belongs to a user is locked by the holder of the user's
lock, or by a prune. -/
structure Guarded (s : PointServer) : Prop where
  keys : (s.points.map RestorePointRow.key).Nodup
  users : ∀ slot call userId, s.calls slot = some call → call.lockedUser? = some userId →
    s.userLocks userId = some slot
  rows : ∀ key slot, s.rowLocks key = some slot →
    s.userLocks key.1 = some slot ∨ ∃ call, s.calls slot = some call ∧ call.isPrune = true
  stats : ∀ userId slot, s.statsLocks userId = some slot →
    s.userLocks userId = some slot ∨ ∃ call, s.calls slot = some call ∧ call.isPrune = true
  uploads : ∀ slot call pending, s.calls slot = some call → call.pending? = some pending →
    Owning s.points pending

/-- A table of locks in which those of other slots are as they were. -/
def LocksAs {κ : Type} (slot : ℕ) (l l' : Locks κ) : Prop :=
  ∀ k other, other ≠ slot → (l' k = some other ↔ l k = some other)

theorem LocksAs.refl {κ : Type} {l : Locks κ} : LocksAs slot l l := fun _ _ _ => Iff.rfl

/-- **A slot goes on**: it has taken locks, and they cover what it does next. -/
theorem guarded_goto {users stats : Locks Uuid} {rows : Locks PointKey} (h : Guarded s)
    (husers : LocksAs slot s.userLocks users) (hrows : LocksAs slot s.rowLocks rows)
    (hstats : LocksAs slot s.statsLocks stats)
    (hlock : ∀ userId, next.lockedUser? = some userId → users userId = some slot)
    (hrowsOwn : ∀ key : PointKey, rows key = some slot →
      users key.1 = some slot ∨ next.isPrune = true)
    (hstatsOwn : ∀ userId, stats userId = some slot →
      users userId = some slot ∨ next.isPrune = true)
    (hpending : ∀ pending, next.pending? = some pending → Owning s.points pending) :
    Guarded (goto { s with userLocks := users, rowLocks := rows, statsLocks := stats } slot next) := by
  generalize ht : goto { s with userLocks := users, rowLocks := rows, statsLocks := stats } slot next = t
  have hself : t.calls slot = some next := ht ▸ Function.update_self _ _ _
  have hothers : ∀ other, other ≠ slot → t.calls other = s.calls other :=
    fun other hne => ht ▸ Function.update_of_ne hne _ _
  obtain ⟨hpoints, hus, hrs, hss⟩ : t.points = s.points ∧ t.userLocks = users ∧
      t.rowLocks = rows ∧ t.statsLocks = stats := ht ▸ ⟨rfl, rfl, rfl, rfl⟩
  subst hus hrs hss
  constructor
  · exact hpoints ▸ h.keys
  · intro other call userId hcall huser
    by_cases hother : other = slot
    · subst hother
      obtain rfl := Option.some_injective _ (hself.symm.trans hcall)
      exact hlock userId huser
    · rw [hothers other hother] at hcall
      exact (husers userId other hother).mpr (h.users other call userId hcall huser)
  · intro key other hkey
    by_cases hother : other = slot
    · subst hother
      exact (hrowsOwn key hkey).imp_right fun hprune => ⟨next, hself, hprune⟩
    · rw [hothers other hother]
      exact (h.rows key other ((hrows key other hother).mp hkey)).imp_left
        (husers key.1 other hother).mpr
  · intro userId other hkey
    by_cases hother : other = slot
    · subst hother
      exact (hstatsOwn userId hkey).imp_right fun hprune => ⟨next, hself, hprune⟩
    · rw [hothers other hother]
      exact (h.stats userId other ((hstats userId other hother).mp hkey)).imp_left
        (husers userId other hother).mpr
  · intro other call pending hcall huploads
    by_cases hother : other = slot
    · subst hother
      obtain rfl := Option.some_injective _ (hself.symm.trans hcall)
      exact hpoints ▸ hpending pending huploads
    · rw [hothers other hother] at hcall
      exact hpoints ▸ h.uploads other call pending hcall huploads

/-- **A slot is done**, and its transaction has left the table with these rows. -/
theorem guarded_finish {points : List RestorePointRow} {bytes : Uuid → Option ℤ}
    {answer : Except PointError Unit} (h : Guarded s)
    (hkeys : (points.map RestorePointRow.key).Nodup)
    (hfresh : ∀ other call pending, other ≠ slot → s.calls other = some call →
      call.pending? = some pending → pending.row.key ∉ points.map RestorePointRow.key) :
    Guarded (finish { s with points := points, restorePointBytes := bytes } slot answer) := by
  generalize ht : finish { s with points := points, restorePointBytes := bytes } slot answer = t
  have hothers : ∀ other call, t.calls other = some call → other ≠ slot ∧ s.calls other = some call := by
    subst ht
    intro other call hcall
    by_cases hother : other = slot
    · simp [finish, release, hother] at hcall
    · exact ⟨hother, by simpa [finish, release, hother] using hcall⟩
  have hkept : ∀ other call, other ≠ slot → s.calls other = some call → t.calls other = some call := by
    subst ht
    intro other call hother hcall
    simpa [finish, release, hother] using hcall
  obtain ⟨hpoints, hus, hrs, hss⟩ : t.points = points ∧ t.userLocks = s.userLocks.release slot ∧
      t.rowLocks = s.rowLocks.release slot ∧ t.statsLocks = s.statsLocks.release slot :=
    ht ▸ ⟨rfl, rfl, rfl, rfl⟩
  have hheld : ∀ {κ : Type} {l : Locks κ} {k : κ} {other : ℕ}, l.release slot k = some other →
      other ≠ slot := by
    rintro κ l k other hlock rfl
    simp [Locks.release] at hlock
  constructor
  · rwa [hpoints]
  · intro other call userId hcall huser
    obtain ⟨hother, hcall⟩ := hothers other call hcall
    rw [hus, Locks.release_eq_some_of_ne hother]
    exact h.users other call userId hcall huser
  · intro key other hkey
    rw [hrs] at hkey
    have hother := hheld hkey
    rw [hus, Locks.release_eq_some_of_ne hother]
    refine (h.rows key other ((Locks.release_eq_some_of_ne hother).mp hkey)).imp_right ?_
    rintro ⟨call, hcall, hprune⟩
    exact ⟨call, hkept other call hother hcall, hprune⟩
  · intro userId other hkey
    rw [hss] at hkey
    have hother := hheld hkey
    rw [hus, Locks.release_eq_some_of_ne hother]
    refine (h.stats userId other ((Locks.release_eq_some_of_ne hother).mp hkey)).imp_right ?_
    rintro ⟨call, hcall, hprune⟩
    exact ⟨call, hkept other call hother hcall, hprune⟩
  · intro other call pending hcall huploads
    obtain ⟨hother, hcall⟩ := hothers other call hcall
    rw [hpoints]
    exact ⟨hfresh other call pending hother hcall huploads,
      (h.uploads other call pending hcall huploads).owner⟩

/-- **One statement** of a handler keeps the discipline, and a handler that is no prune leaves the
points and the count of every user alone whose lock it does not hold. -/
structure Disciplined (slot : ℕ) (call : PointCall) (s s' : PointServer) : Prop where
  guarded : Guarded s'
  calls : ∀ other, other ≠ slot → s'.calls other = s.calls other
  prune : call.isPrune = false → ∀ next, s'.calls slot = some next → next.isPrune = false
  frame : call.isPrune = false → ∀ userId, s.userLocks userId ≠ some slot →
    pointsOf s'.points userId = pointsOf s.points userId ∧
      s'.restorePointBytes userId = s.restorePointBytes userId

section Statements

variable (h : Guarded s) (hcall : s.calls slot = some call)

include h hcall

theorem disciplined_refl : Disciplined slot call s s where
  guarded := h
  calls _ _ := rfl
  prune hprune _ hnext := Option.some_injective _ (hcall.symm.trans hnext) ▸ hprune
  frame _ _ _ := ⟨rfl, rfl⟩

/-- A slot goes on under locks that it has taken. -/
theorem disciplined_next {users stats : Locks Uuid} {rows : Locks PointKey}
    (husers : LocksAs slot s.userLocks users) (hrows : LocksAs slot s.rowLocks rows)
    (hstats : LocksAs slot s.statsLocks stats)
    (hkept : ∀ userId, s.userLocks userId = some slot → users userId = some slot)
    (hlock : ∀ userId, next.lockedUser? = some userId → users userId = some slot)
    (hrowsOwn : ∀ key : PointKey, rows key = some slot → s.rowLocks key = some slot ∨
      users key.1 = some slot ∨ next.isPrune = true)
    (hstatsOwn : ∀ userId, stats userId = some slot → s.statsLocks userId = some slot ∨
      users userId = some slot ∨ next.isPrune = true)
    (hprune : next.isPrune = call.isPrune)
    (hpending : ∀ pending, next.pending? = some pending → Owning s.points pending) :
    Disciplined slot call s
      (goto { s with userLocks := users, rowLocks := rows, statsLocks := stats } slot next) where
  guarded := by
    -- what was covered before is covered now
    have hcover : ∀ {userId}, (s.userLocks userId = some slot ∨
        ∃ call, s.calls slot = some call ∧ call.isPrune = true) →
          users userId = some slot ∨ next.isPrune = true := by
      rintro userId (hheld | ⟨call', hcall', hprune'⟩)
      · exact Or.inl (hkept userId hheld)
      · obtain rfl := Option.some_injective _ (hcall.symm.trans hcall')
        exact Or.inr (hprune.trans hprune')
    refine guarded_goto h husers hrows hstats hlock (fun key hkey => ?_) (fun userId hkey => ?_)
      hpending
    · exact (hrowsOwn key hkey).elim (fun hold => hcover (h.rows key slot hold)) id
    · exact (hstatsOwn userId hkey).elim (fun hold => hcover (h.stats userId slot hold)) id
  calls other hne := Function.update_of_ne hne _ _
  prune hcallPrune next' hnext' := by
    obtain rfl := Option.some_injective _ ((Function.update_self slot _ s.calls).symm.trans hnext')
    rw [hprune, hcallPrune]
  frame _ _ _ := ⟨rfl, rfl⟩

theorem disciplined_goto (huser : ∀ userId, next.lockedUser? = some userId →
      call.lockedUser? = some userId) (hprune : next.isPrune = call.isPrune)
    (hpending : ∀ pending, next.pending? = some pending → Owning s.points pending) :
    Disciplined slot call s (s.goto slot next) :=
  disciplined_next h hcall .refl .refl .refl (fun _ hheld => hheld)
    (fun userId hnext => h.users slot call userId hcall (huser userId hnext))
    (fun _ hkey => Or.inl hkey) (fun _ hkey => Or.inl hkey) hprune hpending

theorem disciplined_lockUserStats (hnext : next.lockedUser? = some userId)
    (hprune : next.isPrune = call.isPrune) (hpending : next.pending? = none) :
    Disciplined slot call s (s.lockUserStats slot userId next) := by
  unfold lockUserStats
  split
  · rename_i hfree
    refine disciplined_next h hcall (fun _ _ hne => Locks.acquire_eq_some_of_ne hne hfree) .refl .refl
      (fun _ hheld => Locks.acquire_of_held hheld) ?_ (fun _ hkey => Or.inl hkey)
      (fun _ hkey => Or.inl hkey) hprune (by simp [hpending])
    intro userId' huser
    obtain rfl := Option.some_injective _ (hnext.symm.trans huser)
    exact Locks.acquire_self
  · exact disciplined_refl h hcall

/-- Rows are locked: of the user whose lock is held, or by a prune. -/
theorem disciplined_lockRows {keys : List PointKey}
    (hfree : ∀ key ∈ keys, s.rowLocks.free slot key = true)
    (hkeys : ∀ key ∈ keys, call.lockedUser? = some key.1 ∨ call.isPrune = true)
    (huser : ∀ userId, next.lockedUser? = some userId → call.lockedUser? = some userId)
    (hprune : next.isPrune = call.isPrune)
    (hpending : ∀ pending, next.pending? = some pending → Owning s.points pending) :
    Disciplined slot call s
      (goto { s with rowLocks := s.rowLocks.acquireAll slot keys } slot next) := by
  refine disciplined_next h hcall .refl
    (fun _ _ hne => Locks.acquireAll_eq_some_of_ne hne hfree) .refl (fun _ hheld => hheld)
    (fun userId hnext => h.users slot call userId hcall (huser userId hnext)) (fun key hkey => ?_)
    (fun _ hkey => Or.inl hkey) hprune hpending
  by_cases hmem : key ∈ keys
  · refine Or.inr ((hkeys key hmem).imp (h.users slot call key.1 hcall) fun h => hprune.trans h)
  · exact Or.inl (by rwa [Locks.acquireAll_of_notMem hmem] at hkey)

/-- Byte counts are locked: of the user whose lock is held, or by a prune. -/
theorem disciplined_lockStats {users : List Uuid}
    (hfree : ∀ userId ∈ users, s.statsLocks.free slot userId = true)
    (hkeys : ∀ userId ∈ users, call.lockedUser? = some userId ∨ call.isPrune = true)
    (huser : ∀ userId, next.lockedUser? = some userId → call.lockedUser? = some userId)
    (hprune : next.isPrune = call.isPrune)
    (hpending : ∀ pending, next.pending? = some pending → Owning s.points pending) :
    Disciplined slot call s
      (goto { s with statsLocks := s.statsLocks.acquireAll slot users } slot next) := by
  refine disciplined_next h hcall .refl .refl
    (fun _ _ hne => Locks.acquireAll_eq_some_of_ne hne hfree) (fun _ hheld => hheld)
    (fun userId hnext => h.users slot call userId hcall (huser userId hnext))
    (fun _ hkey => Or.inl hkey) (fun userId hkey => ?_) hprune hpending
  by_cases hmem : userId ∈ users
  · exact Or.inr ((hkeys userId hmem).imp (h.users slot call userId hcall) fun h => hprune.trans h)
  · exact Or.inl (by rwa [Locks.acquireAll_of_notMem hmem] at hkey)

/-- A transaction is over and has left these points and counts. -/
theorem disciplined_commit {points : List RestorePointRow} {bytes : Uuid → Option ℤ}
    {answer : Except PointError Unit} (hkeys : (points.map RestorePointRow.key).Nodup)
    (hmem : ∀ row ∈ points, row.key ∈ s.points.map RestorePointRow.key ∨
      call.lockedUser? = some row.userId)
    (hframe : call.isPrune = false → ∀ userId, s.userLocks userId ≠ some slot →
      pointsOf points userId = pointsOf s.points userId ∧ bytes userId = s.restorePointBytes userId) :
    Disciplined slot call s
      (finish { s with points := points, restorePointBytes := bytes } slot answer) where
  guarded := by
    refine guarded_finish h hkeys fun other call' pending hne hcall' hpending hmem' => ?_
    obtain ⟨row, hrow, hkey⟩ := List.mem_map.mp hmem'
    rcases hmem row hrow with hold | huser
    · exact (h.uploads other call' pending hcall' hpending).fresh (hkey ▸ hold)
    · -- the new row is of a user whose lock this slot holds, and the other slot holds its own
      have hlock := h.users slot call row.userId hcall huser
      have huser' : call'.lockedUser? = some pending.row.userId := by
        cases call' <;> simp [PointCall.pending?] at hpending <;> subst hpending <;> rfl
      have hlock' := h.users other call' _ hcall' huser'
      rw [show row.userId = pending.row.userId from congrArg Prod.fst hkey, hlock'] at hlock
      exact hne (Option.some_injective _ hlock)
  calls other hne := Function.update_of_ne hne _ _
  prune _ _ hnext := by simp [finish, release] at hnext
  frame := hframe

theorem disciplined_finish (answer : Except PointError Unit) :
    Disciplined slot call s (s.finish slot answer) :=
  have hcommit : Disciplined slot call s (finish { s with
      points := s.points
      restorePointBytes := s.restorePointBytes } slot answer) :=
    disciplined_commit h hcall h.keys (fun _ hrow => Or.inl (List.mem_map_of_mem hrow))
      fun _ _ _ => ⟨rfl, rfl⟩
  hcommit

end Statements

/-- A victim is a point of the user of the upload. -/
theorem victim_userId {row : RestorePointRow}
    (hvictim : victim? (s.uploadView pending) pending.row.id = some row) :
    row.userId = pending.row.userId := by
  obtain ⟨hview, hid⟩ := victim?_some hvictim
  rcases List.mem_append.mp hview with hold | hnew
  · exact of_decide_eq_true (List.mem_filter.mp hold).2
  · exact absurd (congrArg RestorePointRow.id (List.mem_singleton.mp hnew)) hid

/-- Points of other users are not among those without some of one user. -/
theorem pointsOf_without_of_ne {points deleted : List RestorePointRow} {owner : Uuid}
    (howner : ∀ row ∈ deleted, row.userId = owner) (hne : userId ≠ owner) :
    pointsOf (without points deleted) userId = pointsOf points userId := by
  rw [pointsOf, without, List.filter_filter]
  refine List.filter_congr fun row _ => ?_
  rw [Bool.and_eq_left_iff_imp]
  refine fun huser => decide_eq_true fun hmem => hne ?_
  obtain ⟨other, hother, hkey⟩ := List.mem_map.mp hmem
  rw [← of_decide_eq_true huser, ← howner other hother]
  exact (congrArg Prod.fst hkey).symm

/-- A statement of no upload has no upload to account for. -/
theorem owning_of_pending?_eq_none {points : List RestorePointRow} {call : PointCall}
    (h : call.pending? = none) :
    ∀ pending, call.pending? = some pending → Owning points pending := by
  intro pending hpending
  rw [h] at hpending
  cases hpending

variable (limits requireEncryption) in
/-- **Every statement** keeps the discipline. -/
theorem disciplined_advance (h : Guarded s) (hcall : s.calls slot = some call)
    (chunk : List RestorePointRow) :
    Disciplined slot call s (s.advance limits requireEncryption slot chunk) := by
  have hcommit : ∀ {owner : Uuid}, call.lockedUser? = some owner → ∀ {userId},
      s.userLocks userId ≠ some slot → userId ≠ owner := by
    rintro owner howner userId hfree rfl
    exact hfree (h.users slot call userId hcall howner)
  have hown : ∀ pending, call.pending? = some pending → Owning s.points pending :=
    fun pending => h.uploads slot call pending hcall
  rw [advance, hcall]
  cases call with
  | uploadLock | pinLock | deleteLock => exact disciplined_lockUserStats h hcall rfl rfl rfl
  | uploadLookup userId now req =>
    simp only [uploadLookup]
    split
    · exact disciplined_finish h hcall _
    · exact disciplined_goto h hcall (fun _ huser => huser) rfl (owning_of_pending?_eq_none rfl)
  | uploadSettings userId now req =>
    simp only [uploadSettings]
    split
    · exact disciplined_finish h hcall _
    · split_ifs
      · exact disciplined_finish h hcall _
      · exact disciplined_finish h hcall _
      · exact disciplined_goto h hcall (fun _ huser => huser) rfl (owning_of_pending?_eq_none rfl)
      · exact disciplined_goto h hcall (fun _ huser => huser) rfl (owning_of_pending?_eq_none rfl)
  | uploadRecent userId now req =>
    simp only [uploadRecent]
    split
    · exact disciplined_finish h hcall _
    · exact disciplined_goto h hcall (fun _ huser => huser) rfl (owning_of_pending?_eq_none rfl)
  | uploadInsert userId now req =>
    simp only [uploadInsert]
    split
    · exact disciplined_finish h hcall _
    · rename_i hfresh
      refine disciplined_goto h hcall (fun _ huser => huser) rfl ?_
      rintro _ ⟨⟩
      exact ⟨findPoint_none hfresh, fun _ hother => absurd hother List.not_mem_nil⟩
  | uploadUsage pending =>
    simp only [uploadUsage]
    split
    · exact disciplined_goto h hcall (fun _ huser => huser) rfl hown
    · exact disciplined_goto h hcall (fun _ huser => huser) rfl hown
  | uploadEvict pending =>
    simp only [uploadEvict]
    split
    · rename_i row hvictim
      obtain ⟨hvictim, hfree⟩ := Option.filter_eq_some_iff.mp hvictim
      have huser := victim_userId hvictim
      refine disciplined_lockRows h hcall (List.forall_mem_singleton.mpr hfree)
        (List.forall_mem_singleton.mpr (Or.inl (congrArg some huser.symm))) (fun _ huser => huser)
        rfl ?_
      rintro _ ⟨⟩
      refine ⟨(hown pending rfl).fresh, fun other hother => ?_⟩
      rcases List.mem_append.mp hother with hother | hother
      · exact (hown pending rfl).owner other hother
      · rw [List.mem_singleton.mp hother]
        exact huser
    · split
      · exact disciplined_finish h hcall _
      · refine disciplined_goto h hcall (fun _ huser => huser) rfl ?_
        rintro _ ⟨⟩
        exact ⟨(hown pending rfl).fresh, (hown pending rfl).owner⟩
  | uploadAdjust pending =>
    simp only [adjustRestorePointBytes]
    split
    · rename_i hfree
      exact disciplined_lockStats h hcall (List.forall_mem_singleton.mpr hfree)
        (List.forall_mem_singleton.mpr (Or.inl rfl)) (fun _ huser => huser) rfl hown
    · exact disciplined_refl h hcall
  | uploadCommit pending bytes =>
    obtain ⟨hfresh, howner⟩ := hown pending rfl
    refine disciplined_commit h hcall ?_ ?_ ?_
    · rw [List.map_append, List.nodup_append]
      refine ⟨((without_sublist _ _).map _).nodup h.keys, List.nodup_singleton _, ?_⟩
      rintro key hkey other hother rfl
      exact hfresh (List.mem_singleton.mp hother ▸ ((without_sublist _ _).map _).subset hkey)
    · intro row hrow
      refine (List.mem_append.mp hrow).imp (fun hold => ?_) fun hnew => ?_
      · exact List.mem_map_of_mem ((without_sublist _ _).subset hold)
      · rw [List.mem_singleton.mp hnew]
        rfl
    · intro _ userId hfree
      have hne := hcommit rfl hfree
      rw [pointsOf_commit, if_neg hne, Function.update_of_ne hne]
      exact ⟨pointsOf_without_of_ne howner hne, rfl⟩
  | pinLookup userId id pinned =>
    simp only [pinLookup]
    split
    · exact disciplined_finish h hcall _
    · split_ifs
      · exact disciplined_finish h hcall _
      · exact disciplined_goto h hcall (fun _ huser => huser) rfl (owning_of_pending?_eq_none rfl)
      · exact disciplined_goto h hcall (fun _ huser => huser) rfl (owning_of_pending?_eq_none rfl)
  | pinCount userId id =>
    simp only [pinCount]
    split
    · exact disciplined_finish h hcall _
    · exact disciplined_goto h hcall (fun _ huser => huser) rfl (owning_of_pending?_eq_none rfl)
  | pinUpdate userId id pinned =>
    simp only [pinUpdate]
    split
    · exact disciplined_finish h hcall _
    · rename_i row hfound
      have huser : row.userId = userId := congrArg Prod.fst (findPoint_some hfound).2
      split
      · rename_i hfree
        exact disciplined_lockRows h hcall (List.forall_mem_singleton.mpr hfree)
          (List.forall_mem_singleton.mpr (Or.inl (congrArg some huser.symm)))
          (fun _ hnext => huser ▸ hnext) rfl (owning_of_pending?_eq_none rfl)
      · exact disciplined_refl h hcall
  | pinCommit row pinned =>
    refine disciplined_commit h hcall ?_ ?_ ?_
    · rw [map_repinned fun _ _ => rfl]
      exact h.keys
    · intro other hother
      refine Or.inl ?_
      have hmap : (repinned s.points row.key pinned).map RestorePointRow.key =
          s.points.map RestorePointRow.key := map_repinned fun _ _ => rfl
      rw [← hmap]
      exact List.mem_map_of_mem hother
    · intro _ userId hfree
      have hne := hcommit rfl hfree
      refine ⟨?_, rfl⟩
      rw [pointsOf_repinned]
      refine repinned_eq_self fun hmem => hne ?_
      obtain ⟨other, hother, hkey⟩ := List.mem_map.mp hmem
      rw [← of_decide_eq_true (List.mem_filter.mp hother).2]
      exact congrArg Prod.fst hkey
  | deleteRow userId id =>
    simp only [deleteRow]
    split
    · exact disciplined_finish h hcall _
    · rename_i row hfound
      have huser : row.userId = userId := congrArg Prod.fst (findPoint_some hfound).2
      split
      · rename_i hfree
        exact disciplined_lockRows h hcall (List.forall_mem_singleton.mpr hfree)
          (List.forall_mem_singleton.mpr (Or.inl (congrArg some huser.symm)))
          (fun _ hnext => huser ▸ hnext) rfl (owning_of_pending?_eq_none rfl)
      · exact disciplined_refl h hcall
  | deleteAdjust row =>
    simp only [adjustRestorePointBytes]
    split
    · rename_i hfree
      exact disciplined_lockStats h hcall (List.forall_mem_singleton.mpr hfree)
        (List.forall_mem_singleton.mpr (Or.inl rfl)) (fun _ huser => huser) rfl
        (owning_of_pending?_eq_none rfl)
    · exact disciplined_refl h hcall
  | deleteCommit row bytes =>
    refine disciplined_commit h hcall (((without_sublist _ _).map _).nodup h.keys) ?_ ?_
    · exact fun other hother => Or.inl (List.mem_map_of_mem ((without_sublist _ _).subset hother))
    · intro _ userId hfree
      have hne := hcommit rfl hfree
      rw [Function.update_of_ne hne]
      exact ⟨pointsOf_without_of_ne (List.forall_mem_singleton.mpr rfl) hne, rfl⟩
  | pruneRows cutoff =>
    simp only [pruneRows]
    split
    · rename_i hchunk
      split
      · exact disciplined_finish h hcall _
      · exact disciplined_lockRows h hcall
          (List.forall_mem_map.mpr (List.all_eq_true.mp hchunk.2)) (fun _ _ => Or.inr rfl)
          (by rintro _ ⟨⟩) rfl (owning_of_pending?_eq_none rfl)
    · exact disciplined_refl h hcall
  | pruneAdjust deleted =>
    simp only [pruneAdjust]
    split
    · rename_i hfree
      exact disciplined_lockStats h hcall (List.all_eq_true.mp hfree) (fun _ _ => Or.inr rfl)
        (by rintro _ ⟨⟩) rfl (owning_of_pending?_eq_none rfl)
    · exact disciplined_refl h hcall
  | pruneCommit deleted bytes =>
    refine disciplined_commit h hcall (((without_sublist _ _).map _).nodup h.keys) ?_ (by rintro ⟨⟩)
    exact fun other hother => Or.inl (List.mem_map_of_mem ((without_sublist _ _).subset hother))

/-! ### Events -/

/-- No prune is under way. -/
def Calm (s : PointServer) : Prop := ∀ slot call, s.calls slot = some call → call.isPrune = false

theorem guarded_release (h : Guarded s) (slot : ℕ) : Guarded (s.release slot) := by
  have hdone : Guarded (finish { s with
      points := s.points
      restorePointBytes := s.restorePointBytes } slot (.ok ())) :=
    guarded_finish h h.keys fun other call pending _ hcall hpending =>
      (h.uploads other call pending hcall hpending).fresh
  exact ⟨hdone.keys, hdone.users, hdone.rows, hdone.stats, hdone.uploads⟩

theorem guarded_enter (h : Guarded s) {first : Except PointError PointCall}
    (hfirst : ∀ call, first = .ok call → call.lockedUser? = none ∧ call.pending? = none) :
    Guarded (s.enter slot first) := by
  unfold enter
  split
  · exact h
  · rename_i hempty
    have hnone : ∀ call, s.calls slot ≠ some call := by
      intro call hcall
      simp [hcall] at hempty
    cases first with
    | error e => exact ⟨h.keys, h.users, h.rows, h.stats, h.uploads⟩
    | ok call =>
      obtain ⟨huser, hpending⟩ := hfirst call rfl
      refine guarded_goto h .refl .refl .refl (by simp [huser]) (fun key hkey => ?_)
        (fun userId hkey => ?_) (by simp [hpending])
      · exact Or.inl ((h.rows key slot hkey).resolve_right fun ⟨call, hcall, _⟩ => hnone call hcall)
      · exact Or.inl ((h.stats userId slot hkey).resolve_right fun ⟨call, hcall, _⟩ => hnone call hcall)

variable (limits requireEncryption) in
/-- **Every event** keeps the discipline of the locks. -/
theorem guarded_step (h : Guarded s) (event : PointEvent) :
    Guarded (step limits requireEncryption s event) := by
  cases event with
  | tick | settings => exact ⟨h.keys, h.users, h.rows, h.stats, h.uploads⟩
  | upload slot userId req =>
    refine guarded_enter h fun call hcall => ?_
    cases hvalid : validateUpload limits req with
    | error e => simp [hvalid, Except.map] at hcall
    | ok =>
      obtain rfl : .uploadLock userId s.clock req = call := by simpa [hvalid, Except.map] using hcall
      exact ⟨rfl, rfl⟩
  | setPinned slot userId id pinned =>
    show Guarded (s.enter slot (.ok (.pinLock userId id pinned)))
    refine guarded_enter h ?_
    rintro _ ⟨⟩
    exact ⟨rfl, rfl⟩
  | deletePoint slot userId id =>
    show Guarded (s.enter slot (.ok (.deleteLock userId id)))
    refine guarded_enter h ?_
    rintro _ ⟨⟩
    exact ⟨rfl, rfl⟩
  | prune slot since =>
    show Guarded (s.enter slot (.ok (.pruneRows _)))
    refine guarded_enter h ?_
    rintro _ ⟨⟩
    exact ⟨rfl, rfl⟩
  | advance slot chunk =>
    cases hcall : s.calls slot with
    | none =>
      rw [step, advance, hcall]
      exact h
    | some call => exact (disciplined_advance limits requireEncryption h hcall chunk).guarded
  | drop slot => exact guarded_release h slot

/-- What is not the call of a prune starts none. -/
def PruneFree : PointEvent → Prop
  | .prune _ _ => False
  | _ => True

theorem calm_enter (hcalm : Calm s) {first : Except PointError PointCall}
    (hfirst : ∀ call, first = .ok call → call.isPrune = false) : Calm (s.enter slot first) := by
  unfold enter
  split
  · exact hcalm
  · cases first with
    | error e => exact hcalm
    | ok call =>
      intro other call' hcall'
      by_cases hother : other = slot
      · subst hother
        obtain rfl : call = call' := by simpa [goto] using hcall'
        exact hfirst call rfl
      · exact hcalm other call' (by simpa [goto, hother] using hcall')

variable (limits requireEncryption) in
theorem calm_step (h : Guarded s) (hcalm : Calm s) {event : PointEvent} (hevent : PruneFree event) :
    Calm (step limits requireEncryption s event) := by
  cases event with
  | tick | settings => exact hcalm
  | upload slot userId req =>
    refine calm_enter hcalm fun call hcall => ?_
    cases hvalid : validateUpload limits req with
    | error e => simp [hvalid, Except.map] at hcall
    | ok =>
      obtain rfl : .uploadLock userId s.clock req = call := by simpa [hvalid, Except.map] using hcall
      rfl
  | setPinned | deletePoint =>
    refine calm_enter hcalm ?_
    rintro _ ⟨⟩
    rfl
  | prune => exact absurd hevent id
  | advance slot chunk =>
    cases hcall : s.calls slot with
    | none =>
      rw [step, advance, hcall]
      exact hcalm
    | some call =>
      have hstep := disciplined_advance limits requireEncryption h hcall chunk
      intro other call' hcall'
      by_cases hother : other = slot
      · subst hother
        exact hstep.prune (hcalm other call hcall) call' hcall'
      · exact hcalm other call' (hstep.calls other hother ▸ hcall')
  | drop slot =>
    intro other call' hcall'
    by_cases hother : other = slot
    · simp [step, release, hother] at hcall'
    · exact hcalm other call' (by simpa [step, release, hother] using hcall')

/-- An event that is not a statement of the handler of a slot, and does not cut it off. -/
def Beside (slot : ℕ) : PointEvent → Prop
  | .advance other _ | .drop other => other ≠ slot
  | _ => True

variable (limits requireEncryption) in
/-- **Beside an upload** nothing touches the points or the count of its user. -/
theorem beside_step (h : Guarded s) (hcalm : Calm s) (hcall : s.calls slot = some call)
    (huser : call.lockedUser? = some userId) {event : PointEvent} (hevent : Beside slot event) :
    let s' := step limits requireEncryption s event
    s'.calls slot = some call ∧ pointsOf s'.points userId = pointsOf s.points userId ∧
      s'.restorePointBytes userId = s.restorePointBytes userId := by
  have henter : ∀ (other : ℕ) (first : Except PointError PointCall),
      (s.enter other first).calls slot = some call ∧
        (s.enter other first).points = s.points ∧
          (s.enter other first).restorePointBytes = s.restorePointBytes := by
    intro other first
    unfold enter
    split
    · exact ⟨hcall, rfl, rfl⟩
    · rename_i hempty
      have hne : slot ≠ other := by
        rintro rfl
        simp [hcall] at hempty
      cases first with
      | error e => exact ⟨hcall, rfl, rfl⟩
      | ok first => exact ⟨(Function.update_of_ne hne _ _).trans hcall, rfl, rfl⟩
  cases event with
  | tick | settings => exact ⟨hcall, rfl, rfl⟩
  | upload other | setPinned other | deletePoint other | prune other =>
    obtain ⟨hcall', hpoints, hbytes⟩ := henter other _
    exact ⟨hcall', congrArg (pointsOf · userId) hpoints, congrFun hbytes userId⟩
  | advance other chunk =>
    cases hcall' : s.calls other with
    | none =>
      rw [step, advance, hcall']
      exact ⟨hcall, rfl, rfl⟩
    | some call' =>
      have hstep := disciplined_advance limits requireEncryption h hcall' chunk
      have hfree : s.userLocks userId ≠ some other := by
        rw [h.users slot call userId hcall huser]
        simpa using Ne.symm hevent
      exact ⟨(hstep.calls slot (Ne.symm hevent)).trans hcall,
        hstep.frame (hcalm other call' hcall') userId hfree⟩
  | drop other => exact ⟨(Function.update_of_ne (Ne.symm hevent) _ _).trans hcall, rfl, rfl⟩

end PointServer

end HelixSync
