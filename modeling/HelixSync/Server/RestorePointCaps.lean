import HelixSync.Server.RestorePointLocks

/-!
# The accounting of restore points

Every byte count is the sum of the sizes of the points it counts, whatever runs at the same time,
the caps hold, and a prune deletes what it may
(`HelixSync.PointServer.restorePoints_accounted`). Each statement establishes what the next one of
its handler relies on (`HelixSync.PointServer.sound_advance`).
-/

namespace HelixSync

namespace PointServer

variable {limits : RestorePointLimits} {requireEncryption : Bool} {s s' : PointServer} {slot : ℕ}

/-! ### Statements of a slot -/

/-- What a statement of a slot keeps: the accounting, what its handler knows, and what the others
rely on. -/
structure Sound (limits : RestorePointLimits) (slot : ℕ) (s s' : PointServer) : Prop where
  accounted : Accounted limits s'
  own : Own limits slot s'
  rely : ∀ other, other ≠ slot → Rely other s s'

section Statements

variable (h : Accounted limits s)

include h

theorem Quiet.sound (hquiet : Quiet slot s s') (hown : Own limits slot s') : Sound limits slot s s' :=
  ⟨hquiet.accounted h, hown, fun _ => hquiet.rely⟩

theorem sound_refl (hown : Own limits slot s) : Sound limits slot s s :=
  quiet_refl.sound h hown

theorem sound_finish (answer : Except PointError Unit) : Sound limits slot s (s.finish slot answer) :=
  (quiet_finish answer).sound h (own_finish answer)

theorem sound_goto {call : PointCall} (hok : CallOk limits s slot call) :
    Sound limits slot s (s.goto slot call) :=
  (quiet_goto call).sound h (own_goto (hok.keeps (keeps_goto call)))

omit h in
theorem Committable.sound {points : List RestorePointRow} {bytes : Uuid → Option ℤ}
    (hcommit : Committable limits s slot points bytes) :
    Sound limits slot s ((({ s with points := points, restorePointBytes := bytes } :
      PointServer)).finish slot (.ok ())) :=
  ⟨hcommit.finish, own_finish _, fun _ => hcommit.rely⟩

/-- Rows are locked. -/
theorem sound_lockRows {keys : List PointKey}
    (hfree : ∀ key ∈ keys, s.rowLocks.free slot key = true) {call : PointCall}
    (hok : ∀ s' : PointServer, Keeps slot s s' → s'.points = s.points →
      (∀ key ∈ keys, s'.rowLocks key = some slot) → CallOk limits s' slot call) :
    Sound limits slot s (goto { s with rowLocks := s.rowLocks.acquireAll slot keys } slot call) :=
  (quiet_lockRows hfree call).sound h
    (own_goto (hok _ (keeps_lockRows keys call) rfl fun _ hmem => Locks.acquireAll_of_mem hmem))

variable (hown : Own limits slot s)

include hown

theorem sound_lockUserStats {userId : Uuid} {call : PointCall}
    (hok : ∀ s' : PointServer, s'.userLocks userId = some slot → CallOk limits s' slot call) :
    Sound limits slot s (s.lockUserStats slot userId call) := by
  unfold lockUserStats
  split
  · rename_i hfree
    exact (quiet_lockUser hfree call).sound h (own_goto (hok _ Locks.acquire_self))
  · exact sound_refl h hown

theorem sound_adjustRestorePointBytes {userId : Uuid} {delta : ℤ} {call : ℤ → PointCall}
    (hok : ∀ s' : PointServer, Keeps slot s s' → s'.points = s.points →
      s'.statsLocks userId = some slot → CallOk limits s' slot (call (s.adjusted userId delta))) :
    Sound limits slot s (s.adjustRestorePointBytes slot userId delta call) := by
  unfold adjustRestorePointBytes
  split
  · rename_i hfree
    exact (quiet_lockStats (List.forall_mem_singleton.mpr hfree) _).sound h
      (own_goto (hok _ (keeps_lockStats _ _) rfl Locks.acquire_self))
  · exact sound_refl h hown

omit hown in
/-- The `GREATEST` does not act: no more is given back than there is. -/
theorem adjusted_eq {userId : Uuid} {delta : ℤ}
    (hdelta : 0 ≤ (sumBytes (pointsOf s.points userId) : ℤ) + delta) :
    s.adjusted userId delta = sumBytes (pointsOf s.points userId) + delta := by
  rw [adjusted, h.bytes]
  exact max_eq_left hdelta

end Statements

/-! ### The statements of an upload -/

theorem findPoint_some {points : List RestorePointRow} {key : PointKey} {row : RestorePointRow}
    (h : findPoint points key = some row) : row ∈ points ∧ row.key = key :=
  ⟨List.mem_of_find?_eq_some h, by simpa using List.find?_some h⟩

theorem findPoint_none {points : List RestorePointRow} {key : PointKey}
    (h : findPoint points key = none) : key ∉ points.map RestorePointRow.key := by
  intro hmem
  obtain ⟨row, hrow, hkey⟩ := List.mem_map.mp hmem
  simpa [hkey] using List.find?_eq_none.mp h row hrow

theorem victim?_some {view : List RestorePointRow} {newId : Uuid} {row : RestorePointRow}
    (h : victim? view newId = some row) : row ∈ view ∧ row.id ≠ newId := by
  obtain ⟨hrow, hkept⟩ := List.mem_filter.mp (List.mem_of_find?_eq_some h)
  exact ⟨hrow, (of_decide_eq_true hkept).2⟩

section Upload

variable (h : Accounted limits s) {userId : Uuid} {now : DateTime} {req : UploadPointRequest}
  {pending : PendingUpload}

include h

theorem sound_uploadLookup (hlock : s.userLocks userId = some slot) :
    Sound limits slot s (s.uploadLookup slot userId now req) := by
  unfold uploadLookup
  split
  · exact sound_finish h _
  · exact sound_goto h hlock

theorem sound_uploadSettings (hlock : s.userLocks userId = some slot) :
    Sound limits slot s (s.uploadSettings requireEncryption slot userId now req) := by
  unfold uploadSettings
  split
  · exact sound_finish h _
  · split_ifs
    · exact sound_finish h _
    · exact sound_finish h _
    · exact sound_goto h hlock
    · exact sound_goto h hlock

theorem sound_uploadRecent (hlock : s.userLocks userId = some slot) :
    Sound limits slot s (s.uploadRecent limits slot userId now req) := by
  unfold uploadRecent
  split
  · exact sound_finish h _
  · exact sound_goto h hlock

theorem sound_uploadInsert (hlock : s.userLocks userId = some slot) :
    Sound limits slot s (s.uploadInsert slot userId now req) := by
  unfold uploadInsert
  split
  · exact sound_finish h _
  · rename_i hfresh
    refine sound_goto h ?_
    show s.Uploading slot _
    exact
      { lock := hlock
        fresh := findPoint_none hfresh
        unpinned := rfl
        evicted := ⟨List.nodup_nil, fun _ hrow => absurd hrow List.not_mem_nil,
          fun _ hrow => absurd hrow List.not_mem_nil⟩
        owner := fun _ hrow => absurd hrow List.not_mem_nil
        delta := (sub_zero _).symm }

theorem sound_uploadUsage (hup : s.Uploading slot pending) :
    Sound limits slot s (s.uploadUsage limits slot pending) := by
  unfold uploadUsage
  split
  · rename_i hfits
    exact sound_goto h ⟨hup, hfits⟩
  · exact sound_goto h hup

omit h in
/-- **One eviction**: the victim is a point of the user that is still in the table, and the change
of the count goes with it. -/
theorem Uploading.evict (hup : s.Uploading slot pending) {row : RestorePointRow}
    (hvictim : victim? (s.uploadView pending) pending.row.id = some row)
    (hlocked : s.rowLocks row.key = some slot) :
    s.Uploading slot { pending with
      evicted := pending.evicted ++ [row]
      delta := pending.delta - row.sizeBytes
      retried := false } := by
  obtain ⟨hview, hid⟩ := victim?_some hvictim
  have hold : row ∈ pointsOf (without s.points pending.evicted) pending.row.userId := by
    refine (List.mem_append.mp hview).resolve_right fun hnew => hid ?_
    rw [List.mem_singleton.mp hnew]
  obtain ⟨hkept, huser⟩ := List.mem_filter.mp hold
  obtain ⟨hrow, hnotEvicted⟩ := List.mem_filter.mp hkept
  have hnotMem : row ∉ pending.evicted :=
    fun hmem => of_decide_eq_true hnotEvicted (List.mem_map_of_mem hmem)
  have hall : ∀ {p : RestorePointRow → Prop}, (∀ other ∈ pending.evicted, p other) → p row →
      ∀ other ∈ pending.evicted ++ [row], p other := by
    rintro p hp hrow other hother
    rcases List.mem_append.mp hother with hother | hother
    · exact hp other hother
    · rwa [List.mem_singleton.mp hother]
  exact
    { lock := hup.lock
      fresh := hup.fresh
      unpinned := hup.unpinned
      evicted :=
        { nodup := List.nodup_append.mpr ⟨hup.evicted.nodup, List.nodup_singleton _, by
            rintro other hother _ hmem rfl
            exact hnotMem (List.mem_singleton.mp hmem ▸ hother)⟩
          mem := hall hup.evicted.mem hrow
          locked := hall hup.evicted.locked hlocked }
      owner := hall hup.owner (of_decide_eq_true huser)
      delta := by
        show pending.delta - row.sizeBytes =
          pending.row.sizeBytes - ((sumBytes (pending.evicted ++ [row]) : ℕ) : ℤ)
        have hdelta := hup.delta
        rw [sumBytes_append]
        simp only [sumBytes, List.map_cons, List.map_nil, List.sum_cons, List.sum_nil] at hdelta ⊢
        omega }

theorem sound_uploadEvict (hup : s.Uploading slot pending) :
    Sound limits slot s (s.uploadEvict slot pending) := by
  unfold uploadEvict
  split
  · rename_i row hvictim
    obtain ⟨hvictim, hfree⟩ := Option.filter_eq_some_iff.mp hvictim
    refine sound_lockRows h (List.forall_mem_singleton.mpr hfree) fun s' hkeeps hpoints hlocked => ?_
    refine (hup.keeps hkeeps).evict ?_ (hlocked _ (List.mem_singleton_self _))
    rwa [PointServer.uploadView, hpoints]
  · split
    · exact sound_finish h _
    · refine sound_goto h ?_
      exact ⟨hup.lock, hup.fresh, hup.unpinned, hup.evicted, hup.owner, hup.delta⟩

end Upload

/-! ### The statements of the other handlers -/

/-- A table of pairs is looked up where it has a pair. -/
theorem lookup_map_pair {f : Uuid → ℤ} {users : List Uuid} {userId : Uuid} :
    (users.map fun userId => (userId, f userId)).lookup userId =
      if userId ∈ users then some (f userId) else none := by
  induction users with
  | nil => rfl
  | cons user users ih =>
    by_cases huser : userId = user
    · subst huser
      rw [List.map_cons, List.lookup_cons_self, if_pos List.mem_cons_self]
    · have hbeq : (userId == user) = false := beq_eq_false_iff_ne.mpr huser
      rw [List.map_cons, List.lookup_cons, hbeq]
      simp only [ih, List.mem_cons, huser, false_or]

section Others

variable (h : Accounted limits s) {userId id : Uuid} {pinned : Bool}

include h

theorem sound_pinLookup (hlock : s.userLocks userId = some slot) :
    Sound limits slot s (s.pinLookup slot userId id pinned) := by
  unfold pinLookup
  split
  · exact sound_finish h _
  · split_ifs
    · exact sound_finish h _
    · exact sound_goto h hlock
    · exact sound_goto h ⟨hlock, nofun⟩

theorem sound_pinCount (hlock : s.userLocks userId = some slot) :
    Sound limits slot s (s.pinCount limits slot userId id) := by
  unfold pinCount
  split
  · exact sound_finish h _
  · rename_i hlt
    exact sound_goto h ⟨hlock, fun _ => not_le.mp hlt⟩

theorem sound_pinUpdate (hown : Own limits slot s)
    (hok : CallOk limits s slot (.pinUpdate userId id pinned)) :
    Sound limits slot s (s.pinUpdate slot userId id pinned) := by
  unfold pinUpdate
  split
  · exact sound_finish h _
  · rename_i row hfound
    have huser : row.userId = userId := congrArg Prod.fst (findPoint_some hfound).2
    split
    · rename_i hfree
      refine sound_lockRows h (List.forall_mem_singleton.mpr hfree) fun s' hkeeps _ hlocked => ?_
      obtain ⟨hlock, hcap⟩ := CallOk.keeps hkeeps hok
      subst huser
      exact ⟨hlock, hlocked _ (List.mem_singleton_self _), hcap⟩
    · exact sound_refl h hown

theorem sound_deleteRow (hown : Own limits slot s) :
    Sound limits slot s (s.deleteRow slot userId id) := by
  unfold deleteRow
  split
  · exact sound_finish h _
  · rename_i row hfound
    split
    · rename_i hfree
      refine sound_lockRows h (List.forall_mem_singleton.mpr hfree) fun s' _ hpoints hlocked => ?_
      have hrow : row ∈ s'.points := hpoints ▸ (findPoint_some hfound).1
      exact ⟨List.nodup_singleton _, List.forall_mem_singleton.mpr hrow,
        List.forall_mem_singleton.mpr (hlocked _ (List.mem_singleton_self _))⟩
    · exact sound_refl h hown

theorem sound_pruneRows (hown : Own limits slot s) {cutoff : DateTime} {chunk : List RestorePointRow} :
    Sound limits slot s (s.pruneRows slot cutoff chunk) := by
  unfold pruneRows
  split
  · rename_i hchunk
    obtain ⟨⟨hnodup, hprunable, -⟩, hfree⟩ := hchunk
    split
    · exact sound_finish h _
    · refine sound_lockRows h ?_ fun s' _ hpoints hlocked => ⟨⟨hnodup, ?_, ?_⟩, ?_⟩
      · exact List.forall_mem_map.mpr (List.all_eq_true.mp hfree)
      · exact fun row hrow => hpoints ▸ (hprunable row hrow).1
      · exact fun row hrow => hlocked _ (List.mem_map_of_mem hrow)
      · exact fun row hrow => (hprunable row hrow).2.1
  · exact sound_refl h hown

/-- The counts a prune writes are those its commit makes true. -/
theorem sound_pruneAdjust (hown : Own limits slot s) {deleted : List RestorePointRow}
    (hok : CallOk limits s slot (.pruneAdjust deleted)) :
    Sound limits slot s (s.pruneAdjust slot deleted) := by
  unfold pruneAdjust
  split
  · rename_i hfree
    refine (quiet_lockStats (List.all_eq_true.mp hfree) _).sound h (own_goto ?_)
    have hrows : ∀ userId ∈ usersOf deleted, (s.restorePointBytes userId).isSome = true := by
      rintro userId hmem
      obtain ⟨row, hrow, rfl⟩ := List.mem_map.mp (List.mem_dedup.mp hmem)
      exact h.rows row (hok.1.mem row hrow)
    rw [List.filter_eq_self.mpr hrows]
    refine ⟨⟨hok.1.keeps (keeps_lockStats _ _), hok.2⟩, ?_, ?_⟩
    · rintro userId hmem
      refine ⟨Locks.acquireAll_of_mem hmem, ?_⟩
      have hle := hok.1.sumBytes_le h userId
      rw [lookup_map_pair, if_pos hmem, adjusted_eq h (by omega), sub_eq_add_neg]
      rfl
    · rintro userId hmem
      rw [lookup_map_pair, if_neg hmem]
  · exact sound_refl h hown

theorem sound_uploadAdjust (hown : Own limits slot s) {pending : PendingUpload}
    (hok : CallOk limits s slot (.uploadAdjust pending)) :
    Sound limits slot s (s.adjustRestorePointBytes slot pending.row.userId pending.delta
      (.uploadCommit pending)) := by
  obtain ⟨hup, hfits⟩ := hok
  refine sound_adjustRestorePointBytes h hown fun s' hkeeps hpoints hstats => ?_
  refine ⟨⟨hup.keeps hkeeps, hfits.sublist (hkeeps.uploadView hup.lock)⟩, hstats, ?_⟩
  have hle := hup.evicted.sumBytes_le h pending.row.userId
  have hdelta := hup.delta
  rw [pointsOf_eq_self hup.owner] at hle
  rw [adjusted_eq h (by omega), hpoints]

theorem sound_deleteAdjust (hown : Own limits slot s) {row : RestorePointRow}
    (hok : s.Deleting slot [row]) :
    Sound limits slot s (s.adjustRestorePointBytes slot row.userId (-row.sizeBytes)
      (.deleteCommit row)) := by
  refine sound_adjustRestorePointBytes h hown fun s' hkeeps hpoints hstats => ?_
  refine ⟨hok.keeps hkeeps, hstats, ?_⟩
  have hle := hok.sumBytes_le h row.userId
  have hself : pointsOf [row] row.userId = [row] := pointsOf_eq_self (by simp)
  have hsize : sumBytes [row] = row.sizeBytes := by simp [sumBytes]
  rw [hself, hsize] at hle
  rw [adjusted_eq h (by omega), hpoints, sub_eq_add_neg]

end Others

/-! ### Steps and runs -/

/-- **One statement** keeps the accounting, what its handler knows, and what the others rely on. -/
theorem sound_advance (h : Accounted limits s) (hown : Own limits slot s)
    (chunk : List RestorePointRow) :
    Sound limits slot s (s.advance limits requireEncryption slot chunk) := by
  unfold advance
  split
  · exact sound_refl h hown
  · rename_i call hcall
    have hok := hown call hcall
    cases call with
    | uploadLock => exact sound_lockUserStats h hown fun _ hlock => hlock
    | uploadLookup => exact sound_uploadLookup h hok
    | uploadSettings => exact sound_uploadSettings h hok
    | uploadRecent => exact sound_uploadRecent h hok
    | uploadInsert => exact sound_uploadInsert h hok
    | uploadUsage => exact sound_uploadUsage h hok
    | uploadEvict => exact sound_uploadEvict h hok
    | uploadAdjust => exact sound_uploadAdjust h hown hok
    | uploadCommit => exact (committable_upload h hok).sound
    | pinLock => exact sound_lockUserStats h hown fun _ hlock => hlock
    | pinLookup => exact sound_pinLookup h hok
    | pinCount => exact sound_pinCount h hok
    | pinUpdate => exact sound_pinUpdate h hown hok
    | pinCommit => exact (committable_pin h hok).sound
    | deleteLock => exact sound_lockUserStats h hown fun _ hlock => hlock
    | deleteRow => exact sound_deleteRow h hown
    | deleteAdjust => exact sound_deleteAdjust h hown hok
    | deleteCommit => exact (committable_delete h hok).sound
    | pruneRows => exact sound_pruneRows h hown
    | pruneAdjust => exact sound_pruneAdjust h hown hok
    | pruneCommit => exact (committable_prune h hok).sound

theorem sound_enter (h : Accounted limits s) (hown : Own limits slot s)
    {first : Except PointError PointCall}
    (hok : ∀ call, first = .ok call → CallOk limits s slot call) :
    Sound limits slot s (s.enter slot first) := by
  unfold enter
  split
  · exact sound_refl h hown
  · rename_i hfree
    split
    · refine Quiet.sound h ⟨rfl, rfl, fun _ _ => rfl, fun _ _ _ h => h, fun _ _ _ h => h,
        fun _ _ _ h => h⟩ fun call hcall => ?_
      exact absurd (Option.isSome_of_mem hcall) hfree
    · exact sound_goto h (hok _ rfl)

theorem sound_call (h : Accounted limits s) (hown : Own limits slot s) {call : PointCall}
    (hok : CallOk limits s slot call) : Sound limits slot s (s.enter slot (.ok call)) := by
  refine sound_enter h hown ?_
  rintro _ ⟨⟩
  exact hok

theorem sound_step (h : Accounted limits s) {event : PointEvent} (hslot : event.slot? = some slot)
    (hown : Own limits slot s) : Sound limits slot s (step limits requireEncryption s event) := by
  cases event with
  | tick | settings => cases hslot
  | upload user userId req =>
    obtain rfl : user = slot := Option.some_injective _ hslot
    refine sound_enter h hown fun call hcall => ?_
    cases hvalid : validateUpload limits req with
    | error e => simp [hvalid, Except.map] at hcall
    | ok =>
      obtain rfl : .uploadLock userId s.clock req = call := by simpa [hvalid, Except.map] using hcall
      trivial
  | setPinned user userId id pinned =>
    obtain rfl : user = slot := Option.some_injective _ hslot
    exact sound_call h hown trivial
  | deletePoint user userId id =>
    obtain rfl : user = slot := Option.some_injective _ hslot
    exact sound_call h hown trivial
  | prune user since =>
    obtain rfl : user = slot := Option.some_injective _ hslot
    exact sound_call h hown trivial
  | advance user chunk =>
    obtain rfl : user = slot := Option.some_injective _ hslot
    exact sound_advance h hown chunk
  | drop user =>
    obtain rfl : user = slot := Option.some_injective _ hslot
    exact quiet_release.sound h fun call hcall => by simp [step, release] at hcall

theorem quiet_step {event : PointEvent} (hslot : event.slot? = none) (slot : ℕ) :
    Quiet slot s (step limits requireEncryption s event) := by
  cases event with
  | tick | settings =>
    exact ⟨rfl, rfl, fun _ _ => rfl, fun _ _ _ h => h, fun _ _ _ h => h, fun _ _ _ h => h⟩
  | upload | setPinned | deletePoint | prune | advance | drop => cases hslot

theorem accounted_start (settings : Uuid → Option PointSettings) (clock : DateTime) :
    Accounted limits (start settings clock) where
  keys := List.nodup_nil
  bytes _ := rfl
  rows _ hrow := absurd hrow List.not_mem_nil
  fits _ := ⟨limits.maxPerAccount_pos.le, limits.maxAccountBytes_pos.le⟩
  pinned _ := limits.maxPinned_pos.le

/-- **Every run** keeps the accounting and what the handlers know. -/
theorem accounted_run (settings : Uuid → Option PointSettings) (clock : DateTime)
    (events : List PointEvent) :
    Accounted limits (run limits requireEncryption (start settings clock) events) ∧
      ∀ slot, Own limits slot (run limits requireEncryption (start settings clock) events) := by
  refine Runs.invariant_of_rely PointEvent.slot? Rely ?_ ?_ ?_
    (fun _ _ _ hown hrely => hown.rely hrely) (accounted_start settings clock)
    (fun _ _ hcall => nomatch hcall) events
  · rintro s event h hown
    cases hslot : event.slot? with
    | none => exact (quiet_step hslot 0).accounted h
    | some slot => exact (sound_step h hslot (hown slot)).accounted
  · exact fun s event slot h hown hslot => (sound_step h hslot (hown slot)).own
  · rintro s event other h hown hother
    cases hslot : event.slot? with
    | none => exact (quiet_step hslot (other + 1)).rely (by omega)
    | some slot => exact (sound_step h hslot (hown slot)).rely other fun heq => hother (heq ▸ hslot)

/-- **What the `DELETE` of a chunk deletes** is what it selects. -/
theorem prunable_of_pruneRows {cutoff : DateTime} {chunk deleted : List RestorePointRow}
    (hcall : s.calls slot = some (.pruneRows cutoff))
    (hnext : (s.advance limits requireEncryption slot chunk).calls slot = some (.pruneAdjust deleted)) :
    ∀ row ∈ deleted, row ∈ s.points ∧ Prunable s.points cutoff row := by
  simp only [advance, hcall, pruneRows] at hnext
  split_ifs at hnext with hchunk hempty
  · simp [finish, release] at hnext
  · obtain rfl : chunk = deleted := by simpa [goto] using hnext
    exact hchunk.1.2.1
  · simp [hcall] at hnext

/-- **The accounting of restore points**: after every run of uploads, deletes, pin changes and
prunes, however their statements interleave, the byte count of every user is the sum of the sizes of
its points; it has no more points and no more bytes than an account may have, and no more are
pinned; and a prune deletes only points that are not pinned while their user has a newer one. -/
theorem restorePoints_accounted (limits : RestorePointLimits) (requireEncryption : Bool)
    (settings : Uuid → Option PointSettings) (clock : DateTime) (events : List PointEvent) :
    let s := run limits requireEncryption (start settings clock) events
    (∀ userId, (s.restorePointBytes userId).getD 0 = sumBytes (pointsOf s.points userId)) ∧
      (∀ userId, ((pointsOf s.points userId).length : ℤ) ≤ limits.maxPerAccount ∧
        (sumBytes (pointsOf s.points userId) : ℤ) ≤ limits.maxAccountBytes) ∧
      (∀ userId, (pinnedCount (pointsOf s.points userId) : ℤ) ≤ limits.maxPinned) ∧
      (∀ slot cutoff chunk deleted, s.calls slot = some (.pruneRows cutoff) →
        (s.advance limits requireEncryption slot chunk).calls slot = some (.pruneAdjust deleted) →
          ∀ row ∈ deleted, row ∈ s.points ∧ row.pinned = false ∧
            ∃ newer ∈ s.points, newer.userId = row.userId ∧ NewerThan newer row) ∧
      ∀ slot deleted bytes, s.calls slot = some (.pruneCommit deleted bytes) →
        ∀ row ∈ deleted, row ∈ s.points ∧ row.pinned = false := by
  intro s
  obtain ⟨h, hown⟩ := @accounted_run limits requireEncryption settings clock events
  refine ⟨h.bytes, h.fits, h.pinned, ?_, ?_⟩
  · rintro slot cutoff chunk deleted hcall hnext row hrow
    obtain ⟨hmem, hunpinned, -, hnewer⟩ := prunable_of_pruneRows hcall hnext row hrow
    exact ⟨hmem, hunpinned, hnewer⟩
  · rintro slot deleted bytes hcall row hrow
    obtain ⟨⟨hdeleting, hunpinned⟩, -⟩ := hown slot _ hcall
    exact ⟨hdeleting.mem row hrow, hunpinned row hrow⟩

end PointServer

end HelixSync
