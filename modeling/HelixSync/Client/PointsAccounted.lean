import HelixSync.Client.RestorePointOutbox
import HelixSync.Server.RestorePointEviction

/-!
# No restore point is lost

Every point that was ever queued is still waiting, or it has left the outbox once and for a reason
(`HelixSync.Client.VerdictOk`): the server has had it, or would never take it, or it has waited for a
week, or for twenty attempts (`HelixSync.Client.OutboxSystem.points_accounted`).

Nor does a point wait forever while drains come through. A drain that finds points gets an outcome for
the oldest one at least, and unless that is to sign in again it takes a point out of the outbox or uses
up one of its attempts. So there are at most twenty such drains for each point that was ever queued
(`HelixSync.Client.OutboxSystem.drains_bounded`).
-/

namespace HelixSync

namespace Client

/-! ### Records -/

/-- The ids of the points that wait. -/
def waitingIds (outbox : List OutboxRecord) : List Uuid := outbox.map fun record => record.id

/-- How many attempts the points that wait have left. -/
def attemptsLeft (outbox : List OutboxRecord) : ℕ :=
  (outbox.map fun record => maxAttempts - record.attempts).sum

section Records

variable {outbox : List OutboxRecord} {record : OutboxRecord}

/-- A record that waits is the only one with its id. -/
theorem exists_split (hnodup : (waitingIds outbox).Nodup) (h : record ∈ outbox) :
    ∃ before after, outbox = before ++ record :: after ∧
      (∀ other ∈ before, other.id ≠ record.id) ∧ ∀ other ∈ after, other.id ≠ record.id := by
  obtain ⟨before, after, rfl⟩ := List.append_of_mem h
  simp only [waitingIds, List.map_append, List.map_cons, List.nodup_append, List.nodup_cons,
    List.mem_map, List.mem_cons, not_exists, not_and] at hnodup
  obtain ⟨-, ⟨hafter, -⟩, hdisjoint⟩ := hnodup
  refine ⟨before, after, rfl, fun other hother heq => ?_, fun other hother heq => ?_⟩
  · exact hdisjoint _ ⟨other, hother, rfl⟩ _ (Or.inl rfl) heq
  · exact hafter other hother heq

theorem deleteOutbox_split {before after : List OutboxRecord}
    (hbefore : ∀ other ∈ before, other.id ≠ record.id)
    (hafter : ∀ other ∈ after, other.id ≠ record.id) :
    deleteOutbox (before ++ record :: after) record.id = before ++ after := by
  rw [deleteOutbox, List.filter_append, List.filter_cons_of_neg (by simp)]
  congr 1
  · exact List.filter_eq_self.mpr fun other hother => by simpa using hbefore other hother
  · exact List.filter_eq_self.mpr fun other hother => by simpa using hafter other hother

theorem map_put_eq_self {others : List OutboxRecord} {new : OutboxRecord}
    (h : ∀ other ∈ others, other.id ≠ new.id) :
    (others.map fun old => if old.id = new.id then new else old) = others :=
  (List.map_congr_left fun other hother => if_neg (h other hother)).trans (List.map_id' others)

theorem putOutbox_split {before after : List OutboxRecord} {new : OutboxRecord}
    (hbefore : ∀ other ∈ before, other.id ≠ record.id)
    (hafter : ∀ other ∈ after, other.id ≠ record.id) (hid : new.id = record.id) :
    putOutbox (before ++ record :: after) new = before ++ new :: after := by
  rw [putOutbox, if_pos (by simp [hid]), List.map_append, List.map_cons, if_pos hid.symm,
    map_put_eq_self fun other hother => hid ▸ hbefore other hother,
    map_put_eq_self fun other hother => hid ▸ hafter other hother]

theorem waitingIds_split {before after : List OutboxRecord} :
    waitingIds (before ++ record :: after) =
      waitingIds before ++ record.id :: waitingIds after := by
  simp [waitingIds]

theorem attemptsLeft_split {before after : List OutboxRecord} :
    attemptsLeft (before ++ record :: after) =
      attemptsLeft before + (maxAttempts - record.attempts + attemptsLeft after) := by
  simp [attemptsLeft]

/-- A point that is deleted takes the attempts it has left with it. -/
theorem attemptsLeft_delete (hnodup : (waitingIds outbox).Nodup) (h : record ∈ outbox) :
    attemptsLeft (deleteOutbox outbox record.id) + (maxAttempts - record.attempts) =
      attemptsLeft outbox := by
  obtain ⟨before, after, rfl, hbefore, hafter⟩ := exists_split hnodup h
  rw [deleteOutbox_split hbefore hafter, attemptsLeft_split]
  simp only [attemptsLeft, List.map_append, List.sum_append]
  omega

/-- A point that is put back with another attempt has one attempt less. -/
theorem attemptsLeft_put (hnodup : (waitingIds outbox).Nodup) (h : record ∈ outbox)
    {new : OutboxRecord} (hid : new.id = record.id) (hnew : new.attempts = record.attempts + 1)
    (hlt : new.attempts ≤ maxAttempts) :
    attemptsLeft (putOutbox outbox new) + 1 = attemptsLeft outbox := by
  obtain ⟨before, after, rfl, hbefore, hafter⟩ := exists_split hnodup h
  rw [putOutbox_split hbefore hafter hid, attemptsLeft_split, attemptsLeft_split]
  omega

theorem waitingIds_put (hnodup : (waitingIds outbox).Nodup) (h : record ∈ outbox)
    {new : OutboxRecord} (hid : new.id = record.id) :
    waitingIds (putOutbox outbox new) = waitingIds outbox := by
  obtain ⟨before, after, rfl, hbefore, hafter⟩ := exists_split hnodup h
  rw [putOutbox_split hbefore hafter hid, waitingIds_split, waitingIds_split, hid]

theorem mem_putOutbox (hnodup : (waitingIds outbox).Nodup) (h : record ∈ outbox)
    {new other : OutboxRecord} (hid : new.id = record.id) (hother : other ∈ putOutbox outbox new) :
    other = new ∨ other ∈ outbox := by
  obtain ⟨before, after, rfl, hbefore, hafter⟩ := exists_split hnodup h
  rw [putOutbox_split hbefore hafter hid] at hother
  simp only [List.mem_append, List.mem_cons] at hother ⊢
  tauto

theorem mem_deleteOutbox {other : OutboxRecord} {id : Uuid} :
    other ∈ deleteOutbox outbox id ↔ other ∈ outbox ∧ other.id ≠ id := by
  simp [deleteOutbox]

theorem mem_waitingIds {id : Uuid} : id ∈ waitingIds outbox ↔ ∃ r ∈ outbox, r.id = id :=
  List.mem_map

theorem waitingIds_delete (id : Uuid) :
    waitingIds (deleteOutbox outbox id) = (waitingIds outbox).filter (· ≠ id) := by
  simp [waitingIds, deleteOutbox, List.filter_map, Function.comp_def]

theorem mem_waitingIds_delete {id other : Uuid} :
    other ∈ waitingIds (deleteOutbox outbox id) ↔ other ∈ waitingIds outbox ∧ other ≠ id := by
  simp [waitingIds_delete]

theorem oldestFirst_perm (outbox : List OutboxRecord) : (oldestFirst outbox).Perm outbox :=
  List.mergeSort_perm _ _

end Records

/-! ### Why a point may leave -/

/-- How many uploads of a point have failed. -/
def failuresOf (failures : List (Uuid × UploadFailure)) (id : Uuid) : ℕ :=
  failures.countP fun failure => failure.1 = id

/-- **A good reason** for a point to leave the outbox. -/
def VerdictOk (userId : Uuid) (stored : List PointKey) (failures : List (Uuid × UploadFailure))
    (v : Verdict) : Prop :=
  match v.outcome with
  | .uploaded => (userId, v.record.id) ∈ stored
  | .discarded code =>
    code = some "expired" ∧ maxAgeMs < v.time - v.record.createdAt ∨
      (∃ failure, (v.record.id, failure) ∈ failures ∧ isPermanent failure = true ∧
        code = failure.code?) ∨
      code = some "too_many_attempts" ∧ maxAttempts ≤ failuresOf failures v.record.id
  | .retryLater _ => False

/-- What the server has had and what has failed it has had and has failed. -/
theorem VerdictOk.mono {userId : Uuid} {stored stored' : List PointKey}
    {failures failures' : List (Uuid × UploadFailure)} {v : Verdict}
    (h : VerdictOk userId stored failures v) (hstored : ∀ key ∈ stored, key ∈ stored')
    (hfailures : failures.Sublist failures') : VerdictOk userId stored' failures' v := by
  unfold VerdictOk at h ⊢
  split at h
  · exact hstored _ h
  · rcases h with hexpired | ⟨failure, hmem, hperm, hcode⟩ | ⟨hcode, hcount⟩
    · exact Or.inl hexpired
    · exact Or.inr (Or.inl ⟨failure, hfailures.subset hmem, hperm, hcode⟩)
    · exact Or.inr (Or.inr ⟨hcode, hcount.trans hfailures.countP_le⟩)
  · exact h

namespace OutboxSystem

/-! ### The invariant -/

/-- The store and its history. -/
structure StoreOk (userId : Uuid) (s : OutboxSystem) : Prop where
  nodup : (waitingIds s.outbox).Nodup
  waiting : ∀ record ∈ s.outbox, record.attempts < maxAttempts ∧
    record.attempts ≤ failuresOf s.failures record.id
  queued : ∀ id, id ∈ waitingIds s.outbox ∨ (∃ v ∈ s.verdicts, v.record.id = id) ↔ id ∈ s.enqueued
  gone : ∀ v ∈ s.verdicts, v.record.id ∉ waitingIds s.outbox
  once : (s.verdicts.map fun v => v.record.id).Nodup
  verdicts : ∀ v ∈ s.verdicts, VerdictOk userId s.stored s.failures v

/-- The server and what has been kept of it. -/
structure ServerOk (s : OutboxSystem) : Prop where
  stored : ∀ row ∈ s.server.points, row.key ∈ s.stored
  unused : ∀ slot ∉ s.used, s.server.Unused slot

/-- Whether an entry of a result is more than that the device has to sign in again. -/
def productive (entry : Uuid × DrainOutcome) : Bool := entry.2 ≠ .retryLater (some "reauth")

/-- The records a drain still has in hand. -/
structure InHand (s : OutboxSystem) (records : List OutboxRecord) : Prop where
  mem : ∀ record ∈ records, record ∈ s.outbox
  nodup : (waitingIds records).Nodup

/-- Where a drain may be. -/
def AwaitOk (userId : Uuid) (s : OutboxSystem) (d : Drain) : Prop :=
  match d.await with
  | .reading => d.result = []
  | .uploading record slot rest =>
    InHand s (record :: rest) ∧ d.found = d.result.length + (rest.length + 1) ∧
      ∀ n, slot = some n → n ∈ s.used ∧
        s.server.Tracked (· ∈ s.stored) n (userId, record.id)
  | .deleting record outcome time rest =>
    InHand s (record :: rest) ∧ d.found = d.result.length + (rest.length + 1) ∧
      VerdictOk userId s.stored s.failures ⟨record, outcome, time⟩
  | .deletingLast record outcome time =>
    record ∈ s.outbox ∧ VerdictOk userId s.stored s.failures ⟨record, outcome, time⟩
  | .putting record _ => ∃ old ∈ s.outbox, record.id = old.id ∧
      record.attempts = old.attempts + 1 ∧ record.attempts < maxAttempts ∧
      record.attempts ≤ failuresOf s.failures record.id

/-- How many drains have got further than to sign in again. -/
def productiveDrains (s : OutboxSystem) : ℕ := s.ended.countP fun d => d.result.any productive

/-- One more for the drain under way, if it has. -/
def credit : Option Drain → ℕ
  | some d => if d.result = [] then 0 else 1
  | none => 0

/-- **The invariant** of the outbox. -/
structure Kept (userId : Uuid) (s : OutboxSystem) : Prop where
  store : StoreOk userId s
  server : ServerOk s
  drain : ∀ d, s.drain = some d → AwaitOk userId s d ∧ ∀ entry ∈ d.result, productive entry = true
  ended : ∀ d ∈ s.ended, d.found ≠ 0 → d.result ≠ []
  budget : s.productiveDrains + attemptsLeft s.outbox + credit s.drain ≤
    maxAttempts * s.enqueued.length

section Steps

variable {userId : Uuid} {s s' : OutboxSystem} {d : Drain} {record : OutboxRecord}

theorem InHand.imp {records : List OutboxRecord} (h : InHand s records)
    (houtbox : ∀ record ∈ s.outbox, record ∈ s'.outbox) : InHand s' records :=
  ⟨fun record hrecord => houtbox record (h.mem record hrecord), h.nodup⟩

/-- A drain stays where it may be while points are queued and the server goes on. -/
theorem AwaitOk.imp (h : AwaitOk userId s d) (houtbox : ∀ record ∈ s.outbox, record ∈ s'.outbox)
    (hstored : ∀ key ∈ s.stored, key ∈ s'.stored) (hfailures : s.failures.Sublist s'.failures)
    (htracked : ∀ n key, n ∈ s.used → s.server.Tracked (· ∈ s.stored) n key →
      n ∈ s'.used ∧ s'.server.Tracked (· ∈ s'.stored) n key) : AwaitOk userId s' d := by
  unfold AwaitOk at h ⊢
  split at h
  · exact h
  · exact ⟨h.1.imp houtbox, h.2.1, fun n hn => htracked n _ (h.2.2 n hn).1 (h.2.2 n hn).2⟩
  · exact ⟨h.1.imp houtbox, h.2.1, h.2.2.mono hstored hfailures⟩
  · exact ⟨houtbox _ h.1, h.2.mono hstored hfailures⟩
  · obtain ⟨old, hold, hid, hattempts, hlt, hcount⟩ := h
    exact ⟨old, houtbox old hold, hid, hattempts, hlt, hcount.trans hfailures.countP_le⟩

/-! ### Queueing -/

theorem StoreOk.enqueue (h : StoreOk userId s) {point : UploadPointRequest}
    (hnew : point.id ∉ s.enqueued) : StoreOk userId { s with
      outbox := s.outbox ++ [⟨point, s.clock, 0⟩]
      enqueued := point.id :: s.enqueued } where
  nodup := by
    have hnot : point.id ∉ waitingIds s.outbox := fun hmem => hnew ((h.queued _).mp (Or.inl hmem))
    simp only [waitingIds, List.map_append, List.map_cons, List.map_nil]
    rw [List.nodup_append]
    refine ⟨h.nodup, List.nodup_singleton _, fun id hid other hother heq => hnot ?_⟩
    rw [List.mem_singleton] at hother
    exact hother ▸ heq ▸ hid
  waiting := by
    intro record hrecord
    rcases List.mem_append.mp hrecord with hrecord | hrecord
    · exact h.waiting record hrecord
    · rw [List.mem_singleton.mp hrecord]
      exact ⟨show 0 < maxAttempts by decide, Nat.zero_le _⟩
  queued := by
    intro id
    simp only [waitingIds, List.map_append, List.map_cons, List.map_nil, List.mem_append,
      List.mem_cons, List.not_mem_nil, or_false]
    rw [← h.queued id]
    simp only [waitingIds]
    tauto
  gone := by
    intro v hv hmem
    simp only [waitingIds, List.map_append, List.map_cons, List.map_nil, List.mem_append,
      List.mem_singleton] at hmem
    rcases hmem with hmem | heq
    · exact h.gone v hv hmem
    · exact hnew (heq ▸ (h.queued _).mp (Or.inr ⟨v, hv, rfl⟩))
  once := h.once
  verdicts := h.verdicts

/-! ### The server -/

variable (limits : RestorePointLimits) (requireEncryption : Bool)

theorem ServerOk.onServer (h : ServerOk s) (event : PointEvent) :
    ServerOk (s.onServer limits requireEncryption event) where
  stored row hrow := List.mem_append_left _ (List.mem_map_of_mem hrow)
  unused slot hslot := by
    simp only [OutboxSystem.onServer, List.mem_append, Option.mem_toList, not_or] at hslot
    exact (h.unused slot hslot.2).step limits requireEncryption hslot.1

theorem StoreOk.onServer (h : StoreOk userId s) (event : PointEvent) :
    StoreOk userId (s.onServer limits requireEncryption event) :=
  ⟨h.nodup, h.waiting, h.queued, h.gone, h.once, fun v hv =>
    (h.verdicts v hv).mono (fun _ hkey => List.mem_append_right _ hkey) (List.Sublist.refl _)⟩

/-- The upload of a drain is tracked while the server goes on. -/
theorem tracked_onServer {event : PointEvent} (hfree : ∀ slot, event.enters? = some slot → slot ∉ s.used)
    {n : ℕ} {key : PointKey} (hn : n ∈ s.used) (h : s.server.Tracked (· ∈ s.stored) n key) :
    n ∈ (s.onServer limits requireEncryption event).used ∧
      (s.onServer limits requireEncryption event).server.Tracked
        (· ∈ (s.onServer limits requireEncryption event).stored) n key := by
  refine ⟨List.mem_append_right _ hn, ?_⟩
  refine PointServer.Tracked.step limits requireEncryption
    (h.mono fun key hkey => List.mem_append_right _ hkey) (fun henters => hfree n henters hn) ?_
  exact fun row hrow => List.mem_append_left _ (List.mem_map_of_mem hrow)

theorem Kept.onServer (h : Kept userId s) {event : PointEvent}
    (hfree : ∀ slot, event.enters? = some slot → slot ∉ s.used) :
    Kept userId (s.onServer limits requireEncryption event) where
  store := h.store.onServer limits requireEncryption event
  server := h.server.onServer limits requireEncryption event
  drain d hd := by
    obtain ⟨hawait, hentries⟩ := h.drain d hd
    refine ⟨hawait.imp (fun _ hrecord => hrecord) (fun _ hkey => List.mem_append_right _ hkey)
      (List.Sublist.refl _) fun n key hn htracked => ?_, hentries⟩
    exact tracked_onServer limits requireEncryption hfree hn htracked
  ended := h.ended
  budget := h.budget

/-- The request of a drain arrives. -/
theorem Kept.send (h : Kept userId s) (hd : s.drain = some d) (slot : ℕ) :
    Kept userId (s.send limits requireEncryption userId d slot) := by
  obtain ⟨hawait, hentries⟩ := h.drain d hd
  obtain ⟨await, found, result⟩ := d
  unfold OutboxSystem.send
  cases await with
  | reading | deleting | deletingLast | putting => exact h
  | uploading record old rest =>
    obtain ⟨hin, hfound, -⟩ := hawait
    simp only
    split
    · exact h
    · rename_i hslot
      have hfree : ∀ n, (PointEvent.upload slot userId record.toUploadPointRequest).enters? = some n →
          n ∉ s.used := fun _ henters => Option.some.inj henters ▸ hslot
      have hserver := h.onServer limits requireEncryption hfree
      refine ⟨⟨hserver.store.nodup, hserver.store.waiting, hserver.store.queued, hserver.store.gone,
        hserver.store.once, hserver.store.verdicts⟩, ⟨hserver.server.stored, hserver.server.unused⟩,
        fun d' hd' => ?_, hserver.ended, ?_⟩
      · obtain rfl := Option.some.inj hd'
        refine ⟨⟨⟨hin.mem, hin.nodup⟩, hfound, fun n hn => ?_⟩, hentries⟩
        obtain rfl := Option.some.inj hn
        exact ⟨List.mem_append_left _ (List.mem_singleton_self _),
          (h.server.unused _ hslot).tracked limits requireEncryption userId _⟩
      · have hbudget := h.budget
        rw [hd] at hbudget
        exact hbudget

/-! ### A drain goes on -/

/-- A point leaves the outbox for a good reason. -/
theorem StoreOk.settle (h : StoreOk userId s) (hrecord : record ∈ s.outbox) {outcome : DrainOutcome}
    {time : ℕ} (hverdict : VerdictOk userId s.stored s.failures ⟨record, outcome, time⟩) :
    StoreOk userId (s.settle record outcome time) where
  nodup := by
    rw [OutboxSystem.settle, waitingIds_delete]
    exact h.nodup.filter _
  waiting other hother := h.waiting other (mem_deleteOutbox.mp hother).1
  queued id := by
    simp only [OutboxSystem.settle]
    rw [← h.queued id]
    simp only [mem_waitingIds_delete, List.mem_cons, exists_eq_or_imp]
    have hid : record.id ∈ waitingIds s.outbox := mem_waitingIds.mpr ⟨record, hrecord, rfl⟩
    by_cases heq : id = record.id
    · subst heq
      simp [hid]
    · simp [heq, Ne.symm heq]
  gone v hv := by
    simp only [OutboxSystem.settle, mem_waitingIds_delete, not_and, not_not] at hv ⊢
    rcases List.mem_cons.mp hv with rfl | hv
    · exact fun _ => rfl
    · exact fun hmem => absurd hmem (h.gone v hv)
  once := by
    refine List.nodup_cons.mpr ⟨fun hmem => ?_, h.once⟩
    obtain ⟨v, hv, hid⟩ := List.mem_map.mp hmem
    exact h.gone v hv (mem_waitingIds.mpr ⟨record, hrecord, hid.symm⟩)
  verdicts v hv := by
    rcases List.mem_cons.mp hv with rfl | hv
    · exact hverdict
    · exact h.verdicts v hv

/-- A point is put back with one more attempt. -/
theorem StoreOk.put (h : StoreOk userId s) {old : OutboxRecord} (hold : old ∈ s.outbox)
    (hid : record.id = old.id) (hlt : record.attempts < maxAttempts)
    (hcount : record.attempts ≤ failuresOf s.failures record.id) :
    StoreOk userId { s with outbox := putOutbox s.outbox record } where
  nodup := (waitingIds_put h.nodup hold hid).symm ▸ h.nodup
  waiting other hother := by
    rcases mem_putOutbox h.nodup hold hid hother with rfl | hother
    · exact ⟨hlt, hcount⟩
    · exact h.waiting other hother
  queued id := (waitingIds_put h.nodup hold hid).symm ▸ h.queued id
  gone v hv := (waitingIds_put h.nodup hold hid).symm ▸ h.gone v hv
  once := h.once
  verdicts := h.verdicts

/-- An upload of a point fails. -/
theorem StoreOk.fail (h : StoreOk userId s) (failure : Uuid × UploadFailure) :
    StoreOk userId { s with failures := failure :: s.failures } where
  nodup := h.nodup
  waiting other hother := ⟨(h.waiting other hother).1,
    (h.waiting other hother).2.trans (List.sublist_cons_self _ _).countP_le⟩
  queued := h.queued
  gone := h.gone
  once := h.once
  verdicts v hv := (h.verdicts v hv).mono (fun _ hkey => hkey) (List.sublist_cons_self _ _)

theorem StoreOk.withDrain (h : StoreOk userId s) (drain : Option Drain) (ended : List DrainEnd) :
    StoreOk userId { s with drain := drain, ended := ended } :=
  ⟨h.nodup, h.waiting, h.queued, h.gone, h.once, h.verdicts⟩

/-- A drain returns. -/
theorem kept_endDrain (hstore : StoreOk userId s) (hserver : ServerOk s)
    (hended : ∀ d ∈ s.ended, d.found ≠ 0 → d.result ≠ []) {found : ℕ}
    {result : List (Uuid × DrainOutcome)} (hresult : found ≠ 0 → result ≠ [])
    (hbudget : s.productiveDrains + (if result.any productive then 1 else 0) + attemptsLeft s.outbox ≤
      maxAttempts * s.enqueued.length) : Kept userId (s.endDrain found result) where
  store := hstore.withDrain _ _
  server := ⟨hserver.stored, hserver.unused⟩
  drain d hd := nomatch hd
  ended d hd := by
    rcases List.mem_cons.mp hd with rfl | hd
    · exact hresult
    · exact hended d hd
  budget := by
    simp only [OutboxSystem.endDrain, productiveDrains, credit, List.countP_cons] at hbudget ⊢
    omega

/-- The loop goes on with records that still wait. -/
theorem kept_goOn (hstore : StoreOk userId s) (hserver : ServerOk s)
    (hended : ∀ d ∈ s.ended, d.found ≠ 0 → d.result ≠ []) {found : ℕ}
    {result : List (Uuid × DrainOutcome)} {rest : List OutboxRecord} (hin : InHand s rest)
    (hfound : found = result.length + rest.length)
    (hentries : ∀ entry ∈ result, productive entry = true)
    (hbudget : s.productiveDrains + (if result = [] then 0 else 1) + attemptsLeft s.outbox ≤
      maxAttempts * s.enqueued.length) : Kept userId (s.goOn found result rest) := by
  unfold OutboxSystem.goOn
  cases rest with
  | nil =>
    refine kept_endDrain hstore hserver hended (fun hne hnil => hne ?_) ?_
    · rw [hfound, hnil]
      rfl
    · cases result with
      | nil => simpa using hbudget
      | cons entry result =>
        simp only [reduceCtorEq, if_false] at hbudget
        rw [if_pos (List.any_eq_true.mpr ⟨entry, List.mem_cons_self, hentries entry List.mem_cons_self⟩)]
        exact hbudget
  | cons record rest =>
    have hstore' := fun await => hstore.withDrain (some ⟨await, found, result⟩) s.ended
    have hbudget' : s.productiveDrains + attemptsLeft s.outbox + (if result = [] then 0 else 1) ≤
        maxAttempts * s.enqueued.length := by omega
    simp only [DrainAwait.next?]
    split
    · rename_i await hnext
      split at hnext <;> cases hnext
    · rename_i await hnext
      refine ⟨hstore' await, ⟨hserver.stored, hserver.unused⟩, fun d hd => ?_, hended, hbudget'⟩
      obtain rfl := Option.some.inj hd
      refine ⟨?_, hentries⟩
      split at hnext
      · rename_i hold
        obtain rfl := Option.some.inj hnext
        exact ⟨⟨hin.mem, hin.nodup⟩, hfound, Or.inl ⟨rfl, hold⟩⟩
      · obtain rfl := Option.some.inj hnext
        exact ⟨⟨hin.mem, hin.nodup⟩, hfound, fun _ hn => nomatch hn⟩

theorem InHand.settle {rest : List OutboxRecord} (h : InHand s (record :: rest)) (outcome : DrainOutcome)
    (time : ℕ) : InHand (s.settle record outcome time) rest where
  mem other hother := by
    refine mem_deleteOutbox.mpr ⟨h.mem other (List.mem_cons_of_mem _ hother), fun heq => ?_⟩
    exact (List.nodup_cons.mp h.nodup).1 (List.mem_map.mpr ⟨other, hother, heq⟩)
  nodup := (List.nodup_cons.mp h.nodup).2

/-- A drain waits for something else. -/
theorem Kept.await (h : Kept userId s) (hd : s.drain = some d) {await : DrainAwait}
    (hawait : AwaitOk userId s { d with await := await }) :
    Kept userId { s with drain := some { d with await := await } } where
  store := h.store.withDrain _ _
  server := ⟨h.server.stored, h.server.unused⟩
  drain d' hd' := by
    obtain rfl := Option.some.inj hd'
    refine ⟨hawait.imp (fun _ h => h) (fun _ h => h) (List.Sublist.refl _) fun _ _ hn ht => ⟨hn, ht⟩, ?_⟩
    exact (h.drain d hd).2
  ended := h.ended
  budget := by
    have hbudget := h.budget
    rw [hd] at hbudget
    exact hbudget

/-- An upload of a drain fails. -/
theorem Kept.fail (h : Kept userId s) (failure : Uuid × UploadFailure) :
    Kept userId { s with failures := failure :: s.failures } where
  store := h.store.fail failure
  server := ⟨h.server.stored, h.server.unused⟩
  drain d hd := ⟨(h.drain d hd).1.imp (fun _ h => h) (fun _ h => h) (List.sublist_cons_self _ _)
    fun _ _ hn ht => ⟨hn, ht⟩, (h.drain d hd).2⟩
  ended := h.ended
  budget := h.budget

/-- What a drain makes of a failure. -/
theorem onFailure_cases {now : ℕ} {rest : List OutboxRecord} {failure : UploadFailure}
    {await : DrainAwait} (h : DrainAwait.onFailure now record rest failure = some await) :
    (isPermanent failure = true ∧ await = .deleting record (.discarded failure.code?) now rest) ∨
      (maxAttempts ≤ record.attempts + 1 ∧
        await = .deletingLast record (.discarded (some "too_many_attempts")) now) ∨
      record.attempts + 1 < maxAttempts ∧
        ∃ outcome, await = .putting { record with attempts := record.attempts + 1 } outcome := by
  cases failure with
  | reauth => cases h
  | api status code | other =>
    simp only [DrainAwait.onFailure] at h
    split at h
    · rename_i hperm
      exact Or.inl ⟨hperm, (Option.some.inj h).symm⟩
    · split at h
      · rename_i hmax
        exact Or.inr (Or.inl ⟨hmax, (Option.some.inj h).symm⟩)
      · rename_i hmax
        exact Or.inr (Or.inr ⟨Nat.lt_of_not_le hmax, _, (Option.some.inj h).symm⟩)

/-- What a drain makes of a failure is right. -/
theorem awaitOk_onFailure {rest : List OutboxRecord} {found : ℕ} {result : List (Uuid × DrainOutcome)}
    (hin : InHand s (record :: rest)) (hfound : found = result.length + (rest.length + 1))
    {failure : UploadFailure} (hattempts : record.attempts + 1 ≤ failuresOf s.failures record.id)
    (hfailure : (record.id, failure) ∈ s.failures) {await : DrainAwait}
    (hnext : DrainAwait.onFailure s.clock record rest failure = some await) :
    AwaitOk userId s ⟨await, found, result⟩ := by
  have hrecord := hin.mem record List.mem_cons_self
  rcases onFailure_cases hnext with ⟨hperm, rfl⟩ | ⟨hmax, rfl⟩ | ⟨hlt, outcome, rfl⟩
  · exact ⟨hin, hfound, Or.inr (Or.inl ⟨failure, hfailure, hperm, rfl⟩)⟩
  · exact ⟨hrecord, Or.inr (Or.inr ⟨rfl, hmax.trans hattempts⟩)⟩
  · exact ⟨record, hrecord, rfl, rfl, hlt, hattempts⟩

/-- A verdict is final, so a drain that has one has got further than to sign in again. -/
theorem productive_of_verdictOk {stored : List PointKey} {failures : List (Uuid × UploadFailure)}
    {outcome : DrainOutcome} {time : ℕ} (h : VerdictOk userId stored failures ⟨record, outcome, time⟩) :
    productive (record.id, outcome) = true := by
  cases outcome with
  | uploaded | discarded => simp [productive]
  | retryLater => exact h.elim

/-- **A drain goes on** from any `await`. -/
theorem Kept.resume (h : Kept userId s) (hd : s.drain = some d) (failure : Option UploadFailure) :
    Kept userId (s.resume d failure) := by
  obtain ⟨hawait, hentries⟩ := h.drain d hd
  have hbudget := h.budget
  rw [hd] at hbudget
  obtain ⟨await, found, result⟩ := d
  simp only [credit] at hbudget
  unfold OutboxSystem.resume
  cases await with
  | reading =>
    -- Nothing has happened since, so all that it finds waits.
    obtain rfl : result = [] := hawait
    have hperm := oldestFirst_perm s.outbox
    refine kept_goOn h.store h.server h.ended ⟨fun record hrecord => hperm.mem_iff.mp hrecord, ?_⟩ ?_
      (by simp) ?_
    · exact (hperm.map _).nodup_iff.mpr h.store.nodup
    · rw [hperm.length_eq]
      simp
    · simp only [if_true] at hbudget ⊢
      omega
  | uploading record slot rest =>
    obtain ⟨hin, hfound, htracked⟩ := hawait
    cases failure with
    | none =>
      simp only
      split
      · rename_i hanswer
        cases slot with
        | none => simp at hanswer
        | some n =>
          refine h.await hd ⟨hin, hfound, ?_⟩
          exact (htracked n rfl).2.answer (by simpa using hanswer)
      · exact h
    | some failure =>
      have hfail := h.fail (record.id, failure)
      have hattempts : record.attempts + 1 ≤
          failuresOf ((record.id, failure) :: s.failures) record.id := by
        have := (h.store.waiting record (hin.mem record List.mem_cons_self)).2
        simp only [failuresOf, List.countP_cons, decide_true, if_true] at this ⊢
        omega
      simp only
      split
      · rename_i hnext
        refine kept_endDrain hfail.store hfail.server hfail.ended (by simp) ?_
        have hresult : (result ++ [(record.id, DrainOutcome.retryLater (some "reauth"))]).any productive =
            result.any productive := by
          simp [productive]
        rw [hresult]
        cases result with
        | nil => simpa [productiveDrains] using hbudget
        | cons entry result =>
          simp only [reduceCtorEq, if_false, productiveDrains] at hbudget ⊢
          split <;> omega
      · rename_i await hnext
        refine hfail.await hd (d := ⟨_, found, result⟩) ?_
        exact awaitOk_onFailure (s := { s with failures := (record.id, failure) :: s.failures })
          ⟨hin.mem, hin.nodup⟩ hfound hattempts List.mem_cons_self hnext
  | deleting record outcome time rest =>
    obtain ⟨hin, hfound, hverdict⟩ := hawait
    have hrecord := hin.mem record List.mem_cons_self
    have hlt := (h.store.waiting record hrecord).1
    have hleft := attemptsLeft_delete h.store.nodup hrecord
    refine kept_goOn (h.store.settle hrecord hverdict) ⟨h.server.stored, h.server.unused⟩ h.ended
      (hin.settle outcome time) ?_ ?_ ?_
    · rw [hfound, List.length_append, List.length_singleton]
      omega
    · intro entry hentry
      rcases List.mem_append.mp hentry with hentry | hentry
      · exact hentries entry hentry
      · rw [List.mem_singleton.mp hentry]
        exact productive_of_verdictOk hverdict
    · simp only [OutboxSystem.settle, productiveDrains] at hbudget hleft ⊢
      have hcredit : (if result ++ [(record.id, outcome)] = [] then 0 else 1) = 1 := if_neg (by simp)
      rw [hcredit]
      omega
  | deletingLast record outcome time =>
    obtain ⟨hrecord, hverdict⟩ := hawait
    have hlt := (h.store.waiting record hrecord).1
    have hleft := attemptsLeft_delete h.store.nodup hrecord
    refine kept_endDrain (h.store.settle hrecord hverdict) ⟨h.server.stored, h.server.unused⟩ h.ended
      (by simp) ?_
    simp only [OutboxSystem.settle, productiveDrains] at hbudget hleft ⊢
    split <;> omega
  | putting record outcome =>
    obtain ⟨old, hold, hid, hattempts, hlt, hcount⟩ := hawait
    have hleft := attemptsLeft_put h.store.nodup hold hid hattempts hlt.le
    refine kept_endDrain (h.store.put hold hid hlt hcount) ⟨h.server.stored, h.server.unused⟩ h.ended
      (by simp) ?_
    simp only [productiveDrains] at hbudget ⊢
    split <;> omega

/-! ### Runs -/

theorem unused_start (settings : Uuid → Option PointSettings) (clock : DateTime) (slot : ℕ) :
    (PointServer.start settings clock).Unused slot :=
  ⟨rfl, fun _ h => absurd h List.not_mem_nil⟩

theorem kept_start (settings : Uuid → Option PointSettings) (clock : DateTime) :
    Kept userId (start (PointServer.start settings clock)) where
  store := {
    nodup := List.nodup_nil
    waiting := by simp [start]
    queued := by simp [start, waitingIds]
    gone := by simp [start]
    once := List.nodup_nil
    verdicts := by simp [start] }
  server := ⟨fun row hrow => List.mem_map_of_mem hrow, fun slot _ => unused_start settings clock slot⟩
  drain d hd := nomatch hd
  ended d hd := nomatch hd
  budget := Nat.le_refl _

/-- **Every event** keeps the invariant. -/
theorem Kept.step (h : Kept userId s) (event : OutboxEvent) :
    Kept userId (s.step limits requireEncryption userId event) := by
  cases event with
  | clock ms =>
    exact ⟨⟨h.store.nodup, h.store.waiting, h.store.queued, h.store.gone, h.store.once, h.store.verdicts⟩,
      ⟨h.server.stored, h.server.unused⟩, fun d hd => ⟨(h.drain d hd).1.imp (fun _ h => h)
        (fun _ h => h) (List.Sublist.refl _) fun _ _ hn ht => ⟨hn, ht⟩, (h.drain d hd).2⟩, h.ended, h.budget⟩
  | enqueue point =>
    simp only [OutboxSystem.step]
    split
    · exact h
    · rename_i hnew
      refine ⟨h.store.enqueue hnew, ⟨h.server.stored, h.server.unused⟩, fun d hd =>
        ⟨(h.drain d hd).1.imp (fun _ hrecord => List.mem_append_left _ hrecord) (fun _ h => h)
          (List.Sublist.refl _) fun _ _ hn ht => ⟨hn, ht⟩, (h.drain d hd).2⟩, h.ended, ?_⟩
      -- A new point brings all its attempts along.
      have hbudget := h.budget
      simp only [productiveDrains, attemptsLeft, List.map_append, List.map_cons, List.map_nil,
        List.sum_append, List.sum_cons, List.sum_nil, List.length_cons, Nat.mul_succ] at hbudget ⊢
      omega
  | drain =>
    simp only [OutboxSystem.step]
    split
    · rename_i hd
      refine ⟨h.store.withDrain _ _, ⟨h.server.stored, h.server.unused⟩, fun d hd' => ?_, h.ended, ?_⟩
      · obtain rfl := Option.some.inj hd'
        exact ⟨rfl, by simp⟩
      · have hbudget := h.budget
        rw [hd] at hbudget
        exact hbudget
    · exact h
  | send slot =>
    simp only [OutboxSystem.step]
    split
    · exact h
    · rename_i d hd
      exact h.send limits requireEncryption hd slot
  | resume failure =>
    simp only [OutboxSystem.step]
    split
    · exact h
    · rename_i d hd
      exact h.resume hd failure
  | stop =>
    refine ⟨h.store.withDrain _ _, ⟨h.server.stored, h.server.unused⟩, fun d hd => ?_, h.ended, ?_⟩
    · cases hd
    · exact (Nat.le_add_right _ _).trans h.budget
  | server event =>
    simp only [OutboxSystem.step]
    split
    · exact h
    · rename_i hfree
      refine h.onServer limits requireEncryption fun slot henters hmem => hfree ?_
      rw [henters]
      simpa using hmem

theorem kept_run (settings : Uuid → Option PointSettings) (clock : DateTime) (es : List OutboxEvent) :
    Kept userId (run limits requireEncryption userId (PointServer.start settings clock) es) :=
  Runs.invariant (I := Kept userId) (fun _ event h => h.step limits requireEncryption event)
    (kept_start settings clock) es

/-- **No restore point is lost**: in every run of the outbox and the server, with points queued during
drains, requests and answers lost, and the worker stopped anywhere, each point that was ever queued
either waits, once and with attempts left, or has left the outbox, once and for a good reason. -/
theorem points_accounted (settings : Uuid → Option PointSettings) (clock : DateTime) (userId : Uuid)
    (es : List OutboxEvent) (id : Uuid)
    (hid : id ∈ (run limits requireEncryption userId (PointServer.start settings clock) es).enqueued) :
    let s := run limits requireEncryption userId (PointServer.start settings clock) es
    ((waitingIds s.outbox).count id = 1 ∧ (∀ v ∈ s.verdicts, v.record.id ≠ id) ∧
        ∀ record ∈ s.outbox, record.id = id → record.attempts < maxAttempts) ∨
      id ∉ waitingIds s.outbox ∧ (s.verdicts.map fun v => v.record.id).count id = 1 ∧
        ∀ v ∈ s.verdicts, v.record.id = id → VerdictOk userId s.stored s.failures v := by
  intro s
  have h : StoreOk userId s := (kept_run limits requireEncryption settings clock es).store
  by_cases hwaits : id ∈ waitingIds s.outbox
  · refine Or.inl ⟨List.count_eq_one_of_mem h.nodup hwaits, fun v hv heq => ?_,
      fun record hrecord _ => (h.waiting record hrecord).1⟩
    exact h.gone v hv (heq ▸ hwaits)
  · obtain ⟨v, hv, hvid⟩ := ((h.queued id).mpr hid).resolve_left hwaits
    exact Or.inr ⟨hwaits, List.count_eq_one_of_mem h.once (List.mem_map.mpr ⟨v, hv, hvid⟩),
      fun v hv _ => h.verdicts v hv⟩

/-- A point made by hand: the server stores it, its answer is lost, and the next drain sends it again. -/
def lostAnswer : List OutboxEvent :=
  [.enqueue ⟨8, "manual", 0, 0, none, "\x7b\x7d"⟩, .drain, .resume none, .send 0] ++
    List.replicate 7 (.server (.advance 0 [])) ++
      [.resume (some .other), .resume none, .drain, .resume none, .send 1] ++
        List.replicate 2 (.server (.advance 1 [])) ++ [.resume none, .resume none]

theorem points_accounted_lostAnswer :
    let s := run PointServer.onePointLimits false 1 (PointServer.start (fun _ => some ⟨false, true⟩) 0) lostAnswer
    s.failures = [(8, .other)] ∧ (s.verdicts.map fun v => v.record.id).count 8 = 1 ∧
      ∀ v ∈ s.verdicts, v.record.id = 8 → VerdictOk 1 s.stored s.failures v := by
  refine ⟨by decide +kernel, ?_⟩
  rcases points_accounted PointServer.onePointLimits false (fun _ => some ⟨false, true⟩) 0 1 lostAnswer 8
    (by decide +kernel) with ⟨hwaits, -⟩ | ⟨-, hverdict⟩
  · exact absurd hwaits (by decide +kernel)
  · exact hverdict

/-- **Drains make progress**: a drain that finds points ends with an outcome for one of them at least;
of the drains that get further than to sign in again there are at most twenty for each point that was
ever queued; and after that many nothing waits. -/
theorem drains_bounded (settings : Uuid → Option PointSettings) (clock : DateTime) (userId : Uuid)
    (es : List OutboxEvent) :
    let s := run limits requireEncryption userId (PointServer.start settings clock) es
    (∀ d ∈ s.ended, d.found ≠ 0 → d.result ≠ []) ∧
      s.productiveDrains ≤ maxAttempts * s.enqueued.length ∧
      (s.productiveDrains = maxAttempts * s.enqueued.length → s.outbox = []) := by
  intro s
  have h : Kept userId s := kept_run limits requireEncryption settings clock es
  have hbudget := h.budget
  refine ⟨h.ended, by omega, fun heq => List.eq_nil_iff_forall_not_mem.mpr fun record hrecord => ?_⟩
  have hleft := attemptsLeft_delete h.store.nodup hrecord
  have hlt := (h.store.waiting record hrecord).1
  omega

end Steps

end OutboxSystem

end Client

end HelixSync
