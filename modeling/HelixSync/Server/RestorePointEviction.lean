import Mathlib.Data.Prod.Lex
import HelixSync.Server.RestorePointDiscipline

/-!
# What an upload of a restore point evicts

While an upload holds the lock of its user and no prune is under way, its loop works on a fixed list
of points. Its victims are a prefix of `HelixSync.evictionOrder`, one more in each round, and the
loop leaves at the first prefix that makes room (`HelixSync.PointServer.Stage`). Each statement
either takes the upload a stage further, or ends it with one of the outcomes of
`HelixSync.PointServer.Outcome`.
-/

namespace HelixSync

/-! ### The order of eviction -/

section Order

variable {a b c : RestorePointRow} {points : List RestorePointRow}

/-- What the points are sorted by. -/
def evictionKey (row : RestorePointRow) : Bool ×ₗ DateTime ×ₗ Uuid :=
  toLex (decide (row.kind = "manual"), toLex (row.createdAt, row.id))

theorem evictedBefore_iff : EvictedBefore a b ↔ evictionKey a ≤ evictionKey b := by
  rw [EvictedBefore, evictionKey, evictionKey, Prod.Lex.toLex_le_toLex, Prod.Lex.toLex_le_toLex,
    Bool.lt_iff, decide_eq_false_iff_not, decide_eq_true_iff, decide_eq_decide]

/-- Points of one user that go before each other are the same point. -/
theorem EvictedBefore.key_eq (hab : EvictedBefore a b) (hba : EvictedBefore b a)
    (huser : a.userId = b.userId) : a.key = b.key := by
  have hkey : evictionKey a = evictionKey b :=
    le_antisymm (evictedBefore_iff.mp hab) (evictedBefore_iff.mp hba)
  have hid : a.id = b.id := congrArg (fun key => (ofLex (ofLex key).2).2) hkey
  rw [RestorePointRow.key, RestorePointRow.key, huser, hid]

/-- The points an upload may evict, in the order in which it does. -/
def evictionOrder (points : List RestorePointRow) : List RestorePointRow :=
  (points.filter fun row => row.pinned = false).mergeSort fun a b => decide (EvictedBefore a b)

/-- The points of a user after an upload that has evicted some. -/
def afterEvicting (points : List RestorePointRow) (row : RestorePointRow) (k : ℕ) :
    List RestorePointRow :=
  without points ((evictionOrder points).take k) ++ [row]

theorem evictionOrder_perm (points : List RestorePointRow) :
    (evictionOrder points).Perm (points.filter fun row => row.pinned = false) :=
  List.mergeSort_perm _ _

theorem mem_evictionOrder {row : RestorePointRow} :
    row ∈ evictionOrder points ↔ row ∈ points ∧ row.pinned = false := by
  rw [(evictionOrder_perm points).mem_iff, List.mem_filter, decide_eq_true_iff]

theorem evictionOrder_pairwise (points : List RestorePointRow) :
    (evictionOrder points).Pairwise EvictedBefore := by
  have h : (evictionOrder points).Pairwise fun a b => decide (EvictedBefore a b) = true :=
    List.pairwise_mergeSort (fun a b c hab hbc => by
      simp only [decide_eq_true_eq, evictedBefore_iff] at hab hbc ⊢
      exact hab.trans hbc)
    (fun a b => by
      simp only [Bool.or_eq_true, decide_eq_true_eq, evictedBefore_iff]
      exact le_total _ _)
    (points.filter fun row => row.pinned = false)
  exact h.imp of_decide_eq_true

theorem evictionOrder_nodup (hkeys : (points.map RestorePointRow.key).Nodup) :
    (evictionOrder points).Nodup :=
  (evictionOrder_perm points).nodup_iff.mpr (hkeys.of_map.filter _)

/-- Points that are pinned stay, and so does the new one. -/
theorem mem_afterEvicting {row other : RestorePointRow} {k : ℕ}
    (hkeys : (points.map RestorePointRow.key).Nodup)
    (h : other = row ∨ other ∈ points ∧ other.pinned = true) :
    other ∈ afterEvicting points row k := by
  rcases h with rfl | ⟨hmem, hpinned⟩
  · exact List.mem_append_right _ (List.mem_singleton_self _)
  refine List.mem_append_left _ (List.mem_filter.mpr ⟨hmem, decide_eq_true fun hevicted => ?_⟩)
  obtain ⟨victim, hvictim, hkey⟩ := List.mem_map.mp hevicted
  obtain ⟨hold, hunpinned⟩ := mem_evictionOrder.mp (List.mem_of_mem_take hvictim)
  rw [eq_of_key_eq hkeys hold hmem hkey, hpinned] at hunpinned
  cases hunpinned

/-- What is left to evict is the rest of the order. -/
theorem mem_drop_evictionOrder {row other : RestorePointRow} {k : ℕ}
    (hkeys : (points.map RestorePointRow.key).Nodup) (hfresh : ∀ p ∈ points, p.id ≠ row.id) :
    other ∈ (evictionOrder points).drop k ↔
      other ∈ afterEvicting points row k ∧ other.pinned = false ∧ other.id ≠ row.id := by
  have hsplit : other ∈ evictionOrder points ↔
      other ∈ (evictionOrder points).take k ∨ other ∈ (evictionOrder points).drop k := by
    rw [← List.mem_append, List.take_append_drop]
  constructor
  · intro hdrop
    obtain ⟨hmem, hunpinned⟩ := mem_evictionOrder.mp (hsplit.mpr (Or.inr hdrop))
    refine ⟨List.mem_append_left _ (List.mem_filter.mpr ⟨hmem, decide_eq_true fun hkey => ?_⟩),
      hunpinned, hfresh other hmem⟩
    -- the order has no point twice, so none of its rest is among the first
    obtain ⟨victim, hvictim, hsame⟩ := List.mem_map.mp hkey
    have hold := (mem_evictionOrder.mp (List.mem_of_mem_take hvictim)).1
    rw [eq_of_key_eq hkeys hold hmem hsame] at hvictim
    exact List.disjoint_take_drop (evictionOrder_nodup hkeys) le_rfl hvictim hdrop
  · rintro ⟨hleft, hunpinned, hid⟩
    rcases List.mem_append.mp hleft with hold | hnew
    · obtain ⟨hmem, hkept⟩ := List.mem_filter.mp hold
      refine (hsplit.mp (mem_evictionOrder.mpr ⟨hmem, hunpinned⟩)).resolve_left fun hvictim => ?_
      exact of_decide_eq_true hkept (List.mem_map_of_mem hvictim)
    · exact absurd (congrArg RestorePointRow.id (List.mem_singleton.mp hnew)) hid

/-- **The next victim** after the first ones of the order is the one that follows them. -/
theorem victim?_afterEvicting {row : RestorePointRow} {userId : Uuid}
    (hkeys : (points.map RestorePointRow.key).Nodup) (hone : ∀ p ∈ points, p.userId = userId)
    (hfresh : ∀ p ∈ points, p.id ≠ row.id) (k : ℕ) :
    victim? (afterEvicting points row k) row.id = (evictionOrder points)[k]? := by
  have hrest : ∀ other, other ∈ (afterEvicting points row k).filter
      (fun p => p.pinned = false ∧ p.id ≠ row.id) ↔ other ∈ (evictionOrder points).drop k := by
    intro other
    rw [mem_drop_evictionOrder hkeys hfresh, List.mem_filter, decide_eq_true_iff]
  rw [victim?]
  generalize (afterEvicting points row k).filter _ = candidates at hrest
  have hmem : ∀ {p}, p ∈ candidates → p ∈ points := fun hp =>
    (mem_evictionOrder.mp (List.mem_of_mem_drop ((hrest _).mp hp))).1
  cases hnext : (evictionOrder points)[k]? with
  | none =>
    rw [List.drop_eq_nil_of_le (List.getElem?_eq_none_iff.mp hnext)] at hrest
    rw [List.eq_nil_iff_forall_not_mem.mpr fun p hp => List.not_mem_nil ((hrest p).mp hp)]
    rfl
  | some next =>
    obtain ⟨hlt, rfl⟩ := List.getElem?_eq_some_iff.mp hnext
    have hdrop := List.drop_eq_getElem_cons hlt
    have hin : (evictionOrder points)[k] ∈ candidates := by
      rw [hrest, hdrop]
      exact List.mem_cons_self
    have hfirst : ∀ p ∈ candidates, EvictedBefore (evictionOrder points)[k] p := by
      intro p hp
      have hsorted := (evictionOrder_pairwise points).drop (i := k)
      rw [hrest, hdrop] at hp
      rw [hdrop] at hsorted
      rcases List.mem_cons.mp hp with rfl | hp
      · exact evictedBefore_iff.mpr le_rfl
      · exact List.rel_of_pairwise_cons hsorted hp
    have hfound : (candidates.find? fun p => candidates.all fun other =>
        EvictedBefore p other).isSome = true := by
      refine List.find?_isSome.mpr ⟨_, hin, List.all_eq_true.mpr fun p hp => ?_⟩
      exact decide_eq_true (hfirst p hp)
    obtain ⟨victim, hvictim⟩ := Option.isSome_iff_exists.mp hfound
    have hcand := List.mem_of_find?_eq_some hvictim
    have hall : (candidates.all fun other => EvictedBefore victim other) = true :=
      List.find?_some (p := fun p => candidates.all fun other => EvictedBefore p other) hvictim
    have hbefore := of_decide_eq_true (List.all_eq_true.mp hall _ hin)
    rw [hvictim, eq_of_key_eq hkeys (hmem hcand) (hmem hin) (hbefore.key_eq (hfirst _ hcand)
      ((hone _ (hmem hcand)).trans (hone _ (hmem hin)).symm))]

end Order

namespace PointServer

variable {limits : RestorePointLimits} {requireEncryption : Bool} {s : PointServer} {slot : ℕ}
  {call : PointCall} {points : List RestorePointRow} {row : RestorePointRow} {bytes : Option ℤ}
  {now : DateTime} {req : UploadPointRequest} {k : ℕ}

/-! ### The stages of an upload -/

/-- An upload that has evicted the first points of the order. -/
def pendingAt (points : List RestorePointRow) (row : RestorePointRow) (k : ℕ) (retried : Bool) :
    PendingUpload where
  row := row
  evicted := (evictionOrder points).take k
  delta := row.sizeBytes - sumBytes ((evictionOrder points).take k)
  retried := retried

/-- The row an upload inserts. -/
def uploadRow (userId : Uuid) (now : DateTime) (req : UploadPointRequest) : RestorePointRow :=
  ⟨userId, req.id, req.kind, req.size, false, now⟩

/-- The point an upload answers with, if its next statement ends it with one. -/
def uploadReturns (s : PointServer) : PointCall → Option RestorePointRow
  | .uploadLookup userId _ req => findPoint s.points (userId, req.id)
  | .uploadCommit pending _ => findPoint (s.uploadView pending) pending.row.key
  | _ => none

/-- The count of an upload that has evicted the first points of the order. -/
def countAfter (points : List RestorePointRow) (bytes : Option ℤ) (row : RestorePointRow) (k : ℕ) :
    ℤ :=
  max (bytes.getD 0 + (row.sizeBytes - sumBytes ((evictionOrder points).take k))) 0

/-- **How an upload ends** for a user with some points and some count: its answer, the point it
answers with, and what it leaves. -/
inductive Outcome (limits : RestorePointLimits) (points : List RestorePointRow)
    (bytes : Option ℤ) (row : RestorePointRow) : Except PointError Unit →
      Option RestorePointRow → List RestorePointRow → Option ℤ → Prop
  /-- The id is that of a stored point. -/
  | stored (old : RestorePointRow) (hold : findPoint points row.key = some old) :
      Outcome limits points bytes row (.ok ()) (some old) points bytes
  /-- The upload is refused; for lack of room only if no eviction makes room. -/
  | refused (e : PointError) (hnew : findPoint points row.key = none)
      (hfull : e = .conflict "restore_point_limit" →
        ∀ j, ¬Fits limits (afterEvicting points row j)) :
      Outcome limits points bytes row (.error e) none points bytes
  /-- The point is inserted, and no fewer evictions make room. -/
  | created (k : ℕ) (hnew : findPoint points row.key = none)
      (hfits : Fits limits (afterEvicting points row k))
      (hleast : ∀ j < k, ¬Fits limits (afterEvicting points row j)) :
      Outcome limits points bytes row (.ok ()) (some row) (afterEvicting points row k)
        (some (countAfter points bytes row k))

/-- **How far an upload has come**, and how many statements it has left at most. -/
inductive Stage (limits : RestorePointLimits) (points : List RestorePointRow) (bytes : Option ℤ)
    (userId : Uuid) (now : DateTime) (req : UploadPointRequest) : ℕ → PointCall → Prop
  | lookup : Stage limits points bytes userId now req (2 * points.length + 8)
      (.uploadLookup userId now req)
  | settings (hnew : findPoint points (userId, req.id) = none) :
      Stage limits points bytes userId now req (2 * points.length + 7)
        (.uploadSettings userId now req)
  | recent (hnew : findPoint points (userId, req.id) = none) :
      Stage limits points bytes userId now req (2 * points.length + 6) (.uploadRecent userId now req)
  | insert (hnew : findPoint points (userId, req.id) = none) :
      Stage limits points bytes userId now req (2 * points.length + 5) (.uploadInsert userId now req)
  | usage (k left : ℕ) (hnew : findPoint points (userId, req.id) = none)
      (hleft : k + left = (evictionOrder points).length)
      (hbefore : ∀ j < k, ¬Fits limits (afterEvicting points (uploadRow userId now req) j)) :
      Stage limits points bytes userId now req (2 * left + 4)
        (.uploadUsage (pendingAt points (uploadRow userId now req) k false))
  | evict (k left : ℕ) (hnew : findPoint points (userId, req.id) = none)
      (hleft : k + left = (evictionOrder points).length)
      (hbefore : ∀ j ≤ k, ¬Fits limits (afterEvicting points (uploadRow userId now req) j)) :
      Stage limits points bytes userId now req (2 * left + 3)
        (.uploadEvict (pendingAt points (uploadRow userId now req) k false))
  | again (hnew : findPoint points (userId, req.id) = none)
      (hfull : ∀ j, ¬Fits limits (afterEvicting points (uploadRow userId now req) j)) :
      Stage limits points bytes userId now req 2 (.uploadUsage
        (pendingAt points (uploadRow userId now req) (evictionOrder points).length true))
  | last (hnew : findPoint points (userId, req.id) = none)
      (hfull : ∀ j, ¬Fits limits (afterEvicting points (uploadRow userId now req) j)) :
      Stage limits points bytes userId now req 1 (.uploadEvict
        (pendingAt points (uploadRow userId now req) (evictionOrder points).length true))
  | adjust (k : ℕ) (hnew : findPoint points (userId, req.id) = none)
      (hfits : Fits limits (afterEvicting points (uploadRow userId now req) k))
      (hbefore : ∀ j < k, ¬Fits limits (afterEvicting points (uploadRow userId now req) j)) :
      Stage limits points bytes userId now req 2
        (.uploadAdjust (pendingAt points (uploadRow userId now req) k false))
  | commit (k : ℕ) (hnew : findPoint points (userId, req.id) = none)
      (hfits : Fits limits (afterEvicting points (uploadRow userId now req) k))
      (hbefore : ∀ j < k, ¬Fits limits (afterEvicting points (uploadRow userId now req) j)) :
      Stage limits points bytes userId now req 1
        (.uploadCommit (pendingAt points (uploadRow userId now req) k false)
          (countAfter points bytes (uploadRow userId now req) k))

/-! ### One statement of an upload -/

theorem findPoint_pointsOf (table : List RestorePointRow) (userId id : Uuid) :
    findPoint (pointsOf table userId) (userId, id) = findPoint table (userId, id) := by
  rw [findPoint, findPoint, pointsOf, List.find?_filter]
  congr 1
  ext p
  rw [decide_eq_decide, decide_eq_true_iff, decide_eq_true_iff, and_iff_right_iff_imp]
  exact fun hkey => congrArg Prod.fst hkey

/-- The points of an upload that has evicted the first ones of the order. -/
theorem uploadView_pendingAt (hpoints : pointsOf s.points row.userId = points) (retried : Bool) :
    s.uploadView (pendingAt points row k retried) = afterEvicting points row k := by
  rw [uploadView, afterEvicting, ← hpoints]
  exact congrArg (· ++ [row]) (List.filter_comm _ _ _)

/-- Past the last point of the order there is nothing to evict. -/
theorem not_fits_of_length (h : ∀ j ≤ (evictionOrder points).length,
    ¬Fits limits (afterEvicting points row j)) (j : ℕ) : ¬Fits limits (afterEvicting points row j) := by
  rcases le_total j (evictionOrder points).length with hle | hge
  · exact h j hle
  · have hall := h _ le_rfl
    rwa [afterEvicting, List.take_length, ← List.take_of_length_le hge] at hall

theorem findPoint_afterEvicting (hnew : findPoint points row.key = none) :
    findPoint (afterEvicting points row k) row.key = some row := by
  have hnone : findPoint (without points ((evictionOrder points).take k)) row.key = none := by
    refine List.find?_eq_none.mpr fun p hp => ?_
    exact List.find?_eq_none.mp hnew p ((without_sublist _ _).subset hp)
  rw [findPoint, afterEvicting, List.find?_append]
  rw [findPoint] at hnone
  rw [hnone]
  simp

/-- One eviction more. -/
theorem pendingAt_succ {victim : RestorePointRow} (hvictim : (evictionOrder points)[k]? = some victim) :
    pendingAt points row (k + 1) false = { pendingAt points row k false with
      evicted := (pendingAt points row k false).evicted ++ [victim]
      delta := (pendingAt points row k false).delta - victim.sizeBytes
      retried := false } := by
  have htake : (evictionOrder points).take (k + 1) = (evictionOrder points).take k ++ [victim] := by
    rw [List.take_add_one, hvictim]
    rfl
  have hsum : sumBytes [victim] = victim.sizeBytes := by simp [sumBytes]
  simp only [pendingAt, htake, sumBytes_append, hsum, PendingUpload.mk.injEq, true_and, and_true]
  omega

/-- While no prune is under way, the holder of a user's lock may lock all that is the user's. -/
theorem free_row (h : Guarded s) (hcalm : Calm s) {key : PointKey}
    (hlock : s.userLocks key.1 = some slot) : s.rowLocks.free slot key = true := by
  rw [Locks.free_iff]
  cases hheld : s.rowLocks key with
  | none => exact Or.inl rfl
  | some other =>
    rcases h.rows key other hheld with hother | ⟨call, hcall, hprune⟩
    · exact Or.inr (hother.symm.trans hlock)
    · rw [hcalm other call hcall] at hprune
      cases hprune

theorem free_stats (h : Guarded s) (hcalm : Calm s) {userId : Uuid}
    (hlock : s.userLocks userId = some slot) : s.statsLocks.free slot userId = true := by
  rw [Locks.free_iff]
  cases hheld : s.statsLocks userId with
  | none => exact Or.inl rfl
  | some other =>
    rcases h.stats userId other hheld with hother | ⟨call, hcall, hprune⟩
    · exact Or.inr (hother.symm.trans hlock)
    · rw [hcalm other call hcall] at hprune
      cases hprune

section Advance

variable {userId : Uuid} {n : ℕ}

/-- The upload goes on: it is a stage further, and its user's points and count are as they were. -/
def GoesOn (limits : RestorePointLimits) (points : List RestorePointRow) (bytes : Option ℤ)
    (userId : Uuid) (now : DateTime) (req : UploadPointRequest) (slot n : ℕ) (s' : PointServer) :
    Prop :=
  ∃ m next, m < n ∧ s'.calls slot = some next ∧ Stage limits points bytes userId now req m next ∧
    pointsOf s'.points userId = points ∧ s'.restorePointBytes userId = bytes

/-- The upload has ended. -/
def HasEnded (limits : RestorePointLimits) (points : List RestorePointRow) (bytes : Option ℤ)
    (row : RestorePointRow) (slot : ℕ) (call : PointCall) (s s' : PointServer) : Prop :=
  s'.calls slot = none ∧ ∃ answer, s'.answers = s.answers ++ [(slot, answer)] ∧
    (∀ e, answer = .error e →
      s'.points = s.points ∧ s'.restorePointBytes = s.restorePointBytes) ∧
    Outcome limits points bytes row answer (s.uploadReturns call) (pointsOf s'.points row.userId)
      (s'.restorePointBytes row.userId)

variable (hpoints : pointsOf s.points userId = points)
  (hbytes : s.restorePointBytes userId = bytes)

include hpoints hbytes

theorem goesOn_goto {m : ℕ} {next : PointCall} (hlt : m < n)
    (hstage : Stage limits points bytes userId now req m next) :
    GoesOn limits points bytes userId now req slot n (s.goto slot next) :=
  ⟨m, next, hlt, Function.update_self _ _ _, hstage, hpoints, hbytes⟩

/-- A refusal leaves everything as it was. -/
theorem hasEnded_refused {e : PointError} (hnew : findPoint points (userId, req.id) = none)
    (hreturns : s.uploadReturns call = none)
    (hfull : e = .conflict "restore_point_limit" →
      ∀ j, ¬Fits limits (afterEvicting points (uploadRow userId now req) j)) :
    HasEnded limits points bytes (uploadRow userId now req) slot call s
      (s.finish slot (.error e)) := by
  refine ⟨Function.update_self _ _ _, .error e, rfl, fun _ _ => ⟨rfl, rfl⟩, ?_⟩
  show Outcome limits points bytes _ _ _ (pointsOf s.points userId) (s.restorePointBytes userId)
  rw [hpoints, hbytes, hreturns]
  exact .refused e hnew hfull

variable (requireEncryption) in
/-- **One statement of an upload** takes it a stage further or ends it. -/
theorem stage_advance (h : Guarded s) (hcalm : Calm s) (hcall : s.calls slot = some call)
    (hstage : Stage limits points bytes userId now req n call) (chunk : List RestorePointRow) :
    GoesOn limits points bytes userId now req slot n
        (s.advance limits requireEncryption slot chunk) ∨
      HasEnded limits points bytes (uploadRow userId now req) slot call s
        (s.advance limits requireEncryption slot chunk) := by
  have hkeys : (points.map RestorePointRow.key).Nodup :=
    hpoints ▸ (List.filter_sublist.map _).nodup h.keys
  have hone : ∀ p ∈ points, p.userId = userId := by
    rw [← hpoints]
    exact fun p hp => of_decide_eq_true (List.mem_filter.mp hp).2
  have hfresh : findPoint points (userId, req.id) = none → ∀ p ∈ points, p.id ≠ req.id := by
    intro hnew p hp hid
    refine findPoint_none hnew (List.mem_map.mpr ⟨p, hp, ?_⟩)
    rw [RestorePointRow.key, hone p hp, hid]
  have hfind : findPoint s.points (userId, req.id) = findPoint points (userId, req.id) := by
    rw [← hpoints, findPoint_pointsOf]
  have hview : ∀ k retried, s.uploadView (pendingAt points (uploadRow userId now req) k retried) =
      afterEvicting points (uploadRow userId now req) k :=
    fun k retried => uploadView_pendingAt hpoints retried
  have hvictim : findPoint points (userId, req.id) = none → ∀ k retried,
      victim? (s.uploadView (pendingAt points (uploadRow userId now req) k retried))
        (pendingAt points (uploadRow userId now req) k retried).row.id =
          (evictionOrder points)[k]? := by
    intro hnew k retried
    rw [hview]
    exact victim?_afterEvicting hkeys hone (hfresh hnew) k
  have hlock : s.userLocks userId = some slot := by
    refine h.users slot call userId hcall ?_
    cases hstage <;> rfl
  rw [advance, hcall]
  cases hstage with
  | lookup =>
    simp only [uploadLookup, hfind]
    cases hold : findPoint points (userId, req.id) with
    | none => exact Or.inl (goesOn_goto hpoints hbytes (by omega) (.settings hold))
    | some old =>
      refine Or.inr ⟨Function.update_self _ _ _, .ok (), rfl, (by rintro _ ⟨⟩), ?_⟩
      show Outcome limits points bytes _ _ (findPoint s.points (userId, req.id))
        (pointsOf s.points userId) (s.restorePointBytes userId)
      rw [hpoints, hbytes, hfind, hold]
      exact .stored old hold
  | settings hnew =>
    simp only [uploadSettings]
    cases s.settings userId with
    | none => exact Or.inr (hasEnded_refused hpoints hbytes hnew rfl (by simp))
    | some settings =>
      simp only
      split_ifs
      · exact Or.inr (hasEnded_refused hpoints hbytes hnew rfl (by simp))
      · exact Or.inr (hasEnded_refused hpoints hbytes hnew rfl (by simp))
      · exact Or.inl (goesOn_goto hpoints hbytes (by omega) (.recent hnew))
      · exact Or.inl (goesOn_goto hpoints hbytes (by omega) (.insert hnew))
  | recent hnew =>
    simp only [uploadRecent]
    split_ifs
    · exact Or.inr (hasEnded_refused hpoints hbytes hnew rfl (by simp))
    · exact Or.inl (goesOn_goto hpoints hbytes (by omega) (.insert hnew))
  | insert hnew =>
    simp only [uploadInsert, hfind, hnew]
    have hlength : (evictionOrder points).length ≤ points.length := by
      rw [(evictionOrder_perm points).length_eq]
      exact List.length_filter_le _ _
    have hstart : pendingAt points (uploadRow userId now req) 0 false =
        ⟨uploadRow userId now req, [], req.size, false⟩ := by
      simp [pendingAt, uploadRow, sumBytes]
    refine Or.inl (goesOn_goto hpoints hbytes (m := 2 * (evictionOrder points).length + 4)
      (by omega) ?_)
    have hstage : Stage limits points bytes userId now req (2 * (evictionOrder points).length + 4)
        (.uploadUsage (pendingAt points (uploadRow userId now req) 0 false)) :=
      .usage 0 _ hnew (Nat.zero_add _) fun _ hj => absurd hj (Nat.not_lt_zero _)
    rwa [hstart] at hstage
  | usage k left hnew hleft hbefore =>
    simp only [uploadUsage, hview]
    split_ifs with hfits
    · exact Or.inl (goesOn_goto hpoints hbytes (by omega) (.adjust k hnew hfits hbefore))
    · refine Or.inl (goesOn_goto hpoints hbytes (by omega) (.evict k left hnew hleft ?_))
      exact fun j hj => (Nat.lt_or_eq_of_le hj).elim (hbefore j) fun heq => heq ▸ hfits
  | evict k left hnew hleft hbefore =>
    simp only [uploadEvict, hvictim hnew]
    cases hnext : (evictionOrder points)[k]? with
    | none =>
      -- only pinned points are left: the usage is counted once more
      have hk : k = (evictionOrder points).length := by
        have := List.getElem?_eq_none_iff.mp hnext
        omega
      subst hk
      exact Or.inl (goesOn_goto hpoints hbytes (by omega) (.again hnew (not_fits_of_length hbefore)))
    | some victim =>
      obtain ⟨hlt, -⟩ := List.getElem?_eq_some_iff.mp hnext
      have hmem := (mem_evictionOrder.mp (List.mem_of_getElem? hnext)).1
      have hfree : s.rowLocks.free slot victim.key = true := free_row h hcalm (by
        rw [RestorePointRow.key, hone victim hmem]
        exact hlock)
      simp only [Option.filter_some, hfree, if_true]
      refine Or.inl ⟨2 * (left - 1) + 4, _, by omega, Function.update_self _ _ _, ?_, hpoints, hbytes⟩
      rw [← pendingAt_succ hnext]
      exact .usage (k + 1) (left - 1) hnew (by omega) fun j hj => hbefore j (by omega)
  | again hnew hfull =>
    simp only [uploadUsage, hview]
    rw [if_neg (hfull _)]
    exact Or.inl (goesOn_goto hpoints hbytes (by omega) (.last hnew hfull))
  | last hnew hfull =>
    simp only [uploadEvict, hvictim hnew, List.getElem?_length, Option.filter_none]
    exact Or.inr (hasEnded_refused hpoints hbytes hnew rfl fun _ => hfull)
  | adjust k hnew hfits hbefore =>
    have hfree : s.statsLocks.free slot
        (pendingAt points (uploadRow userId now req) k false).row.userId = true :=
      free_stats h hcalm hlock
    simp only [adjustRestorePointBytes, hfree, if_true]
    refine Or.inl ⟨1, _, by omega, Function.update_self _ _ _, ?_, hpoints, hbytes⟩
    have hcount : s.adjusted userId (pendingAt points (uploadRow userId now req) k false).delta =
        countAfter points bytes (uploadRow userId now req) k := by
      rw [adjusted, hbytes]
      rfl
    exact hcount ▸ .commit k hnew hfits hbefore
  | commit k hnew hfits hbefore =>
    refine Or.inr ⟨Function.update_self _ _ _, .ok (), rfl, (by rintro _ ⟨⟩), ?_⟩
    have hleft : pointsOf (without s.points (pendingAt points (uploadRow userId now req) k
        false).evicted ++ [uploadRow userId now req]) userId =
          afterEvicting points (uploadRow userId now req) k := by
      rw [← hview k false]
      exact (pointsOf_commit (pendingAt points (uploadRow userId now req) k false) userId).trans
        (if_pos rfl)
    show Outcome limits points bytes _ _
      (findPoint (s.uploadView (pendingAt points (uploadRow userId now req) k false))
        (uploadRow userId now req).key) (pointsOf _ userId)
      (Function.update s.restorePointBytes userId _ userId)
    rw [hview, findPoint_afterEvicting hnew, Function.update_self]
    exact hleft ▸ .created k hnew hfits hbefore

end Advance

/-! ### Runs -/

/-- The statements of the handler of a slot in a run. -/
def ownSteps (slot : ℕ) (events : List PointEvent) : ℕ :=
  events.countP fun
    | .advance other _ => other == slot
    | _ => false

theorem ownSteps_cons_advance (slot : ℕ) (chunk : List RestorePointRow) (events : List PointEvent) :
    ownSteps slot (.advance slot chunk :: events) = ownSteps slot events + 1 := by
  simp [ownSteps]

theorem ownSteps_cons_beside {event : PointEvent} (h : Beside slot event)
    (events : List PointEvent) : ownSteps slot (event :: events) = ownSteps slot events := by
  cases event <;> simp_all [ownSteps, Beside]

/-- Events during an upload without a prune beside it; its own handler is not cut off. -/
def Uninterrupted (slot : ℕ) (event : PointEvent) : Prop := PruneFree event ∧ event ≠ .drop slot

variable (requireEncryption) in
/-- **An upload under way**: it goes on, with the points and the count of its user as they were,
or it has ended, before it has executed more statements than it had left. -/
theorem stage_run {userId : Uuid} {n : ℕ} (h : Guarded s) (hcalm : Calm s)
    (hcall : s.calls slot = some call) (hpoints : pointsOf s.points userId = points)
    (hbytes : s.restorePointBytes userId = bytes)
    (hstage : Stage limits points bytes userId now req n call) {events : List PointEvent}
    (hevents : ∀ event ∈ events, Uninterrupted slot event) :
    GoesOn limits points bytes userId now req slot (n + 1 - ownSteps slot events)
        (run limits requireEncryption s events) ∨
      ∃ before chunk after call, events = before ++ .advance slot chunk :: after ∧
        ownSteps slot before < n ∧
        (run limits requireEncryption s before).calls slot = some call ∧
        pointsOf (run limits requireEncryption s before).points userId = points ∧
        (run limits requireEncryption s before).restorePointBytes userId = bytes ∧
        HasEnded limits points bytes (uploadRow userId now req) slot call
          (run limits requireEncryption s before)
          (run limits requireEncryption s (before ++ [.advance slot chunk])) := by
  induction events generalizing s n call with
  | nil => exact Or.inl ⟨n, call, by simp [ownSteps], hcall, hstage, hpoints, hbytes⟩
  | cons event events ih =>
    obtain ⟨⟨hfree, hkept⟩, hrest⟩ := List.forall_mem_cons.mp hevents
    have hguarded := guarded_step limits requireEncryption h event
    have hcalm' := calm_step limits requireEncryption h hcalm hfree
    by_cases hbeside : Beside slot event
    · have huser : call.lockedUser? = some userId := by cases hstage <;> rfl
      obtain ⟨hcall', hpoints', hbytes'⟩ := beside_step limits requireEncryption
        h hcalm hcall huser hbeside
      rcases ih hguarded hcalm' hcall' (hpoints'.trans hpoints) (hbytes'.trans hbytes) hstage hrest with
        hgoes | ⟨before, chunk, after, call', rfl, hlt, hended⟩
      · rw [ownSteps_cons_beside hbeside]
        exact Or.inl hgoes
      · refine Or.inr ⟨event :: before, chunk, after, call', rfl, ?_, hended⟩
        rwa [ownSteps_cons_beside hbeside]
    · obtain ⟨chunk, rfl⟩ : ∃ chunk, event = .advance slot chunk := by
        cases event <;> simp_all [Beside]
      rcases stage_advance requireEncryption hpoints hbytes h hcalm hcall hstage chunk with
        ⟨m, next, hlt, hcall', hstage', hpoints', hbytes'⟩ | hended
      · rcases ih hguarded hcalm' hcall' hpoints' hbytes' hstage' hrest with
          hgoes | ⟨before, chunk', after, call', rfl, hlt', hended⟩
        · obtain ⟨m', next', hlt', hrest'⟩ := hgoes
          refine Or.inl ⟨m', next', ?_, hrest'⟩
          rw [ownSteps_cons_advance]
          omega
        · refine Or.inr ⟨.advance slot chunk :: before, chunk', after, call', rfl, ?_, hended⟩
          rw [ownSteps_cons_advance]
          omega
      · refine Or.inr ⟨[], chunk, events, call, rfl, ?_, hcall, hpoints, hbytes, hended⟩
        cases hstage <;> simp [ownSteps]

/-- A server that serves no handler, with any table of points. -/
structure Idle (s : PointServer) : Prop where
  keys : (s.points.map RestorePointRow.key).Nodup
  calls : s.calls = fun _ => none
  rowLocks : s.rowLocks = Locks.empty
  statsLocks : s.statsLocks = Locks.empty

theorem Idle.guarded (h : Idle s) : Guarded s where
  keys := h.keys
  users _ _ _ hcall := by simp [h.calls] at hcall
  rows _ _ hkey := by simp [h.rowLocks, Locks.empty] at hkey
  stats _ _ hkey := by simp [h.statsLocks, Locks.empty] at hkey
  uploads _ _ _ hcall := by simp [h.calls] at hcall

/-- **Eviction is minimal and safe.** From any table of points, after any run, let an upload have
taken the lock of its user while no prune is under way, and let anything but a prune run beside it.
Until it ends, which it does within a number of its statements that the number of points bounds, the
user's points and their count stay as they are. It ends with the stored point, if there is one with
its id, or with a refusal, and then it has changed nothing; or it has evicted the shortest prefix of
the unpinned points, in the order of eviction, that makes room, and the new point and the pinned ones
are there. -/
theorem upload_evicts (limits : RestorePointLimits) (requireEncryption : Bool) {s₀ : PointServer}
    (hidle : Idle s₀) (earlier : List PointEvent) {slot : ℕ} {userId : Uuid} {now : DateTime}
    {req : UploadPointRequest}
    (hlocked : (run limits requireEncryption s₀ earlier).calls slot =
      some (.uploadLookup userId now req))
    (hcalm : Calm (run limits requireEncryption s₀ earlier)) {events : List PointEvent}
    (hevents : ∀ event ∈ events, Uninterrupted slot event) :
    let s := run limits requireEncryption s₀ earlier
    let points := pointsOf s.points userId
    let bytes := s.restorePointBytes userId
    let row := uploadRow userId now req
    (((run limits requireEncryption s events).calls slot ≠ none ∧
        ownSteps slot events < 2 * points.length + 8 ∧
        pointsOf (run limits requireEncryption s events).points userId = points ∧
        (run limits requireEncryption s events).restorePointBytes userId = bytes) ∨
      ∃ before chunk after call, events = before ++ .advance slot chunk :: after ∧
        ownSteps slot before < 2 * points.length + 8 ∧
        (run limits requireEncryption s before).calls slot = some call ∧
        pointsOf (run limits requireEncryption s before).points userId = points ∧
        (run limits requireEncryption s before).restorePointBytes userId = bytes ∧
        HasEnded limits points bytes row slot call (run limits requireEncryption s before)
          (run limits requireEncryption s (before ++ [.advance slot chunk]))) ∧
      ((evictionOrder points).Perm (points.filter fun p => p.pinned = false) ∧
        (evictionOrder points).Pairwise EvictedBefore ∧
        ∀ k other, other = row ∨ other ∈ points ∧ other.pinned = true →
          other ∈ afterEvicting points row k) ∧
      ∀ (t : PointServer) (other : ℕ) (e : PointError), validateUpload limits req = .error e →
        (step limits requireEncryption t (.upload other userId req)).points = t.points ∧
          (step limits requireEncryption t (.upload other userId req)).restorePointBytes =
            t.restorePointBytes := by
  intro s points bytes row
  have hkept : ∀ t event, Guarded t → Guarded (step limits requireEncryption t event) :=
    fun _ event ht => guarded_step limits requireEncryption ht event
  have h : Guarded s := Runs.invariant hkept hidle.guarded earlier
  refine ⟨?_, ⟨evictionOrder_perm points, evictionOrder_pairwise points, fun k other hother => ?_⟩,
    fun t other e hinvalid => ?_⟩
  · rcases stage_run requireEncryption h hcalm hlocked rfl rfl .lookup hevents
      with ⟨m, next, hlt, hcall, hstage, hpoints, hbytes⟩ | hended
    · have hleft : 1 ≤ m := by cases hstage <;> omega
      refine Or.inl ⟨by simp [hcall], ?_, hpoints, hbytes⟩
      show ownSteps slot events < 2 * (pointsOf s.points userId).length + 8
      omega
    · exact Or.inr hended
  · exact mem_afterEvicting ((List.filter_sublist.map _).nodup h.keys) hother
  · simp only [step, enter, hinvalid, Except.map]
    split <;> exact ⟨rfl, rfl⟩

/-- Limits of one point. -/
def onePointLimits : RestorePointLimits :=
  ⟨1000, 1000, 1, 1, 0, 0, by decide, by decide, by decide, by decide⟩

/-- A server with one point that was made automatically. -/
def onePoint : PointServer :=
  { start (fun _ => some ⟨false, true⟩) 100 with points := [⟨1, 7, "scheduled", 10, false, 50⟩] }

/-- The upload of a point by hand, up to its first statement under the lock. -/
def onePointUpload : List PointEvent :=
  [.upload 0 1 ⟨8, "manual", 0, 0, none, "\x7b\x7d"⟩, .advance 0 []]

theorem upload_evicts_onePoint :
    ∃ before chunk after call, List.replicate 10 (PointEvent.advance 0 []) =
        before ++ .advance 0 chunk :: after ∧
      HasEnded onePointLimits [⟨1, 7, "scheduled", 10, false, 50⟩] none
        (uploadRow 1 100 ⟨8, "manual", 0, 0, none, "\x7b\x7d"⟩) 0 call
        (run onePointLimits false (run onePointLimits false onePoint onePointUpload) before)
        (run onePointLimits false (run onePointLimits false onePoint onePointUpload)
          (before ++ [.advance 0 chunk])) := by
  have hcalls : (run onePointLimits false onePoint onePointUpload).calls =
      Function.update (Function.update (fun _ => none) 0
        (some (.uploadLock 1 100 ⟨8, "manual", 0, 0, none, "\x7b\x7d"⟩))) 0
        (some (.uploadLookup 1 100 ⟨8, "manual", 0, 0, none, "\x7b\x7d"⟩)) := rfl
  have hidle : Idle onePoint := ⟨List.nodup_singleton _, rfl, rfl, rfl⟩
  have hlocked : (run onePointLimits false onePoint onePointUpload).calls 0 =
      some (.uploadLookup 1 100 ⟨8, "manual", 0, 0, none, "\x7b\x7d"⟩) := by rw [hcalls]; rfl
  have hcalm : Calm (run onePointLimits false onePoint onePointUpload) := by
    intro other call hcall
    rw [hcalls] at hcall
    by_cases hother : other = 0
    · subst hother
      cases hcall
      rfl
    · simp [hother] at hcall
  have hevents : ∀ event ∈ List.replicate 10 (PointEvent.advance 0 []), Uninterrupted 0 event := by
    intro event hevent
    rw [List.eq_of_mem_replicate hevent]
    exact ⟨trivial, nofun⟩
  have h := upload_evicts onePointLimits false hidle onePointUpload hlocked hcalm hevents
  rcases h.1 with ⟨-, hlt, -⟩ | ⟨before, chunk, after, call, hsplit, -, -, -, -, hended⟩
  · exact absurd hlt (by decide)
  · exact ⟨before, chunk, after, call, hsplit, hended⟩

end PointServer

end HelixSync
