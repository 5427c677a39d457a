import HelixSync.Server.OneByOne
import HelixSync.Server.Steps

/-!
# Visit hours

`history_visit_hours` counts the visits of a user hour by hour. An upload adds the histograms of
the operations it accepts, and nothing else writes the table but housekeeping, which removes
hours that are too old and is not modelled here. Compaction deletes the operations themselves
and leaves their hours.

So the table is the sum over the operations ever accepted
(`HelixSync.Server.visitHours_conserved`). A chunk of an imported history is among them once
only, since the ledger remembers it when its row is gone.
-/

namespace HelixSync

/-- The visits an operation stands for: the count of a chunk, one for a single visit. -/
def OperationIn.visits (op : OperationIn) : ℤ :=
  if op.objectType ≠ .historyVisit then 0
  else if op.isBulkHistoryImport then op.visitCount.getD 0
  else 1

/-! ### The histogram of an operation -/

theorem foldlM_checkedAdd (counts : List ℤ) : ∀ start sum : ℤ,
    counts.foldlM checkedAdd start = some sum → sum = start + counts.sum := by
  induction counts with
  | nil =>
    intro start sum h
    rw [List.sum_nil, add_zero]
    exact (Option.some.inj h).symm
  | cons count counts ih =>
    intro start sum h
    rw [List.foldlM_cons, checkedAdd] at h
    split at h
    · rw [ih _ _ h, List.sum_cons, add_assoc]
    · exact absurd h (by simp)

/-- **A histogram adds up** to the visits of its operation. -/
theorem ShapeOk.sum_hourEntries {now : DateTime} {require : Bool} {op : OperationIn}
    (hok : ShapeOk now require op) : (op.hourEntries.map Prod.snd).sum = op.visits := by
  have hallowed := hok.mem_allowed
  have hhours : checkVisitHours now op = .ok () := by
    unfold ShapeOk checkOpShape at hok
    split_ifs at hok
    rcases hcount : checkVisitCount op with e | u
    · rw [hcount] at hok
      exact absurd hok (by simp [bind, Except.bind])
    · rw [hcount] at hok
      exact hok
  unfold checkVisitHours at hhours
  rw [OperationIn.hourEntries, OperationIn.visits]
  by_cases htype : op.objectType = .historyVisit
  · rw [if_neg (not_not.mpr htype)] at hhours
    rw [if_pos htype, if_neg (not_not.mpr htype)]
    rcases hh : op.visitHours with _ | hours
    · rw [hh] at hhours
      exact absurd hhours (by simp)
    · rw [hh] at hhours
      dsimp only at hhours
      split_ifs at hhours with hlen hvalid
      rcases hsum : (hours.entries.map Prod.snd).foldlM checkedAdd 0 with _ | sum
      · rw [hsum] at hhours
        exact absurd hhours (by simp)
      · have htotal := foldlM_checkedAdd _ _ _ hsum
        rw [zero_add] at htotal
        rw [hsum] at hhours
        rw [htype] at hallowed
        simp only [Option.map_some, Option.getD_some, ← htotal]
        simp only [allowedOperationTypes, List.mem_cons, List.not_mem_nil, or_false] at hallowed
        rcases hallowed with hvisit | hbulk
        · -- a single visit
          have hnot : op.isBulkHistoryImport = false := by
            simp [OperationIn.isBulkHistoryImport, hvisit]
          rw [hnot, if_neg Bool.false_ne_true]
          rw [hvisit] at hhours
          simp only [Bool.or_eq_true, bne_iff_ne] at hhours
          split_ifs at hhours with hmismatch
          push Not at hmismatch
          exact hmismatch.2
        · -- a chunk
          have hb : op.isBulkHistoryImport = true := by
            simp [OperationIn.isBulkHistoryImport, htype, hbulk]
          rw [hb, if_pos rfl]
          rw [hbulk] at hhours
          simp only [bne_iff_ne] at hhours
          split_ifs at hhours with hmismatch
          rw [← not_not.mp hmismatch]
          rfl
  · rw [if_neg htype, if_pos htype]
    rfl

/-! ### The buckets -/

section Buckets

variable (hour : DateTime) (entries : List (DateTime × ℤ))

/-- Buckets are sums. -/
theorem foldl_bumpHour (old : Option ℤ) : (entries.foldl (bumpHour hour) old).getD 0 =
    old.getD 0 + ((entries.filter fun entry => entry.1 = hour).map Prod.snd).sum := by
  induction entries generalizing old with
  | nil => simp
  | cons entry entries ih =>
    rw [List.foldl_cons, ih, bumpHour]
    by_cases h : entry.1 = hour
    · rw [if_pos h, List.filter_cons_of_pos (by simpa using h), List.map_cons, List.sum_cons]
      simp [add_assoc]
    · rw [if_neg h, List.filter_cons_of_neg (by simpa using h)]

theorem isSome_foldl_bumpHour (old : Option ℤ) :
    (entries.foldl (bumpHour hour) old).isSome = true ↔
      old.isSome = true ∨ hour ∈ entries.map Prod.fst := by
  induction entries generalizing old with
  | nil => simp
  | cons entry entries ih =>
    rw [List.foldl_cons, ih, bumpHour, List.map_cons, List.mem_cons, ← or_assoc]
    by_cases h : entry.1 = hour
    · simp [h]
    · simp [h, Ne.symm h]

/-- All buckets together hold all counts. -/
theorem sum_buckets : ∑ hour ∈ (entries.map Prod.fst).toFinset,
    ((entries.filter fun entry => entry.1 = hour).map Prod.snd).sum = (entries.map Prod.snd).sum := by
  have hgeneral : ∀ hours : Finset DateTime, (∀ entry ∈ entries, entry.1 ∈ hours) →
      ∑ hour ∈ hours, ((entries.filter fun entry => entry.1 = hour).map Prod.snd).sum =
        (entries.map Prod.snd).sum := by
    intro hours hall
    induction entries with
    | nil => simp
    | cons entry entries ih =>
      have hrest := ih fun e he => hall e (List.mem_cons_of_mem _ he)
      rw [List.map_cons, List.sum_cons, ← hrest,
        ← Finset.sum_ite_eq_of_mem hours entry.1 (fun _ => entry.2) (hall entry List.mem_cons_self),
        ← Finset.sum_add_distrib]
      refine Finset.sum_congr rfl fun hour _ => ?_
      by_cases h : entry.1 = hour
      · rw [List.filter_cons_of_pos (by simpa using h), List.map_cons, List.sum_cons, if_pos h]
      · rw [List.filter_cons_of_neg (by simpa using h), if_neg h, zero_add]
  exact hgeneral _ fun entry hentry => by
    rw [List.mem_toFinset]
    exact List.mem_map_of_mem hentry

end Buckets

/-! ### Every run -/

namespace Server

variable {cfg : Config} {s : Server} {userId : Uuid}

/-- The operations of a user that an event makes the server accept: those an upload accepts, if
the request does not fail. -/
def acceptedBy (cfg : Config) (s : Server) (userId : Uuid) : Event → List OperationIn
  | .upload deviceId ops => match s.authenticate deviceId with
      | none => []
      | some device => match s.db.device? device.deviceId, processBatch cfg s.now s.db device ops with
          | some d, .ok _ =>
              if device.userId = userId then s.db.accepts cfg s.now device d ops else []
          | _, _ => []
  | _ => []

/-- The operations of a user that a run makes the server accept. -/
def acceptedIn (cfg : Config) (userId : Uuid) : Server → List Event → List OperationIn
  | _, [] => []
  | s, e :: es => s.acceptedBy cfg userId e ++ acceptedIn cfg userId (step cfg s e) es

/-- **What an event does to the hours and the ledger of a user**: it adds the hours of the
operations it makes the server accept, and the ledger remembers their chunks, which it did not
hold. -/
structure HoursStep (s : Server) (userId : Uuid) (accepted : List OperationIn) (s' : Server) :
    Prop where
  hours : ∀ hour, s'.db.historyVisitHours userId hour =
    (accepted.flatMap OperationIn.hourEntries).foldl (bumpHour hour)
      (s.db.historyVisitHours userId hour)
  shape : ∀ op ∈ accepted, ∃ require, ShapeOk s.now require op
  ledger : s.db.syncObjects ⊆ s'.db.syncObjects
  remembered : ∀ op ∈ accepted, op.isBulkHistoryImport = true →
    (userId, op.objectKey) ∉ s.db.syncObjects ∧ (userId, op.objectKey) ∈ s'.db.syncObjects
  once : accepted.Pairwise fun a b => a.isBulkHistoryImport = true →
    b.isBulkHistoryImport = true → a.objectId ≠ b.objectId

theorem HoursStep.of_same {s' : Server}
    (hhours : s'.db.historyVisitHours userId = s.db.historyVisitHours userId)
    (hledger : s.db.syncObjects ⊆ s'.db.syncObjects) : HoursStep s userId [] s' :=
  ⟨fun _ => by rw [hhours]; rfl, fun _ h => absurd h List.not_mem_nil, hledger,
    fun _ h => absurd h List.not_mem_nil, List.Pairwise.nil⟩

theorem hoursStep_upload (deviceId : Uuid) (ops : List OperationIn) :
    HoursStep s userId (s.acceptedBy cfg userId (.upload deviceId ops))
      (step cfg s (.upload deviceId ops)) := by
  rw [acceptedBy, step]
  rcases hauth : s.authenticate deviceId with _ | device
  · exact HoursStep.of_same rfl (Finset.Subset.refl _)
  · dsimp only
    obtain ⟨d, hd, rfl⟩ := Option.map_eq_some_iff.mp hauth
    obtain rfl := Db.device?_id hd
    rw [hd]
    rcases hproc : processBatch cfg s.now s.db ⟨d.userId, d.id⟩ ops with error | ⟨out, db'⟩
    · rw [upload, hproc]
      exact HoursStep.of_same rfl (Finset.Subset.refl _)
    · have hledger := ledger_processBatch hd hproc
      rw [upload, hproc]
      dsimp only
      split
      · rename_i hu
        subst hu
        refine ⟨fun hour => ?_, fun op hop => ⟨_, (ready_of_mem_accepts hop).shape⟩, hledger.2.1,
          fun op hop hb => ⟨not_mem_ledger_of_accepts hop hb, hledger.2.2 op hop hb⟩,
          accepts_pairwise_bulk ops⟩
        rcases processBatch_ok hproc with ⟨rfl, hnone⟩ | ⟨d', hd', -, hwrite⟩
        · rw [hnone d hd]
          rfl
        · obtain rfl := Option.some.inj (hd.symm.trans hd')
          exact hours_writeBatch hwrite hour
      · rename_i hu
        refine HoursStep.of_same ?_ hledger.2.1
        rcases processBatch_ok hproc with ⟨rfl, -⟩ | ⟨_, _, _, hwrite⟩
        · rfl
        · exact (tombstones_writeBatch_of_ne hwrite fun heq => hu heq.symm).2.2

theorem hoursStep (e : Event) :
    HoursStep s userId (s.acceptedBy cfg userId e) (step cfg s e) := by
  by_cases hupload : ∃ deviceId ops, e = .upload deviceId ops
  · obtain ⟨deviceId, ops, rfl⟩ := hupload
    exact hoursStep_upload deviceId ops
  · push Not at hupload
    have hstep : Step cfg s e (step cfg s e) := step_spec e
    have hnone : s.acceptedBy cfg userId e = [] := by
      cases e with
      | upload deviceId ops => exact absurd rfl (hupload _ _)
      | _ => rfl
    rw [hnone]
    refine HoursStep.of_same ?_ (frame_of_ne_upload hstep hupload).2.2.2
    generalize step cfg s e = s' at hstep
    cases hstep with
    | quiet hq => rw [hq.data.historyVisitHours]
    | idle => rfl
    | wrote _ _ _ _ => exact absurd rfl (hupload _ _)
    | committed _ hcommit =>
      rcases commitSnapshot_eq_some hcommit with ⟨rfl, -⟩ | ⟨rfl, -⟩ <;> rfl
    | pruned _ => rfl

/-- The hours of a user after a run. -/
theorem hours_run (events : List Event) (hour : DateTime) :
    (s.run cfg events).db.historyVisitHours userId hour =
      ((acceptedIn cfg userId s events).flatMap OperationIn.hourEntries).foldl (bumpHour hour)
        (s.db.historyVisitHours userId hour) := by
  induction events generalizing s with
  | nil => rfl
  | cons e events ih =>
    rw [run, Runs.run_cons, ih, (hoursStep e).hours hour, acceptedIn, List.flatMap_append,
      List.foldl_append]

theorem shapeOk_of_mem_acceptedIn {events : List Event} {op : OperationIn}
    (h : op ∈ acceptedIn cfg userId s events) : ∃ now require, ShapeOk now require op := by
  induction events generalizing s with
  | nil => exact absurd h List.not_mem_nil
  | cons e events ih =>
    rcases List.mem_append.mp h with h | h
    · obtain ⟨require, hok⟩ := (hoursStep e).shape op h
      exact ⟨s.now, require, hok⟩
    · exact ih h

/-- A chunk that the ledger holds is never accepted again. -/
theorem not_mem_ledger_of_acceptedIn {events : List Event} {op : OperationIn}
    (h : op ∈ acceptedIn cfg userId s events) (hb : op.isBulkHistoryImport = true) :
    (userId, op.objectKey) ∉ s.db.syncObjects := by
  induction events generalizing s with
  | nil => exact absurd h List.not_mem_nil
  | cons e events ih =>
    rcases List.mem_append.mp h with h | h
    · exact ((hoursStep e).remembered op h hb).1
    · have hstep := @hoursStep cfg s userId e
      exact fun hmem => ih h (hstep.ledger hmem)

theorem acceptedIn_pairwise_bulk (events : List Event) :
    (acceptedIn cfg userId s events).Pairwise fun a b => a.isBulkHistoryImport = true →
      b.isBulkHistoryImport = true → a.objectId ≠ b.objectId := by
  induction events generalizing s with
  | nil => exact List.Pairwise.nil
  | cons e events ih =>
    refine List.pairwise_append.mpr ⟨(hoursStep e).once, ih, fun a ha b hb hba hbb heq => ?_⟩
    refine not_mem_ledger_of_acceptedIn hb hbb ?_
    rw [objectKey_of_isBulk hbb, ← heq, ← objectKey_of_isBulk hba]
    exact ((hoursStep e).remembered a ha hba).2

/-- **Visit hours are conserved.** After every run, an hour of a user holds the visits that the
operations accepted in the run counted for it, and there is a row for it exactly if one of them
named it; the hours together hold the visits of these operations; and no two of them are chunks
of one object. -/
theorem visitHours_conserved (cfg : Config) (settings : Uuid → Option UserSettings) (now : DateTime)
    (events : List Event) (userId : Uuid) :
    (∀ hour, (((start settings now).run cfg events).db.historyVisitHours userId hour).getD 0 =
      ((acceptedIn cfg userId (start settings now) events).map fun op =>
        ((op.hourEntries.filter fun entry => entry.1 = hour).map Prod.snd).sum).sum) ∧
    (∃ hours : Finset DateTime,
      (∀ hour, hour ∈ hours ↔
        (((start settings now).run cfg events).db.historyVisitHours userId hour).isSome = true) ∧
      ∑ hour ∈ hours,
          (((start settings now).run cfg events).db.historyVisitHours userId hour).getD 0 =
        ((acceptedIn cfg userId (start settings now) events).map OperationIn.visits).sum) ∧
    (((acceptedIn cfg userId (start settings now) events).filter
      OperationIn.isBulkHistoryImport).map OperationIn.objectId).Nodup := by
  have hrun : ∀ hour, ((start settings now).run cfg events).db.historyVisitHours userId hour =
      ((acceptedIn cfg userId (start settings now) events).flatMap OperationIn.hourEntries).foldl
        (bumpHour hour) none := hours_run events
  have hvisits : ∀ op ∈ acceptedIn cfg userId (start settings now) events,
      (op.hourEntries.map Prod.snd).sum = op.visits := by
    intro op hop
    obtain ⟨_, _, hok⟩ := shapeOk_of_mem_acceptedIn hop
    exact hok.sum_hourEntries
  refine ⟨fun hour => ?_, ?_, ?_⟩
  · rw [hrun, foldl_bumpHour, Option.getD_none, zero_add, List.filter_flatMap, List.map_flatMap,
      List.flatMap_def, List.sum_flatten, List.map_map]
    rfl
  · refine ⟨(((acceptedIn cfg userId (start settings now) events).flatMap
      OperationIn.hourEntries).map Prod.fst).toFinset, fun hour => ?_, ?_⟩
    · rw [hrun, isSome_foldl_bumpHour, List.mem_toFinset]
      simp
    · simp only [hrun, foldl_bumpHour, Option.getD_none, zero_add]
      rw [sum_buckets, List.map_flatMap, List.flatMap_def, List.sum_flatten, List.map_map]
      exact congrArg List.sum (List.map_congr_left hvisits)
  · have hpairwise := @acceptedIn_pairwise_bulk cfg (start settings now) userId events
    rw [List.Nodup, List.pairwise_map, List.pairwise_filter]
    exact hpairwise.imp fun h ha hb => h ha hb

end Server

end HelixSync
