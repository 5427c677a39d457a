import HelixSync.Client.DownloadPage

/-!
# The effects of a page

A page is applied with one buffer for each object type and one for the ids to be recorded, so
the order in which its operations reach an applier, and the order in which they are recorded in
`applied_operations`, is neither the order of the page nor that of any other list. What the
rest of the development needs of that order is that an operation is recorded only after it has
been handed to an applier or skipped (`HelixSync.Client.Causal`), and that at the end of a page,
or before the first operation with an unsupported envelope, every operation is recorded
(`HelixSync.Client.applyActions_of_running`, `HelixSync.Client.applyActions_of_stops`).
-/

namespace HelixSync

namespace Client

variable {W : Type}

/-! ### The order of effects -/

/-- The operations an effect settles: it hands them to an applier, or skips them. -/
def Action.settles : Action → List Uuid
  | .callBatch _ items => items.map fun item => item.1.operationId
  | .call item => [item.1.operationId]
  | .skip op => [op.operationId]
  | _ => []

/-- The operations an effect records as applied. -/
def Action.marks : Action → List Uuid
  | .markAppliedBatch operationIds => operationIds
  | _ => []

/-- The operations effects settle. -/
def settledIds (actions : List Action) : List Uuid := actions.flatMap Action.settles

/-- The operations effects record as applied. -/
def markedIds (actions : List Action) : List Uuid := actions.flatMap Action.marks

/-- Each effect meets a condition on the operations settled before it. -/
def Along (P : List Uuid → Action → Prop) (done : List Uuid) : List Action → Prop
  | [] => True
  | action :: actions => P done action ∧ Along P (done ++ action.settles) actions

/-- **What is recorded has been settled**, by these effects or before. -/
abbrev Causal (done : List Uuid) (actions : List Action) : Prop :=
  Along (fun done action => ∀ id ∈ action.marks, id ∈ done) done actions

/-- An effect is what it should be: what is skipped is skipped on purpose, and what is handed
over is of the applier's type. -/
def Action.Legit (reader : Reader W) : Action → Prop
  | .callBatch objectType items => (reader.batchApplier objectType).isSome = true ∧
      ∀ item ∈ items, item.1.objectType = objectType
  | .call item => (reader.applier item.1.objectType).isSome = true
  | .skip op => Skips reader op
  | .updateCursor _ | .updateSnapshotCursor _ => False
  | _ => True

theorem settledIds_cons (a : Action) (as : List Action) :
    settledIds (a :: as) = a.settles ++ settledIds as :=
  List.flatMap_cons

theorem markedIds_cons (a : Action) (as : List Action) :
    markedIds (a :: as) = a.marks ++ markedIds as :=
  List.flatMap_cons

theorem settledIds_append (as bs : List Action) :
    settledIds (as ++ bs) = settledIds as ++ settledIds bs :=
  List.flatMap_append

theorem markedIds_append (as bs : List Action) :
    markedIds (as ++ bs) = markedIds as ++ markedIds bs :=
  List.flatMap_append

theorem along_append {P : List Uuid → Action → Prop} {done : List Uuid} {as bs : List Action} :
    Along P done (as ++ bs) ↔ Along P done as ∧ Along P (done ++ settledIds as) bs := by
  induction as generalizing done with
  | nil => simp [Along, settledIds]
  | cons a as ih =>
    rw [List.cons_append, Along, Along, ih, and_assoc, settledIds_cons, ← List.append_assoc]

/-- A condition that is kept when more has been settled. -/
theorem Along.imp {P P' : List Uuid → Action → Prop} {done done' : List Uuid} {as : List Action}
    (h : Along P done as) (hdone : ∀ id ∈ done, id ∈ done')
    (himp : ∀ a ∈ as, ∀ done done' : List Uuid, (∀ id ∈ done, id ∈ done') → P done a → P' done' a) :
    Along P' done' as := by
  induction as generalizing done done' with
  | nil => trivial
  | cons a as ih =>
    refine ⟨himp a List.mem_cons_self done done' hdone h.1, ih h.2 (fun id hid => ?_)
      fun b hb => himp b (List.mem_cons_of_mem _ hb)⟩
    rcases List.mem_append.mp hid with hid | hid
    · exact List.mem_append_left _ (hdone id hid)
    · exact List.mem_append_right _ hid

theorem mem_of_causal {done : List Uuid} {as : List Action} (h : Causal done as) {id : Uuid}
    (hid : id ∈ markedIds as) : id ∈ done ++ settledIds as := by
  induction as generalizing done with
  | nil => exact absurd hid List.not_mem_nil
  | cons a as ih =>
    rw [settledIds_cons, ← List.append_assoc]
    rw [markedIds_cons] at hid
    rcases List.mem_append.mp hid with hid | hid
    · exact List.mem_append_left _ (List.mem_append_left _ (h.1 id hid))
    · exact ih h.2 hid

/-- Effects that record nothing. -/
theorem along_of_markedIds_eq_nil {done : List Uuid} {as : List Action} (h : markedIds as = []) :
    Causal done as := by
  induction as generalizing done with
  | nil => trivial
  | cons a as ih =>
    rw [markedIds_cons, List.append_eq_nil_iff] at h
    exact ⟨fun id hid => by rw [h.1] at hid; exact absurd hid List.not_mem_nil, ih h.2⟩

theorem applied_perform {reader : Reader W} {d : Device W} (action : Action) :
    (perform reader d action).applied = d.applied ++ action.marks := by
  cases action <;> simp [perform, Action.marks]

theorem applied_performAll {reader : Reader W} (actions : List Action) : ∀ {d : Device W},
    (performAll reader d actions).applied = d.applied ++ markedIds actions := by
  induction actions with
  | nil => exact fun {d} => (List.append_nil _).symm
  | cons a actions ih =>
    intro d
    rw [markedIds_cons, ← List.append_assoc, ← applied_perform]
    exact ih

/-! ### The walk -/

namespace PageWalk

variable {reader : Reader W} {done processed todo : List Uuid} {w : PageWalk}

/-- The operation waits in a buffer. -/
def Buffered (w : PageWalk) (id : Uuid) : Prop :=
  ∃ t, ∃ item ∈ w.batchBuffers t, item.1.operationId = id

/-- The account of a walk: what is recorded has been settled; all effects are legitimate; and
the operations processed are those recorded, about to be recorded, or in a buffer. `todo` is
settled and not yet passed to `markApplied`. -/
structure Accounts (reader : Reader W) (done processed todo : List Uuid) (w : PageWalk) :
    Prop where
  causal : Causal done w.actions
  settled : ∀ id, id ∈ w.appliedBuffer ∨ id ∈ todo → id ∈ done ++ settledIds w.actions
  ordered : ∀ t, w.batchBuffers t ≠ [] → t ∈ w.bufferOrder
  typed : ∀ t, ∀ item ∈ w.batchBuffers t,
    item.1.objectType = t ∧ (reader.batchApplier t).isSome = true
  legit : ∀ action ∈ w.actions, action.Legit reader
  recorded : ∀ id, id ∈ markedIds w.actions ∨ id ∈ w.appliedBuffer ∨ id ∈ todo ∨ w.Buffered id ↔
    id ∈ processed

theorem accounts_start : Accounts reader done [] [] start where
  causal := trivial
  settled := fun id h => by simp [start] at h
  ordered := fun t h => absurd rfl h
  typed := fun t item h => absurd h List.not_mem_nil
  legit := fun action h => absurd h List.not_mem_nil
  recorded := fun id => by simp [start, markedIds, Buffered]

/-- The ids are written out. -/
theorem Accounts.flush (h : Accounts reader done processed todo w) :
    Accounts reader done processed todo
      { w.emit (.markAppliedBatch w.appliedBuffer) with appliedBuffer := [] } where
  causal := by
    refine along_append.mpr ⟨h.causal, fun id hid => h.settled id (Or.inl hid), trivial⟩
  settled := by
    rintro id (hid | hid)
    · exact absurd hid List.not_mem_nil
    · change id ∈ done ++ settledIds (w.actions ++ [.markAppliedBatch w.appliedBuffer])
      rw [settledIds_append]
      simpa [settledIds, Action.settles] using h.settled id (Or.inr hid)
  ordered := h.ordered
  typed := h.typed
  legit := by
    intro action haction
    rcases List.mem_append.mp haction with haction | haction
    · exact h.legit action haction
    · rw [List.mem_singleton.mp haction]
      trivial
  recorded := by
    intro id
    rw [← h.recorded id]
    change id ∈ markedIds (w.actions ++ [.markAppliedBatch w.appliedBuffer]) ∨ id ∈ [] ∨ _ ∨
      w.Buffered id ↔ _
    rw [markedIds_append, markedIds_cons, List.mem_append, List.mem_append]
    change (_ ∨ id ∈ w.appliedBuffer ∨ id ∈ []) ∨ _ ↔ _
    simp only [List.not_mem_nil]
    tauto

theorem Accounts.flushAppliedBuffer (h : Accounts reader done processed todo w) :
    Accounts reader done processed todo w.flushAppliedBuffer := by
  unfold PageWalk.flushAppliedBuffer
  split
  · exact h
  · exact h.flush

theorem Accounts.markApplied {x : Uuid} (h : Accounts reader done processed (x :: todo) w) :
    Accounts reader done processed todo (w.markApplied x) := by
  have hpush : Accounts reader done processed todo
      { w with appliedBuffer := w.appliedBuffer ++ [x] } := by
    refine ⟨h.causal, fun id hid => h.settled id ?_, h.ordered, h.typed, h.legit, fun id => ?_⟩
    · simp only [List.mem_append, List.mem_cons, List.not_mem_nil] at hid ⊢
      tauto
    · rw [← h.recorded id]
      change _ ∨ _ ∨ _ ∨ w.Buffered id ↔ _
      simp only [List.mem_append, List.mem_cons, List.not_mem_nil]
      tauto
  unfold PageWalk.markApplied
  dsimp only
  split
  · exact hpush.flushAppliedBuffer
  · exact hpush

theorem Accounts.markAll (items : List DecryptedItem) :
    ∀ w, Accounts reader done processed (items.map fun item => item.1.operationId) w →
      Accounts reader done processed []
        (items.foldl (fun w item => w.markApplied item.1.operationId) w) := by
  induction items with
  | nil => exact fun w h => h
  | cons item items ih => exact fun w h => ih _ h.markApplied

/-- An effect settles operations that were not processed before. -/
theorem Accounts.emit (h : Accounts reader done processed [] w) {action : Action}
    (hlegit : action.Legit reader) (hmarks : action.marks = []) :
    Accounts reader done (processed ++ action.settles) action.settles (w.emit action) where
  causal := along_append.mpr ⟨h.causal, by simp [hmarks], trivial⟩
  settled := by
    intro id hid
    change id ∈ done ++ settledIds (w.actions ++ [action])
    rw [settledIds_append, ← List.append_assoc]
    rcases hid with hid | hid
    · exact List.mem_append_left _ (h.settled id (Or.inl hid))
    · exact List.mem_append_right _ (by simpa [settledIds] using hid)
  ordered := h.ordered
  typed := h.typed
  legit := by
    intro a ha
    rcases List.mem_append.mp ha with ha | ha
    · exact h.legit a ha
    · rw [List.mem_singleton.mp ha]
      exact hlegit
  recorded := by
    intro id
    rw [List.mem_append, ← h.recorded id]
    change id ∈ markedIds (w.actions ++ [action]) ∨ id ∈ w.appliedBuffer ∨ _ ∨ w.Buffered id ↔ _
    rw [markedIds_append, markedIds_cons, hmarks, List.mem_append]
    change (_ ∨ id ∈ []) ∨ _ ↔ _
    simp only [List.not_mem_nil]
    tauto

/-- An operation that is handed over on its own, or skipped. -/
theorem Accounts.settle (h : Accounts reader done processed [] w) {action : Action} {id : Uuid}
    (hlegit : action.Legit reader) (hmarks : action.marks = []) (hsettles : action.settles = [id]) :
    Accounts reader done (processed ++ [id]) [] ((w.emit action).markApplied id) := by
  have hemit := h.emit hlegit hmarks
  rw [hsettles] at hemit
  exact hemit.markApplied

theorem Accounts.flushBatchBuffer (h : Accounts reader done processed [] w) (t : ObjectType) :
    Accounts reader done processed [] (w.flushBatchBuffer t) := by
  unfold PageWalk.flushBatchBuffer
  dsimp only
  split
  · exact h
  rename_i hne
  obtain ⟨first, hfirst⟩ := List.exists_mem_of_ne_nil _ (fun hnil => hne (List.isEmpty_iff.mpr hnil))
  refine Accounts.markAll _ _ ?_
  have hlegit : (Action.callBatch t (w.batchBuffers t)).Legit reader :=
    ⟨(h.typed t first hfirst).2, fun item hitem => (h.typed t item hitem).1⟩
  have hemit := h.emit hlegit rfl
  refine ⟨hemit.causal, hemit.settled, fun t' ht' => ?_, fun t' item hitem => ?_, hemit.legit,
    fun id => ?_⟩
  · change Function.update w.batchBuffers t [] t' ≠ [] at ht'
    rw [Function.update_apply] at ht'
    split at ht'
    · exact absurd rfl ht'
    · exact h.ordered t' ht'
  · change item ∈ Function.update w.batchBuffers t [] t' at hitem
    rw [Function.update_apply] at hitem
    split at hitem
    · exact absurd hitem List.not_mem_nil
    · exact h.typed t' item hitem
  · -- the operations of the buffer move to `todo`
    rw [← h.recorded id]
    set cleared : PageWalk := { w.emit (.callBatch t (w.batchBuffers t)) with
      batchBuffers := Function.update w.batchBuffers t [] } with hcleared
    change id ∈ markedIds (w.actions ++ [.callBatch t (w.batchBuffers t)]) ∨ id ∈ w.appliedBuffer ∨
      _ ∨ cleared.Buffered id ↔ _
    rw [markedIds_append]
    have hbuffers : id ∈ (w.batchBuffers t).map (fun item => item.1.operationId) ∨
        cleared.Buffered id ↔ w.Buffered id := by
      constructor
      · rintro (hid | ⟨t', item, hitem, rfl⟩)
        · obtain ⟨item, hitem, rfl⟩ := List.mem_map.mp hid
          exact ⟨t, item, hitem, rfl⟩
        · change item ∈ Function.update w.batchBuffers t [] t' at hitem
          rw [Function.update_apply] at hitem
          split at hitem
          · exact absurd hitem List.not_mem_nil
          · exact ⟨t', item, hitem, rfl⟩
      · rintro ⟨t', item, hitem, rfl⟩
        by_cases ht : t' = t
        · subst ht
          exact Or.inl (List.mem_map.mpr ⟨item, hitem, rfl⟩)
        · refine Or.inr ⟨t', item, ?_, rfl⟩
          change item ∈ Function.update w.batchBuffers t [] t'
          rwa [Function.update_of_ne ht]
    rw [hbuffers]
    simp [markedIds, Action.marks]

theorem Accounts.pushToGroup (h : Accounts reader done processed [] w) {op : WireOperation}
    {value : Json} (happlier : (reader.batchApplier op.objectType).isSome = true) :
    Accounts reader done (processed ++ [op.operationId]) [] (w.pushToGroup (op, value)) where
  causal := h.causal
  settled := h.settled
  ordered := by
    intro t ht
    change t ∈ if op.objectType ∈ w.bufferOrder then w.bufferOrder else w.bufferOrder ++ [op.objectType]
    by_cases heq : t = op.objectType
    · split
      · rwa [heq]
      · simp [heq]
    · have hold : w.batchBuffers t ≠ [] := by
        change Function.update w.batchBuffers op.objectType _ t ≠ [] at ht
        rwa [Function.update_of_ne heq] at ht
      split
      · exact h.ordered t hold
      · exact List.mem_append_left _ (h.ordered t hold)
  typed := by
    intro t item hitem
    change item ∈ Function.update w.batchBuffers op.objectType
      (w.batchBuffers op.objectType ++ [(op, value)]) t at hitem
    rw [Function.update_apply] at hitem
    split at hitem
    · rename_i heq
      subst heq
      rcases List.mem_append.mp hitem with hitem | hitem
      · exact h.typed _ item hitem
      · rw [List.mem_singleton.mp hitem]
        exact ⟨rfl, happlier⟩
    · exact h.typed t item hitem
  legit := h.legit
  recorded := by
    intro id
    rw [List.mem_append, ← h.recorded id]
    have hbuffers : (w.pushToGroup (op, value)).Buffered id ↔
        w.Buffered id ∨ id = op.operationId := by
      constructor
      · rintro ⟨t, item, hitem, rfl⟩
        change item ∈ Function.update w.batchBuffers op.objectType
          (w.batchBuffers op.objectType ++ [(op, value)]) t at hitem
        rw [Function.update_apply] at hitem
        split at hitem
        · rcases List.mem_append.mp hitem with hitem | hitem
          · exact Or.inl ⟨_, item, hitem, rfl⟩
          · rw [List.mem_singleton.mp hitem]
            exact Or.inr rfl
        · exact Or.inl ⟨t, item, hitem, rfl⟩
      · rintro (⟨t, item, hitem, rfl⟩ | rfl)
        · refine ⟨t, item, ?_, rfl⟩
          change item ∈ Function.update w.batchBuffers op.objectType
            (w.batchBuffers op.objectType ++ [(op, value)]) t
          rw [Function.update_apply]
          split
          · rename_i heq
            subst heq
            exact List.mem_append_left _ hitem
          · exact hitem
        · exact ⟨op.objectType, (op, value), by simp [PageWalk.pushToGroup], rfl⟩
    rw [hbuffers, List.mem_singleton]
    change id ∈ markedIds w.actions ∨ id ∈ w.appliedBuffer ∨ _ ↔ _
    tauto

/-! #### What a flush leaves -/

theorem flushAppliedBuffer_frame (w : PageWalk) :
    w.flushAppliedBuffer.batchBuffers = w.batchBuffers ∧
      w.flushAppliedBuffer.bufferOrder = w.bufferOrder ∧
      w.flushAppliedBuffer.stopped = w.stopped ∧ w.flushAppliedBuffer.appliedBuffer = [] := by
  unfold PageWalk.flushAppliedBuffer
  split
  · rename_i hempty
    exact ⟨rfl, rfl, rfl, List.isEmpty_iff.mp hempty⟩
  · exact ⟨rfl, rfl, rfl, rfl⟩

theorem markApplied_frame (w : PageWalk) (x : Uuid) :
    (w.markApplied x).batchBuffers = w.batchBuffers ∧
      (w.markApplied x).bufferOrder = w.bufferOrder ∧ (w.markApplied x).stopped = w.stopped := by
  unfold PageWalk.markApplied
  dsimp only
  split
  · have hframe := flushAppliedBuffer_frame { w with appliedBuffer := w.appliedBuffer ++ [x] }
    exact ⟨hframe.1, hframe.2.1, hframe.2.2.1⟩
  · exact ⟨rfl, rfl, rfl⟩

theorem markAll_frame (items : List DecryptedItem) : ∀ w : PageWalk,
    (items.foldl (fun w item => w.markApplied item.1.operationId) w).batchBuffers = w.batchBuffers ∧
      (items.foldl (fun w item => w.markApplied item.1.operationId) w).bufferOrder =
        w.bufferOrder ∧
      (items.foldl (fun w item => w.markApplied item.1.operationId) w).stopped = w.stopped := by
  induction items with
  | nil => exact fun w => ⟨rfl, rfl, rfl⟩
  | cons item items ih =>
    intro w
    obtain ⟨hb, ho, hs⟩ := ih (w.markApplied item.1.operationId)
    obtain ⟨hb', ho', hs'⟩ := markApplied_frame w item.1.operationId
    exact ⟨hb.trans hb', ho.trans ho', hs.trans hs'⟩

theorem flushBatchBuffer_frame (w : PageWalk) (t : ObjectType) :
    (w.flushBatchBuffer t).batchBuffers = Function.update w.batchBuffers t [] ∧
      (w.flushBatchBuffer t).bufferOrder = w.bufferOrder ∧
      (w.flushBatchBuffer t).stopped = w.stopped := by
  unfold PageWalk.flushBatchBuffer
  dsimp only
  split
  · rename_i hempty
    refine ⟨?_, rfl, rfl⟩
    conv_lhs => rw [← Function.update_eq_self t w.batchBuffers, List.isEmpty_iff.mp hempty]
  · exact markAll_frame _ _

theorem foldl_flushBatchBuffer_frame (order : List ObjectType) : ∀ w : PageWalk,
    (∀ t, (order.foldl flushBatchBuffer w).batchBuffers t =
      if t ∈ order then [] else w.batchBuffers t) ∧
    (order.foldl flushBatchBuffer w).stopped = w.stopped := by
  induction order with
  | nil => exact fun w => ⟨fun t => by simp, rfl⟩
  | cons t order ih =>
    intro w
    obtain ⟨hbuffers, hstopped⟩ := ih (w.flushBatchBuffer t)
    obtain ⟨hb, -, hs⟩ := flushBatchBuffer_frame w t
    refine ⟨fun t' => ?_, hstopped.trans hs⟩
    rw [List.foldl_cons, hbuffers t', hb, Function.update_apply]
    by_cases horder : t' ∈ order
    · simp [horder]
    · by_cases heq : t' = t <;> simp [horder, heq]

/-- **Nothing waits after a flush of everything.** -/
theorem Accounts.drain (h : Accounts reader done processed [] w) :
    Accounts reader done processed [] w.flushAllBatchBuffers.flushAppliedBuffer ∧
      w.flushAllBatchBuffers.flushAppliedBuffer.stopped = w.stopped ∧
      ∀ id, id ∈ markedIds w.flushAllBatchBuffers.flushAppliedBuffer.actions ↔ id ∈ processed := by
  have hflushed : ∀ (order : List ObjectType) (w : PageWalk), Accounts reader done processed [] w →
      Accounts reader done processed [] (order.foldl PageWalk.flushBatchBuffer w) := by
    intro order
    induction order with
    | nil => exact fun w h => h
    | cons t order ih => exact fun w h => ih _ (h.flushBatchBuffer t)
  have hall := (hflushed w.bufferOrder w h).flushAppliedBuffer
  obtain ⟨hbuffers, hstopped⟩ := foldl_flushBatchBuffer_frame w.bufferOrder w
  obtain ⟨hb, -, hs, happlied⟩ := flushAppliedBuffer_frame w.flushAllBatchBuffers
  refine ⟨hall, hs.trans hstopped, fun id => ?_⟩
  rw [← hall.recorded id]
  -- neither the buffers nor the ids to be recorded hold anything
  have hempty : ¬w.flushAllBatchBuffers.flushAppliedBuffer.Buffered id := by
    rintro ⟨t, item, hitem, -⟩
    rw [hb] at hitem
    change item ∈ (w.bufferOrder.foldl PageWalk.flushBatchBuffer w).batchBuffers t at hitem
    rw [hbuffers t] at hitem
    split at hitem
    · exact absurd hitem List.not_mem_nil
    · rename_i hnot
      exact hnot (h.ordered t (List.ne_nil_of_mem hitem))
  have happlied' : (List.foldl PageWalk.flushBatchBuffer w w.bufferOrder).flushAppliedBuffer.appliedBuffer =
      [] := happlied
  change _ ↔ _ ∨ id ∈ (List.foldl PageWalk.flushBatchBuffer w w.bufferOrder).flushAppliedBuffer.appliedBuffer ∨
    _ ∨ w.flushAllBatchBuffers.flushAppliedBuffer.Buffered id
  rw [happlied']
  simp only [List.not_mem_nil, hempty, or_false]
  rfl

/-! #### One operation -/

/-- Whether an operation stops the page: it is not recorded, has to be decrypted, and carries an
unsupported envelope version. -/
def Stops (reader : Reader W) (alreadyApplied : List Uuid) (op : WireOperation) : Prop :=
  op.operationId ∉ alreadyApplied ∧ isOwnHistory reader op = false ∧ 1 ≤ op.encryptionVersion ∧
    versionsUnsupported op = true

instance (reader : Reader W) (alreadyApplied : List Uuid) (op : WireOperation) :
    Decidable (Stops reader alreadyApplied op) :=
  inferInstanceAs (Decidable (_ ∧ _ ∧ _ ∧ _))

theorem decryptWithResolver_eq_throws_iff {op : WireOperation} :
    decryptWithResolver reader op = .throws ↔
      1 ≤ op.encryptionVersion ∧ versionsUnsupported op = true := by
  unfold decryptWithResolver
  by_cases hplain : op.encryptionVersion < 1
  · simp [hplain, not_le.mpr hplain]
  · by_cases hversions : versionsUnsupported op = true
    · simp [hplain, hversions, not_lt.mp hplain]
    · rw [if_neg hplain, if_neg hversions]
      refine iff_of_false ?_ fun h => hversions h.2
      split
      · split <;> simp
      · split <;> simp

theorem step_of_stopped (alreadyApplied : List Uuid) (op : WireOperation) (h : w.stopped = true) :
    step reader alreadyApplied w op = w := by
  rw [step, if_pos h]

theorem step_of_stops {alreadyApplied : List Uuid} {op : WireOperation}
    (hrunning : w.stopped = false) (h : Stops reader alreadyApplied op) :
    step reader alreadyApplied w op =
      { w.flushAllBatchBuffers.flushAppliedBuffer with stopped := true } := by
  rw [step, if_neg (by simp [hrunning]), if_neg h.1, if_neg (by simp [h.2.1]),
    decryptWithResolver_eq_throws_iff.mpr h.2.2]

/-- **One operation** that does not stop the page is accounted for. -/
theorem Accounts.step (h : Accounts reader done processed [] w) {alreadyApplied : List Uuid}
    {op : WireOperation} (hrunning : w.stopped = false) (hstops : ¬Stops reader alreadyApplied op) :
    Accounts reader done
        (processed ++ if op.operationId ∈ alreadyApplied then [] else [op.operationId]) []
        (step reader alreadyApplied w op) ∧
      (PageWalk.step reader alreadyApplied w op).stopped = false := by
  have hsettle : ∀ action : Action, action.Legit reader → action.marks = [] →
      action.settles = [op.operationId] →
        Accounts reader done (processed ++ [op.operationId]) []
            ((w.emit action).markApplied op.operationId) ∧
          ((w.emit action).markApplied op.operationId).stopped = false :=
    fun action hlegit hmarks hsettles =>
      ⟨h.settle hlegit hmarks hsettles, (markApplied_frame _ _).2.2.trans hrunning⟩
  rw [PageWalk.step, if_neg (show ¬w.stopped = true by simp [hrunning])]
  by_cases happlied : op.operationId ∈ alreadyApplied
  · rw [if_pos happlied, if_pos happlied, List.append_nil]
    exact ⟨h, hrunning⟩
  rw [if_neg happlied, if_neg happlied]
  by_cases hown : isOwnHistory reader op = true
  · rw [if_pos hown]
    exact hsettle (.skip op) (Or.inl hown) rfl rfl
  rw [if_neg hown]
  rcases hdecrypt : decryptWithResolver reader op with _ | _ | value
  · exact absurd ⟨happlied, by simpa using hown, decryptWithResolver_eq_throws_iff.mp hdecrypt⟩ hstops
  · exact hsettle (.skip op) (Or.inr (Or.inl hdecrypt)) rfl rfl
  · dsimp only
    split
    · rename_i hbatch
      have hpush := @Accounts.pushToGroup W reader done processed w h op value hbatch
      split
      · exact ⟨hpush.flushBatchBuffer _, (flushBatchBuffer_frame _ _).2.2.trans hrunning⟩
      · exact ⟨hpush, hrunning⟩
    · rename_i hbatch
      split
      · rename_i happlier
        exact hsettle (.call (op, value)) happlier rfl rfl
      · rename_i happlier
        refine hsettle (.skip op) (Or.inr (Or.inr ⟨?_, ?_⟩)) rfl rfl
        · simpa using hbatch
        · simpa using happlier

end PageWalk

/-! ### A page -/

section Page

variable {reader : Reader W} {done alreadyApplied : List Uuid}
  {operations before after : List WireOperation} {op : WireOperation}

/-- The operations of a page that are not recorded yet. -/
def freshIds (alreadyApplied : List Uuid) (operations : List WireOperation) : List Uuid :=
  (operations.map fun op => op.operationId).filter (· ∉ alreadyApplied)

/-- Effects that deal with some operations: each is recorded, after it has been settled. -/
structure DealsWith (reader : Reader W) (done alreadyApplied : List Uuid)
    (operations : List WireOperation) (actions : List Action) : Prop where
  causal : Causal done actions
  legit : ∀ action ∈ actions, action.Legit reader
  marked : ∀ id, id ∈ markedIds actions ↔ id ∈ freshIds alreadyApplied operations

theorem freshIds_cons : freshIds alreadyApplied (op :: operations) =
    (if op.operationId ∈ alreadyApplied then [] else [op.operationId]) ++
      freshIds alreadyApplied operations := by
  by_cases h : op.operationId ∈ alreadyApplied <;> simp [freshIds, h]

/-- The walk over operations none of which stops it. -/
theorem accounts_foldl_step (hrunning : ∀ op ∈ operations, ¬PageWalk.Stops reader alreadyApplied op) :
    ∀ (w : PageWalk) (processed : List Uuid), PageWalk.Accounts reader done processed [] w →
      w.stopped = false →
        PageWalk.Accounts reader done (processed ++ freshIds alreadyApplied operations) []
            (operations.foldl (PageWalk.step reader alreadyApplied) w) ∧
          (operations.foldl (PageWalk.step reader alreadyApplied) w).stopped = false := by
  induction operations with
  | nil =>
    intro w processed hw hstopped
    exact ⟨by simpa [freshIds] using hw, hstopped⟩
  | cons op operations ih =>
    intro w processed hw hstopped
    obtain ⟨hstep, hstill⟩ := hw.step hstopped (hrunning op List.mem_cons_self)
    rw [freshIds_cons, ← List.append_assoc]
    exact ih (fun o ho => hrunning o (List.mem_cons_of_mem _ ho)) _ _ hstep hstill

theorem accounts_walkPage (done : List Uuid)
    (hrunning : ∀ op ∈ operations, ¬PageWalk.Stops reader alreadyApplied op) :
    PageWalk.Accounts reader done (freshIds alreadyApplied operations) []
        (walkPage reader alreadyApplied operations) ∧
      (walkPage reader alreadyApplied operations).stopped = false :=
  accounts_foldl_step hrunning _ [] PageWalk.accounts_start rfl

/-- **A page without an unsupported envelope is dealt with as a whole.** -/
theorem applyActions_of_running
    (hrunning : ∀ op ∈ operations, ¬PageWalk.Stops reader alreadyApplied op) :
    DealsWith reader done alreadyApplied operations
        (applyActions reader alreadyApplied operations) ∧
      (walkPage reader alreadyApplied operations).stopped = false := by
  obtain ⟨hwalk, hstopped⟩ := accounts_walkPage done hrunning
  obtain ⟨hall, -, hmarked⟩ := hwalk.drain
  refine ⟨?_, hstopped⟩
  rw [applyActions, hstopped]
  exact ⟨hall.causal, hall.legit, hmarked⟩

theorem walkPage_of_stops (hrunning : ∀ op ∈ before, ¬PageWalk.Stops reader alreadyApplied op)
    (hstops : PageWalk.Stops reader alreadyApplied op) :
    walkPage reader alreadyApplied (before ++ op :: after) =
      { (walkPage reader alreadyApplied before).flushAllBatchBuffers.flushAppliedBuffer with
        stopped := true } := by
  have hrest : ∀ (operations : List WireOperation) (w : PageWalk), w.stopped = true →
      operations.foldl (PageWalk.step reader alreadyApplied) w = w := by
    intro operations
    induction operations with
    | nil => exact fun w _ => rfl
    | cons o operations ih =>
      intro w hw
      rw [List.foldl_cons, PageWalk.step_of_stopped _ _ hw]
      exact ih w hw
  have hwalk := (accounts_walkPage [] hrunning).2
  rw [walkPage, List.foldl_append, List.foldl_cons]
  change after.foldl _ (PageWalk.step reader alreadyApplied (walkPage reader alreadyApplied before) op)
    = _
  rw [PageWalk.step_of_stops hwalk hstops]
  exact hrest after _ rfl

/-- **An unsupported envelope**: what comes before it is dealt with, and nothing else. -/
theorem applyActions_of_stops (hrunning : ∀ op ∈ before, ¬PageWalk.Stops reader alreadyApplied op)
    (hstops : PageWalk.Stops reader alreadyApplied op) :
    DealsWith reader done alreadyApplied before
        (applyActions reader alreadyApplied (before ++ op :: after)) ∧
      (walkPage reader alreadyApplied (before ++ op :: after)).stopped = true := by
  obtain ⟨hwalk, -⟩ := accounts_walkPage done hrunning
  obtain ⟨hall, -, hmarked⟩ := hwalk.drain
  rw [applyActions, walkPage_of_stops hrunning hstops, if_pos rfl]
  exact ⟨⟨hall.causal, hall.legit, hmarked⟩, rfl⟩

/-- A tick of the clock is a legitimate effect that settles and records nothing. -/
theorem tickActions_spec (reader : Reader W) (operations : List WireOperation) :
    (∀ action ∈ tickActions operations, action.Legit reader) ∧
      settledIds (tickActions operations) = [] ∧ markedIds (tickActions operations) = [] := by
  unfold tickActions
  split
  · exact ⟨fun action haction => List.mem_singleton.mp haction ▸ trivial, rfl, rfl⟩
  · exact ⟨fun action haction => absurd haction List.not_mem_nil, rfl, rfl⟩

/-- A page has no operation that stops it, or a first one. -/
theorem running_or_stops (reader : Reader W) (alreadyApplied : List Uuid)
    (operations : List WireOperation) :
    (∀ op ∈ operations, ¬PageWalk.Stops reader alreadyApplied op) ∨
      ∃ before op after, operations = before ++ op :: after ∧
        (∀ op ∈ before, ¬PageWalk.Stops reader alreadyApplied op) ∧
        PageWalk.Stops reader alreadyApplied op := by
  induction operations with
  | nil => exact Or.inl fun op h => absurd h List.not_mem_nil
  | cons o operations ih =>
    by_cases ho : PageWalk.Stops reader alreadyApplied o
    · exact Or.inr ⟨[], o, operations, rfl, fun op h => absurd h List.not_mem_nil, ho⟩
    · rcases ih with hnone | ⟨before, op, after, rfl, hbefore, hop⟩
      · exact Or.inl (List.forall_mem_cons.mpr ⟨ho, hnone⟩)
      · exact Or.inr ⟨o :: before, op, after, rfl, List.forall_mem_cons.mpr ⟨ho, hbefore⟩, hop⟩

end Page

end Client

end HelixSync
