import HelixSync.Server.DownloadRace
import HelixSync.Server.FullHistory
import HelixSync.Client.PageWalk

/-!
# The download cursor

An operation that the persisted cursor has passed is never delivered again, so it must have
been dealt with by then: handed to the applier of its type, or skipped on purpose. The effects
of a page are in an order that ensures this wherever they are cut off: an operation is recorded
in `applied_operations` only after the call of its applier, every operation of a page is recorded
before the cursor moves, and the server gives a cursor that passes its floor everything above it
(`HelixSync.Server.Retained.mem_of_floorCursor_le`).

The one other way to move the cursor is a snapshot, which stands for all operations up to its
own cursor, those delivered in a page that was cut off included
(`HelixSync.Client.Pull.not_dealtWith`).

`HelixSync.Client.Pull` is the server together with one device. The device asks for a page, and
then performs its effects one at a time; in between anything may happen on the server, to the
browser and to the device, and the device may stop.
-/

namespace HelixSync

namespace Server

variable {s : Server}

/-! ### The cursor of a snapshot -/

/-- **A snapshot is up to date**: its cursor is the highest one ever allocated. -/
theorem snapshotCursor_eq (hwf : WellFormed s) (hret : Retained s) (userId : Uuid) :
    (snapshot s.now s.db userId).snapshotCursor = s.db.currentCursor userId := by
  change max (s.db.baseCursor userId none) (s.db.maxOpCursor userId none) = _
  have hreaches : ReachesSnapshot s userId none := fun c hc => by simp at hc
  rw [baseCursor_eq hreaches]
  refine le_antisymm (max_le (hwf.maxSnapshotCursor_le userId) (hwf.maxOpCursor_le userId none)) ?_
  rcases Nat.eq_zero_or_pos (s.db.currentCursor userId) with hzero | hpos
  · rw [hzero]
    exact Nat.zero_le _
  -- the newest row of the history is covered by a snapshot, or still in the log
  have hlast : s.db.currentCursor userId ∈ (s.userHistory userId).map OperationRow.serverCursor := by
    rw [hwf.cursors, List.mem_range'_1]
    omega
  obtain ⟨row, hrow, hcursor⟩ := List.mem_map.mp hlast
  obtain ⟨hmem, rfl⟩ := mem_userHistory.mp hrow
  rw [← hcursor]
  by_cases hcovered : row.serverCursor ≤ s.db.maxSnapshotCursor row.userId
  · exact le_max_of_le_left hcovered
  · refine le_max_of_le_right ?_
    have hlog := hret.kept row hmem (not_le.mp hcovered)
    rw [Db.maxOpCursor]
    refine List.le_max?_getD_of_mem ?_
    refine List.mem_map_of_mem (List.mem_filter.mpr ⟨?_, rfl⟩)
    exact List.mem_filter.mpr ⟨hlog, by simp⟩

/-! ### The answers -/

/-- A page is given to a cursor within the bounds, and lists all rows up to its end. -/
theorem download_eq_page {db : Db} {userId : Uuid} {query : DownloadQuery}
    {response : DownloadResponse} (h : download db userId query = .page response) :
    db.floorCursor userId ≤ query.cursorValue ∧ query.cursorValue ≤ db.currentCursor userId ∧
      ∃ page, decidePage db userId query.cursorValue query.limitValue = some page ∧
        response = ⟨pageRows db userId query.cursorValue page.nextCursor, page.nextCursor,
          page.hasMore⟩ := by
  unfold download at h
  split at h
  · exact absurd h (by simp)
  · exact absurd h (by simp)
  · rename_i hpass
    split at h
    · exact absurd h (by simp)
    · rename_i page hpage
      unfold boundsAnswer at hpass
      split_ifs at hpass with hfloor hcurrent
      exact ⟨not_lt.mp hfloor, not_lt.mp hcurrent, page, hpage, (DownloadAnswer.page.inj h).symm⟩

/-- The rows of a page are those of the history between its cursors. -/
theorem mem_operations_of_download (hwf : WellFormed s) (hret : Retained s) {userId : Uuid}
    {query : DownloadQuery} {response : DownloadResponse}
    (h : download s.db userId query = .page response) {row : OperationRow} :
    row ∈ response.operations ↔ row ∈ s.userHistory userId ∧
      query.cursorValue < row.serverCursor ∧ row.serverCursor ≤ response.nextCursor := by
  obtain ⟨hfloor, -, page, -, rfl⟩ := download_eq_page h
  rw [pageRows, List.mem_filter, mem_rowsAbove, decide_eq_true_eq]
  constructor
  · rintro ⟨⟨hlog, hu, hlo⟩, hhi⟩
    exact ⟨mem_userHistory.mpr ⟨hwf.log.mem hlog, hu⟩, hlo, hhi⟩
  · rintro ⟨hrow, hlo, hhi⟩
    exact ⟨⟨hret.mem_of_floorCursor_le hfloor hrow hlo, (mem_userHistory.mp hrow).2, hlo⟩, hhi⟩

theorem nextCursor_le_of_download (hwf : WellFormed s) {userId : Uuid} {query : DownloadQuery}
    {response : DownloadResponse} (h : download s.db userId query = .page response) :
    response.nextCursor ≤ s.db.currentCursor userId := by
  obtain ⟨-, hcurrent, page, hpage, rfl⟩ := download_eq_page h
  rcases nextCursor_of_decidePage hpage with hnext | ⟨row, hrow, hnext⟩
  · exact hnext ▸ hcurrent
  · obtain ⟨hlog, hu, -⟩ := mem_rowsAbove.mp hrow
    change page.nextCursor ≤ _
    rw [hnext, ← hu]
    exact (hwf.cursor_mem (hwf.log.mem hlog)).2

/-- Two lists of keys in which a snapshot of a user may list its objects and its tombstones:
nothing is missing, and nothing comes twice. -/
def ListsSnapshot (s : Server) (userId : Uuid) (order tombstoneOrder : List ObjectKey) : Prop :=
  order.Nodup ∧ tombstoneOrder.Nodup ∧
    ∀ row ∈ s.userHistory userId, row.objectKey ∈ order ∧ row.objectKey ∈ tombstoneOrder

instance (s : Server) (userId : Uuid) (order tombstoneOrder : List ObjectKey) :
    Decidable (s.ListsSnapshot userId order tombstoneOrder) :=
  inferInstanceAs (Decidable (_ ∧ _ ∧ ∀ row ∈ s.userHistory userId, _ ∧ _))

end Server

namespace Client

variable {W : Type}

/-! ### What an effect leaves -/

/-- An operation whose type has an applier. -/
def HasApplier (reader : Reader W) (op : WireOperation) : Prop :=
  (reader.batchApplier op.objectType).isSome = true ∨ (reader.applier op.objectType).isSome = true

/-- The operations a device has dealt with. -/
def Device.doneIds (d : Device W) : List Uuid :=
  (d.handed ++ d.skipped).map fun op => op.operationId

section Perform

variable {reader : Reader W} {d : Device W}

theorem mem_doneIds_perform {action : Action} {id : Uuid} :
    id ∈ (perform reader d action).doneIds ↔ id ∈ d.doneIds ∨ id ∈ action.settles := by
  cases action <;> simp [perform, Device.doneIds, Action.settles] <;> grind

theorem mem_skipped_perform {action : Action} {op : WireOperation}
    (h : op ∈ (perform reader d action).skipped) : op ∈ d.skipped ∨ action = .skip op := by
  cases action <;> simp_all [perform, eq_comm]

theorem mem_handed_perform {action : Action} {op : WireOperation}
    (h : op ∈ (perform reader d action).handed) :
    op ∈ d.handed ∨ (∃ value, action = .call (op, value)) ∨
      ∃ objectType items, action = .callBatch objectType items ∧ ∃ item ∈ items, item.1 = op := by
  cases action with
  | callBatch objectType items =>
    rcases List.mem_append.mp h with h | h
    · exact Or.inl h
    · obtain ⟨item, hitem, rfl⟩ := List.mem_map.mp h
      exact Or.inr (Or.inr ⟨objectType, items, rfl, item, hitem, rfl⟩)
  | call item =>
    rcases List.mem_append.mp h with h | h
    · exact Or.inl h
    · rw [List.mem_singleton.mp h]
      exact Or.inr (Or.inl ⟨item.2, rfl⟩)
  | _ => exact Or.inl h

theorem delivered_perform (action : Action) :
    (perform reader d action).delivered = d.delivered := by
  cases action <;> rfl

theorem cursor_perform {action : Action} (h : action.Legit reader) :
    (perform reader d action).cursor = d.cursor ∧
      (perform reader d action).replaced = d.replaced := by
  cases action with
  | updateCursor cursor => exact absurd h id
  | updateSnapshotCursor cursor => exact absurd h id
  | _ => exact ⟨rfl, rfl⟩

/-- What effects one after the other leave. -/
theorem performAll_spec {actions : List Action} (h : ∀ action ∈ actions, action.Legit reader)
    (d : Device W) : (performAll reader d actions).applied = d.applied ++ markedIds actions ∧
      (performAll reader d actions).cursor = d.cursor := by
  refine ⟨applied_performAll actions, ?_⟩
  induction actions generalizing d with
  | nil => rfl
  | cons a actions ih =>
    have hcursor := ih (fun b hb => h b (List.mem_cons_of_mem _ hb)) (perform reader d a)
    exact hcursor.trans (cursor_perform (h a List.mem_cons_self)).1

end Perform

/-! ### The system -/

/-- The server and one device: the effects it still has to perform, and whether it was told
to take a snapshot. -/
structure Pull (W : Type) where
  server : Server
  device : Device W
  pending : List Action
  resync : Bool

/-- What may happen. -/
inductive PullEvent (W : Type) where
  | server (e : Event)
  /-- Anything else on the device that changes what appliers work on, or the clock. -/
  | edit (world : W) (lamportClock : ℤ)
  /-- `pruneAppliedOperations`. -/
  | pruneAppliedOperations (keep : Uuid → Bool)
  | request
  | fetchSnapshot (order tombstoneOrder : List ObjectKey) (newId : ObjectKey → Uuid)
  /-- The next effect is performed to its end. -/
  | effect
  /-- An error or a stop of the worker, which may leave an applier half done. -/
  | fail (world : W)

namespace Pull

variable {cfg : Config} {reader : Reader W} {userId : Uuid} {s : Pull W}

/-- A device that has just been paired, and a server with no data. -/
def start (settings : Uuid → Option UserSettings) (now : DateTime) (world : W) : Pull W where
  server := Server.start settings now
  device := ⟨0, 0, [], world, [], [], [], [], 0⟩
  pending := []
  resync := false

/-- What `downloadChanges` asks for. -/
def changesQuery (cursor : ℕ) : DownloadQuery := ⟨some cursor, some 500⟩

/-- A request for the next page. Any answer but a page and `cursor_too_old` ends the run. -/
def request (reader : Reader W) (userId : Uuid) (s : Pull W) : Pull W :=
  let cursor := s.device.cursor
  let server := { s.server with
    db := recordCursor s.server.db ⟨userId, reader.deviceId⟩ cursor }
  match download s.server.db userId (changesQuery cursor) with
  | .cursorTooOld => { s with server := server, resync := true }
  | .page response =>
    let operations := response.operations.map wireOperation
    { s with
      server := server
      device := { s.device with delivered := s.device.delivered ++ operations }
      pending := pageActions reader s.device.applied cursor operations response.nextCursor }
  | _ => { s with server := server }

/-- A snapshot is fetched. -/
def fetchSnapshot (reader : Reader W) (userId : Uuid) (s : Pull W)
    (order tombstoneOrder : List ObjectKey) (newId : ObjectKey → Uuid) : Pull W :=
  let response := snapshot s.server.now s.server.db userId
  { s with
    pending := snapshotActions reader s.device.lamportClock newId
      (receivedSnapshot response order tombstoneOrder)
    resync := false }

/-- One event. The device asks only when it has nothing left to do, and requests are answered
only for the account it is registered with. -/
def step (cfg : Config) (reader : Reader W) (userId : Uuid) (s : Pull W) : PullEvent W → Pull W
  | .server e => { s with server := s.server.step cfg e }
  | .edit world lamportClock =>
    { s with device := { s.device with world := world, lamportClock := lamportClock } }
  | .pruneAppliedOperations keep =>
    { s with device := { s.device with applied := s.device.applied.filter keep } }
  | .request =>
    if s.pending.isEmpty ∧ s.resync = false ∧
        s.server.authenticate reader.deviceId = some ⟨userId, reader.deviceId⟩ then
      s.request reader userId
    else s
  | .fetchSnapshot order tombstoneOrder newId =>
    if s.resync ∧ s.server.ListsSnapshot userId order tombstoneOrder then
      s.fetchSnapshot reader userId order tombstoneOrder newId
    else s
  | .effect =>
    match s.pending with
    | [] => s
    | action :: rest => { s with device := perform reader s.device action, pending := rest }
  | .fail world =>
    { s with device := { s.device with world := world }, pending := [], resync := false }

/-- The state after a list of events. -/
abbrev run (cfg : Config) (reader : Reader W) (userId : Uuid) (s : Pull W)
    (events : List (PullEvent W)) : Pull W :=
  Runs.run (step cfg reader userId) s events

/-! ### The invariant -/

/-- A row has been dealt with, or a snapshot stands for it. -/
def Dealt (done : List Uuid) (replaced : ℕ) (row : OperationRow) : Prop :=
  row.operationId ∈ done ∨ row.serverCursor ≤ replaced

/-- An effect that may be performed: it records only what is settled, and it moves the cursor
only past rows that have been dealt with. -/
def Sound (reader : Reader W) (server : Server) (userId : Uuid) (replaced : ℕ) (done : List Uuid)
    (action : Action) : Prop :=
  (∀ id ∈ action.marks, id ∈ done) ∧
    match action with
    | .updateCursor cursor => cursor ≤ server.db.currentCursor userId ∧
        ∀ row ∈ server.userHistory userId, row.serverCursor ≤ cursor → Dealt done replaced row
    | .updateSnapshotCursor cursor => cursor ≤ server.db.currentCursor userId
    | action => action.Legit reader

/-- **The account of a device**: what it has passed has been dealt with, and so will be what it
is about to pass. -/
structure Safe (reader : Reader W) (userId : Uuid) (s : Pull W) : Prop where
  wellFormed : Server.WellFormed s.server
  retained : Server.Retained s.server
  below : s.device.cursor ≤ s.server.db.currentCursor userId
  dealt : ∀ row ∈ s.server.userHistory userId, row.serverCursor ≤ s.device.cursor →
    Dealt s.device.doneIds s.device.replaced row
  applied : ∀ id ∈ s.device.applied, id ∈ s.device.doneIds
  skips : ∀ op ∈ s.device.skipped, Skips reader op
  hands : ∀ op ∈ s.device.handed, HasApplier reader op
  delivered : ∀ op ∈ s.device.delivered, ∃ row ∈ s.server.userHistory userId, op = wireOperation row
  pending : Along (Sound reader s.server userId s.device.replaced) s.device.doneIds s.pending

theorem Dealt.mono {done done' : List Uuid} {replaced replaced' : ℕ} {row : OperationRow}
    (h : Dealt done replaced row) (hdone : ∀ id ∈ done, id ∈ done') (hreplaced : replaced ≤ replaced') :
    Dealt done' replaced' row :=
  h.imp (hdone _) fun hle => le_trans hle hreplaced

/-- What an effect may do stays so when more is settled, and when the server moves on. -/
theorem Sound.mono {server server' : Server} {replaced replaced' : ℕ} {done done' : List Uuid}
    {action : Action} (h : Sound reader server userId replaced done action)
    (hdone : ∀ id ∈ done, id ∈ done') (hreplaced : replaced ≤ replaced')
    (hcurrent : server.db.currentCursor userId ≤ server'.db.currentCursor userId)
    (hrows : ∀ row ∈ server'.userHistory userId, row ∈ server.userHistory userId ∨
      server.db.currentCursor userId < row.serverCursor) :
    Sound reader server' userId replaced' done' action := by
  refine ⟨fun id hid => hdone id (h.1 id hid), ?_⟩
  cases action with
  | updateCursor cursor =>
    obtain ⟨hle, hall⟩ := h.2
    refine ⟨le_trans hle hcurrent, fun row hrow hcursor => ?_⟩
    rcases hrows row hrow with hold | hnew
    · exact (hall row hold hcursor).mono hdone hreplaced
    · exact absurd (le_trans hcursor hle) (not_le.mpr hnew)
  | updateSnapshotCursor cursor => exact le_trans h.2 hcurrent
  | _ => exact h.2

/-- The rows of the history after an event of the server. -/
theorem mem_userHistory_step {server server' : Server} {e : Event}
    (hstep : Server.Step cfg server e server') {row : OperationRow}
    (hrow : row ∈ server'.userHistory userId) :
    row ∈ server.userHistory userId ∨ server.db.currentCursor userId < row.serverCursor := by
  obtain ⟨hmem, hu⟩ := Server.mem_userHistory.mp hrow
  by_cases hold : row ∈ server.history
  · exact Or.inl (Server.mem_userHistory.mpr ⟨hold, hu⟩)
  · exact Or.inr (hu ▸ Server.currentCursor_lt_of_new hstep hmem hold)

namespace Safe

theorem start (reader : Reader W) (userId : Uuid) (settings : Uuid → Option UserSettings)
    (now : DateTime) (world : W) : Safe reader userId (Pull.start settings now world) where
  wellFormed := Server.WellFormed.start settings now
  retained := Server.Retained.start settings now
  below := Nat.zero_le _
  dealt := fun row hrow hcursor => by
    obtain ⟨hmem, -⟩ := Server.mem_userHistory.mp hrow
    exact absurd hmem (by simp [Pull.start, Server.start, Server.history])
  applied := fun id h => absurd h List.not_mem_nil
  skips := fun op h => absurd h List.not_mem_nil
  hands := fun op h => absurd h List.not_mem_nil
  delivered := fun op h => absurd h List.not_mem_nil
  pending := trivial

/-- An event of the server. -/
theorem server {server' : Server} {e : Event} (h : Safe reader userId s)
    (hstep : Server.Step cfg s.server e server') :
    Safe reader userId { s with server := server' } where
  wellFormed := h.wellFormed.step hstep
  retained := h.retained.step hstep
  below := le_trans h.below (Server.currentCursor_le_step hstep userId)
  dealt := fun row hrow hcursor => by
    rcases mem_userHistory_step hstep hrow with hold | hnew
    · exact h.dealt row hold hcursor
    · exact absurd (le_trans hcursor h.below) (not_le.mpr hnew)
  applied := h.applied
  skips := h.skips
  hands := h.hands
  delivered := fun op hop => by
    obtain ⟨row, hrow, rfl⟩ := h.delivered op hop
    obtain ⟨hmem, hu⟩ := Server.mem_userHistory.mp hrow
    exact ⟨row, Server.mem_userHistory.mpr ⟨Server.history_subset_step hstep hmem, hu⟩, rfl⟩
  pending := h.pending.imp (fun _ hid => hid) fun _ _ _ _ hdone hsound =>
    hsound.mono hdone (le_refl _) (Server.currentCursor_le_step hstep userId)
      fun _ hrow => mem_userHistory_step hstep hrow

/-- **The next effect.** -/
theorem effect {action : Action} {rest : List Action} (h : Safe reader userId s)
    (hpending : s.pending = action :: rest) :
    Safe reader userId
      { s with device := perform reader s.device action, pending := rest } := by
  have halong := h.pending
  rw [hpending] at halong
  obtain ⟨⟨hmarks, hsound⟩, hrest⟩ := halong
  have hdone : ∀ id ∈ s.device.doneIds, id ∈ (perform reader s.device action).doneIds :=
    fun id hid => mem_doneIds_perform.mpr (Or.inl hid)
  -- the cursor stays, or moves past what has been dealt with
  have hcursor : s.device.replaced ≤ (perform reader s.device action).replaced ∧
      (perform reader s.device action).cursor ≤ s.server.db.currentCursor userId ∧
      ∀ row ∈ s.server.userHistory userId,
        row.serverCursor ≤ (perform reader s.device action).cursor →
          Dealt s.device.doneIds (perform reader s.device action).replaced row := by
    cases action with
    | updateCursor cursor => exact ⟨le_refl _, hsound.1, hsound.2⟩
    | updateSnapshotCursor cursor =>
      exact ⟨le_max_left _ _, hsound, fun row _ hle => Or.inr (le_max_of_le_right hle)⟩
    | _ => exact ⟨le_refl _, h.below, h.dealt⟩
  refine ⟨h.wellFormed, h.retained, hcursor.2.1, fun row hrow hle => ?_, fun id hid => ?_,
    fun op hop => ?_, fun op hop => ?_, ?_, ?_⟩
  · exact (hcursor.2.2 row hrow hle).mono hdone (le_refl _)
  · change id ∈ (perform reader s.device action).applied at hid
    rw [applied_perform] at hid
    rcases List.mem_append.mp hid with hid | hid
    · exact hdone id (h.applied id hid)
    · exact hdone id (hmarks id hid)
  · rcases mem_skipped_perform hop with hop | rfl
    · exact h.skips op hop
    · exact hsound
  · rcases mem_handed_perform hop with hop | ⟨value, rfl⟩ | ⟨objectType, items, rfl, item, hitem, rfl⟩
    · exact h.hands op hop
    · exact Or.inr hsound
    · exact Or.inl (hsound.2 item hitem ▸ hsound.1)
  · change ∀ op ∈ (perform reader s.device action).delivered, _
    rw [delivered_perform]
    exact h.delivered
  · refine hrest.imp (fun id hid => ?_) fun a _ done done' hdone hsound =>
      hsound.mono hdone hcursor.1 (le_refl _) fun row hrow => Or.inl hrow
    rcases List.mem_append.mp hid with hid | hid
    · exact hdone id hid
    · exact mem_doneIds_perform.mpr (Or.inr hid)

/-- The effects of a page may be performed. -/
theorem along_pageActions (h : Safe reader userId s) {response : DownloadResponse}
    (hanswer : download s.server.db userId (changesQuery s.device.cursor) = .page response) :
    Along (Sound reader s.server userId s.device.replaced) s.device.doneIds
      (pageActions reader s.device.applied s.device.cursor (response.operations.map wireOperation)
        response.nextCursor) := by
  set operations := response.operations.map wireOperation with hoperations
  have hlegit : ∀ {done operations' actions}, DealsWith reader done s.device.applied operations' actions →
      Along (Sound reader s.server userId s.device.replaced) done actions := by
    intro done operations' actions hdeals
    refine hdeals.causal.imp (fun _ hid => hid) fun a ha done done' hdone hmarks =>
      ⟨fun id hid => hdone id (hmarks id hid), ?_⟩
    have hlegit := hdeals.legit a ha
    cases a <;> first | exact hlegit | exact absurd hlegit id
  obtain ⟨hlegitTick, hsettledTick, hmarkedTick⟩ := tickActions_spec reader operations
  rw [pageActions, List.append_assoc]
  refine along_append.mpr ⟨?_, ?_⟩
  · exact hlegit ⟨along_of_markedIds_eq_nil hmarkedTick, hlegitTick,
      fun id => by rw [hmarkedTick, freshIds, List.map_nil, List.filter_nil]⟩
  rw [hsettledTick, List.append_nil]
  rcases running_or_stops reader s.device.applied operations with
    hrunning | ⟨before, op, after, hsplit, hbefore, hop⟩
  · obtain ⟨hdeals, hstopped⟩ := @applyActions_of_running W reader s.device.doneIds _ _ hrunning
    refine along_append.mpr ⟨hlegit hdeals, ?_⟩
    split
    · refine ⟨⟨fun id hid => absurd hid List.not_mem_nil,
        Server.nextCursor_le_of_download h.wellFormed hanswer, fun row hrow hle => ?_⟩, trivial⟩
      by_cases hold : row.serverCursor ≤ s.device.cursor
      · exact (h.dealt row hrow hold).mono (fun id hid => List.mem_append_left _ hid) (le_refl _)
      -- a row of the page, recorded before or by these effects
      · have hmem : row ∈ response.operations :=
          (Server.mem_operations_of_download h.wellFormed h.retained hanswer).mpr
            ⟨hrow, not_le.mp hold, hle⟩
        left
        by_cases happlied : row.operationId ∈ s.device.applied
        · exact List.mem_append_left _ (h.applied _ happlied)
        · refine mem_of_causal hdeals.causal ((hdeals.marked _).mpr ?_)
          refine List.mem_filter.mpr ⟨?_, by simpa using happlied⟩
          exact List.mem_map.mpr ⟨wireOperation row, List.mem_map_of_mem hmem, rfl⟩
    · trivial
  · -- nothing follows an unsupported envelope
    rw [hsplit]
    obtain ⟨hdeals, hstopped⟩ := @applyActions_of_stops W reader s.device.doneIds _ _ after _ hbefore hop
    refine along_append.mpr ⟨hlegit hdeals, ?_⟩
    rw [if_neg (by simp [hstopped])]
    trivial

theorem request (cfg : Config) (h : Safe reader userId s) :
    Safe reader userId (s.request reader userId) := by
  have hquiet : Server.Step cfg s.server (.tick 0) { s.server with
      db := recordCursor s.server.db ⟨userId, reader.deviceId⟩ s.device.cursor } :=
    .quiet (Server.quiet_recordCursor _ _ s.server.downloads)
  unfold Pull.request
  dsimp only
  split
  · have hserver := h.server hquiet
    exact ⟨hserver.wellFormed, hserver.retained, hserver.below, hserver.dealt, hserver.applied,
      hserver.skips, hserver.hands, hserver.delivered, hserver.pending⟩
  · rename_i response hanswer
    have hpage : Safe reader userId { s with
        device := { s.device with
          delivered := s.device.delivered ++ response.operations.map wireOperation }
        pending := pageActions reader s.device.applied s.device.cursor
          (response.operations.map wireOperation) response.nextCursor } := by
      refine ⟨h.wellFormed, h.retained, h.below, h.dealt, h.applied, h.skips, h.hands, fun op hop => ?_,
        h.along_pageActions hanswer⟩
      rcases List.mem_append.mp hop with hop | hop
      · exact h.delivered op hop
      · obtain ⟨row, hrow, rfl⟩ := List.mem_map.mp hop
        exact ⟨row, ((Server.mem_operations_of_download h.wellFormed h.retained hanswer).mp hrow).1,
          rfl⟩
    exact hpage.server hquiet
  · exact h.server hquiet

/-- The effects of a snapshot settle and record nothing, and end with its cursor. -/
theorem along_snapshotActions {lamportClock : ℤ} {newId : ObjectKey → Uuid}
    {received : ReceivedSnapshot}
    (hcursor : received.snapshotCursor ≤ s.server.db.currentCursor userId) :
    Along (Sound reader s.server userId s.device.replaced) s.device.doneIds
      (snapshotActions reader lamportClock newId received) := by
  have hall : ∀ (actions : List Action) (done : List Uuid),
      (∀ a ∈ actions, ∀ done, Sound reader s.server userId s.device.replaced done a) →
        Along (Sound reader s.server userId s.device.replaced) done actions := by
    intro actions
    induction actions with
    | nil => exact fun _ _ => trivial
    | cons a actions ih =>
      exact fun done ha => ⟨ha a List.mem_cons_self done,
        ih _ fun b hb => ha b (List.mem_cons_of_mem _ hb)⟩
  have hrestore : ∀ (t : ObjectType) (items : List DecryptedItem), ∀ a ∈ restoreActions reader t items,
      ∀ done, Sound reader s.server userId s.device.replaced done a := by
    intro t items a ha done
    unfold restoreActions at ha
    split at ha
    · rw [List.mem_singleton.mp ha]
      exact ⟨fun id hid => absurd hid List.not_mem_nil, trivial⟩
    · split at ha
      · obtain ⟨item, -, rfl⟩ := List.mem_map.mp ha
        exact ⟨fun id hid => absurd hid List.not_mem_nil, trivial⟩
      · exact absurd ha List.not_mem_nil
  refine hall _ _ fun a ha done => ?_
  unfold snapshotActions at ha
  split at ha
  · exact absurd ha List.not_mem_nil
  simp only [List.mem_append, List.mem_cons, List.not_mem_nil, or_false, List.mem_flatMap] at ha
  rcases ha with (((rfl | rfl) | ⟨chunk, -, ha⟩) | ⟨key, -, ha⟩) | rfl
  · exact ⟨fun id hid => absurd hid List.not_mem_nil, trivial⟩
  · exact ⟨fun id hid => absurd hid List.not_mem_nil, trivial⟩
  · obtain ⟨t, -, ha⟩ := List.mem_flatMap.mp ha
    exact hrestore _ _ a ha done
  · unfold tombstoneActions at ha
    split at ha
    · rw [List.mem_singleton.mp ha]
      exact ⟨fun id hid => absurd hid List.not_mem_nil, trivial⟩
    · exact absurd ha List.not_mem_nil
  · exact ⟨fun id hid => absurd hid List.not_mem_nil, hcursor⟩

/-- **One event.** -/
theorem step (h : Safe reader userId s) (e : PullEvent W) :
    Safe reader userId (step cfg reader userId s e) := by
  cases e with
  | server e => exact h.server (Server.step_spec e)
  | edit world lamportClock =>
    exact ⟨h.wellFormed, h.retained, h.below, h.dealt, h.applied, h.skips, h.hands, h.delivered, h.pending⟩
  | pruneAppliedOperations keep =>
    exact ⟨h.wellFormed, h.retained, h.below, h.dealt,
      fun id hid => h.applied id (List.mem_filter.mp hid).1, h.skips, h.hands, h.delivered, h.pending⟩
  | request =>
    rw [Pull.step]
    split
    · exact h.request cfg
    · exact h
  | fetchSnapshot order tombstoneOrder newId =>
    rw [Pull.step]
    split
    · have hcursor := Server.snapshotCursor_eq h.wellFormed h.retained userId
      exact ⟨h.wellFormed, h.retained, h.below, h.dealt, h.applied, h.skips, h.hands, h.delivered,
        along_snapshotActions (le_of_eq hcursor)⟩
    · exact h
  | effect =>
    rw [Pull.step]
    split
    · exact h
    · rename_i action rest hpending
      exact h.effect hpending
  | fail world =>
    exact ⟨h.wellFormed, h.retained, h.below, h.dealt, h.applied, h.skips, h.hands, h.delivered, trivial⟩

theorem run (reader : Reader W) (userId : Uuid) (settings : Uuid → Option UserSettings)
    (now : DateTime) (world : W) (events : List (PullEvent W)) :
    Safe reader userId (Pull.run cfg reader userId (Pull.start settings now world) events) :=
  Runs.invariant (fun _ e h => h.step e) (Safe.start reader userId settings now world) events

end Safe

/-! ### The cursor over a whole run -/

/-- The operation was handed to the applier of its type, and the call returned. -/
def HandedOver (reader : Reader W) (d : Device W) (op : WireOperation) : Prop :=
  ∃ handed ∈ d.handed, handed.operationId = op.operationId ∧ HasApplier reader handed

/-- The operation was skipped, on purpose. -/
def SkippedOver (reader : Reader W) (d : Device W) (op : WireOperation) : Prop :=
  ∃ skipped ∈ d.skipped, skipped.operationId = op.operationId ∧ Skips reader skipped

/-- What the cursor has passed was handed over or skipped. -/
def DealtWith (reader : Reader W) (s : Pull W) : Prop :=
  ∀ op ∈ s.device.delivered, op.serverCursor ≤ s.device.cursor →
    HandedOver reader s.device op ∨ SkippedOver reader s.device op

/-- What the cursor has passed was handed over, skipped, or replaced by a snapshot. -/
theorem Safe.dealtWith (h : Safe reader userId s) {op : WireOperation} (hop : op ∈ s.device.delivered)
    (hcursor : op.serverCursor ≤ s.device.cursor) :
    HandedOver reader s.device op ∨ SkippedOver reader s.device op ∨
      op.serverCursor ≤ s.device.replaced := by
  obtain ⟨row, hrow, rfl⟩ := h.delivered op hop
  rcases h.dealt row hrow hcursor with hdone | hreplaced
  · obtain ⟨o, ho, hid⟩ := List.mem_map.mp hdone
    rcases List.mem_append.mp ho with ho | ho
    · exact Or.inl ⟨o, ho, hid, h.hands o ho⟩
    · exact Or.inr (Or.inl ⟨o, ho, hid, h.skips o ho⟩)
  · exact Or.inr (Or.inr hreplaced)

/-- **A page with an unsupported envelope**: what comes before it is recorded, and the cursor
stays. -/
theorem performAll_pageActions_of_stops (d : Device W) {before after : List WireOperation}
    {op : WireOperation} (nextCursor : ℕ)
    (hbefore : ∀ o ∈ before, ¬PageWalk.Stops reader d.applied o)
    (hop : PageWalk.Stops reader d.applied op) :
    (∀ id, id ∈ (performAll reader d (pageActions reader d.applied d.cursor (before ++ op :: after)
        nextCursor)).applied ↔ id ∈ d.applied ∨ ∃ o ∈ before, o.operationId = id) ∧
      (performAll reader d (pageActions reader d.applied d.cursor (before ++ op :: after)
        nextCursor)).cursor = d.cursor := by
  obtain ⟨hdeals, hstopped⟩ := @applyActions_of_stops W reader d.doneIds _ _ after _ hbefore hop
  obtain ⟨hlegitTick, -, hmarkedTick⟩ := tickActions_spec reader (before ++ op :: after)
  have hactions : pageActions reader d.applied d.cursor (before ++ op :: after) nextCursor =
      tickActions (before ++ op :: after) ++ applyActions reader d.applied (before ++ op :: after) := by
    rw [pageActions, if_neg (by simp [hstopped]), List.append_nil]
  obtain ⟨happlied, hcursor⟩ := performAll_spec (fun action haction =>
    (List.mem_append.mp haction).elim (hlegitTick action) (hdeals.legit action)) d
  rw [hactions]
  refine ⟨fun id => ?_, hcursor⟩
  rw [happlied, markedIds_append, hmarkedTick, List.nil_append, List.mem_append, hdeals.marked,
    freshIds, List.mem_filter, List.mem_map]
  by_cases hid : id ∈ d.applied <;> simp [hid]

/-- **The cursor is safe.** Along every run, what was delivered and lies at or below the persisted
cursor was handed to an applier that returned, was skipped on purpose, or was replaced by a
snapshot. A page with an unsupported envelope records what comes before it and leaves the cursor,
and a snapshot with one changes nothing. -/
theorem cursor_safe (cfg : Config) (reader : Reader W) (userId : Uuid)
    (settings : Uuid → Option UserSettings) (now : DateTime) (world : W)
    (events : List (PullEvent W)) :
    (∀ op ∈ (run cfg reader userId (start settings now world) events).device.delivered,
      op.serverCursor ≤ (run cfg reader userId (start settings now world) events).device.cursor →
        HandedOver reader (run cfg reader userId (start settings now world) events).device op ∨
        SkippedOver reader (run cfg reader userId (start settings now world) events).device op ∨
        op.serverCursor ≤
          (run cfg reader userId (start settings now world) events).device.replaced) ∧
    (∀ (d : Device W) (before after : List WireOperation) (op : WireOperation) (nextCursor : ℕ),
      (∀ o ∈ before, ¬PageWalk.Stops reader d.applied o) → PageWalk.Stops reader d.applied op →
        (∀ id, id ∈ (performAll reader d (pageActions reader d.applied d.cursor
            (before ++ op :: after) nextCursor)).applied ↔
          id ∈ d.applied ∨ ∃ o ∈ before, o.operationId = id) ∧
        (performAll reader d (pageActions reader d.applied d.cursor (before ++ op :: after)
          nextCursor)).cursor = d.cursor) ∧
    ∀ (d : Device W) (newId : ObjectKey → Uuid) (received : ReceivedSnapshot),
      received.unsupported = true →
        performAll reader d (snapshotActions reader d.lamportClock newId received) = d := by
  refine ⟨fun op hop hcursor => (Safe.run reader userId settings now world events).dealtWith hop hcursor,
    fun d before after op nextCursor hbefore hop =>
      performAll_pageActions_of_stops d nextCursor hbefore hop, fun d newId received h => ?_⟩
  rw [snapshotActions, if_pos h]
  rfl

/-- A device that cannot decrypt anything, with nothing to apply to. -/
def keyless : Reader Unit where
  deviceId := 2
  decrypt := fun _ => none
  applier := fun _ => some fun _ world => world
  batchApplier := fun _ => none
  clearFieldState := id

/-- An operation of another device, as a newer client may encrypt it. -/
def futureOperation (operationId : Uuid) (version : String) (serverCursor : ℕ) : WireOperation where
  operationId := operationId
  deviceId := 1
  lamportTimestamp := 1
  objectType := .bookmark
  objectId := 21
  operationType := .update
  encryptionVersion := 1
  payload := .object [("v", .number version)]
  serverCursor := serverCursor

/-- The second of three operations has an unsupported envelope: the first one is recorded. -/
theorem cursor_safe_futureOperation :
    (performAll keyless (start (fun _ => none) 0 ()).device
      (pageActions keyless [] 0 [futureOperation 11 "2" 1, futureOperation 12 "3" 2,
        futureOperation 13 "2" 3] 3)).cursor = 0 ∧
    11 ∈ (performAll keyless (start (fun _ => none) 0 ()).device
      (pageActions keyless [] 0 [futureOperation 11 "2" 1, futureOperation 12 "3" 2,
        futureOperation 13 "2" 3] 3)).applied := by
  obtain ⟨happlied, hcursor⟩ :=
    (cursor_safe Server.smallConfig keyless 9 (fun _ => none) 0 () []).2.1
      (start (fun _ => none) 0 ()).device [futureOperation 11 "2" 1] [futureOperation 13 "2" 3]
      (futureOperation 12 "3" 2) 3 (by decide) (by decide)
  exact ⟨hcursor, (happlied 11).mpr (Or.inr ⟨_, List.mem_singleton_self _, rfl⟩)⟩

/-! ### Replaced operations -/

/-- A page is delivered and the worker stops at once. When it is back, the row is covered by a
snapshot and pruned, and the device takes the snapshot. -/
def replacedRun : List (PullEvent Unit) :=
  [.server (.register 1 9), .server (.register 2 9),
    .server (.upload 1 [Server.smallOp 11 1 1 .bookmark 21 .create]),
    .request, .fail (),
    .server (.tick (DateTime.seconds 2000)), .server (.touch 1),
    .server (.downloadBounds 1 ⟨some 1, none⟩), .server (.dropDownload 0),
    .server (.compact 9), .server (.commitSnapshot 0), .server (.pruneChunk 0),
    .request, .fetchSnapshot [(.bookmark, 21)] [(.bookmark, 21)] (fun _ => 0),
    .effect, .effect, .effect]

/-- **A snapshot passes operations that were delivered and not dealt with**: after this run the
cursor is `1`, and the operation delivered at cursor `1` was neither handed over nor skipped. -/
theorem not_dealtWith :
    ¬∀ (cfg : Config) (reader : Reader Unit) (userId : Uuid) (settings : Uuid → Option UserSettings)
      (now : DateTime) (events : List (PullEvent Unit)),
      DealtWith reader (run cfg reader userId (start settings now ()) events) := by
  intro hall
  have hdealt := hall Server.smallConfig keyless 9 (fun _ => none) 0 replacedRun
  set s := run Server.smallConfig keyless 9 (start (fun _ => none) 0 ()) replacedRun with hs
  have hpassed : (∃ op ∈ s.device.delivered, op.serverCursor ≤ s.device.cursor) ∧
      s.device.handed.length = 0 ∧ s.device.skipped.length = 0 := by
    rw [hs]
    decide +kernel
  obtain ⟨⟨op, hop, hcursor⟩, hhanded, hskipped⟩ := hpassed
  rcases hdealt op hop hcursor with ⟨o, ho, -⟩ | ⟨o, ho, -⟩
  · rw [List.length_eq_zero_iff.mp hhanded] at ho
    exact absurd ho List.not_mem_nil
  · rw [List.length_eq_zero_iff.mp hskipped] at ho
    exact absurd ho List.not_mem_nil

end Pull

end Client

end HelixSync
