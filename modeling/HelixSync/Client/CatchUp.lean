import HelixSync.Server.Contents
import HelixSync.Client.CursorSafety

/-!
# Catching up

A run of `downloadAndApply` in which nothing fails. A cursor within the bounds gets page after
page, each ending further up, until one ends at the head; a cursor below the floor gets a
snapshot, whose cursor is the head. Compaction may go on meanwhile, and move the floor past the
cursor between two pages: the device then takes its one snapshot, after which no floor can
overtake it.

A cursor above the head, as a device has it after the server was restored from an older
database, is answered `cursor_invalid`. The server means this to send the device to `/snapshot`;
the client knows only `cursor_too_old`, and the run fails. So a device catches up exactly if its
cursor is not above the head (`HelixSync.Client.catchesUp_iff`).
-/

namespace HelixSync

namespace Client

variable {W : Type}

/-! ### The run -/

/-- What happens around one turn of the loop: events of the server before each request, and how
a snapshot lists its contents. -/
structure Turn where
  before : List Event
  beforeSnapshot : List Event
  order : List ObjectKey
  tombstoneOrder : List ObjectKey
  newId : ObjectKey → Uuid

/-- How a run ends. -/
inductive Outcome (W : Type) where
  /-- It returns `false`: nothing is left. -/
  | caughtUp (device : Device W)
  /-- It returns `true`: the page budget is spent. -/
  | budgetSpent (device : Device W)
  | throws (device : Device W)

/-- The server after a request. -/
def afterRequest (reader : Reader W) (userId : Uuid) (server : Server) (cursor : ℕ) : Server :=
  { server with db := recordCursor server.db ⟨userId, reader.deviceId⟩ cursor }

/-- The device with the operations of a page. -/
def Device.deliver (d : Device W) (operations : List WireOperation) : Device W :=
  { d with delivered := d.delivered ++ operations }

/-- `downloadAndApply`, with one turn for each page of its budget. Steps that the environment
may make fail do not fail; an error is an answer the client does not handle, or an unsupported
envelope. -/
def downloadAndApply (cfg : Config) (reader : Reader W) (userId : Uuid) :
    List Turn → Server → Device W → (snapshotTaken : Bool) → Outcome W
  | [], _, d, _ => .budgetSpent d
  | turn :: turns, server, d, snapshotTaken =>
    let asked := server.run cfg turn.before
    let answered := afterRequest reader userId asked d.cursor
    match download asked.db userId (Pull.changesQuery d.cursor) with
    | .cursorTooOld =>
      if snapshotTaken then .throws d
      else
        let source := answered.run cfg turn.beforeSnapshot
        let received := receivedSnapshot (snapshot source.now source.db userId) turn.order
          turn.tombstoneOrder
        if received.unsupported then .throws d
        else
          downloadAndApply cfg reader userId turns source
            (performAll reader d (snapshotActions reader d.lamportClock turn.newId received)) true
    | .page response =>
      let operations := response.operations.map wireOperation
      let applied := performAll reader (d.deliver operations)
        (pageActions reader d.applied d.cursor operations response.nextCursor)
      if (walkPage reader d.applied operations).stopped then .throws applied
      else if response.hasMore then
        downloadAndApply cfg reader userId turns answered applied snapshotTaken
      else .caughtUp applied
    | .cursorInvalid | .overflow => .throws d

/-! ### What is expected -/

/-- An event that accepts nothing. -/
def NotUpload : Event → Prop
  | .upload _ _ => False
  | _ => True

/-- A turn without uploads, whose lists are complete. -/
structure Turn.Fair (turn : Turn) (server : Server) (userId : Uuid) : Prop where
  before : ∀ e ∈ turn.before, NotUpload e
  beforeSnapshot : ∀ e ∈ turn.beforeSnapshot, NotUpload e
  lists : server.ListsSnapshot userId turn.order turn.tombstoneOrder

/-- No encrypted operation of a user has an unsupported envelope. -/
def Readable (server : Server) (userId : Uuid) : Prop :=
  ∀ row ∈ server.userHistory userId, 1 ≤ row.encryptionVersion →
    versionsUnsupported (wireOperation row) = false

/-- A device at the start of a run. -/
def deviceAt (cursor : ℕ) (lamportClock : ℤ) (applied : List Uuid) (world : W) : Device W :=
  ⟨cursor, lamportClock, applied, world, [], [], [], [], 0⟩

/-- Every operation above a cursor was recorded as applied before, or was handed to its applier,
or was skipped on purpose. -/
def AppliedAbove (reader : Reader W) (server : Server) (userId : Uuid) (cursor : ℕ)
    (before : List Uuid) (d : Device W) : Prop :=
  ∀ row ∈ server.userHistory userId, cursor < row.serverCursor →
    row.operationId ∈ before ∨ Pull.HandedOver reader d (wireOperation row) ∨
      Pull.SkippedOver reader d (wireOperation row)

/-- The server later on, with no upload in between. -/
inductive Later (cfg : Config) (reader : Reader W) (userId : Uuid) (server : Server) : Server → Prop
  | refl : Later cfg reader userId server server
  | event {s : Server} (h : Later cfg reader userId server s) {e : Event} (he : NotUpload e) :
      Later cfg reader userId server (s.step cfg e)
  | request {s : Server} (h : Later cfg reader userId server s) (cursor : ℕ) :
      Later cfg reader userId server (afterRequest reader userId s cursor)

/-- A snapshot the server gave, cut at the head, was handed to the appliers: all its objects that
can be read, and all its tombstones. -/
def AppliedSnapshot (cfg : Config) (reader : Reader W) (server : Server) (userId : Uuid)
    (d : Device W) : Prop :=
  ∃ (source : Server) (received : ReceivedSnapshot) (lamportTimestamp : ℤ)
    (newId : ObjectKey → Uuid),
    Later cfg reader userId server source ∧
    received.snapshotCursor = server.db.currentCursor userId ∧
    (∀ key obj, (snapshot source.now source.db userId).objects.get key = some obj →
      ∀ item, decryptObject reader (snapshotOperation received lamportTimestamp newId obj) = some item →
        HasApplier reader item.1 → item.1 ∈ d.restored) ∧
    ∀ key, (snapshot source.now source.db userId).tombstones key = true →
      (reader.applier key.1).isSome = true →
        tombstoneOperation received lamportTimestamp newId key ∈ d.restored

/-- The run ends at the head, with everything above the cursor applied or replaced. -/
def Outcome.AtHead (cfg : Config) (reader : Reader W) (server : Server) (userId : Uuid)
    (start : Device W) : Outcome W → Prop
  | .caughtUp d => d.cursor = server.db.currentCursor userId ∧
      (AppliedAbove reader server userId start.cursor start.applied d ∨
        AppliedSnapshot cfg reader server userId d)
  | _ => False

/-- **A device catches up**: with enough turns, whatever happens around them. -/
def CatchesUp (cfg : Config) (reader : Reader W) (server : Server) (userId : Uuid)
    (start : Device W) : Prop :=
  ∃ enough : ℕ, ∀ turns : List Turn, enough ≤ turns.length →
    (∀ turn ∈ turns, turn.Fair server userId) →
      (downloadAndApply cfg reader userId turns server start false).AtHead cfg reader server userId
        start

/-! ### The server meanwhile -/

/-- What stays of the server: its invariants, what it has accepted, and its head. -/
structure Meanwhile (server s : Server) (userId : Uuid) : Prop where
  wellFormed : Server.WellFormed s
  retained : Server.Retained s
  stocked : Server.Stocked s
  batches : s.batches = server.batches
  head : s.db.currentCursor userId = server.db.currentCursor userId

section Server

variable {cfg : Config} {reader : Reader W} {userId : Uuid} {server s s' : Server} {e : Event}

theorem Meanwhile.userHistory_eq (h : Meanwhile server s userId) (userId' : Uuid) :
    s.userHistory userId' = server.userHistory userId' := by
  rw [Server.userHistory, Server.userHistory, Server.history, Server.history, h.batches]

theorem Meanwhile.step (h : Meanwhile server s userId) (hstep : Server.Step cfg s e s')
    (he : NotUpload e) : Meanwhile server s' userId := by
  refine ⟨h.wellFormed.step hstep, h.retained.step hstep, h.stocked.step h.wellFormed hstep, ?_, ?_⟩
  · refine (Server.frame_of_ne_upload hstep fun deviceId ops heq => ?_).1.trans h.batches
    rw [heq] at he
    exact he
  · cases hstep with
    | quiet hq => rw [Db.currentCursor, hq.data.cursorAllocator]; exact h.head
    | idle => exact absurd he id
    | wrote _ _ _ _ => exact absurd he id
    | committed _ hcommit =>
      rw [Db.currentCursor, (commitSnapshot_frame hcommit).2.1]
      exact h.head
    | pruned _ => exact h.head

theorem Meanwhile.of_later (hwf : Server.WellFormed server) (hret : Server.Retained server)
    (hstocked : Server.Stocked server) (h : Later cfg reader userId server s) :
    Meanwhile server s userId := by
  induction h with
  | refl => exact ⟨hwf, hret, hstocked, rfl, rfl⟩
  | event _ he ih => exact ih.step (Server.step_spec _) he
  | @request s _ cursor ih =>
    have hquiet : Server.Step cfg s (.tick 0) (afterRequest reader userId s cursor) :=
      .quiet (Server.quiet_recordCursor _ cursor s.downloads)
    exact ih.step hquiet trivial

theorem Later.run (h : Later cfg reader userId server s) {events : List Event}
    (hevents : ∀ e ∈ events, NotUpload e) : Later cfg reader userId server (s.run cfg events) := by
  induction events generalizing s with
  | nil => exact h
  | cons e events ih =>
    exact ih (h.event (hevents e List.mem_cons_self)) fun e' he' =>
      hevents e' (List.mem_cons_of_mem _ he')

/-- The head is never below the floor. -/
theorem floorCursor_le_currentCursor (hwf : Server.WellFormed s) (userId : Uuid) :
    s.db.floorCursor userId ≤ s.db.currentCursor userId := by
  refine max_le ?_ (hwf.maxSnapshotCursor_le userId)
  rcases hmin : ((s.db.userRows userId).map OperationRow.serverCursor).min? with _ | m
  · exact Nat.zero_le _
  · obtain ⟨row, hrow, rfl⟩ := List.mem_map.mp (List.min?_eq_some_iff.mp hmin).1
    obtain ⟨hlog, hu⟩ := List.mem_filter.mp hrow
    rw [decide_eq_true_eq] at hu
    have hle := (hwf.cursor_mem (hwf.log.mem hlog)).2
    rw [hu] at hle
    exact le_trans (Nat.sub_le _ _) hle

end Server

/-! ### A page on the device -/

section Device

variable {reader : Reader W} {userId : Uuid} {server : Server} {start d : Device W}

theorem mem_doneIds_performAll {actions : List Action} {id : Uuid} :
    id ∈ (performAll reader d actions).doneIds ↔ id ∈ d.doneIds ∨ id ∈ settledIds actions := by
  induction actions generalizing d with
  | nil => simp [performAll, settledIds]
  | cons a actions ih =>
    change id ∈ (performAll reader (perform reader d a) actions).doneIds ↔ _
    rw [ih, mem_doneIds_perform, settledIds_cons, List.mem_append, or_assoc]

/-- How far a run has come: what was recorded since the start has been dealt with, and so has
everything between the cursor it started with and the one it has reached. -/
structure Progress (reader : Reader W) (server : Server) (userId : Uuid) (start d : Device W) :
    Prop where
  applied : ∀ id ∈ d.applied, id ∈ start.applied ∨ id ∈ d.doneIds
  passed : ∀ row ∈ server.userHistory userId, start.cursor < row.serverCursor →
    row.serverCursor ≤ d.cursor → row.operationId ∈ start.applied ∨ row.operationId ∈ d.doneIds
  skips : ∀ op ∈ d.skipped, Skips reader op
  hands : ∀ op ∈ d.handed, HasApplier reader op

/-- At the head, everything above the start has been dealt with. -/
theorem Progress.appliedAbove (h : Progress reader server userId start d)
    (hhead : ∀ row ∈ server.userHistory userId, row.serverCursor ≤ d.cursor) :
    AppliedAbove reader server userId start.cursor start.applied d := by
  intro row hrow hcursor
  rcases h.passed row hrow hcursor (hhead row hrow) with hold | hdone
  · exact Or.inl hold
  · obtain ⟨op, hop, hid⟩ := List.mem_map.mp hdone
    rcases List.mem_append.mp hop with hop | hop
    · exact Or.inr (Or.inl ⟨op, hop, hid, h.hands op hop⟩)
    · exact Or.inr (Or.inr ⟨op, hop, hid, h.skips op hop⟩)

/-- A legitimate effect. -/
theorem Progress.perform {action : Action} (h : Progress reader server userId start d)
    (hlegit : action.Legit reader)
    (hmarks : ∀ id ∈ action.marks, id ∈ start.applied ∨ id ∈ d.doneIds) :
    Progress reader server userId start (perform reader d action) := by
  have hdone : ∀ {id}, id ∈ start.applied ∨ id ∈ d.doneIds →
      id ∈ start.applied ∨ id ∈ (Client.perform reader d action).doneIds :=
    fun hid => hid.imp_right fun hid => mem_doneIds_perform.mpr (Or.inl hid)
  refine ⟨fun id hid => ?_, fun row hrow hlo hhi => ?_, fun op hop => ?_, fun op hop => ?_⟩
  · rw [applied_perform] at hid
    rcases List.mem_append.mp hid with hid | hid
    · exact hdone (h.applied id hid)
    · exact hdone (hmarks id hid)
  · rw [(cursor_perform hlegit).1] at hhi
    exact hdone (h.passed row hrow hlo hhi)
  · rcases mem_skipped_perform hop with hop | rfl
    · exact h.skips op hop
    · exact hlegit
  · rcases mem_handed_perform hop with hop | ⟨value, rfl⟩ | ⟨objectType, items, rfl, item, hitem, rfl⟩
    · exact h.hands op hop
    · exact Or.inr hlegit
    · exact Or.inl (hlegit.2 item hitem ▸ hlegit.1)

/-- Legitimate effects that record only what has been settled. -/
theorem Progress.performAll {actions : List Action} (h : Progress reader server userId start d)
    (hlegit : ∀ action ∈ actions, action.Legit reader) {done : List Uuid} (hcausal : Causal done actions)
    (hdone : ∀ id ∈ done, id ∈ d.doneIds) :
    Progress reader server userId start (performAll reader d actions) := by
  induction actions generalizing d done with
  | nil => exact h
  | cons a actions ih =>
    refine ih (h.perform (hlegit a List.mem_cons_self) fun id hid => Or.inr (hdone id (hcausal.1 id hid)))
      (fun b hb => hlegit b (List.mem_cons_of_mem _ hb)) hcausal.2 fun id hid => ?_
    rcases List.mem_append.mp hid with hid | hid
    · exact mem_doneIds_perform.mpr (Or.inl (hdone id hid))
    · exact mem_doneIds_perform.mpr (Or.inr hid)

/-- The effects of a page that nothing stops: those of its operations, then the cursor. -/
theorem performAll_pageActions_of_running {operations : List WireOperation} {nextCursor : ℕ}
    (hrunning : ∀ op ∈ operations, ¬PageWalk.Stops reader d.applied op) :
    Client.performAll reader (d.deliver operations)
        (pageActions reader d.applied d.cursor operations nextCursor) =
      { Client.performAll reader (d.deliver operations)
          (tickActions operations ++ applyActions reader d.applied operations) with
        cursor := nextCursor } := by
  obtain ⟨hdeals, hstopped⟩ := @applyActions_of_running W reader d.doneIds _ _ hrunning
  have hcursor := (performAll_spec (fun action haction => (List.mem_append.mp haction).elim
    ((tickActions_spec reader operations).1 action) (hdeals.legit action)) (d.deliver operations)).2
  rw [pageActions]
  split
  · rw [Client.performAll, List.foldl_append]
    rfl
  · rename_i hsame
    have hnext : nextCursor = d.cursor := by
      by_contra hne
      exact hsame ⟨hstopped, Or.inr hne⟩
    rw [List.append_nil, hnext, ← show (d.deliver operations).cursor = d.cursor from rfl, ← hcursor]

/-- **A page** that nothing stops moves a run forward to its end. -/
theorem Progress.page {response : DownloadResponse} (h : Progress reader server userId start d)
    (hrunning : ∀ op ∈ response.operations.map wireOperation, ¬PageWalk.Stops reader d.applied op)
    (hrows : ∀ row ∈ server.userHistory userId, d.cursor < row.serverCursor →
      row.serverCursor ≤ response.nextCursor → row ∈ response.operations) :
    Progress reader server userId start (Client.performAll reader
      (d.deliver (response.operations.map wireOperation))
      (pageActions reader d.applied d.cursor (response.operations.map wireOperation)
        response.nextCursor)) := by
  rw [performAll_pageActions_of_running hrunning]
  set operations := response.operations.map wireOperation with hoperations
  obtain ⟨hdeals, hstopped⟩ := @applyActions_of_running W reader d.doneIds _ _ hrunning
  obtain ⟨hlegitTick, hsettledTick, hmarkedTick⟩ := tickActions_spec reader operations
  set actions := tickActions operations ++ applyActions reader d.applied operations with hactions
  have hlegit : ∀ action ∈ actions, action.Legit reader := fun action haction =>
    (List.mem_append.mp haction).elim (hlegitTick action) (hdeals.legit action)
  have hcausal : Causal d.doneIds actions := by
    refine along_append.mpr ⟨along_of_markedIds_eq_nil hmarkedTick, ?_⟩
    rw [hsettledTick, List.append_nil]
    exact hdeals.causal
  have hdelivered : Progress reader server userId start (d.deliver operations) :=
    ⟨h.applied, h.passed, h.skips, h.hands⟩
  have hafter := hdelivered.performAll hlegit hcausal fun _ hid => hid
  have hcursor := (performAll_spec hlegit (d.deliver operations)).2
  refine ⟨hafter.applied, fun row hrow hlo hhi => ?_, hafter.skips, hafter.hands⟩
  by_cases hold : row.serverCursor ≤ d.cursor
  · exact hafter.passed row hrow hlo (hcursor ▸ hold)
  · have hmem := hrows row hrow (not_le.mp hold) hhi
    by_cases happlied : row.operationId ∈ d.applied
    · refine (h.applied _ happlied).imp_right fun hid => ?_
      exact mem_doneIds_performAll.mpr (Or.inl hid)
    · have hmarked : row.operationId ∈ markedIds (applyActions reader d.applied operations) := by
        refine (hdeals.marked _).mpr (List.mem_filter.mpr ⟨?_, by simpa using happlied⟩)
        exact List.mem_map.mpr ⟨wireOperation row, List.mem_map_of_mem hmem, rfl⟩
      right
      refine mem_doneIds_performAll.mpr ?_
      rw [hactions, settledIds_append, hsettledTick, List.nil_append]
      exact List.mem_append.mp (mem_of_causal hdeals.causal hmarked)

/-! ### A snapshot on the device -/

/-- The operations of a snapshot an effect hands over. -/
def Action.restores : Action → List WireOperation
  | .restoreBatch _ items => items.map Prod.fst
  | .restore item => [item.1]
  | _ => []

theorem mem_restored_performAll {actions : List Action} {op : WireOperation} :
    op ∈ (Client.performAll reader d actions).restored ↔
      op ∈ d.restored ∨ ∃ action ∈ actions, op ∈ action.restores := by
  induction actions generalizing d with
  | nil => simp [Client.performAll]
  | cons a actions ih =>
    have hone : op ∈ (Client.perform reader d a).restored ↔ op ∈ d.restored ∨ op ∈ a.restores := by
      cases a <;> simp [Client.perform, Action.restores]
    change op ∈ (Client.performAll reader (Client.perform reader d a) actions).restored ↔ _
    rw [ih, hone, List.exists_mem_cons_iff, or_assoc]

/-- Every element of a list is in one of its chunks. -/
theorem exists_mem_chunks {α : Type} (size : ℕ) (hsize : 0 < size) {items : List α} {x : α}
    (hx : x ∈ items) : ∃ chunk ∈ chunks size items, x ∈ chunk := by
  obtain ⟨i, hi, rfl⟩ := List.getElem_of_mem hx
  refine ⟨(items.drop (i / size * size)).take size, List.mem_map.mpr ⟨i / size, ?_, rfl⟩, ?_⟩
  · rw [List.mem_range, Nat.div_lt_iff_lt_mul hsize]
    have := Nat.div_add_mod (items.length + size - 1) size
    have := Nat.mod_lt (items.length + size - 1) hsize
    have := Nat.mul_comm size ((items.length + size - 1) / size)
    omega
  · have hmod := Nat.div_add_mod i size
    have hlt := Nat.mod_lt i hsize
    have hcomm := Nat.mul_comm size (i / size)
    rw [List.mem_take_iff_getElem]
    refine ⟨i % size, ?_, ?_⟩
    · rw [List.length_drop]
      omega
    · rw [List.getElem_drop]
      congr 1
      omega

/-- The calls for a chunk hand over all of it that has an applier. -/
theorem exists_restores_chunkActions {items : List DecryptedItem} {item : DecryptedItem}
    (hitem : item ∈ items) (happlier : HasApplier reader item.1) :
    ∃ action ∈ chunkActions reader items, item.1 ∈ action.restores := by
  have hmem : item ∈ items.filter fun i => i.1.objectType = item.1.objectType :=
    List.mem_filter.mpr ⟨hitem, by simp⟩
  have hcall : ∃ action ∈ restoreActions reader item.1.objectType
      (items.filter fun i => i.1.objectType = item.1.objectType), item.1 ∈ action.restores := by
    unfold restoreActions
    split
    · exact ⟨_, List.mem_singleton_self _, List.mem_map_of_mem hmem⟩
    · rename_i hbatch
      rw [if_pos (happlier.resolve_left hbatch)]
      exact ⟨.restore item, List.mem_map_of_mem hmem, List.mem_singleton_self _⟩
  obtain ⟨action, haction, hrestores⟩ := hcall
  refine ⟨action, List.mem_flatMap.mpr ⟨item.1.objectType, ?_, haction⟩, hrestores⟩
  exact List.mem_eraseDups.mpr (List.mem_map_of_mem hitem)

/-- **A snapshot** is handed over as a whole, and the cursor is set to its cursor. -/
theorem performAll_snapshotActions {received : ReceivedSnapshot} (newId : ObjectKey → Uuid)
    (hsupported : received.unsupported = false) (d : Device W) :
    (Client.performAll reader d (snapshotActions reader d.lamportClock newId received)).cursor =
        received.snapshotCursor ∧
      (∀ obj ∈ received.objects, ∀ item, decryptObject reader (snapshotOperation received
          (max d.lamportClock received.newest + 1) newId obj) = some item →
        HasApplier reader item.1 → item.1 ∈ (Client.performAll reader d
          (snapshotActions reader d.lamportClock newId received)).restored) ∧
      ∀ key ∈ received.tombstones, (reader.applier key.1).isSome = true →
        tombstoneOperation received (max d.lamportClock received.newest + 1) newId key ∈
          (Client.performAll reader d
            (snapshotActions reader d.lamportClock newId received)).restored := by
  rw [snapshotActions, if_neg (by simp [hsupported])]
  dsimp only
  refine ⟨?_, fun obj hobj item hdecrypt happlier => ?_, fun key hkey happlier => ?_⟩
  · rw [Client.performAll, List.foldl_append]
    rfl
  · refine mem_restored_performAll.mpr (Or.inr ?_)
    obtain ⟨chunk, hchunk, hop⟩ := exists_mem_chunks snapshotDispatchChunk (by decide)
      (List.mem_map_of_mem (f := snapshotOperation received
        (max d.lamportClock received.newest + 1) newId) hobj)
    obtain ⟨action, haction, hrestores⟩ := exists_restores_chunkActions
      (List.mem_filterMap.mpr ⟨_, hop, hdecrypt⟩) happlier
    refine ⟨action, List.mem_append_left _ (List.mem_append_left _ (List.mem_append_right _ ?_)),
      hrestores⟩
    exact List.mem_flatMap.mpr ⟨chunk, hchunk, haction⟩
  · refine mem_restored_performAll.mpr (Or.inr ?_)
    refine ⟨.restore (tombstoneOperation received (max d.lamportClock received.newest + 1) newId key,
      .object []), List.mem_append_left _ (List.mem_append_right _ ?_), List.mem_singleton_self _⟩
    refine List.mem_flatMap.mpr ⟨key, hkey, ?_⟩
    unfold tombstoneActions
    split
    · exact List.mem_singleton_self _
    · rename_i hnone
      exact absurd happlier hnone

end Device

/-! ### The loop -/

section Loop

variable {cfg : Config} {reader : Reader W} {userId : Uuid} {server s : Server} {start d : Device W}

/-- Nothing of a readable history stops a page. -/
theorem not_stops_of_readable (hreadable : Readable server userId) (h : Meanwhile server s userId)
    {alreadyApplied : List Uuid} {query : DownloadQuery} {response : DownloadResponse}
    (hanswer : download s.db userId query = .page response) :
    ∀ op ∈ response.operations.map wireOperation, ¬PageWalk.Stops reader alreadyApplied op := by
  rintro op hop ⟨-, -, hencrypted, hunsupported⟩
  obtain ⟨row, hrow, rfl⟩ := List.mem_map.mp hop
  have hmem := ((Server.mem_operations_of_download h.wellFormed h.retained hanswer).mp hrow).1
  rw [h.userHistory_eq] at hmem
  rw [hreadable row hmem hencrypted] at hunsupported
  exact absurd hunsupported (by simp)

/-- Nor does anything of it stop a snapshot. -/
theorem unsupported_of_readable (hreadable : Readable server userId) (h : Meanwhile server s userId)
    (order tombstoneOrder : List ObjectKey) :
    (receivedSnapshot (snapshot s.now s.db userId) order tombstoneOrder).unsupported = false := by
  rw [ReceivedSnapshot.unsupported, List.any_eq_false]
  intro obj hobj hbad
  obtain ⟨key, -, hget⟩ := List.mem_filterMap.mp hobj
  rw [Bool.and_eq_true, decide_eq_true_eq] at hbad
  obtain ⟨row, hrow, -, rfl⟩ :=
    (Server.fromRows_of_snapshot h.stocked h.wellFormed hget).encrypted hbad.1
  rw [h.userHistory_eq] at hrow
  have hsupported := hreadable row hrow hbad.1
  -- the check looks at the type, the operation type and the payload only
  exact absurd (hsupported.symm.trans hbad.2) (by simp)

/-- The objects that are received are those of the response, -/
theorem mem_objects_receivedSnapshot (hwf : Server.WellFormed s) (hstocked : Server.Stocked s)
    {order tombstoneOrder : List ObjectKey} (hlists : s.ListsSnapshot userId order tombstoneOrder)
    {obj : SnapshotObject} :
    obj ∈ (receivedSnapshot (snapshot s.now s.db userId) order tombstoneOrder).objects ↔
      ∃ key, (snapshot s.now s.db userId).objects.get key = some obj := by
  constructor
  · intro hobj
    obtain ⟨key, -, hget⟩ := List.mem_filterMap.mp hobj
    exact ⟨key, hget⟩
  · rintro ⟨key, hget⟩
    obtain ⟨row, hrow, hkey⟩ := (Server.fromRows_of_snapshot hstocked hwf hget).touched
    exact List.mem_filterMap.mpr ⟨key, hkey ▸ (hlists.2.2 row hrow).1, hget⟩

/-- and the tombstones its active ones. -/
theorem mem_tombstones_receivedSnapshot (hstocked : Server.Stocked s)
    {order tombstoneOrder : List ObjectKey} (hlists : s.ListsSnapshot userId order tombstoneOrder)
    {key : ObjectKey} :
    key ∈ (receivedSnapshot (snapshot s.now s.db userId) order tombstoneOrder).tombstones ↔
      s.db.tombstoned userId key = true := by
  constructor
  · intro hkey
    exact (List.mem_filter.mp hkey).2
  · intro htomb
    refine List.mem_filter.mpr ⟨?_, htomb⟩
    rw [tombstoned_eq, Option.isSome_iff_exists] at htomb
    obtain ⟨tombstone, htomb⟩ := htomb
    obtain ⟨row, hrow, hkey, -⟩ := hstocked.tombstones userId key tombstone htomb
    exact hkey ▸ (hlists.2.2 row hrow).2

/-- The lists of a snapshot are complete. -/
theorem appliedSnapshot_of_lists (hlater : Later cfg reader userId server s)
    (h : Meanwhile server s userId) {turn : Turn}
    (hlists : server.ListsSnapshot userId turn.order turn.tombstoneOrder)
    (hreadable : Readable server userId) (d : Device W) :
    (Client.performAll reader d (snapshotActions reader d.lamportClock turn.newId
        (receivedSnapshot (snapshot s.now s.db userId) turn.order turn.tombstoneOrder))).cursor =
          server.db.currentCursor userId ∧
      AppliedSnapshot cfg reader server userId (Client.performAll reader d
        (snapshotActions reader d.lamportClock turn.newId
          (receivedSnapshot (snapshot s.now s.db userId) turn.order turn.tombstoneOrder))) := by
  have hcursor : (receivedSnapshot (snapshot s.now s.db userId) turn.order
      turn.tombstoneOrder).snapshotCursor = server.db.currentCursor userId :=
    (Server.snapshotCursor_eq h.wellFormed h.retained userId).trans h.head
  have hsource : s.ListsSnapshot userId turn.order turn.tombstoneOrder := by
    rw [Server.ListsSnapshot, h.userHistory_eq]
    exact hlists
  obtain ⟨hend, hobjects, htombstones⟩ := @performAll_snapshotActions W reader _ turn.newId
    (unsupported_of_readable hreadable h turn.order turn.tombstoneOrder) d
  refine ⟨hend.trans hcursor, s, receivedSnapshot (snapshot s.now s.db userId) turn.order
    turn.tombstoneOrder, max d.lamportClock (receivedSnapshot (snapshot s.now s.db userId) turn.order
      turn.tombstoneOrder).newest + 1, turn.newId, hlater, hcursor, fun key obj hget item => ?_,
    fun key htomb => ?_⟩
  · exact hobjects obj ((mem_objects_receivedSnapshot h.wellFormed h.stocked hsource).mpr
      ⟨key, hget⟩) item
  · exact htombstones key ((mem_tombstones_receivedSnapshot h.stocked hsource).mpr htomb)

theorem AppliedSnapshot.mono {d' : Device W} (h : AppliedSnapshot cfg reader server userId d)
    (hsub : ∀ op ∈ d.restored, op ∈ d'.restored) : AppliedSnapshot cfg reader server userId d' := by
  obtain ⟨source, received, lamportTimestamp, newId, hlater, hcursor, hobjects, htombstones⟩ := h
  exact ⟨source, received, lamportTimestamp, newId, hlater, hcursor,
    fun key obj hget item hdecrypt happlier => hsub _ (hobjects key obj hget item hdecrypt happlier),
    fun key htomb happlier => hsub _ (htombstones key htomb happlier)⟩

/-- Where a run stands: it has come so far, or has taken its snapshot and is at the head; and the
turns that are left are enough. -/
def OnTrack (cfg : Config) (reader : Reader W) (server : Server) (userId : Uuid)
    (start d : Device W) (snapshotTaken : Bool) (turnsLeft : ℕ) : Prop :=
  (snapshotTaken = false ∧ Progress reader server userId start d ∧
      d.cursor ≤ server.db.currentCursor userId ∧
      server.db.currentCursor userId - d.cursor + 2 ≤ turnsLeft) ∨
    (snapshotTaken = true ∧ AppliedSnapshot cfg reader server userId d ∧
      d.cursor = server.db.currentCursor userId ∧ 1 ≤ turnsLeft)

/-- **One page of the loop.** -/
theorem page_onTrack (hreadable : Readable server userId) (h : Meanwhile server s userId)
    {snapshotTaken : Bool} {turnsLeft : ℕ}
    (hon : OnTrack cfg reader server userId start d snapshotTaken (turnsLeft + 1))
    (hfloor : s.db.floorCursor userId ≤ d.cursor) :
    ∃ response, download s.db userId (Pull.changesQuery d.cursor) = .page response ∧
      (walkPage reader d.applied (response.operations.map wireOperation)).stopped = false ∧
      (if response.hasMore then OnTrack cfg reader server userId start
          (performAll reader (d.deliver (response.operations.map wireOperation)) (pageActions reader
            d.applied d.cursor (response.operations.map wireOperation) response.nextCursor))
          snapshotTaken turnsLeft
        else (Outcome.caughtUp (performAll reader (d.deliver (response.operations.map wireOperation))
          (pageActions reader d.applied d.cursor (response.operations.map wireOperation)
            response.nextCursor))).AtHead cfg reader server userId start) := by
  have hbelow : d.cursor ≤ s.db.currentCursor userId := by
    rw [h.head]
    rcases hon with ⟨-, -, hle, -⟩ | ⟨-, -, heq, -⟩
    · exact hle
    · exact le_of_eq heq
  obtain ⟨response, hanswer, hge, hle, hlt, hmore⟩ :=
    h.stocked.download_spec h.wellFormed h.retained hfloor hbelow (some 500)
  have hrunning := @not_stops_of_readable W reader userId server s hreadable h d.applied _ _ hanswer
  have hcursor := congrArg Device.cursor
    (@performAll_pageActions_of_running W reader d _ response.nextCursor hrunning)
  dsimp only at hcursor
  rw [h.head] at hle hlt hmore
  refine ⟨response, hanswer, (@applyActions_of_running W reader [] _ _ hrunning).2, ?_⟩
  set after := performAll reader (d.deliver (response.operations.map wireOperation)) (pageActions
    reader d.applied d.cursor (response.operations.map wireOperation) response.nextCursor) with hafter
  have hrestored : ∀ op ∈ d.restored, op ∈ after.restored :=
    fun op hop => mem_restored_performAll.mpr (Or.inl hop)
  rcases hon with ⟨rfl, hprogress, hd, hturns⟩ | ⟨rfl, hsnapshot, hd, hturns⟩
  · have hpage : Progress reader server userId start after := by
      refine hprogress.page hrunning fun row hrow hlo hhi => ?_
      refine (Server.mem_operations_of_download h.wellFormed h.retained hanswer).mpr ⟨?_, ?_, hhi⟩
      · rwa [h.userHistory_eq]
      · simpa [Pull.changesQuery, DownloadQuery.cursorValue] using hlo
    split
    · rename_i hhas
      refine Or.inl ⟨rfl, hpage, hcursor ▸ hle, ?_⟩
      have hne : response.nextCursor ≠ server.db.currentCursor userId := fun heq => by
        rw [hmore.mpr heq] at hhas
        exact absurd hhas (by simp)
      rw [hcursor]
      have := hlt (by omega)
      omega
    · rename_i hhas
      have hhead := hmore.mp (by simpa using hhas)
      refine ⟨hcursor.trans hhead, Or.inl (hpage.appliedAbove fun row hrow => ?_)⟩
      rw [hcursor, hhead, ← h.head]
      obtain ⟨hmem, hu⟩ := Server.mem_userHistory.mp (h.userHistory_eq userId ▸ hrow)
      exact hu ▸ (h.wellFormed.cursor_mem hmem).2
  · -- at the head there is nothing more
    have hhead : response.nextCursor = server.db.currentCursor userId := le_antisymm hle (hd ▸ hge)
    rw [if_neg (by simp [hmore.mpr hhead])]
    exact ⟨hcursor.trans hhead, Or.inr (hsnapshot.mono hrestored)⟩

/-- **The loop catches up.** -/
theorem downloadAndApply_atHead (hwf : Server.WellFormed server) (hret : Server.Retained server)
    (hstocked : Server.Stocked server) (hreadable : Readable server userId) (turns : List Turn)
    (hfair : ∀ turn ∈ turns, turn.Fair server userId) :
    ∀ (s : Server) (d : Device W) (snapshotTaken : Bool), Later cfg reader userId server s →
      OnTrack cfg reader server userId start d snapshotTaken turns.length →
        (downloadAndApply cfg reader userId turns s d snapshotTaken).AtHead cfg reader server userId
          start := by
  induction turns with
  | nil =>
    rintro s d snapshotTaken - (⟨-, -, -, hturns⟩ | ⟨-, -, -, hturns⟩)
    · exact absurd hturns (by simp)
    · exact absurd hturns (by simp)
  | cons turn turns ih =>
    intro s d snapshotTaken hlater hon
    have hturn := hfair turn List.mem_cons_self
    have hnext := ih fun t ht => hfair t (List.mem_cons_of_mem _ ht)
    have hasked := hlater.run hturn.before
    have hmean := Meanwhile.of_later hwf hret hstocked hasked
    rw [downloadAndApply]
    by_cases hfloor : (s.run cfg turn.before).db.floorCursor userId ≤ d.cursor
    · obtain ⟨response, hanswer, hstopped, hrest⟩ := page_onTrack hreadable hmean hon hfloor
      rw [hanswer]
      dsimp only
      rw [if_neg (by simp [hstopped])]
      split at hrest
      · rename_i hhas
        rw [if_pos hhas]
        exact hnext _ _ _ (hasked.request d.cursor) hrest
      · rename_i hhas
        rw [if_neg hhas]
        exact hrest
    · -- the floor has passed the cursor: a snapshot, and then the head
      have htoo : download (s.run cfg turn.before).db userId (Pull.changesQuery d.cursor) =
          .cursorTooOld := by
        rw [download, boundsAnswer, if_pos]
        simpa [Pull.changesQuery, DownloadQuery.cursorValue] using hfloor
      have hfirst : snapshotTaken = false ∧ 1 ≤ turns.length := by
        rcases hon with ⟨hfirst, -, -, hturns⟩ | ⟨-, -, hhead, -⟩
        · exact ⟨hfirst, by rw [List.length_cons] at hturns; omega⟩
        · refine absurd (floorCursor_le_currentCursor hmean.wellFormed userId) ?_
          rw [hmean.head, ← hhead]
          exact hfloor
      rw [htoo]
      dsimp only
      rw [hfirst.1, if_neg (by simp)]
      have hsource := (hasked.request d.cursor).run hturn.beforeSnapshot
      have hmean' := Meanwhile.of_later hwf hret hstocked hsource
      rw [unsupported_of_readable hreadable hmean', if_neg (by simp)]
      obtain ⟨hcursor, hsnapshot⟩ := appliedSnapshot_of_lists hsource hmean' hturn.lists hreadable d
      exact hnext _ _ _ hsource (Or.inr ⟨rfl, hsnapshot, hcursor, hfirst.2⟩)

/-- A turn in which nothing else happens. -/
def quietTurn (server : Server) (userId : Uuid) : Turn where
  before := []
  beforeSnapshot := []
  order := ((server.userHistory userId).map OperationRow.objectKey).dedup
  tombstoneOrder := ((server.userHistory userId).map OperationRow.objectKey).dedup
  newId := fun _ => 0

theorem fair_quietTurn (server : Server) (userId : Uuid) :
    (quietTurn server userId).Fair server userId where
  before := fun _ he => absurd he List.not_mem_nil
  beforeSnapshot := fun _ he => absurd he List.not_mem_nil
  lists := ⟨List.nodup_dedup _, List.nodup_dedup _, fun _ hrow =>
    ⟨List.mem_dedup.mpr (List.mem_map_of_mem hrow), List.mem_dedup.mpr (List.mem_map_of_mem hrow)⟩⟩

/-- **A cursor above the head never catches up**: the client gives up on `cursor_invalid`. -/
theorem not_catchesUp_of_lt (hwf : Server.WellFormed server)
    (hlt : server.db.currentCursor userId < start.cursor) :
    ¬CatchesUp cfg reader server userId start := by
  rintro ⟨enough, hall⟩
  have hinvalid : download server.db userId (Pull.changesQuery start.cursor) = .cursorInvalid := by
    have hfloor := floorCursor_le_currentCursor hwf userId
    have hvalue : (Pull.changesQuery start.cursor).cursorValue = start.cursor := by
      simp [Pull.changesQuery, DownloadQuery.cursorValue]
    rw [download, boundsAnswer, hvalue, if_neg (by omega), if_pos hlt]
  have hend := hall (quietTurn server userId :: List.replicate enough (quietTurn server userId))
    (by simp) fun turn hturn => by
      rcases List.mem_cons.mp hturn with rfl | hturn
      · exact fair_quietTurn server userId
      · exact (List.mem_replicate.mp hturn).2 ▸ fair_quietTurn server userId
  rw [downloadAndApply, show server.run cfg (quietTurn server userId).before = server from rfl,
    hinvalid] at hend
  exact hend

end Loop

/-- **A device catches up exactly if its cursor is not above the head**: for every state of the
server, whatever has been compacted and pruned, and every device. -/
theorem catchesUp_iff (cfg : Config) (settings : Uuid → Option UserSettings) (now : DateTime)
    (events : List Event) (reader : Reader W) (userId : Uuid) (cursor : ℕ) (lamportClock : ℤ)
    (applied : List Uuid) (world : W)
    (hreadable : Readable (Server.run cfg (Server.start settings now) events) userId) :
    CatchesUp cfg reader (Server.run cfg (Server.start settings now) events) userId
        (deviceAt cursor lamportClock applied world) ↔
      cursor ≤ (Server.run cfg (Server.start settings now) events).db.currentCursor userId := by
  have hwf := @Server.WellFormed.run cfg settings now events
  set server := Server.run cfg (Server.start settings now) events
  constructor
  · intro hcatches
    by_contra hlt
    exact not_catchesUp_of_lt hwf (not_le.mp hlt) hcatches
  · intro hle
    refine ⟨server.db.currentCursor userId - cursor + 2, fun turns henough hfair => ?_⟩
    refine downloadAndApply_atHead hwf (Server.Retained.run settings now events)
      (Server.Stocked.run settings now events) hreadable turns hfair _ _ _ .refl (Or.inl ⟨rfl, ?_, hle,
        henough⟩)
    exact ⟨fun id hid => Or.inl hid, fun row _ hlo hhi => absurd hhi (not_le.mpr hlo),
      fun op hop => absurd hop List.not_mem_nil, fun op hop => absurd hop List.not_mem_nil⟩

/-- Two bookmarks were uploaded, covered by a snapshot and pruned; a new device has cursor zero. -/
def prunedLog : List Event :=
  [.register 1 9, .upload 1 [Server.smallOp 11 1 1 .bookmark 21 .create,
      Server.smallOp 12 2 2 .bookmark 22 .create],
    .downloadBounds 1 ⟨some 2, none⟩, .dropDownload 0, .compact 9, .commitSnapshot 0, .pruneChunk 0]

theorem catchesUp_prunedLog :
    (Server.run Server.smallConfig Server.smallStart prunedLog).db.floorCursor 9 = 2 ∧
      CatchesUp Server.smallConfig Pull.keyless
        (Server.run Server.smallConfig Server.smallStart prunedLog) 9 (deviceAt 0 0 [] ()) :=
  ⟨by decide +kernel,
    (catchesUp_iff Server.smallConfig (fun _ => none) 0 prunedLog Pull.keyless 9 0 0 [] ()
      (by unfold Readable; decide +kernel)).mpr (Nat.zero_le _)⟩

/-- **A restored server loses its devices**: the log ends at cursor `1`, a device had been at
cursor `2`, and no run of it gets anywhere. -/
theorem not_catchesUp :
    ¬∀ (cfg : Config) (settings : Uuid → Option UserSettings) (now : DateTime) (events : List Event)
      (reader : Reader Unit) (userId : Uuid) (cursor : ℕ) (lamportClock : ℤ) (applied : List Uuid),
      Readable (Server.run cfg (Server.start settings now) events) userId →
        CatchesUp cfg reader (Server.run cfg (Server.start settings now) events) userId
          (deviceAt cursor lamportClock applied ()) := by
  intro hall
  have hcatches := hall Server.smallConfig (fun _ => none) 0
    [.register 1 9, .upload 1 [Server.smallOp 11 1 1 .bookmark 21 .create]] Pull.keyless 9 2 0 []
    (by unfold Readable; decide +kernel)
  exact not_catchesUp_of_lt (Server.WellFormed.run (fun _ => none) 0 _) (by decide +kernel) hcatches

end Client

end HelixSync
