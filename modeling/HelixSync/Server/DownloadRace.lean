import HelixSync.Server.Retention

/-!
# Downloads against compaction

A download reads the database three times: the floor check, the sizes of the next rows,
and the rows of the page. The floor check alone protects it
(`HelixSync.Server.Retained.mem_of_floorCursor_le`), and only at the moment it is made: a
snapshot committed after it moves the floor past the requested cursor, and a prune chunk
then deletes rows the two later statements would have returned. The page skips them, and
its `nextCursor` lies above them
(`HelixSync.Server.not_answeredInFull`).

Nothing else can go wrong. As long as no prune chunk deletes a row that a download under
way still has to read (`HelixSync.Server.SparesDownloads`), every answer is complete,
whatever else happens between the three statements
(`HelixSync.Server.answeredInFull_of_sparesDownloads`).
-/

namespace HelixSync

/-- Whether a download under way still has to read a row: the row is above the requested
cursor and, once the page is decided, not past its end. -/
def DownloadCall.Needs (call : DownloadCall) (row : OperationRow) : Prop :=
  row.userId = call.userId ∧ call.cursor < row.serverCursor ∧
    ∀ page ∈ call.page, row.serverCursor ≤ page.nextCursor

instance (call : DownloadCall) (row : OperationRow) : Decidable (call.Needs row) :=
  inferInstanceAs (Decidable (_ ∧ _ ∧ ∀ page ∈ call.page, row.serverCursor ≤ page.nextCursor))

namespace Server

variable {cfg : Config} {s s' : Server} {e : Event}

/-- Every answered download returned all rows ever accepted for its user between the
requested cursor and `nextCursor`, in cursor order. -/
def AnsweredInFull (s : Server) : Prop :=
  ∀ answer ∈ s.answered,
    (∀ row ∈ s.userHistory answer.userId, answer.cursor < row.serverCursor →
      row.serverCursor ≤ answer.response.nextCursor → row ∈ answer.response.operations) ∧
    answer.response.operations.Pairwise fun a b => a.serverCursor < b.serverCursor

/-- An event that deletes no row a download under way still has to read. -/
def SparesDownloads (s : Server) : Event → Prop
  | .pruneChunk index => ∀ pass ∈ s.prunes[index]?, ∀ row ∈ pass.victims s.db,
      ∀ call ∈ s.downloads, ¬call.Needs row
  | _ => True

instance (s : Server) (e : Event) : Decidable (SparesDownloads s e) :=
  match e with
  | .pruneChunk index => inferInstanceAs (Decidable (∀ pass ∈ s.prunes[index]?,
      ∀ row ∈ pass.victims s.db, ∀ call ∈ s.downloads, ¬call.Needs row))
  | .tick _ | .register _ _ | .touch _ | .revoke _ | .upload _ _ | .compact _
  | .commitSnapshot _ | .dropRebuild _ | .dropPrune _ | .downloadBounds _ _ | .downloadPage _
  | .downloadRows _ | .dropDownload _ => inferInstanceAs (Decidable True)

/-! ### The order of the log -/

theorem userRows_sublist (h : WellFormed s) (userId : Uuid) :
    (s.db.userRows userId).Sublist (s.userHistory userId) :=
  h.log.filter _

theorem userRows_pairwise (h : WellFormed s) (userId : Uuid) :
    (s.db.userRows userId).Pairwise fun a b => a.serverCursor < b.serverCursor :=
  (h.userHistory_pairwise userId).sublist (userRows_sublist h userId)

theorem rowsAbove_pairwise (h : WellFormed s) (userId : Uuid) (cursor : ℕ) :
    (s.db.rowsAbove userId cursor).Pairwise fun a b => a.serverCursor < b.serverCursor := by
  rw [rowsAbove_eq (userRows_pairwise h userId)]
  exact (userRows_pairwise h userId).filter _

/-! ### The invariant -/

/-- What a download under way still has to read is in the log, and it stays below the
allocator; what was answered is complete. -/
structure Serving (s : Server) : Prop where
  needs : ∀ call ∈ s.downloads, ∀ row ∈ s.history, call.Needs row →
    row ∈ s.db.syncOperations.rows
  below : ∀ call ∈ s.downloads, call.cursor ≤ s.db.currentCursor call.userId ∧
    ∀ page ∈ call.page, page.nextCursor ≤ s.db.currentCursor call.userId
  answers : AnsweredInFull s
  answersBelow : ∀ answer ∈ s.answered,
    answer.response.nextCursor ≤ s.db.currentCursor answer.userId

theorem currentCursor_le_step (hstep : Step cfg s e s') (userId : Uuid) :
    s.db.currentCursor userId ≤ s'.db.currentCursor userId := by
  cases hstep with
  | quiet hq => rw [Db.currentCursor, Db.currentCursor, hq.data.cursorAllocator]
  | idle => exact le_refl _
  | wrote _ _ _ hwrite =>
    rw [currentCursor_writeBatch hwrite]
    split
    · exact Nat.le_add_right _ _
    · exact le_refl _
  | committed _ hcommit =>
    rw [Db.currentCursor, Db.currentCursor, (commitSnapshot_frame hcommit).2.1]
  | pruned _ => exact le_refl _

/-- A row accepted by an event gets a cursor above the allocator. -/
theorem currentCursor_lt_of_new (hstep : Step cfg s e s') {row : OperationRow}
    (hrow : row ∈ s'.history) (hnew : row ∉ s.history) :
    s.db.currentCursor row.userId < row.serverCursor := by
  cases hstep with
  | quiet hq =>
    rw [history, hq.batches] at hrow
    exact absurd hrow hnew
  | idle => exact absurd (by simpa [history] using hrow) hnew
  | wrote _ _ _ _ =>
    simp only [history, List.flatten_append, List.flatten_singleton, List.mem_append] at hrow
    have hmem := hrow.resolve_left hnew
    rw [userId_of_mem_batchRows hmem]
    exact (cursor_of_mem_batchRows hmem).1
  | committed _ _ => exact absurd hrow hnew
  | pruned _ => exact absurd hrow hnew

namespace Serving

theorem start (settings : Uuid → Option UserSettings) (now : DateTime) :
    Serving (Server.start settings now) where
  needs := fun _ h => absurd h (by simp [Server.start])
  below := fun _ h => absurd h (by simp [Server.start])
  answers := fun _ h => absurd h (by simp [Server.start])
  answersBelow := fun _ h => absurd h (by simp [Server.start])

/-- An event that neither changes the downloads nor deletes a row they need. -/
theorem of_step (h : Serving s) (hstep : Step cfg s e s')
    (hdownloads : s'.downloads = s.downloads) (hanswered : s'.answered = s.answered)
    (hspares : ∀ call ∈ s.downloads, ∀ row ∈ s.db.syncOperations.rows, call.Needs row →
      row ∈ s'.db.syncOperations.rows) : Serving s' := by
  have hcur := currentCursor_le_step hstep
  refine ⟨?_, ?_, ?_, ?_⟩
  · rw [hdownloads]
    intro call hcall row hrow hneeds
    rcases Retained.mem_history_step hstep hrow with hrow | hrow
    · exact hspares call hcall row (h.needs call hcall row hrow hneeds) hneeds
    · exact hrow
  · rw [hdownloads]
    intro call hcall
    obtain ⟨hc, hp⟩ := h.below call hcall
    exact ⟨le_trans hc (hcur _), fun page hpage => le_trans (hp page hpage) (hcur _)⟩
  · -- what was accepted since an answer has a cursor past its end
    rw [AnsweredInFull, hanswered]
    intro answer hanswer
    obtain ⟨hall, hpair⟩ := h.answers answer hanswer
    refine ⟨fun row hrow hlo hhi => ?_, hpair⟩
    obtain ⟨hmem, hu⟩ := mem_userHistory.mp hrow
    by_cases hold : row ∈ s.history
    · exact hall row (mem_userHistory.mpr ⟨hold, hu⟩) hlo hhi
    · have hnew := currentCursor_lt_of_new hstep hmem hold
      rw [hu] at hnew
      exact absurd (le_trans hhi (h.answersBelow answer hanswer)) (not_le.mpr hnew)
  · rw [hanswered]
    exact fun answer hanswer => le_trans (h.answersBelow answer hanswer) (hcur _)

/-- The first statement of a download. -/
theorem downloadBounds (h : Serving s) (hret : Retained s) (device : AuthenticatedDevice)
    (query : DownloadQuery) : Serving (s.downloadBounds device query) := by
  unfold Server.downloadBounds readBounds
  split
  · rename_i db' hpass
    obtain ⟨hanswer, rfl⟩ := Prod.mk.inj hpass
    refine ⟨fun call hcall row hrow hneeds => ?_, fun call hcall => ?_, h.answers,
      h.answersBelow⟩
    · rcases List.mem_append.mp hcall with hcall | hcall
      · exact h.needs call hcall row hrow hneeds
      · rw [List.mem_singleton.mp hcall] at hneeds
        refine hret.mem_of_floorCursor_le (floorCursor_le_of_boundsAnswer ?_)
          (mem_userHistory.mpr ⟨hrow, hneeds.1⟩) hneeds.2.1
        rw [hanswer]
        simp
    · rcases List.mem_append.mp hcall with hcall | hcall
      · exact h.below call hcall
      · rw [List.mem_singleton.mp hcall]
        refine ⟨?_, by simp⟩
        by_contra hlt
        unfold boundsAnswer at hanswer
        split_ifs at hanswer with hfloor hcur
        exact hcur (not_le.mp hlt)
  · rename_i hpass
    obtain ⟨-, rfl⟩ := Prod.mk.inj hpass
    exact ⟨h.needs, h.below, h.answers, h.answersBelow⟩

/-- The second statement of a download. -/
theorem downloadPage (h : Serving s) (hwf : WellFormed s) (index : ℕ) :
    Serving (s.downloadPage index) := by
  unfold Server.downloadPage
  split
  · exact h
  · rename_i call hindex
    have hcall : call ∈ s.downloads := List.mem_of_getElem? hindex
    split
    · rename_i page hnone hdecide
      refine ⟨fun c hc row hrow hneeds => ?_, fun c hc => ?_, h.answers, h.answersBelow⟩
      · rcases List.mem_append.mp hc with hc | hc
        · exact h.needs c (List.mem_of_mem_eraseIdx hc) row hrow hneeds
        · rw [List.mem_singleton.mp hc] at hneeds
          refine h.needs call hcall row hrow ⟨hneeds.1, hneeds.2.1, ?_⟩
          rw [hnone]
          simp
      · rcases List.mem_append.mp hc with hc | hc
        · exact h.below c (List.mem_of_mem_eraseIdx hc)
        · rw [List.mem_singleton.mp hc]
          refine ⟨(h.below call hcall).1, fun p hp => ?_⟩
          rw [Option.mem_def, Option.some.injEq] at hp
          subst hp
          rcases nextCursor_of_decidePage hdecide with hnext | ⟨row, hrow, hnext⟩
          · rw [hnext]
            exact (h.below call hcall).1
          · obtain ⟨hmem, hu, -⟩ := mem_rowsAbove.mp hrow
            rw [hnext, ← hu]
            exact (hwf.cursor_mem (hwf.log.mem hmem)).2
    · exact ⟨fun c hc => h.needs c (List.mem_of_mem_eraseIdx hc),
        fun c hc => h.below c (List.mem_of_mem_eraseIdx hc), h.answers, h.answersBelow⟩
    · exact h

/-- The third statement of a download. -/
theorem downloadRows (h : Serving s) (hwf : WellFormed s) (index : ℕ) :
    Serving (s.downloadRows index) := by
  unfold Server.downloadRows
  split
  · exact h
  · rename_i call hindex
    have hcall : call ∈ s.downloads := List.mem_of_getElem? hindex
    split
    · exact h
    · rename_i page hpage
      refine ⟨fun c hc => h.needs c (List.mem_of_mem_eraseIdx hc),
        fun c hc => h.below c (List.mem_of_mem_eraseIdx hc), fun answer hanswer => ?_,
        fun answer hanswer => ?_⟩
      · rcases List.mem_append.mp hanswer with hanswer | hanswer
        · exact h.answers answer hanswer
        · rw [List.mem_singleton.mp hanswer]
          refine ⟨fun row hrow hlo hhi => ?_, (rowsAbove_pairwise hwf _ _).filter _⟩
          obtain ⟨hmem, hu⟩ := mem_userHistory.mp hrow
          have hneeds : call.Needs row := by
            refine ⟨hu, hlo, fun p hp => ?_⟩
            rw [hpage, Option.mem_def, Option.some.injEq] at hp
            exact hp ▸ hhi
          rw [pageRows, List.mem_filter, mem_rowsAbove]
          exact ⟨⟨h.needs call hcall row hmem hneeds, hu, hlo⟩, by simpa using hhi⟩
      · rcases List.mem_append.mp hanswer with hanswer | hanswer
        · exact h.answersBelow answer hanswer
        · rw [List.mem_singleton.mp hanswer]
          exact (h.below call hcall).2 page (by rw [hpage]; rfl)

/-- Only a prune chunk deletes rows, and it spares the downloads. -/
theorem mem_of_needs (hstep : Step cfg s e s') (hspares : SparesDownloads s e)
    {call : DownloadCall} (hcall : call ∈ s.downloads) {row : OperationRow}
    (hrow : row ∈ s.db.syncOperations.rows) (hneeds : call.Needs row) :
    row ∈ s'.db.syncOperations.rows := by
  cases hstep with
  | quiet hq =>
    rw [hq.data.syncOperations]
    exact hrow
  | idle => exact hrow
  | wrote _ _ _ hwrite =>
    obtain ⟨table, htable, rfl⟩ := (writeBatch_eq_some_iff.mp hwrite).2
    rw [htable]
    exact List.mem_append_left _ hrow
  | committed _ hcommit =>
    rw [(commitSnapshot_frame hcommit).1]
    exact hrow
  | pruned hindex =>
    refine mem_pruneChunk_of_not_mem_victims hrow fun hvictim => ?_
    exact hspares _ hindex row hvictim call hcall hneeds

theorem step (h : Serving s) (hwf : WellFormed s) (hret : Retained s) (e : Event)
    (hspares : SparesDownloads s e) : Serving (step cfg s e) := by
  have hkeep : ∀ call ∈ s.downloads, ∀ row ∈ s.db.syncOperations.rows, call.Needs row →
      row ∈ (Server.step cfg s e).db.syncOperations.rows :=
    fun call hcall row hrow hneeds => mem_of_needs (step_spec e) hspares hcall hrow hneeds
  have hsame : (Server.step cfg s e).downloads = s.downloads →
      (Server.step cfg s e).answered = s.answered → Serving (Server.step cfg s e) :=
    fun hd ha => h.of_step (step_spec e) hd ha hkeep
  cases e with
  | tick time => exact hsame rfl rfl
  | register deviceId userId =>
    apply hsame <;> simp only [Server.step, Server.register] <;> split <;> rfl
  | touch deviceId => exact hsame rfl rfl
  | revoke deviceId => exact hsame rfl rfl
  | upload deviceId ops =>
    apply hsame <;> simp only [Server.step, Server.upload] <;> split <;> try split
    all_goals rfl
  | compact userId =>
    apply hsame <;> simp only [Server.step, Server.compact] <;> split <;> rfl
  | commitSnapshot index =>
    apply hsame <;> simp only [Server.step, Server.commitSnapshot] <;> split <;> try split
    all_goals rfl
  | pruneChunk index =>
    apply hsame <;> simp only [Server.step, Server.pruneChunk] <;> split <;> rfl
  | dropRebuild index => exact hsame rfl rfl
  | dropPrune index => exact hsame rfl rfl
  | downloadBounds deviceId query =>
    rcases hauth : s.authenticate deviceId with _ | device
    · have heq : s.step cfg (.downloadBounds deviceId query) = s := by
        simp only [Server.step, hauth]
      rwa [heq]
    · have heq : s.step cfg (.downloadBounds deviceId query) = s.downloadBounds device query := by
        simp only [Server.step, hauth]
      rw [heq]
      exact h.downloadBounds hret device query
  | downloadPage index => exact h.downloadPage hwf index
  | downloadRows index => exact h.downloadRows hwf index
  | dropDownload index =>
    exact ⟨fun c hc => h.needs c (List.mem_of_mem_eraseIdx hc),
      fun c hc => h.below c (List.mem_of_mem_eraseIdx hc), h.answers, h.answersBelow⟩

end Serving

/-- **Downloads are complete when pruning spares them**: along every run in which no prune
chunk deletes a row a download under way still has to read, every answer holds all rows
ever accepted between the requested cursor and `nextCursor`. -/
theorem answeredInFull_of_sparesDownloads (cfg : Config) (settings : Uuid → Option UserSettings)
    (now : DateTime) (events : List Event)
    (hmeets : Runs.Meets (step cfg) SparesDownloads (start settings now) events) :
    AnsweredInFull (run cfg (start settings now) events) := by
  have hinv := Runs.invariant_of_meets (I := fun s => WellFormed s ∧ Retained s ∧ Serving s)
    (fun s e ⟨hwf, hret, hserv⟩ hok =>
      ⟨hwf.step (step_spec e), hret.step (step_spec e), hserv.step hwf hret e hok⟩)
    ⟨WellFormed.start settings now, Retained.start settings now, Serving.start settings now⟩ hmeets
  exact hinv.2.2.answers

/-- A device catches up, the log behind it is compacted and pruned, and its next download
is complete. -/
def sparingRun : List Event :=
  [.register 1 9,
    .upload 1 [smallOp 11 1 1 .bookmark 21 .create, smallOp 12 2 2 .bookmark 22 .create],
    .downloadBounds 1 ⟨some 2, none⟩, .compact 9, .commitSnapshot 0, .pruneChunk 0,
    .upload 1 [smallOp 13 3 3 .bookmark 23 .create], .downloadPage 0, .downloadRows 0]

theorem answeredInFull_sparingRun :
    Runs.Meets (step smallConfig) SparesDownloads smallStart sparingRun ∧
      AnsweredInFull (run smallConfig smallStart sparingRun) ∧
      ((run smallConfig smallStart sparingRun).answered.map fun answer =>
        (answer.cursor, answer.response.operations.map OperationRow.serverCursor)) = [(2, [3])] :=
  ⟨by decide +kernel,
    answeredInFull_of_sparesDownloads smallConfig (fun _ => none) 0 sparingRun
      (by decide +kernel),
    by decide +kernel⟩

/-! ### The race -/

/-- A device that has not synchronized yet starts a download while a pass is between its
decision and its commit: the floor check passes, the snapshot is committed, the covered
rows are deleted, and the page holds what was uploaded since. -/
def raceRun : List Event :=
  [.register 1 9, .register 2 9, .tick (DateTime.seconds 100),
    .upload 1 [smallOp 11 1 1 .bookmark 21 .create, smallOp 12 2 2 .bookmark 22 .create],
    .downloadBounds 1 ⟨some 2, none⟩, .dropDownload 0, .compact 9,
    .downloadBounds 2 ⟨some 0, none⟩, .commitSnapshot 0, .pruneChunk 0,
    .upload 1 [smallOp 13 3 3 .bookmark 23 .create], .downloadPage 0, .downloadRows 0]

/-- **A download can skip rows**: in this run the answer to cursor `0` ends at cursor `3`
and holds neither of the rows `1` and `2`. -/
theorem not_answeredInFull :
    ¬∀ (cfg : Config) (settings : Uuid → Option UserSettings) (now : DateTime)
      (events : List Event), AnsweredInFull (run cfg (start settings now) events) := by
  intro hall
  have hfull : AnsweredInFull (run smallConfig smallStart raceRun) :=
    hall smallConfig (fun _ => none) 0 raceRun
  have hmissing : ∃ answer ∈ (run smallConfig smallStart raceRun).answered,
      ∃ row ∈ (run smallConfig smallStart raceRun).userHistory answer.userId,
        answer.cursor < row.serverCursor ∧ row.serverCursor ≤ answer.response.nextCursor ∧
          row.serverCursor ∉ answer.response.operations.map OperationRow.serverCursor := by
    decide +kernel
  obtain ⟨answer, hanswer, row, hrow, hlo, hhi, hnot⟩ := hmissing
  exact hnot (List.mem_map_of_mem ((hfull answer hanswer).1 row hrow hlo hhi))

end Server

end HelixSync
