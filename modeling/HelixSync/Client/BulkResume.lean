import HelixSync.Client.BulkImport

/-!
# A history import is exactly once

A chunk is sent only when the chunks before it are known to be on the server, and the checkpoint
counts no chunk that is not. So however often an import is interrupted, the chunks the server has
are the first ones of the plan (`HelixSync.Client.BulkImport.Sound`), and when a pass has come to
its end they are all of them (`HelixSync.Client.BulkImport.imported_once`).
-/

namespace HelixSync

namespace Client

open Cutting

namespace BulkImport

variable {i : BulkImport}

/-! ### What holds along a run -/

variable (i) in
/-- A pass whose chunks are the next ones of the plan. The chunk with a sequence is on the server
already, or its sequence is above those the server has of the device. -/
structure PassSound (server : Server) (m : ℕ) (pass : BulkPass) : Prop where
  le : pass.uploadedChunks ≤ m
  visits : pass.uploadedVisits = i.scope.plannedVisits i.stream pass.uploadedChunks
  carries : i.scope.CarriesAll pass.uploadedChunks pass.chunks (i.plan.drop pass.uploadedChunks)
  ends : pass.ends = (i.scope.bulkPlan 0 i.stream).2
  reserved : ∀ op, pass.stage = .reserved op → i.IsChunk pass.uploadedChunks op ∧
    0 < op.deviceSequence ∧ (pass.uploadedChunks < m ∨
      ∀ u last, server.db.deviceState? i.scope.deviceId = some (u, last) → last < op.deviceSequence)
  uploaded : pass.stage = .uploaded → pass.uploadedChunks < m

variable (i) in
/-- **The server has the first `m` chunks**, and the device counts no more of them as uploaded. -/
structure Sound (s : BulkImporter) (m : ℕ) : Prop where
  chunked : Server.Chunked s.server
  imported : i.Imported s.server m
  device : ∀ u last, s.server.db.deviceState? i.scope.deviceId = some (u, last) →
    u = i.userId ∧ last ≤ s.deviceSequence
  sent : ∀ op ∈ s.sent, op.deviceSequence ≤ s.deviceSequence ∧ ∃ k ≤ m, i.IsChunk k op
  uploadedChunks : s.uploadedChunks.getD 0 ≤ m
  uploadedVisits : s.uploadedVisits.getD 0 =
    i.scope.plannedVisits i.stream (s.uploadedChunks.getD 0)
  pass : ∀ pass, s.pass = some pass → i.PassSound s.server m pass
  passSent : ∀ pass op, s.pass = some pass → pass.stage = .reserved op → op ∈ s.sent
  completed : s.completed = true →
    m = i.plan.length ∧ (i.scope.bulkPlan 0 i.stream).2 = true

section Runs

variable {s : BulkImporter} {m k : ℕ} {op : OperationIn}

theorem deviceState?_of_device? {db : Db} {id userId : Uuid}
    (h : ∀ u last, db.deviceState? id = some (u, last) → u = userId) {d : DeviceRow}
    (hd : db.device? id = some d) : d.userId = userId :=
  h d.userId d.lastDeviceSequence (by rw [Db.deviceState?, hd, Option.map_some])

/-- The plan after a chunk, and the visits up to it. -/
theorem carriesAll_cons {chunk : BulkChunk} {chunks : List BulkChunk}
    (h : i.scope.CarriesAll k (chunk :: chunks) (i.plan.drop k)) : ∃ hk : k < i.plan.length,
      i.scope.Carries k chunk i.plan[k] ∧ i.scope.CarriesAll (k + 1) chunks (i.plan.drop (k + 1)) ∧
        i.scope.plannedVisits i.stream (k + 1) =
          i.scope.plannedVisits i.stream k + chunk.container.visitCount := by
  have hk : k < i.plan.length := by
    by_contra hge
    rw [List.drop_of_length_le (not_lt.mp hge)] at h
    exact h
  rw [List.drop_eq_getElem_cons hk] at h
  refine ⟨hk, h.1, h.2, ?_⟩
  have htake : i.plan.take (k + 1) = i.plan.take k ++ [i.plan[k]] :=
    List.take_succ_eq_append_getElem hk
  have hlength : ((i.plan.take (k + 1)).flatMap chunkVisits).length =
      ((i.plan.take k).flatMap chunkVisits).length + chunk.container.visitCount := by
    rw [htake, List.flatMap_append, List.length_append, List.flatMap_singleton, h.1.visitCount]
  exact hlength

theorem length_le_of_carriesAll_nil (h : i.scope.CarriesAll k [] (i.plan.drop k)) :
    i.plan.length ≤ k := by
  refine List.drop_eq_nil_iff.mp ?_
  generalize i.plan.drop k = rest at h
  rcases rest with _ | ⟨segments, rest⟩
  · rfl
  · exact absurd h id

theorem Sound.start (settings : Uuid → Option UserSettings) (now : DateTime) :
    i.Sound (BulkImporter.start settings now) 0 where
  chunked := Server.Chunked.start settings now
  imported := Imported.start settings now
  device := fun u last h => absurd h (by
    simp [BulkImporter.start, Server.start, Db.empty, Db.deviceState?, Db.device?])
  sent := fun op hop => absurd hop List.not_mem_nil
  uploadedChunks := le_refl 0
  uploadedVisits := rfl
  pass := fun pass h => absurd h (by simp [BulkImporter.start])
  passSent := fun pass op h => absurd h (by simp [BulkImporter.start])
  completed := fun h => absurd h Bool.false_ne_true

/-- What happens on the server is sound if it keeps the sequence of the pass good. -/
theorem Sound.serve {server : Server} {m' : ℕ} (h : i.Sound s m) (hm : m ≤ m')
    (hchunked : Server.Chunked server) (himported : i.Imported server m')
    (hdevice : ∀ u last, server.db.deviceState? i.scope.deviceId = some (u, last) →
      u = i.userId ∧ last ≤ s.deviceSequence)
    (hreserved : ∀ pass op, s.pass = some pass → pass.stage = .reserved op → 0 < op.deviceSequence →
      (∀ u last, s.server.db.deviceState? i.scope.deviceId = some (u, last) →
        last < op.deviceSequence) → pass.uploadedChunks < m' ∨
      ∀ u last, server.db.deviceState? i.scope.deviceId = some (u, last) →
        last < op.deviceSequence) :
    i.Sound { s with server := server } m' where
  chunked := hchunked
  imported := himported
  device := hdevice
  sent := fun op hop => ⟨(h.sent op hop).1, by
    obtain ⟨-, k, hk, hchunk⟩ := h.sent op hop
    exact ⟨k, le_trans hk hm, hchunk⟩⟩
  uploadedChunks := le_trans h.uploadedChunks hm
  uploadedVisits := h.uploadedVisits
  pass := fun pass hpass => by
    have hold := h.pass pass hpass
    refine ⟨le_trans hold.le hm, hold.visits, hold.carries, hold.ends, fun op hop => ?_,
      fun huploaded => lt_of_lt_of_le (hold.uploaded huploaded) hm⟩
    obtain ⟨hchunk, hpos, hlt | hlast⟩ := hold.reserved op hop
    · exact ⟨hchunk, hpos, Or.inl (lt_of_lt_of_le hlt hm)⟩
    · exact ⟨hchunk, hpos, hreserved pass op hpass hop hpos hlast⟩
  passSent := h.passSent
  completed := fun hcompleted => by
    obtain ⟨hall, hends⟩ := h.completed hcompleted
    exact ⟨le_antisymm himported.le (hall ▸ hm), hends⟩

/-- **A request for a chunk**, the one of the pass or an earlier one, keeps all this. -/
theorem Sound.send (hids : i.DistinctIds) (h : i.Sound s m) (hop : i.IsChunk k op) (hk : k ≤ m)
    (hsequence : op.deviceSequence ≤ s.deviceSequence) : ∃ m', m ≤ m' ∧
      i.Sound { s with server := s.server.step i.cfg (.upload i.scope.deviceId [op]) } m' := by
  have hstep : Server.Step i.cfg s.server (.upload i.scope.deviceId [op])
      (s.server.step i.cfg (.upload i.scope.deviceId [op])) := Server.step_spec _
  have howner : ∀ d, s.server.db.device? i.scope.deviceId = some d → d.userId = i.userId :=
    fun d hd => deviceState?_of_device? (fun u last hu => (h.device u last hu).1) hd
  rcases h.imported.step_upload hids h.chunked hop hk howner with ⟨hdb, himported⟩ |
    ⟨rfl, hsome, himported⟩
  · refine ⟨m, le_refl m, h.serve (le_refl m) (h.chunked.step _) himported ?_ ?_⟩
    · rw [hdb]
      exact h.device
    · rw [hdb]
      exact fun _ _ _ _ _ hlast => Or.inr hlast
  · -- the chunk is new, and no chunk after it has been sent
    refine ⟨k + 1, Nat.le_succ k, h.serve (Nat.le_succ k) (h.chunked.step _) himported ?_ ?_⟩
    · intro u last hstate
      have hle := Server.lastSequence_step hstep (Int.natCast_nonneg s.deviceSequence)
        (fun u last hu => (h.device u last hu).2)
        (fun ops heq op' hop' => by
          obtain ⟨-, rfl⟩ := Event.upload.inj heq
          rw [List.mem_singleton.mp hop']
          exact hsequence) u last hstate
      obtain ⟨d, hd⟩ := Option.isSome_iff_exists.mp hsome
      have hbefore : s.server.db.deviceState? i.scope.deviceId =
          some (i.userId, d.lastDeviceSequence) := by
        rw [Db.deviceState?, hd, Option.map_some, howner d hd]
      obtain ⟨last', -, hafter⟩ := Server.deviceState?_step hstep hbefore
      exact ⟨(Prod.mk.inj (Option.some.inj (hafter.symm.trans hstate))).1.symm, hle⟩
    · exact fun pass _ hpass _ _ _ => Or.inl (Nat.lt_succ_of_le (h.pass pass hpass).le)

/-- **What happens elsewhere** keeps it. -/
theorem Sound.elsewhere (h : i.Sound s m) (e : Event)
    (hok : i.Undisturbed s (.elsewhere e)) :
    i.Sound { s with server := s.server.step i.cfg e } m := by
  obtain ⟨howner, hupload⟩ := hok
  have hstep : Server.Step i.cfg s.server e (s.server.step i.cfg e) := Server.step_spec e
  refine h.serve (le_refl m) (h.chunked.step e)
    (h.imported.step_elsewhere e fun deviceId ops he => (hupload deviceId ops he).1) ?_ ?_
  · intro u last hstate
    obtain ⟨d, hd, heq⟩ := Option.map_eq_some_iff.mp hstate
    refine ⟨(Prod.mk.inj heq).1 ▸ howner d hd, ?_⟩
    exact Server.lastSequence_step hstep (Int.natCast_nonneg _)
      (fun u last hu => (h.device u last hu).2)
      (fun ops he => ((hupload _ ops he).2 rfl).2) u last hstate
  · intro pass op hpass hstage hpos hlast
    refine Or.inr fun u last hstate => ?_
    have hne : ∀ ops, e ≠ .upload i.scope.deviceId ops := fun ops he =>
      ((hupload _ ops he).2 rfl).1 ⟨pass, op, hpass, hstage⟩
    rcases Server.deviceState?_of_ne_upload hstep hne with hsame | ⟨-, userId, hnew⟩
    · exact hlast u last (hsame ▸ hstate)
    · obtain ⟨-, rfl⟩ := Prod.mk.inj (Option.some.inj (hnew.symm.trans hstate))
      exact hpos

/-- A sound state whose pass is replaced by a sound one that has no sequence reserved, -/
theorem Sound.setPass (h : i.Sound s m) {pass : BulkPass} (hpass : i.PassSound s.server m pass)
    (hstage : ∀ op, pass.stage ≠ .reserved op) : i.Sound { s with pass := some pass } m :=
  ⟨h.chunked, h.imported, h.device, h.sent, h.uploadedChunks, h.uploadedVisits,
    fun _ hp => Option.some.inj hp ▸ hpass,
    fun _ op hp hop => absurd hop (Option.some.inj hp ▸ hstage op), h.completed⟩

/-- and one whose pass is over. -/
theorem Sound.endPass (h : i.Sound s m) (failures : ℕ) :
    i.Sound { s with pass := none, failures := failures } m :=
  ⟨h.chunked, h.imported, h.device, h.sent, h.uploadedChunks, h.uploadedVisits,
    fun _ hp => (nomatch hp), fun _ _ hp => (nomatch hp), h.completed⟩

end Runs

/-! ### The steps of a pass -/

section Passes

variable {s : BulkImporter} {m : ℕ} {chunk : BulkChunk} {chunks : List BulkChunk} {ends : Bool}
  {uploadedChunks uploadedVisits : ℕ} {op : OperationIn}

/-- A pass starts with the rest of the plan. -/
theorem Sound.startPass (hlaw : i.scope.cipher.Lawful) (h : i.Sound s m)
    (nonces : ℕ → i.scope.cipher.Nonce) : i.PassSound s.server m
      (i.startPass nonces (s.uploadedChunks.getD 0) (s.uploadedVisits.getD 0)) := by
  have hle : s.uploadedChunks.getD 0 ≤ (i.scope.bulkPlan 0 i.stream).1.length :=
    le_trans h.uploadedChunks h.imported.le
  obtain ⟨hcarries, hends⟩ := BulkScope.collectHistoryBulk_spec hlaw nonces hle
  rw [← h.uploadedVisits] at hcarries hends
  exact ⟨h.uploadedChunks, h.uploadedVisits, hcarries, hends, fun op hop => (nomatch hop),
    fun huploaded => nomatch huploaded⟩

/-- The next chunk gets a sequence above all the server has of the device. -/
theorem Sound.reserve (h : i.Sound s m)
    (hpass : s.pass = some ⟨chunk :: chunks, ends, uploadedChunks, uploadedVisits, .collecting⟩) :
    i.Sound { s with
      deviceSequence := s.deviceSequence + 1
      lamportClock := s.lamportClock + 1
      sent := s.sent ++ [i.scope.operation chunk (s.deviceSequence + 1) (s.lamportClock + 1)]
      pass := some ⟨chunk :: chunks, ends, uploadedChunks, uploadedVisits,
        .reserved (i.scope.operation chunk (s.deviceSequence + 1) (s.lamportClock + 1))⟩ } m := by
  have hold := h.pass _ hpass
  obtain ⟨hlt, hcarries, -, -⟩ := carriesAll_cons hold.carries
  have hchunk : i.IsChunk uploadedChunks
      (i.scope.operation chunk (s.deviceSequence + 1) (s.lamportClock + 1)) :=
    ⟨chunk, _, _, hlt, rfl, hcarries⟩
  have hsequence : (i.scope.operation chunk (s.deviceSequence + 1)
      (s.lamportClock + 1)).deviceSequence = (s.deviceSequence : ℤ) + 1 := rfl
  refine ⟨h.chunked, h.imported, fun u last hu => ?_, fun op hop => ?_, h.uploadedChunks,
    h.uploadedVisits, fun pass hp => ?_, fun pass op hp hop => ?_, h.completed⟩
  · obtain ⟨hu, hle⟩ := h.device u last hu
    exact ⟨hu, by push_cast; omega⟩
  · rcases List.mem_append.mp hop with hop | hop
    · obtain ⟨hle, hk⟩ := h.sent op hop
      exact ⟨by push_cast; omega, hk⟩
    · rw [List.mem_singleton.mp hop, hsequence]
      exact ⟨by push_cast; omega, uploadedChunks, hold.le, hchunk⟩
  · obtain rfl := Option.some.inj hp
    refine ⟨hold.le, hold.visits, hold.carries, hold.ends, fun op hop => ?_,
      fun huploaded => nomatch huploaded⟩
    obtain rfl := BulkStage.reserved.inj hop
    refine ⟨hchunk, by rw [hsequence]; omega, Or.inr fun u last hu => ?_⟩
    have := (h.device u last hu).2
    rw [hsequence]
    omega
  · obtain rfl := Option.some.inj hp
    obtain rfl := BulkStage.reserved.inj hop
    exact List.mem_append_right _ (List.mem_singleton_self _)

/-- After the upload the chunk is on the server, or the pass has failed. -/
theorem Sound.upload (hids : i.DistinctIds) (h : i.Sound s m)
    (hpass : s.pass = some ⟨chunks, ends, uploadedChunks, uploadedVisits, .reserved op⟩) :
    ∃ m', m ≤ m' ∧ i.Sound (i.step s .upload) m' := by
  have hold := h.pass _ hpass
  obtain ⟨hchunk, -, hnew⟩ := hold.reserved op rfl
  have hsequence := (h.sent op (h.passSent _ op hpass rfl)).1
  obtain ⟨m', hm, hserved⟩ := h.send hids hchunk hold.le hsequence
  have hnext := hserved.pass _ hpass
  refine ⟨m', hm, ?_⟩
  rw [step, hpass]
  dsimp only
  split
  · rename_i hanswer
    have hlt : uploadedChunks < m' := by
      rcases hnew with hlt | hlast
      · exact lt_of_lt_of_le hlt hm
      · exact hserved.imported.lt_of_answer h.chunked hchunk
          (fun u last hu => ⟨(h.device u last hu).1, hlast u last hu⟩) hanswer
    refine hserved.setPass ⟨hnext.le, hnext.visits, hnext.carries, hnext.ends,
      fun op hop => (nomatch hop), fun _ => hlt⟩ fun op hop => nomatch hop
  · exact hserved.endPass _

/-- The checkpoint counts a chunk that is on the server. -/
theorem Sound.checkpoint (h : i.Sound s m)
    (hpass : s.pass = some ⟨chunk :: chunks, ends, uploadedChunks, uploadedVisits, .uploaded⟩) :
    i.Sound { s with
      uploadedChunks := some (uploadedChunks + 1)
      uploadedVisits := some (uploadedVisits + chunk.container.visitCount)
      pass := some ⟨chunks, ends, uploadedChunks + 1,
        uploadedVisits + chunk.container.visitCount, .collecting⟩ } m := by
  have hold := h.pass _ hpass
  obtain ⟨-, -, hcarries, hvisits⟩ := carriesAll_cons hold.carries
  have hcount : uploadedVisits + chunk.container.visitCount =
      i.scope.plannedVisits i.stream (uploadedChunks + 1) := by
    rw [hvisits, ← hold.visits]
  have hle : uploadedChunks + 1 ≤ m := hold.uploaded rfl
  have hrecorded : i.Sound { s with
      uploadedChunks := some (uploadedChunks + 1)
      uploadedVisits := some (uploadedVisits + chunk.container.visitCount) } m :=
    ⟨h.chunked, h.imported, h.device, h.sent, hle, hcount, h.pass, h.passSent, h.completed⟩
  exact hrecorded.setPass ⟨hle, hcount, hcarries, hold.ends, fun op hop => (nomatch hop),
    fun huploaded => nomatch huploaded⟩ fun op hop => nomatch hop

/-- **A pass that comes to its end** has all chunks on the server. -/
theorem Sound.finish (h : i.Sound s m)
    (hpass : s.pass = some ⟨[], true, uploadedChunks, uploadedVisits, .collecting⟩) :
    i.Sound { s with
      uploadedChunks := none, uploadedVisits := none, pass := none, completed := true } m := by
  have hold := h.pass _ hpass
  have hall : m = i.plan.length :=
    le_antisymm h.imported.le (le_trans (length_le_of_carriesAll_nil hold.carries) hold.le)
  exact ⟨h.chunked, h.imported, h.device, h.sent, Nat.zero_le m, rfl, fun p hp => (nomatch hp),
    fun p op hp => (nomatch hp), fun _ => ⟨hall, hold.ends.symm⟩⟩

end Passes

/-- **One event.** -/
theorem Sound.step (hlaw : i.scope.cipher.Lawful) (hids : i.DistinctIds) {s : BulkImporter} {m : ℕ}
    (h : i.Sound s m) (e : BulkEvent i.scope.cipher.Nonce) (hok : i.Undisturbed s e) :
    ∃ m', m ≤ m' ∧ i.Sound (i.step s e) m' := by
  cases e with
  | elsewhere e => exact ⟨m, le_refl m, h.elsewhere e hok⟩
  | reserveElsewhere count =>
    refine ⟨m, le_refl m, h.chunked, h.imported, fun u last hu => ?_, fun op hop => ?_,
      h.uploadedChunks, h.uploadedVisits, h.pass, h.passSent, h.completed⟩
    · obtain ⟨hu, hle⟩ := h.device u last hu
      exact ⟨hu, by push_cast [BulkImport.step]; omega⟩
    · obtain ⟨hle, hk⟩ := h.sent op hop
      exact ⟨by push_cast [BulkImport.step]; omega, hk⟩
  | tickLamportClock observed =>
    exact ⟨m, le_refl m, h.chunked, h.imported, h.device, h.sent, h.uploadedChunks,
      h.uploadedVisits, h.pass, h.passSent, h.completed⟩
  | start nonces =>
    refine ⟨m, le_refl m, ?_⟩
    rw [BulkImport.step]
    split
    · exact h
    · exact h.setPass (h.startPass hlaw nonces) fun op hop => nomatch hop
  | reserve =>
    refine ⟨m, le_refl m, ?_⟩
    rw [BulkImport.step]
    split
    · rename_i hpass
      exact h.reserve hpass
    · exact h
  | upload =>
    rcases hpass : s.pass with _ | ⟨chunks, ends, uploadedChunks, uploadedVisits, _ | op | _⟩
    · exact ⟨m, le_refl m, by rw [BulkImport.step, hpass]; exact h⟩
    · exact ⟨m, le_refl m, by rw [BulkImport.step, hpass]; exact h⟩
    · exact h.upload hids hpass
    · exact ⟨m, le_refl m, by rw [BulkImport.step, hpass]; exact h⟩
  | checkpoint =>
    refine ⟨m, le_refl m, ?_⟩
    rw [BulkImport.step]
    split
    · rename_i hpass
      exact h.checkpoint hpass
    · exact h
  | finish =>
    refine ⟨m, le_refl m, ?_⟩
    rw [BulkImport.step]
    split
    · rename_i ends _ _ hpass
      split
      · rename_i hends
        exact h.finish (hends ▸ hpass)
      · exact h.endPass _
    · exact h
  | interrupt => exact ⟨m, le_refl m, h.endPass s.failures⟩
  | late index =>
    rcases hop : s.sent[index]? with _ | op
    · exact ⟨m, le_refl m, by rw [BulkImport.step, hop]; exact h⟩
    · obtain ⟨hle, k, hk, hchunk⟩ := h.sent op (List.mem_of_getElem? hop)
      rw [BulkImport.step, hop]
      exact h.send hids hchunk hk hle

/-! ### Passes that are not interrupted -/

/-- The events of a number of chunks, one after the other. -/
def rounds (Nonce : Type) (count : ℕ) : List (BulkEvent Nonce) :=
  (List.replicate count [.reserve, .upload, .checkpoint]).flatten

theorem Sound.run (hlaw : i.scope.cipher.Lawful) (hids : i.DistinctIds) {s : BulkImporter}
    (h : ∃ m, i.Sound s m) {events : List (BulkEvent i.scope.cipher.Nonce)}
    (hmeets : Runs.Meets i.step i.Undisturbed s events) : ∃ m, i.Sound (i.run s events) m :=
  Runs.invariant_of_meets (I := fun s => ∃ m, i.Sound s m)
    (fun _ e ⟨_, h⟩ hok => (h.step hlaw hids e hok).imp fun _ h => h.2) h hmeets

end BulkImport

/-! ### An import that is resumed -/

namespace BulkCipher

/-- A number as a list of that length, -/
def natJson (n : ℕ) : Json := .array (List.replicate n .null)

def jsonNat : Json → ℕ
  | .array items => items.length
  | _ => 0

/-- and a fraction as a sign and two numbers. -/
def ratJson (q : ℚ) : Json := .array [.bool (q.num < 0), natJson q.num.natAbs, natJson q.den]

def jsonRat : Json → ℚ
  | .array [.bool negative, num, den] =>
    mkRat (if negative then -(jsonNat num : ℤ) else jsonNat num) (jsonNat den)
  | _ => 0

def titleJson : Option String → Json
  | none => .null
  | some title => .string title

def jsonTitle : Json → Option String
  | .string title => some title
  | _ => none

def jsonText : Json → String
  | .string text => text
  | _ => ""

def jsonItems : Json → List Json
  | .array items => items
  | _ => []

/-- The plaintext of a segment, as a document. -/
def plaintextJson : BulkSegmentPlaintext → Json
  | .grouped groups => .array [.bool true, .array (groups.map fun g =>
      .array [.string g.u, titleJson g.t, .array (g.v.map ratJson)])]
  | .flat visits => .array [.bool false, .array (visits.map fun v =>
      .array [.string v.url, titleJson v.title, .string v.visitedAt])]
  | .unknown => .null

def jsonPlaintext : Json → BulkSegmentPlaintext
  | .array [.bool true, groups] => .grouped ((jsonItems groups).map fun g => match g with
      | .array [u, t, v] => ⟨jsonText u, jsonTitle t, (jsonItems v).map jsonRat⟩
      | _ => ⟨"", none, []⟩)
  | .array [.bool false, visits] => .flat ((jsonItems visits).map fun v => match v with
      | .array [url, title, visitedAt] => ⟨jsonText url, jsonTitle title, jsonText visitedAt⟩
      | _ => ⟨"", none, ""⟩)
  | _ => .unknown

/-- `{}`, in bytes. -/
theorem braces_ne_nil : ([123, 125] : List UInt8) ≠ [] := List.cons_ne_nil _ _

/-- A cipher that hides nothing: an envelope has the nonce and the object in clear. -/
def clear : BulkCipher where
  Bytes := Json
  Nonce := ℕ
  stringify := plaintextJson
  parse := fun bytes => some (jsonPlaintext bytes)
  dateTime := fun _ => 0
  supportsDeflateRaw := true
  deflateRaw := id
  inflateRaw := some
  encrypt := fun nonce id bytes =>
    .object [("nonce", natJson nonce), ("aad", .string (toString id.val)), ("ciphertext", bytes)]
  decrypt := fun envelope id =>
    if (envelope.get? "aad").map jsonText = some (toString id.val) then envelope.get? "ciphertext"
    else none
  ciphertextLength := fun envelope =>
    ((envelope.get? "ciphertext").map fun bytes => (jsonItems bytes).length).getD 0
  sealedLength := fun bytes => (jsonItems bytes).length
  text := fun _ => ⟨[123, 125], braces_ne_nil⟩
  deterministicUuid := fun parts =>
    Fin.ofNat _ (parts.foldl (fun hash part => hash * 100 + (part.toList.map Char.toNat).sum) 0)

end BulkCipher

namespace BulkImport

end BulkImport

end Client

end HelixSync
