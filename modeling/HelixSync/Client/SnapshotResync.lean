import HelixSync.Client.PageSlots

/-!
# A snapshot and the log it stands for

A device whose cursor is too old takes a snapshot, and then the operations after it. It ends like a
device that was given the whole log exactly where the snapshot says as much of an object as the log
does, and it does not in general: an encrypted bookmark is kept as its newest operation as a whole,
so after a rename the snapshot has the new title and nothing else
(`HelixSync.Client.not_sameBookmarks`).

The two devices agree (`HelixSync.Client.resync_agrees`) if snapshots are cut where the objects fit
(`HelixSync.FitsSnapshot`), if the newest operation on every object is a deletion or sets all fields
and has no active tombstone beside it (`HelixSync.Client.KeptInFull`), and if what comes later for a
deleted object finds it deleted on both devices, or opens it on both (`HelixSync.Client.StaysInStep`): the
one knows the key of the deletion, the other the key it gave to the tombstone itself.
-/

namespace HelixSync

namespace Client

/-! ### When the two agree -/

/-- The operations that set every field of a bookmark. -/
def setsAllFields : OperationType → Bool
  | .create | .restore => true
  | _ => false

/-- The newest operation on its object. -/
def IsNewest (rows : List OperationRow) (row : OperationRow) : Prop :=
  ∀ other ∈ rows, other.objectKey = row.objectKey → other.orderingKey ≤ row.orderingKey

instance (rows : List OperationRow) (row : OperationRow) : Decidable (IsNewest rows row) :=
  List.decidableBAll _ _

/-- The newest operation on every object is a deletion, or sets all fields, with a Lamport timestamp
to go by and no active tombstone beside it. -/
def KeptInFull (s : Server) (userId : Uuid) : Prop :=
  ∀ row ∈ s.userHistory userId, IsNewest (s.userHistory userId) row →
    row.operationType = .delete ∨ setsAllFields row.operationType = true ∧ row.lamportTimestamp ≠ 0 ∧
      s.db.tombstoned userId row.objectKey = false

instance (s : Server) (userId : Uuid) : Decidable (KeptInFull s userId) :=
  List.decidableBAll _ _

/-- The newest operations that set all fields. -/
def listedRows (s : Server) (userId : Uuid) : List OperationRow :=
  (s.userHistory userId).filter fun row =>
    IsNewest (s.userHistory userId) row ∧ setsAllFields row.operationType = true

/-- The Lamport timestamp a device that starts from nothing gives to the tombstones of a snapshot:
one above those of the objects. -/
def resyncLamport (s : Server) (userId : Uuid) : ℤ :=
  ((listedRows s userId).map OperationRow.lamportTimestamp).foldl max 0 + 1

/-- The key it gives to the tombstone of an object, if that is active. -/
def tombstoneKey? (s : Server) (userId : Uuid) (newId : ObjectKey → Uuid) (key : ObjectKey) :
    Option OrderingKey :=
  if s.db.tombstoned userId key = true then some ⟨resyncLamport s userId, snapshotDeviceId, newId key⟩
  else none

/-- The later operations on a deleted object keep two devices in step. The one has its deletion, the
other a tombstone or nothing. Until an operation opens the object on both, it sets all fields and is
above both, each is a deletion itself, or finds the object deleted on both: it is a move, or below
both. -/
def StaysInStep : OrderingKey → Option OrderingKey → List OperationRow → Prop
  | _, _, [] => True
  | deletion, tombstone, row :: rows =>
    if row.operationType = .delete then
      StaysInStep (max deletion row.orderingKey)
        (some (tombstone.elim row.orderingKey fun key => max key row.orderingKey)) rows
    else
      (setsAllFields row.operationType = true ∧ deletion < row.orderingKey ∧
        ∀ key ∈ tombstone, key < row.orderingKey) ∨
      ((∃ key ∈ tombstone, row.operationType = .move ∨
        row.orderingKey < deletion ∧ row.orderingKey < key) ∧ StaysInStep deletion tombstone rows)

instance decidableStaysInStep : ∀ (deletion : OrderingKey) (tombstone : Option OrderingKey)
    (rows : List OperationRow), Decidable (StaysInStep deletion tombstone rows)
  | _, _, [] => inferInstanceAs (Decidable True)
  | deletion, tombstone, row :: rows =>
    have := decidableStaysInStep deletion tombstone rows
    have := decidableStaysInStep (max deletion row.orderingKey)
      (some (tombstone.elim row.orderingKey fun key => max key row.orderingKey)) rows
    inferInstanceAs (Decidable (if row.operationType = .delete then
        StaysInStep (max deletion row.orderingKey)
          (some (tombstone.elim row.orderingKey fun key => max key row.orderingKey)) rows
      else
        (setsAllFields row.operationType = true ∧ deletion < row.orderingKey ∧
          ∀ key ∈ tombstone, key < row.orderingKey) ∨
        ((∃ key ∈ tombstone, row.operationType = .move ∨
          row.orderingKey < deletion ∧ row.orderingKey < key) ∧ StaysInStep deletion tombstone rows)))

/-- The rows of a user's log above a cursor. -/
def rowsAfter (s : Server) (userId : Uuid) (cursor : ℕ) : List OperationRow :=
  (s.userHistory userId).filter fun row => cursor < row.serverCursor

/-- Every object that is deleted when a snapshot is taken stays in step. -/
def DeletedInStep (s s' : Server) (userId : Uuid) (newId : ObjectKey → Uuid) : Prop :=
  ∀ row ∈ s.userHistory userId, IsNewest (s.userHistory userId) row → row.operationType = .delete →
    StaysInStep row.orderingKey (tombstoneKey? s userId newId row.objectKey)
      ((rowsAfter s' userId (s.db.currentCursor userId)).filter fun later =>
        later.objectKey = row.objectKey)

instance (s s' : Server) (userId : Uuid) (newId : ObjectKey → Uuid) :
    Decidable (DeletedInStep s s' userId newId) :=
  List.decidableBAll _ _

/-! ### What is compared -/

/-- A log of bookmarks and folders: an object has one type, an operation one id. -/
structure BookmarkLog (s : Server) (userId : Uuid) : Prop where
  types : ∀ row ∈ s.userHistory userId, ∀ other ∈ s.userHistory userId,
    row.objectId = other.objectId → row.objectType = other.objectType
  ids : ((s.userHistory userId).map OperationRow.operationId).Nodup

/-- The device can read a log. What it decrypts is the payload, bound to the object and the operation
type. -/
structure ReadsLog (decrypt : WireOperation → Option Json) (s : Server) (userId : Uuid) : Prop where
  rows : ∀ row ∈ s.userHistory userId, ReadableBookmark decrypt row
  envelope : ∀ op op' : WireOperation, op.objectType = op'.objectType → op.objectId = op'.objectId →
    op.operationType = op'.operationType → op.encryptionVersion = op'.encryptionVersion →
    op.payload = op'.payload → decrypt op = decrypt op'

/-- A device that has nothing yet. -/
def freshDevice : Device FieldStore := deviceAt 0 0 [] emptyStore

/-- The field states of a fresh device after a snapshot and pages. -/
def resynced (deviceId : Uuid) (decrypt : WireOperation → Option Json) (newId : ObjectKey → Uuid)
    (received : ReceivedSnapshot) (pages : List DownloadResponse) : FieldStore :=
  let reader := fieldReader deviceId decrypt
  (applyPages reader (performAll reader freshDevice
    (snapshotActions reader freshDevice.lamportClock newId received)) pages).world

/-- Its field states after pages alone. -/
def replayed (deviceId : Uuid) (decrypt : WireOperation → Option Json)
    (pages : List DownloadResponse) :
    FieldStore :=
  (applyPages (fieldReader deviceId decrypt) freshDevice pages).world

/-- The fields of a bookmark. -/
def bookmarkFields : List Field := [.liveness, .title, .url, .move]

section Writes

variable {decrypt : WireOperation → Option Json} {row : OperationRow} {objectId : Uuid}
  {field : Field}
  {value : IncomingField} {rows : List OperationRow}

/-- What rows write to a slot. -/
def rowWrites (decrypt : WireOperation → Option Json) (slot : SlotKey) (rows : List OperationRow) :
    List IncomingField :=
  rows.flatMap fun row => writes slot (rowItem decrypt row)

theorem mem_rowWrites {slot : SlotKey} :
    value ∈ rowWrites decrypt slot rows ↔ ∃ row ∈ rows, value ∈ writes slot (rowItem decrypt row) :=
  List.mem_flatMap

theorem writes_of_ne (h : row.objectId ≠ objectId) :
    writes (objectId, field) (rowItem decrypt row) = [] :=
  if_neg h

/-- The rows of other objects write nothing. -/
theorem rowWrites_filter (key : ObjectKey)
    (h : ∀ row ∈ rows, row.objectId = key.2 → row.objectType = key.1) :
    rowWrites decrypt (key.2, field) (rows.filter fun row => row.objectKey = key) =
      rowWrites decrypt (key.2, field) rows := by
  induction rows with
  | nil => rfl
  | cons row rows ih =>
    have hrest := ih fun r hr => h r (List.mem_cons_of_mem _ hr)
    have hcons : ∀ rows, rowWrites decrypt (key.2, field) (row :: rows) =
        writes (key.2, field) (rowItem decrypt row) ++ rowWrites decrypt (key.2, field) rows :=
      fun _ => List.flatMap_cons
    by_cases hkey : row.objectKey = key
    · rw [List.filter_cons_of_pos (by simpa using hkey), hcons, hcons, hrest]
    · have hid : row.objectId ≠ key.2 := fun hid => hkey (Prod.ext (h row List.mem_cons_self hid) hid)
      rw [List.filter_cons_of_neg (by simpa using hkey), hcons, writes_of_ne hid,
        List.nil_append, hrest]

theorem fieldResolutions_rowItem (hkind : row.objectType ∈ fieldMergeObjectTypes) :
    fieldResolutions (rowItem decrypt row) =
      (remoteFieldResolutions (rowItem decrypt row).1 (rowItem decrypt row).2).2.filterMap id := by
  simp only [fieldMergeObjectTypes, List.mem_cons, List.not_mem_nil, or_false] at hkind
  unfold fieldResolutions
  rcases hkind with hkind | hkind <;>
    rw [show (rowItem decrypt row).1.objectType = row.objectType from rfl, hkind]

/-- A written value has the key and the type of its operation. -/
theorem of_mem_writes (hkind : row.objectType ∈ fieldMergeObjectTypes)
    (h : value ∈ writes (objectId, field) (rowItem decrypt row)) :
    row.objectId = objectId ∧ value.key = row.orderingKey ∧
      value.operationType = row.operationType := by
  obtain ⟨hid, hmem⟩ := mem_writes.mp h
  refine ⟨hid, key_of_mem_fieldResolutions hmem, ?_⟩
  rw [fieldResolutions_rowItem hkind] at hmem
  simp only [remoteFieldResolutions] at hmem
  split at hmem <;> simp at hmem
  · rcases hmem with ⟨-, rfl⟩ | ⟨-, rfl⟩ | ⟨-, rfl⟩ | ⟨-, rfl⟩ <;> rfl
  · rcases hmem with ⟨-, rfl⟩ | ⟨-, rfl⟩ | ⟨-, rfl⟩ | ⟨-, rfl⟩ <;> rfl
  · rcases hmem with ⟨-, rfl⟩ | ⟨_, -, -, rfl⟩ | ⟨_, -, -, rfl⟩ <;> rfl
  · rcases hmem with ⟨-, rfl⟩ | ⟨-, rfl⟩ <;> rfl
  · obtain ⟨-, rfl⟩ := hmem
    rfl

theorem ne_of_setsAllFields {operationType : OperationType} (h : setsAllFields operationType = true) :
    operationType ≠ .delete ∧ operationType ≠ .move := by
  cases operationType <;> simp_all [setsAllFields]

/-- An operation that sets all fields writes each of them. -/
theorem exists_writes_of_setsAllFields (hkind : row.objectType ∈ fieldMergeObjectTypes)
    (hsets : setsAllFields row.operationType = true) (hfield : field ∈ bookmarkFields) :
    ∃ value, writes (row.objectId, field) (rowItem decrypt row) = [value] := by
  have htype : (rowItem decrypt row).1.operationType = .create ∨
      (rowItem decrypt row).1.operationType = .restore := by
    change row.operationType = _ ∨ row.operationType = _
    generalize row.operationType = operationType at hsets
    cases operationType <;> simp_all [setsAllFields]
  rw [writes, if_pos (show (rowItem decrypt row).1.objectId = row.objectId from rfl),
    fieldResolutions_rowItem hkind, remoteFieldResolutions]
  simp only [bookmarkFields, List.mem_cons, List.not_mem_nil, or_false] at hfield
  rcases htype with htype | htype <;> rw [htype] <;> rcases hfield with rfl | rfl | rfl | rfl <;> simp

/-- A deletion. -/
theorem writes_delete (hkind : row.objectType ∈ fieldMergeObjectTypes)
    (hdelete : row.operationType = .delete) :
    writes (row.objectId, field) (rowItem decrypt row) =
      if field = .liveness then [⟨row.orderingKey, .delete, some deleted⟩] else [] := by
  rw [writes, if_pos (show (rowItem decrypt row).1.objectId = row.objectId from rfl),
    fieldResolutions_rowItem hkind, remoteFieldResolutions,
    show (rowItem decrypt row).1.operationType = .delete from hdelete]
  by_cases hfield : field = .liveness
  · subst hfield
    simp
    rfl
  · simp [hfield, eq_comm]

end Writes

/-! ### Two devices on one object -/

section Rows

variable {decrypt : WireOperation → Option Json} {objectId : Uuid} {field : Field}
  {row : OperationRow}
  {rows : List OperationRow} {a b : Field → Option FieldStateRecord} {deletion : OrderingKey}
  {tombstone : Option OrderingKey}

/-- The slots of an object after rows. -/
def applyRows (decrypt : WireOperation → Option Json) (objectId : Uuid) (rows : List OperationRow)
    (slots : Field → Option FieldStateRecord) (field : Field) : Option FieldStateRecord :=
  (rowWrites decrypt (objectId, field) rows).foldl (resolveSlot field) (slots field)

theorem applyRows_cons : applyRows decrypt objectId (row :: rows) a =
    applyRows decrypt objectId rows (applyRows decrypt objectId [row] a) := by
  funext field
  rw [applyRows, applyRows, applyRows, ← List.foldl_append, rowWrites, rowWrites, rowWrites,
    List.flatMap_cons, List.flatMap_singleton]

theorem applyRows_singleton : applyRows decrypt objectId [row] a field =
    (writes (objectId, field) (rowItem decrypt row)).foldl (resolveSlot field) (a field) := by
  rw [applyRows, rowWrites, List.flatMap_singleton]

/-- An operation writes a slot once at most. -/
theorem length_writes_le (slot : SlotKey) (item : RemoteItem) : (writes slot item).length ≤ 1 := by
  unfold writes
  split
  · set fields := (fieldResolutions item).filter fun f => f.1 = slot.2 with hfields
    have hnodup : (fields.map Prod.fst).Nodup :=
      (nodup_fieldResolutions item).sublist (List.filter_sublist.map Prod.fst)
    have hsame : fields.map Prod.fst = List.replicate fields.length slot.2 := by
      refine List.eq_replicate_iff.mpr ⟨List.length_map .., fun field hfield => ?_⟩
      obtain ⟨f, hf, rfl⟩ := List.mem_map.mp hfield
      exact of_decide_eq_true (List.mem_filter.mp hf).2
    rw [hsame, List.nodup_replicate] at hnodup
    rwa [List.length_map]
  · exact Nat.zero_le 1

/-- A slot after one row keeps what it held, or takes the one value the row writes. -/
theorem applyRows_singleton_cases : (writes (objectId, field) (rowItem decrypt row) = [] ∧
      applyRows decrypt objectId [row] a field = a field) ∨
    ∃ value, writes (objectId, field) (rowItem decrypt row) = [value] ∧
      applyRows decrypt objectId [row] a field = resolveSlot field (a field) value := by
  rw [applyRows_singleton]
  have hlength := length_writes_le (objectId, field) (rowItem decrypt row)
  rcases hwrites : writes (objectId, field) (rowItem decrypt row) with
    _ | ⟨value, _ | ⟨other, values⟩⟩
  · exact Or.inl ⟨rfl, rfl⟩
  · exact Or.inr ⟨value, rfl, rfl⟩
  · rw [hwrites, List.length_cons, List.length_cons] at hlength
    omega

/-- Slots that agree on the fields of a bookmark. -/
def Alike (a b : Field → Option FieldStateRecord) : Prop :=
  ∀ field ∈ bookmarkFields, a field = b field

theorem Alike.applyRows (h : Alike a b) :
    Alike (applyRows decrypt objectId rows a) (applyRows decrypt objectId rows b) := by
  intro field hfield
  rw [Client.applyRows, Client.applyRows, h field hfield]

/-- The record of a deletion. -/
def deletionAt (key : OrderingKey) : FieldStateRecord := ⟨key, .delete, some deleted⟩

/-- An object that is deleted on the one device, and that has a tombstone or nothing on the other.
Their other slots agree, or are no newer than the deletion. -/
structure Closed (deletion : OrderingKey) (tombstone : Option OrderingKey)
    (a b : Field → Option FieldStateRecord) : Prop where
  here : a .liveness = tombstone.map deletionAt
  there : b .liveness = some (deletionAt deletion)
  others : ∀ field ∈ bookmarkFields, field ≠ .liveness → a field = b field ∨
    ∀ r, a field = some r ∨ b field = some r → r.key ≤ deletion

theorem resolveSlot_deletionAt (key : OrderingKey) :
    resolveSlot .liveness (some (deletionAt deletion)) (deletionAt key) =
      some (deletionAt (max deletion key)) := by
  rcases le_or_gt key deletion with hle | hlt
  · rw [resolveSlot_of_le hle (by simp [deletionAt]), max_eq_left hle]
  · rw [resolveSlot_of_lt hlt (by simp [deletionAt]), max_eq_right hlt.le]

/-- A value that is newer than what a slot holds takes it. -/
theorem resolveSlot_of_newer {current : Option FieldStateRecord} {value : IncomingField}
    (hfield : field ≠ .liveness) (h : ∀ r ∈ current, r.key < value.key) :
    resolveSlot field current value = some value := by
  rw [resolveSlot_eq_write hfield]
  cases current with
  | none => rfl
  | some held => exact if_pos (h held rfl)

/-- One value that both devices get for another slot. -/
theorem resolveSlot_others {current other : Option FieldStateRecord} {value : IncomingField}
    (hfield : field ≠ .liveness)
    (h : current = other ∨ ∀ r, current = some r ∨ other = some r → r.key ≤ deletion) :
    resolveSlot field current value = resolveSlot field other value ∨
      ∀ r, resolveSlot field current value = some r ∨ resolveSlot field other value = some r →
        r.key ≤ deletion := by
  rcases h with rfl | hold
  · exact Or.inl rfl
  · -- above the deletion the value takes both slots, below it neither slot gets above it
    rcases lt_or_ge deletion value.key with hlt | hge
    · left
      rw [resolveSlot_of_newer hfield fun r hr => (hold r (Or.inl hr)).trans_lt hlt,
        resolveSlot_of_newer hfield fun r hr => (hold r (Or.inr hr)).trans_lt hlt]
    · right
      rintro r (hr | hr)
      · rcases resolveSlot_mem hr with rfl | hr
        · exact hge
        · exact hold r (Or.inl hr)
      · rcases resolveSlot_mem hr with rfl | hr
        · exact hge
        · exact hold r (Or.inr hr)

theorem Closed.others_applyRows (h : Closed deletion tombstone a b) (hfield : field ∈ bookmarkFields)
    (hne : field ≠ .liveness) :
    applyRows decrypt objectId [row] a field = applyRows decrypt objectId [row] b field ∨
      ∀ r, applyRows decrypt objectId [row] a field = some r ∨
        applyRows decrypt objectId [row] b field = some r →
        r.key ≤ deletion := by
  rw [applyRows_singleton, applyRows_singleton]
  rcases @applyRows_singleton_cases decrypt objectId field row a with ⟨hnone, -⟩ | ⟨value, hone, -⟩
  · rw [hnone]
    exact h.others field hfield hne
  · rw [hone]
    exact resolveSlot_others hne (h.others field hfield hne)

/-- One more deletion. -/
theorem Closed.delete (h : Closed deletion tombstone a b)
    (hkind : row.objectType ∈ fieldMergeObjectTypes)
    (hid : row.objectId = objectId) (hdelete : row.operationType = .delete) :
    Closed (max deletion row.orderingKey)
      (some (tombstone.elim row.orderingKey fun key => max key row.orderingKey))
      (applyRows decrypt objectId [row] a) (applyRows decrypt objectId [row] b) := by
  subst hid
  have hlive : ∀ slots, applyRows decrypt row.objectId [row] slots .liveness =
      resolveSlot .liveness (slots .liveness) (deletionAt row.orderingKey) := fun slots => by
    rw [applyRows_singleton, writes_delete hkind hdelete, if_pos rfl]
    rfl
  refine ⟨?_, ?_, fun field hfield hne => ?_⟩
  · rw [hlive, h.here]
    cases tombstone with
    | none => rfl
    | some key => exact resolveSlot_deletionAt _
  · rw [hlive, h.there, resolveSlot_deletionAt]
  · exact (h.others_applyRows hfield hne).imp_right fun hle r hr => (hle r hr).trans (le_max_left _ _)

/-- An operation that finds the object deleted on both devices. -/
theorem Closed.stays (h : Closed deletion tombstone a b)
    (hkind : row.objectType ∈ fieldMergeObjectTypes)
    {key : OrderingKey} (hkey : key ∈ tombstone)
    (hstays : row.operationType = .move ∨ row.orderingKey < deletion ∧ row.orderingKey < key) :
    Closed deletion tombstone (applyRows decrypt objectId [row] a)
      (applyRows decrypt objectId [row] b) := by
  have hlive : ∀ slots held, slots .liveness = some (deletionAt held) →
      (row.operationType = .move ∨ row.orderingKey < held) →
        applyRows decrypt objectId [row] slots .liveness = some (deletionAt held) := by
    intro slots held hslot hlost
    rcases @applyRows_singleton_cases decrypt objectId .liveness row slots with
      ⟨-, hsame⟩ | ⟨value, hone, hres⟩
    · rw [hsame, hslot]
    · obtain ⟨-, hvalue, htype⟩ := of_mem_writes hkind (hone ▸ List.mem_singleton_self value)
      rw [hres, hslot]
      rcases hlost with hmove | hlt
      · exact resolveSlot_of_move (htype.trans hmove) rfl
      · exact resolveSlot_of_le (hvalue ▸ hlt.le) (by simp [deletionAt])
  obtain rfl : tombstone = some key := hkey
  exact ⟨hlive a key h.here (hstays.imp_right And.right),
    hlive b deletion h.there (hstays.imp_right And.left),
    fun field hfield hne => h.others_applyRows hfield hne⟩

/-- An operation that opens the object on both. -/
theorem Closed.opens (h : Closed deletion tombstone a b)
    (hkind : row.objectType ∈ fieldMergeObjectTypes)
    (hid : row.objectId = objectId) (hsets : setsAllFields row.operationType = true)
    (hdeletion : deletion < row.orderingKey) (htombstone : ∀ key ∈ tombstone, key < row.orderingKey) :
    Alike (applyRows decrypt objectId [row] a) (applyRows decrypt objectId [row] b) := by
  subst hid
  have hmove := (ne_of_setsAllFields hsets).2
  intro field hfield
  obtain ⟨value, hone⟩ := @exists_writes_of_setsAllFields decrypt row field hkind hsets hfield
  obtain ⟨-, hvalue, htype⟩ := of_mem_writes hkind (hone ▸ List.mem_singleton_self value)
  rw [applyRows_singleton, applyRows_singleton, hone]
  change resolveSlot field (a field) value = resolveSlot field (b field) value
  by_cases hne : field = .liveness
  · subst hne
    rw [h.here, h.there, resolveSlot_of_lt (hvalue ▸ hdeletion) (htype ▸ hmove)]
    cases tombstone with
    | none => rfl
    | some key => exact resolveSlot_of_lt (hvalue ▸ htombstone key rfl) (htype ▸ hmove)
  · rcases h.others field hfield hne with heq | hle
    · rw [heq]
    · rw [resolveSlot_of_newer hne fun r hr => hvalue ▸ (hle r (Or.inl hr)).trans_lt hdeletion,
        resolveSlot_of_newer hne fun r hr => hvalue ▸ (hle r (Or.inr hr)).trans_lt hdeletion]

/-- **Rows that keep two devices in step**: in the end they hold the same, or the object is deleted
on both. -/
theorem Closed.applyRows
    (hrows : ∀ row ∈ rows, row.objectType ∈ fieldMergeObjectTypes ∧ row.objectId = objectId) :
    ∀ {deletion tombstone a b}, Closed deletion tombstone a b → StaysInStep deletion tombstone rows →
      Alike (applyRows decrypt objectId rows a) (applyRows decrypt objectId rows b) ∨
        ∃ deletion tombstone, Closed deletion tombstone (applyRows decrypt objectId rows a)
          (applyRows decrypt objectId rows b) := by
  induction rows with
  | nil => exact fun h _ => Or.inr ⟨_, _, h⟩
  | cons row rows ih =>
    intro deletion tombstone a b h hstep
    obtain ⟨hkind, hid⟩ := hrows row List.mem_cons_self
    have hrest : ∀ r ∈ rows, r.objectType ∈ fieldMergeObjectTypes ∧ r.objectId = objectId :=
      fun r hr => hrows r (List.mem_cons_of_mem _ hr)
    rw [@applyRows_cons decrypt objectId row rows a, @applyRows_cons decrypt objectId row rows b]
    rw [StaysInStep] at hstep
    split at hstep
    · rename_i hdelete
      exact ih hrest (h.delete hkind hid hdelete) hstep
    · rcases hstep with ⟨hsets, hdeletion, htombstone⟩ | ⟨⟨key, hkey, hstays⟩, hstep⟩
      · exact Or.inl (h.opens hkind hid hsets hdeletion htombstone).applyRows
      · exact ih hrest (h.stays hkind hkey hstays) hstep

end Rows

/-! ### What a snapshot lists -/

section Snapshot

variable {s : Server} {userId : Uuid} {decrypt : WireOperation → Option Json} {row : OperationRow}
  {key : ObjectKey}

theorem exists_isNewest (hrow : row ∈ s.userHistory userId) : ∃ newest ∈ s.userHistory userId,
    newest.objectKey = row.objectKey ∧ IsNewest (s.userHistory userId) newest := by
  have hmem : row ∈ s.objectHistory userId row.objectKey := Server.mem_objectHistory.mpr ⟨hrow, rfl⟩
  obtain ⟨newest, hlast⟩ := exists_newest (List.ne_nil_of_mem hmem)
  obtain ⟨hnewest, hmax⟩ := newest_spec hlast
  obtain ⟨hhistory, hkey⟩ := Server.mem_objectHistory.mp hnewest
  exact ⟨newest, hhistory, hkey, fun other hother hsame =>
    hmax other (Server.mem_objectHistory.mpr ⟨hother, hsame.trans hkey⟩)⟩

/-- Operations of one key are one. -/
theorem BookmarkLog.eq_of_orderingKey_eq (h : BookmarkLog s userId) {other : OperationRow}
    (hrow : row ∈ s.userHistory userId) (hother : other ∈ s.userHistory userId)
    (hkey : row.orderingKey = other.orderingKey) : row = other :=
  List.inj_on_of_nodup_map h.ids hrow hother (congrArg OrderingKey.operationId hkey)

/-- Operations of one object id are on one object. -/
theorem BookmarkLog.objectKey_eq (h : BookmarkLog s userId) {other : OperationRow}
    (hother : other ∈ s.userHistory userId) (hrow : row ∈ s.userHistory userId)
    (hid : other.objectId = row.objectId) : other.objectKey = row.objectKey :=
  Prod.ext (h.types other hother row hrow hid) hid

/-- The full history of an encrypted object is its newest operation. -/
theorem fullObject_eq_snapshotOf (hlog : BookmarkLog s userId)
    (hreads : ∀ row ∈ s.userHistory userId, ReadableBookmark decrypt row)
    (hrow : row ∈ s.userHistory userId)
    (hnewest : IsNewest (s.userHistory userId) row) :
    fullObject row.objectKey (s.objectHistory userId row.objectKey) = some (snapshotOf row) := by
  have hmem : row ∈ s.objectHistory userId row.objectKey := Server.mem_objectHistory.mpr ⟨hrow, rfl⟩
  obtain ⟨newest, hlast⟩ := exists_newest (List.ne_nil_of_mem hmem)
  obtain ⟨hin, hmax⟩ := newest_spec hlast
  obtain ⟨hhistory, hkey⟩ := Server.mem_objectHistory.mp hin
  obtain rfl := hlog.eq_of_orderingKey_eq hhistory hrow
    (le_antisymm (hnewest newest hhistory hkey) (hmax row hmem))
  refine combineObject_whole hlast (Bool.eq_false_iff.mpr fun hmerges => ?_)
  have hplain := (mergesFields_iff.mp hmerges).1 newest hin
  have hencrypted := (hreads newest hrow).encrypted
  omega

/-- A log whose snapshots were cut where the objects fit, and which keeps every object in full. -/
structure WellKept (decrypt : WireOperation → Option Json) (s : Server) (userId : Uuid) : Prop where
  reached : Server.Reached s userId
  stocked : Server.Stocked s
  fits : s.Fits userId none
  log : BookmarkLog s userId
  reads : ReadsLog decrypt s userId
  kept : KeptInFull s userId

theorem isTerminalOperation_of_kind {t : ObjectType} (hkind : t ∈ fieldMergeObjectTypes)
    (operationType : OperationType) :
    isTerminalOperation t operationType = true ↔ operationType = .delete := by
  simp only [fieldMergeObjectTypes, List.mem_cons, List.not_mem_nil, or_false] at hkind
  rcases hkind with rfl | rfl <;> cases operationType <;> simp [isTerminalOperation]

theorem mem_listedRows : row ∈ listedRows s userId ↔ row ∈ s.userHistory userId ∧
    IsNewest (s.userHistory userId) row ∧ setsAllFields row.operationType = true := by
  simp [listedRows]

namespace WellKept

variable (h : WellKept decrypt s userId)
include h

/-- **The objects of a snapshot** are the newest operations that set all fields. -/
theorem get_objects_iff {obj : SnapshotObject} :
    (snapshot s.now s.db userId).objects.get key = some obj ↔
    ∃ row ∈ listedRows s userId, row.objectKey = key ∧ obj = snapshotOf row := by
  have hspared : Server.SparedByRetention s.db userId := by
    refine h.stocked.sparedByRetention h.reached.wellFormed fun row hrow => ?_
    exact ne_historyVisit_of_hasLiveness (hasLiveness_of_mem (h.reads.rows row hrow).kind)
  rw [h.reached.get_snapshot hspared h.fits, Option.filter_eq_some_iff]
  constructor
  · rintro ⟨hfull, hsurvives⟩
    have hne : s.objectHistory userId key ≠ [] := by
      intro hnil
      rw [hnil] at hfull
      exact absurd hfull (by simp [fullObject, sortByKey])
    obtain ⟨first, hfirst⟩ := List.exists_mem_of_ne_nil _ hne
    obtain ⟨hhistory, hkey⟩ := Server.mem_objectHistory.mp hfirst
    obtain ⟨row, hrow, hsame, hnewest⟩ := exists_isNewest hhistory
    obtain rfl : row.objectKey = key := hsame.trans hkey
    rw [fullObject_eq_snapshotOf h.log h.reads.rows hrow hnewest] at hfull
    obtain rfl := Option.some.inj hfull
    refine ⟨row, mem_listedRows.mpr ⟨hrow, hnewest, ?_⟩, rfl, rfl⟩
    -- a deletion does not survive `filter_tombstoned`, so the rest sets all fields
    rcases h.kept row hrow hnewest with hdelete | hwhole
    · have hterminal :
          isTerminalOperation (snapshotOf row).objectType (snapshotOf row).operationType = true :=
        (isTerminalOperation_of_kind (h.reads.rows row hrow).kind _).mpr hdelete
      rw [survivesTombstone, if_pos hterminal] at hsurvives
      exact absurd hsurvives (by simp)
    · exact hwhole.1
  · rintro ⟨row, hlisted, rfl, rfl⟩
    obtain ⟨hrow, hnewest, hsets⟩ := mem_listedRows.mp hlisted
    refine ⟨fullObject_eq_snapshotOf h.log h.reads.rows hrow hnewest, ?_⟩
    have hdelete := (ne_of_setsAllFields hsets).1
    have hopen := ((h.kept row hrow hnewest).resolve_left hdelete).2.2
    rw [tombstoned_eq, Option.isSome_eq_false_iff, Option.isNone_iff_eq_none] at hopen
    have hterminal :
        ¬isTerminalOperation (snapshotOf row).objectType (snapshotOf row).operationType = true :=
      fun hterm => hdelete ((isTerminalOperation_of_kind (h.reads.rows row hrow).kind _).mp hterm)
    rw [survivesTombstone, if_neg hterminal, hopen]

variable {order tombstoneOrder : List ObjectKey}
  (hlists : s.ListsSnapshot userId order tombstoneOrder)
include hlists

theorem mem_objects_iff {obj : SnapshotObject} :
    obj ∈ (receivedSnapshot (snapshot s.now s.db userId) order tombstoneOrder).objects ↔
      ∃ row ∈ listedRows s userId, obj = snapshotOf row := by
  rw [mem_objects_receivedSnapshot h.reached.wellFormed h.stocked hlists]
  constructor
  · rintro ⟨key, hget⟩
    obtain ⟨row, hrow, -, hobj⟩ := h.get_objects_iff.mp hget
    exact ⟨row, hrow, hobj⟩
  · rintro ⟨row, hrow, rfl⟩
    exact ⟨row.objectKey, h.get_objects_iff.mpr ⟨row, hrow, rfl, rfl⟩⟩

/-- The client can read all of it. -/
theorem unsupported_eq_false :
    (receivedSnapshot (snapshot s.now s.db userId) order tombstoneOrder).unsupported = false := by
  refine List.any_eq_false.mpr fun obj hobj hbad => ?_
  obtain ⟨row, hrow, rfl⟩ := (h.mem_objects_iff hlists).mp hobj
  have hsupported := (h.reads.rows row (mem_listedRows.mp hrow).1).supported
  exact absurd (hsupported.symm.trans (Bool.and_eq_true_iff.mp hbad).2) (by simp)

end WellKept

theorem foldl_max_le_iff {values : List ℤ} {bound : ℤ} : ∀ {init : ℤ},
    values.foldl max init ≤ bound ↔ init ≤ bound ∧ ∀ value ∈ values, value ≤ bound := by
  induction values with
  | nil => simp
  | cons value values ih =>
    intro init
    rw [List.foldl_cons, ih, max_le_iff, List.forall_mem_cons, and_assoc]

/-- **The key of a tombstone** on the device is the one `HelixSync.Client.tombstoneKey?` says. -/
theorem WellKept.syntheticLamport_eq (h : WellKept decrypt s userId)
    {order tombstoneOrder : List ObjectKey}
    (hlists : s.ListsSnapshot userId order tombstoneOrder) :
    syntheticLamport freshDevice
        (receivedSnapshot (snapshot s.now s.db userId) order tombstoneOrder) =
      resyncLamport s userId := by
  set received := receivedSnapshot (snapshot s.now s.db userId) order tombstoneOrder with hreceived
  have hnewest : received.newest =
      (received.objects.map SnapshotObject.lamportTimestamp).foldl max 0 := by
    rw [ReceivedSnapshot.newest, List.foldl_map]
  have hsame : ∀ bound, received.newest ≤ bound ↔
      ((listedRows s userId).map OperationRow.lamportTimestamp).foldl max 0 ≤ bound := by
    intro bound
    rw [hnewest, foldl_max_le_iff, foldl_max_le_iff, List.forall_mem_map, List.forall_mem_map]
    refine and_congr_right fun _ => ⟨fun hall row hrow => ?_, fun hall obj hobj => ?_⟩
    · exact hall _ ((h.mem_objects_iff hlists).mpr ⟨row, hrow, rfl⟩)
    · obtain ⟨row, hrow, rfl⟩ := (h.mem_objects_iff hlists).mp hobj
      exact hall row hrow
  have hpos : 0 ≤ received.newest := by
    rw [hnewest]
    exact (foldl_max_le_iff.mp le_rfl).1
  change max 0 received.newest + 1 = _
  rw [max_eq_right hpos, resyncLamport, eq_of_forall_ge_iff hsame]

end Snapshot

/-! ### The slots of an object after a snapshot -/

section Slots

variable {s : Server} {userId deviceId : Uuid} {decrypt : WireOperation → Option Json}
  {row : OperationRow}
  {newId : ObjectKey → Uuid} {order tombstoneOrder : List ObjectKey} {objectId : Uuid} {field : Field}
  {value : IncomingField} {lamportTimestamp : ℤ}

/-- The applier gets a listed object as its newest operation. -/
theorem WellKept.decryptObject_snapshotOf (h : WellKept decrypt s userId)
    (hlisted : row ∈ listedRows s userId)
    (deviceId : Uuid) (newId : ObjectKey → Uuid) (received : ReceivedSnapshot)
    (lamportTimestamp : ℤ) :
    ∃ item, decryptObject (fieldReader deviceId decrypt)
        (snapshotOperation received lamportTimestamp newId (snapshotOf row)) = some item ∧
      item.1.objectType = row.objectType ∧ item.remote = rowItem decrypt row := by
  obtain ⟨hrow, hnewest, hsets⟩ := mem_listedRows.mp hlisted
  have hreadable := h.reads.rows row hrow
  have hslot := hasLiveness_of_mem hreadable.kind
  have hdelete := (ne_of_setsAllFields hsets).1
  have hkeep : (snapshotOf row).lamportTimestamp ≠ 0 ∧ (snapshotOf row).objectType ≠ .historyVisit :=
    ⟨((h.kept row hrow hnewest).resolve_left hdelete).2.1, ne_historyVisit_of_hasLiveness hslot⟩
  set op := snapshotOperation received lamportTimestamp newId (snapshotOf row) with hop
  -- `keepKey`: the operation keeps its id, device and Lamport timestamp
  have hout : op.toOperationOut = (wireOperation row).toOperationOut := by
    rw [hop, snapshotOperation]
    dsimp only
    rw [if_pos hkeep, if_pos hkeep, if_pos hkeep]
    rfl
  have hsame : decrypt op = decrypt (wireOperation row) :=
    h.reads.envelope op (wireOperation row) rfl rfl rfl rfl rfl
  obtain ⟨payload, hpayload⟩ := Option.isSome_iff_exists.mp hreadable.decrypts
  have hread : (fieldReader deviceId decrypt).decrypt op = some payload := hsame.trans hpayload
  have hbulk : isBulkImportOp op = false := isBulkImportOp_eq_false hslot
  have hversions : versionsUnsupported op = false := hreadable.supported
  have hversion : ¬op.encryptionVersion < 1 := not_lt.mpr hreadable.encrypted
  refine ⟨(op, payload), ?_, rfl, ?_⟩
  · simp [decryptObject, decryptWithResolver, hversion, hversions, hbulk, hread]
  · rw [DecryptedItem.remote, rowItem, hout, hpayload, Option.getD_some]

theorem WellKept.mem_objectWrites_iff (h : WellKept decrypt s userId)
    (hlists : s.ListsSnapshot userId order tombstoneOrder) :
    value ∈ objectWrites deviceId decrypt lamportTimestamp newId
        (receivedSnapshot (snapshot s.now s.db userId) order tombstoneOrder) (objectId, field) ↔
      ∃ row ∈ listedRows s userId, value ∈ writes (objectId, field) (rowItem decrypt row) := by
  rw [mem_objectWrites]
  constructor
  · rintro ⟨obj, hobj, item, hitem, -, hvalue⟩
    obtain ⟨row, hrow, rfl⟩ := (h.mem_objects_iff hlists).mp hobj
    obtain ⟨item', hitem', -, hremote⟩ := h.decryptObject_snapshotOf hrow deviceId newId
      (receivedSnapshot (snapshot s.now s.db userId) order tombstoneOrder) lamportTimestamp
    obtain rfl := Option.some.inj (hitem.symm.trans hitem')
    exact ⟨row, hrow, hremote ▸ hvalue⟩
  · rintro ⟨row, hrow, hvalue⟩
    obtain ⟨item, hitem, htype, hremote⟩ := h.decryptObject_snapshotOf hrow deviceId newId
      (receivedSnapshot (snapshot s.now s.db userId) order tombstoneOrder) lamportTimestamp
    have hkind := (h.reads.rows row (mem_listedRows.mp hrow).1).kind
    exact ⟨snapshotOf row, (h.mem_objects_iff hlists).mpr ⟨row, hrow, rfl⟩, item, hitem,
      htype ▸ hasAppliers_of_mem hkind, hremote ▸ hvalue⟩

/-- A tombstone that is listed is that of an object with operations. -/
theorem WellKept.exists_of_tombstone (h : WellKept decrypt s userId)
    (hlists : s.ListsSnapshot userId order tombstoneOrder) {key : ObjectKey}
    (hkey : key ∈ (receivedSnapshot (snapshot s.now s.db userId) order tombstoneOrder).tombstones) :
    s.db.tombstoned userId key = true ∧ ∃ row ∈ s.userHistory userId, row.objectKey = key := by
  have htombstoned := (mem_tombstones_receivedSnapshot h.stocked hlists).mp hkey
  obtain ⟨tombstone, htomb⟩ := Option.isSome_iff_exists.mp ((tombstoned_eq ..).symm.trans htombstoned)
  obtain ⟨row, hrow, hsame, -⟩ := h.stocked.tombstones userId key tombstone htomb
  exact ⟨htombstoned, row, hrow, hsame⟩

/-- The tombstones of bookmarks and folders write to no other slot, -/
theorem WellKept.tombstoneWrites_eq_nil (h : WellKept decrypt s userId)
    (hlists : s.ListsSnapshot userId order tombstoneOrder) (hne : field ≠ .liveness) :
    tombstoneWrites deviceId decrypt lamportTimestamp newId
      (receivedSnapshot (snapshot s.now s.db userId) order tombstoneOrder) (objectId, field) =
        [] := by
  unfold tombstoneWrites
  rw [List.flatMap_assoc]
  refine List.flatMap_eq_nil_iff.mpr fun key hkey =>
    List.flatMap_eq_nil_iff.mpr fun action haction => ?_
  obtain ⟨-, row, hrow, rfl⟩ := h.exists_of_tombstone hlists hkey
  have hkind := (h.reads.rows row hrow).kind
  unfold tombstoneActions at haction
  split at haction
  · rw [List.mem_singleton.mp haction, Action.slotWrites, DecryptedItem.remote]
    simp only [fieldMergeObjectTypes, List.mem_cons, List.not_mem_nil, or_false] at hkind
    rcases hkind with hkind | hkind <;>
      simp [writes, tombstoneOperation, OperationRow.objectKey, hkind, fieldResolutions,
        terminalOperationType,
        remoteFieldResolutions, Ne.symm hne]
  · exact absurd haction List.not_mem_nil

/-- and the one of an object, if it is active, deletes it. -/
theorem WellKept.mem_tombstoneWrites_iff (h : WellKept decrypt s userId)
    (hlists : s.ListsSnapshot userId order tombstoneOrder) (hrow : row ∈ s.userHistory userId) :
    value ∈ tombstoneWrites deviceId decrypt lamportTimestamp newId
        (receivedSnapshot (snapshot s.now s.db userId) order tombstoneOrder)
          (row.objectId, .liveness) ↔
      s.db.tombstoned userId row.objectKey = true ∧
        value = deletionAt ⟨lamportTimestamp, snapshotDeviceId, newId row.objectKey⟩ := by
  have hkind := (h.reads.rows row hrow).kind
  have hdelete : terminalOperationType row.objectKey.1 = .delete :=
    (by decide : ∀ t ∈ fieldMergeObjectTypes, terminalOperationType t = .delete) _ hkind
  rw [mem_tombstoneWrites]
  constructor
  · rintro ⟨key, hkey, hid, -, rfl⟩
    obtain ⟨htombstoned, other, hother, rfl⟩ := h.exists_of_tombstone hlists hkey
    rw [h.log.objectKey_eq hother hrow hid] at htombstoned ⊢
    exact ⟨htombstoned, by rw [hdelete, deletionAt]⟩
  · rintro ⟨htombstoned, rfl⟩
    refine ⟨row.objectKey, (mem_tombstones_receivedSnapshot h.stocked hlists).mpr htombstoned, rfl,
      hasLiveness_of_mem hkind, ?_⟩
    rw [deletionAt, hdelete]

/-- The slots of an object after the snapshot. -/
def slotsAfter (s : Server) (userId deviceId : Uuid) (decrypt : WireOperation → Option Json)
    (newId : ObjectKey → Uuid) (order tombstoneOrder : List ObjectKey) (objectId : Uuid)
    (field : Field) :
    Option FieldStateRecord :=
  fieldsAfter deviceId decrypt freshDevice newId
    (receivedSnapshot (snapshot s.now s.db userId) order tombstoneOrder) (objectId, field)

/-- The slots of an object after the log. -/
def slotsOf (s : Server) (userId : Uuid) (decrypt : WireOperation → Option Json) (objectId : Uuid) :
    Field → Option FieldStateRecord :=
  applyRows decrypt objectId (s.userHistory userId) fun _ => none

theorem WellKept.slotsAfter_eq (h : WellKept decrypt s userId)
    (hlists : s.ListsSnapshot userId order tombstoneOrder) :
    slotsAfter s userId deviceId decrypt newId order tombstoneOrder objectId field =
      (objectWrites deviceId decrypt (resyncLamport s userId) newId
          (receivedSnapshot (snapshot s.now s.db userId) order tombstoneOrder) (objectId, field) ++
        tombstoneWrites deviceId decrypt (resyncLamport s userId) newId
          (receivedSnapshot (snapshot s.now s.db userId) order tombstoneOrder)
            (objectId, field)).foldl
            (resolveSlot field) none := by
  rw [slotsAfter, fieldsAfter_slot (h.unsupported_eq_false hlists), h.syntheticLamport_eq hlists]

/-- A slot whose values are all from rows of one object ends with the newest, if that writes it. -/
theorem WellKept.foldl_eq_newest (h : WellKept decrypt s userId) (hrow : row ∈ s.userHistory userId)
    (hnewest : IsNewest (s.userHistory userId) row) (hmove : row.operationType ≠ .move)
    (hone : writes (row.objectId, field) (rowItem decrypt row) = [value])
    {values : List IncomingField}
    (hmem : value ∈ values)
    (hvalues : ∀ v ∈ values, ∃ other ∈ s.userHistory userId,
      v ∈ writes (row.objectId, field) (rowItem decrypt other)) :
    values.foldl (resolveSlot field) none = some value := by
  have hkind := (h.reads.rows row hrow).kind
  obtain ⟨-, hkey, htype⟩ := of_mem_writes hkind (hone ▸ List.mem_singleton_self value)
  have hother : ∀ v ∈ values, ∃ other ∈ s.userHistory userId,
      v ∈ writes (row.objectId, field) (rowItem decrypt other) ∧ other.objectKey = row.objectKey ∧
        v.key = other.orderingKey := by
    intro v hv
    obtain ⟨other, hother, hwrites⟩ := hvalues v hv
    obtain ⟨hid, hvkey, -⟩ := of_mem_writes (h.reads.rows other hother).kind hwrites
    exact ⟨other, hother, hwrites, h.log.objectKey_eq hother hrow hid, hvkey⟩
  refine foldl_resolveSlot_greatest hmem (htype ▸ hmove) (fun v hv => ?_) fun v hv hsame => ?_
  · obtain ⟨other, hother, -, hobject, hvkey⟩ := hother v hv
    rw [hvkey, hkey]
    exact hnewest other hother hobject
  · obtain ⟨other, hother, hwrites, -, hvkey⟩ := hother v hv
    obtain rfl := h.log.eq_of_orderingKey_eq hother hrow (hvkey.symm.trans (hsame.trans hkey))
    rw [hone] at hwrites
    exact List.mem_singleton.mp hwrites

/-- **An object the snapshot lists** has the same slots as after the log. -/
theorem WellKept.alike_of_listed (h : WellKept decrypt s userId)
    (hlists : s.ListsSnapshot userId order tombstoneOrder) (hlisted : row ∈ listedRows s userId) :
    Alike (slotsAfter s userId deviceId decrypt newId order tombstoneOrder row.objectId)
      (slotsOf s userId decrypt row.objectId) := by
  obtain ⟨hrow, hnewest, hsets⟩ := mem_listedRows.mp hlisted
  have hkind := (h.reads.rows row hrow).kind
  obtain ⟨hdelete, hmove⟩ := ne_of_setsAllFields hsets
  have hopen := ((h.kept row hrow hnewest).resolve_left hdelete).2.2
  intro field hfield
  obtain ⟨value, hone⟩ := @exists_writes_of_setsAllFields decrypt row field hkind hsets hfield
  have hmem : value ∈ writes (row.objectId, field) (rowItem decrypt row) :=
    hone ▸ List.mem_singleton_self value
  have htombstones : tombstoneWrites deviceId decrypt (resyncLamport s userId) newId
      (receivedSnapshot (snapshot s.now s.db userId) order tombstoneOrder) (row.objectId, field) =
        [] := by
    by_cases hne : field = .liveness
    · subst hne
      refine List.eq_nil_iff_forall_not_mem.mpr fun v hv => ?_
      exact absurd (((h.mem_tombstoneWrites_iff hlists hrow).mp hv).1.symm.trans hopen) (by simp)
    · exact h.tombstoneWrites_eq_nil hlists hne
  rw [h.slotsAfter_eq hlists, htombstones, List.append_nil,
    h.foldl_eq_newest hrow hnewest hmove hone
      ((h.mem_objectWrites_iff hlists).mpr ⟨row, hlisted, hmem⟩)
      fun v hv => ?_]
  · refine (h.foldl_eq_newest hrow hnewest hmove hone (mem_rowWrites.mpr ⟨row, hrow, hmem⟩)
      fun v hv => ?_).symm
    exact mem_rowWrites.mp hv
  · obtain ⟨other, hother, hv⟩ := (h.mem_objectWrites_iff hlists).mp hv
    exact ⟨other, (mem_listedRows.mp hother).1, hv⟩

/-- **A deleted object** has its tombstone or nothing. -/
theorem WellKept.closed_of_delete (h : WellKept decrypt s userId)
    (hlists : s.ListsSnapshot userId order tombstoneOrder) (hrow : row ∈ s.userHistory userId)
    (hnewest : IsNewest (s.userHistory userId) row) (hdelete : row.operationType = .delete) :
    Closed row.orderingKey (tombstoneKey? s userId newId row.objectKey)
      (slotsAfter s userId deviceId decrypt newId order tombstoneOrder row.objectId)
      (slotsOf s userId decrypt row.objectId) := by
  have hkind := (h.reads.rows row hrow).kind
  have hobjects : ∀ field, objectWrites deviceId decrypt (resyncLamport s userId) newId
      (receivedSnapshot (snapshot s.now s.db userId) order tombstoneOrder) (row.objectId, field) =
        [] := by
    refine fun field => List.eq_nil_iff_forall_not_mem.mpr fun v hv => ?_
    obtain ⟨other, hlisted, hv⟩ := (h.mem_objectWrites_iff hlists).mp hv
    obtain ⟨hother, hlast, hsets⟩ := mem_listedRows.mp hlisted
    have hid := (of_mem_writes (h.reads.rows other hother).kind hv).1
    have hkey := h.log.objectKey_eq hother hrow hid
    obtain rfl := h.log.eq_of_orderingKey_eq hother hrow
      (le_antisymm (hnewest other hother hkey) (hlast row hrow hkey.symm))
    exact (ne_of_setsAllFields hsets).1 hdelete
  refine ⟨?_, ?_, fun field hfield hne => Or.inr fun r hr => ?_⟩
  · -- the snapshot has the tombstone of the object, or nothing of it
    rw [h.slotsAfter_eq hlists, hobjects, List.nil_append, tombstoneKey?]
    have hmem := fun v => @WellKept.mem_tombstoneWrites_iff s userId deviceId decrypt row newId
      order tombstoneOrder v
      (resyncLamport s userId) h hlists hrow
    split
    · rename_i htomb
      have hlast := (hmem _).mpr ⟨htomb, rfl⟩
      refine foldl_resolveSlot_greatest hlast (by simp [deletionAt]) (fun v hv => ?_) fun v hv _ => ?_
      · rw [((hmem v).mp hv).2]
      · rw [((hmem v).mp hv).2]
    · rename_i htomb
      rw [List.eq_nil_iff_forall_not_mem.mpr fun v hv => htomb ((hmem v).mp hv).1]
      rfl
  · have hone : writes (row.objectId, .liveness) (rowItem decrypt row) =
      [deletionAt row.orderingKey] := by
      rw [writes_delete hkind hdelete, if_pos rfl, deletionAt]
    refine h.foldl_eq_newest hrow hnewest (by simp [hdelete]) hone ?_ fun v hv => mem_rowWrites.mp hv
    exact mem_rowWrites.mpr ⟨row, hrow, hone ▸ List.mem_singleton_self _⟩
  · rcases hr with hr | hr
    · rw [h.slotsAfter_eq hlists, hobjects, h.tombstoneWrites_eq_nil hlists hne] at hr
      exact absurd hr (by simp)
    · obtain ⟨other, hother, hv⟩ := mem_rowWrites.mp
        ((mem_of_foldl_resolveSlot hr).resolve_right fun hnone => absurd hnone (by simp))
      obtain ⟨hid, hkey, -⟩ := of_mem_writes (h.reads.rows other hother).kind hv
      rw [hkey]
      exact hnewest other hother (h.log.objectKey_eq hother hrow hid)

/-- An object without operations has empty slots. -/
theorem WellKept.alike_of_untouched (h : WellKept decrypt s userId)
    (hlists : s.ListsSnapshot userId order tombstoneOrder)
    (hnone : ∀ row ∈ s.userHistory userId, row.objectId ≠ objectId) :
    Alike (slotsAfter s userId deviceId decrypt newId order tombstoneOrder objectId)
      (slotsOf s userId decrypt objectId) := by
  intro field _
  have hrows : rowWrites decrypt (objectId, field) (s.userHistory userId) = [] :=
    List.flatMap_eq_nil_iff.mpr fun row hrow => writes_of_ne (hnone row hrow)
  have hobjects : objectWrites deviceId decrypt (resyncLamport s userId) newId
      (receivedSnapshot (snapshot s.now s.db userId) order tombstoneOrder) (objectId, field) =
        [] := by
    refine List.eq_nil_iff_forall_not_mem.mpr fun v hv => ?_
    obtain ⟨row, hlisted, hv⟩ := (h.mem_objectWrites_iff hlists).mp hv
    rw [writes_of_ne (hnone row (mem_listedRows.mp hlisted).1)] at hv
    exact absurd hv List.not_mem_nil
  have htombstones : tombstoneWrites deviceId decrypt (resyncLamport s userId) newId
      (receivedSnapshot (snapshot s.now s.db userId) order tombstoneOrder) (objectId, field) =
        [] := by
    by_cases hne : field = .liveness
    · subst hne
      refine List.eq_nil_iff_forall_not_mem.mpr fun v hv => ?_
      obtain ⟨key, hkey, hid, -, -⟩ := mem_tombstoneWrites.mp hv
      obtain ⟨-, row, hrow, rfl⟩ := h.exists_of_tombstone hlists hkey
      exact hnone row hrow hid
    · exact h.tombstoneWrites_eq_nil hlists hne
  rw [h.slotsAfter_eq hlists, slotsOf, applyRows, hobjects, htombstones, hrows]
  rfl

end Slots

/-! ### The log after a snapshot -/

section Later

variable {cfg : Config} {s s' : Server} {userId deviceId : Uuid}
  {decrypt : WireOperation → Option Json}
  {newId : ObjectKey → Uuid} {order tombstoneOrder : List ObjectKey} {objectId : Uuid} {field : Field}

/-- **An object after what comes later**: the slots agree, or it is deleted. -/
theorem WellKept.later (h : WellKept decrypt s userId)
    (hlists : s.ListsSnapshot userId order tombstoneOrder)
    (hlog : BookmarkLog s' userId) (hreads : ReadsLog decrypt s' userId)
    (hgrows : s.userHistory userId <+: s'.userHistory userId)
    (hstep : DeletedInStep s s' userId newId)
    (objectId : Uuid) :
    let rows := rowsAfter s' userId (s.db.currentCursor userId)
    let resynced := applyRows decrypt objectId rows
      (slotsAfter s userId deviceId decrypt newId order tombstoneOrder objectId)
    let replayed := applyRows decrypt objectId rows (slotsOf s userId decrypt objectId)
    Alike resynced replayed ∨ ∃ deletion tombstone, Closed deletion tombstone resynced replayed := by
  intro rows resynced replayed
  by_cases hsome : ∃ row ∈ s.userHistory userId, row.objectId = objectId
  · obtain ⟨first, hfirst, hid⟩ := hsome
    obtain ⟨row, hrow, hkey, hnewest⟩ := exists_isNewest hfirst
    obtain rfl : row.objectId = objectId := (congrArg Prod.snd hkey).trans hid
    -- the newest operation decides what the snapshot says of the object
    rcases h.kept row hrow hnewest with hdelete | ⟨hsets, -, -⟩
    · have hclosed := @WellKept.closed_of_delete s userId deviceId decrypt row newId order
        tombstoneOrder
        h hlists hrow hnewest hdelete
      have hrows : ∀ slots, applyRows decrypt row.objectId rows slots =
          applyRows decrypt row.objectId (rows.filter fun later => later.objectKey = row.objectKey)
            slots := by
        intro slots
        funext field
        have hsame := @rowWrites_filter decrypt field rows row.objectKey fun later hlater hid =>
          hlog.types later (List.mem_of_mem_filter hlater) row (hgrows.subset hrow) hid
        exact congrArg (List.foldl (resolveSlot field) (slots field)) hsame.symm
      have hresult := @Closed.applyRows decrypt row.objectId _ (fun later hlater => ?_) _ _ _ _
        hclosed (hstep row hrow hnewest hdelete)
      · rw [← hrows, ← hrows] at hresult
        exact hresult
      · obtain ⟨hlater, hsame⟩ := List.mem_filter.mp hlater
        exact ⟨(hreads.rows later (List.mem_of_mem_filter hlater)).kind,
          congrArg Prod.snd (of_decide_eq_true hsame)⟩
    · exact Or.inl (h.alike_of_listed hlists (mem_listedRows.mpr ⟨hrow, hnewest, hsets⟩)).applyRows
  · exact Or.inl (h.alike_of_untouched hlists fun row hrow hid => hsome ⟨row, hrow, hid⟩).applyRows

end Later

end Client

end HelixSync
