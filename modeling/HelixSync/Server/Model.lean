import Mathlib.Data.Finset.Image
import HelixSync.Lib.FinMap
import HelixSync.Server.Vocabulary

/-!
# The server's data

The wire types of `server/src/sync/model.rs` and the tables of
`server/migrations/0001_init.sql` that synchronization reads or writes, gathered in
`HelixSync.Db`.

A table is represented by what its queries need. The operation log and the stored
snapshots are lists, since they are scanned; the tables read by key are functions
from the key; the object ledger, of which only membership is ever asked, is a
finite set. The unique constraints of the operation log are part of its type
(`HelixSync.OperationTable`), so an insertion that would break one cannot produce a
table: it fails, as the database's does. Likewise the columns with a
`CHECK (… >= 0)` are natural numbers.

Left out are the columns no modelled statement reads: the surrogate keys (a row of
the log is identified by its `operation_id`, which is unique), the `updated_at`
columns, and the display data of a device.
-/

namespace HelixSync

/-! ### JSON documents and times -/

/-- A JSON document. The fields of an object have distinct names; the list is a
representation of a map. -/
inductive Json where
  | null
  | bool (value : Bool)
  | number (text : String)
  | string (value : String)
  | array (items : List Json)
  | object (fields : List (String × Json))

namespace Json

/-- `Value::get`: a field of an object, nothing for any other document. -/
def get? : Json → String → Option Json
  | .object fields, name => fields.lookup name
  | _, _ => none

/-- `as_object().cloned().unwrap_or_default()`: the fields of an object, none for
any other document. -/
def fields : Json → List (String × Json)
  | .object fields => fields
  | _ => []

end Json

/-- A map with one field set. -/
def insertField (fields : List (String × Json)) (name : String) (value : Json) :
    List (String × Json) :=
  fields.filter (fun field => field.1 ≠ name) ++ [(name, value)]

/-- `serde_json::RawValue`: the exact bytes of a JSON document on the wire, with the
document they spell and whether the cast `::jsonb` takes them (it refuses `\u0000`, halves
of surrogate pairs and numbers out of range, all of which `RawValue` keeps). A document is
never spelt by the empty text. -/
structure RawValue where
  text : List UInt8
  value : Json
  isJsonb : Bool
  text_ne_nil : text ≠ []

/-- A UTC timestamp, in nanoseconds since the epoch. -/
abbrev DateTime := ℤ

namespace DateTime

/-- One second. -/
def second : DateTime := 1000000000

/-- `Timelike::nanosecond`. -/
def nanosecondOf (t : DateTime) : ℤ := t % second

/-- `Timelike::second`. -/
def secondOf (t : DateTime) : ℤ := t / second % 60

/-- `Timelike::minute`. -/
def minuteOf (t : DateTime) : ℤ := t / (60 * second) % 60

/-- `chrono::Duration::days`. -/
def days (n : ℤ) : DateTime := n * (24 * 60 * 60 * second)

/-- `chrono::Duration::seconds`. -/
def seconds (n : ℤ) : DateTime := n * second

/-- Whether a `timestamptz` holds the time: from 4714-11-24 BC, through the year 294276. -/
def isTimestamptz (t : DateTime) : Bool := decide (days (-2440588) ≤ t ∧ t < days 106762940)

end DateTime

/-- The `visitHours` histogram of an operation: a map from hours to counts, as a
`BTreeMap` iterates it. -/
structure VisitHours where
  entries : List (DateTime × ℤ)
  sorted : entries.Pairwise fun a b => a.1 < b.1

/-! ### Operations -/

/-- An operation as a device uploads it. -/
structure OperationIn where
  operationId : Uuid
  deviceSequence : ℤ
  lamportTimestamp : ℤ
  objectType : ObjectType
  objectId : Uuid
  operationType : OperationType
  encryptionVersion : ℤ
  payload : RawValue
  visitCount : Option ℤ
  visitHours : Option VisitHours

namespace OperationIn

variable (op : OperationIn)

/-- The object the operation is about. -/
def objectKey : ObjectKey := (op.objectType, op.objectId)

/-- `is_bulk_history_import`. -/
def isBulkHistoryImport : Bool :=
  op.objectType == .historyVisit && op.operationType == .bulkImport

/-- Whether the operation may introduce its object. -/
def isOrigination : Bool := isOriginationOperation op.objectType op.operationType

/-- Whether the operation writes a tombstone. -/
def isTerminal : Bool := isTerminalOperation op.objectType op.operationType

/-- Whether the operation clears a tombstone. -/
def isRestore : Bool := isRestoreOperation op.objectType op.operationType

end OperationIn

/-- A row of `sync_operations`. -/
structure OperationRow where
  operationId : Uuid
  userId : Uuid
  deviceId : Uuid
  deviceSequence : ℤ
  lamportTimestamp : ℤ
  serverCursor : ℕ
  objectType : ObjectType
  objectId : Uuid
  operationType : OperationType
  encryptionVersion : ℤ
  payload : Json
  visitCount : Option ℤ
  payloadBytes : ℕ
  createdAt : DateTime

namespace OperationRow

variable (row : OperationRow)

/-- The object the row is about. -/
def objectKey : ObjectKey := (row.objectType, row.objectId)

/-- `SnapshotSourceRow::ordering_key`. -/
def orderingKey : OrderingKey := ⟨row.lamportTimestamp, row.deviceId, row.operationId⟩

/-- Whether the row's operation wrote a tombstone. -/
def isTerminal : Bool := isTerminalOperation row.objectType row.operationType

/-- Whether the row is a chunk of an imported history. -/
def isBulkHistoryImport : Bool :=
  row.objectType == .historyVisit && row.operationType == .bulkImport

/-- Two rows that may stand together under the unique constraints
`uq_sync_operations_operation_id`, `uq_sync_operations_device_sequence` and
`uq_sync_operations_server_cursor`. -/
def Distinct (a b : OperationRow) : Prop :=
  a.operationId ≠ b.operationId ∧
    (a.deviceId, a.deviceSequence) ≠ (b.deviceId, b.deviceSequence) ∧
    (a.userId, a.serverCursor) ≠ (b.userId, b.serverCursor)

instance : DecidableRel Distinct := fun _ _ => inferInstanceAs (Decidable (_ ∧ _ ∧ _))

end OperationRow

/-- The `sync_operations` table, with its unique constraints. -/
structure OperationTable where
  rows : List OperationRow
  unique : rows.Pairwise OperationRow.Distinct

namespace OperationTable

/-- An `INSERT` of several rows: all of them, or a unique violation. -/
def insert? (table : OperationTable) (new : List OperationRow) : Option OperationTable :=
  if h : (table.rows ++ new).Pairwise OperationRow.Distinct then some ⟨table.rows ++ new, h⟩
  else none

/-- A `DELETE`: the rows that satisfy a predicate stay. -/
def retain (table : OperationTable) (keep : OperationRow → Bool) : OperationTable :=
  ⟨table.rows.filter keep, table.unique.filter _⟩

theorem insert?_eq_some_iff {table result : OperationTable} {new : List OperationRow} :
    table.insert? new = some result ↔ result.rows = table.rows ++ new := by
  unfold insert?
  split
  · rename_i h
    rw [Option.some.injEq]
    constructor
    · rintro rfl
      rfl
    · intro hrows
      cases result
      subst hrows
      rfl
  · rename_i h
    refine ⟨fun hnone => absurd hnone (by simp), fun hrows => absurd ?_ h⟩
    rw [← hrows]
    exact result.unique

@[simp] theorem retain_rows (table : OperationTable) (keep : OperationRow → Bool) :
    (table.retain keep).rows = table.rows.filter keep := rfl

end OperationTable

/-! ### Snapshots -/

/-- An object of a snapshot: the state one operation, or a merge of several, left
it in. -/
structure SnapshotObject where
  objectType : ObjectType
  objectId : Uuid
  operationType : OperationType
  encryptionVersion : ℤ
  payload : Json
  createdAt : DateTime
  visitCount : Option ℤ
  lamportTimestamp : ℤ
  deviceId : Uuid
  operationId : Uuid

namespace SnapshotObject

variable (obj : SnapshotObject)

/-- The object described. -/
def objectKey : ObjectKey := (obj.objectType, obj.objectId)

/-- `SnapshotObject::ordering_key`. -/
def orderingKey : OrderingKey := ⟨obj.lamportTimestamp, obj.deviceId, obj.operationId⟩

end SnapshotObject

/-- The objects of an account, each under its own key. -/
abbrev ObjectMap := FinMap ObjectKey SnapshotObject

/-- A row of `sync_snapshots`. The column holds the compressed objects; compression
loses nothing, and the order of the objects is that of a hash map. -/
structure SnapshotRow where
  userId : Uuid
  snapshotCursor : ℕ
  data : ObjectMap

/-! ### The remaining tables -/

/-- A row of `devices`. -/
structure DeviceRow where
  id : Uuid
  userId : Uuid
  lastSeenAt : Option DateTime
  createdAt : DateTime
  revokedAt : Option DateTime
  lastDeviceSequence : ℤ

/-- A row of `tombstones`. -/
structure TombstoneRow where
  deletedAtCursor : ℕ
  active : Bool
  lamportTimestamp : ℤ
  deviceId : Uuid
  operationId : Uuid
  createdAt : DateTime
  deriving DecidableEq

/-- The key of the operation that wrote a tombstone. -/
def TombstoneRow.orderingKey (row : TombstoneRow) : OrderingKey :=
  ⟨row.lamportTimestamp, row.deviceId, row.operationId⟩

/-- A row of `sync_stats`. -/
structure StatsRow where
  bookmarkCount : ℕ
  tabCount : ℕ
  storageBytes : ℕ
  deriving DecidableEq

/-- The values of `user_settings.history_retention`. -/
inductive HistoryRetention where
  | days7
  | days30
  | days90
  | year1
  | unlimited
  deriving DecidableEq

/-- A row of `user_settings`. -/
structure UserSettings where
  requireEncryption : Bool
  historyRetention : HistoryRetention

/-- The database. `cursorAllocator` and `deviceCursors` are the two roles of
`sync_cursors`: the rows whose `device_id` is null, and the others. -/
structure Db where
  syncOperations : OperationTable
  devices : List DeviceRow
  cursorAllocator : Uuid → Option ℕ
  deviceCursors : Uuid → Uuid → Option ℕ
  syncObjects : Finset (Uuid × ObjectKey)
  tombstones : Uuid → ObjectKey → Option TombstoneRow
  syncStats : Uuid → Option StatsRow
  historyVisitHours : Uuid → DateTime → Option ℤ
  syncSnapshots : List SnapshotRow
  userSettings : Uuid → Option UserSettings

namespace Db

variable (db : Db)

/-- The empty database. -/
def empty : Db where
  syncOperations := ⟨[], List.Pairwise.nil⟩
  devices := []
  cursorAllocator := fun _ => none
  deviceCursors := fun _ _ => none
  syncObjects := ∅
  tombstones := fun _ _ => none
  syncStats := fun _ => none
  historyVisitHours := fun _ _ => none
  syncSnapshots := []
  userSettings := fun _ => none

/-- A device by its id. -/
def device? (id : Uuid) : Option DeviceRow := db.devices.find? fun d => d.id = id

/-- An `UPDATE devices … WHERE id = …`. -/
def updateDevice (id : Uuid) (f : DeviceRow → DeviceRow) : Db :=
  { db with devices := db.devices.map fun d => if d.id = id then f d else d }

/-- `current_cursor`: the highest cursor handed out to a user. -/
def currentCursor (userId : Uuid) : ℕ := (db.cursorAllocator userId).getD 0

/-- The rows of one user, in the order they were inserted. -/
def userRows (userId : Uuid) : List OperationRow :=
  db.syncOperations.rows.filter fun row => row.userId = userId

/-- Whether an object has an active tombstone. -/
def tombstoned (userId : Uuid) (key : ObjectKey) : Bool :=
  ((db.tombstones userId key).map TombstoneRow.active).getD false

/-- `COALESCE(MAX(snapshot_cursor), 0)` over a user's snapshots. -/
def maxSnapshotCursor (userId : Uuid) : ℕ :=
  ((db.syncSnapshots.filter fun s => s.userId = userId).map SnapshotRow.snapshotCursor).max?.getD 0

variable {db} in
theorem device?_id {id : Uuid} {d : DeviceRow} (h : db.device? id = some d) : d.id = id := by
  simpa using List.find?_some h

/-- Updating a device changes what is read under its id and nothing else. -/
theorem device?_updateDevice {f : DeviceRow → DeviceRow} (hf : ∀ d, (f d).id = d.id)
    (id j : Uuid) :
    (db.updateDevice id f).device? j = if j = id then (db.device? j).map f else db.device? j := by
  unfold device? updateDevice
  dsimp only
  induction db.devices with
  | nil => simp
  | cons d ds ih =>
    rw [List.map_cons, List.find?_cons, List.find?_cons, ih]
    by_cases hd : d.id = id
    · by_cases hj : j = id
      · simp [hd, hj, hf]
      · simp [hd, hj, hf, Ne.symm hj]
    · by_cases hj : j = id
      · simp [hd, hj]
      · simp [hd, hj]

end Db

/-- A device as its access token authenticates it. -/
structure AuthenticatedDevice where
  userId : Uuid
  deviceId : Uuid
  deriving DecidableEq

/-- The configuration synchronization reads. `snapshotJsonLen` stands for the length
of a snapshot serialized with `serde_json::to_vec`, which is only ever compared with
a cap. -/
structure Config where
  requireEncryption : Bool
  tombstoneRetentionSecs : ℤ
  inactiveDeviceCompactionGracePeriodSecs : ℤ
  neverSyncedDeviceCompactionGracePeriodSecs : ℤ
  maxAccountStorageBytes : ℤ
  snapshotJsonLen : ObjectMap → ℕ

end HelixSync
