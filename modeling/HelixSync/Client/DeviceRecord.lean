import Mathlib.Data.Int.Notation
import Mathlib.Tactic.Common

/-!
# The device record

`DeviceRecord` (`extension/src/storage/db.ts`) is one record with the credentials of the
device, the scope and the checkpoint of each history import, and the stamp of the
initial one. Nobody writes a part of it: every update reads the record, replaces a few of its
fields and puts the whole back. `DeviceUpdate` lists the updates, with the fields each of
them sets.
-/

namespace HelixSync

namespace Client

/-- The fields of the record that the updates read or set. Times are in milliseconds; a
refresh token is named by its place in the order in which the server issued them. -/
structure DeviceRecord where
  deviceId : String
  accessToken : String
  accessTokenExpiresAt : String
  refreshToken : ℕ
  initialImportCompletedAt : Option String
  historyBulkCutoffMs : Option ℤ
  historyBulkEndMs : Option ℤ
  historyBulkOperationId : Option String
  historyBulkObjectId : Option String
  historyBulkUploadedChunks : Option ℕ
  historyBulkUploadedVisits : Option ℕ
  historyOlderCutoffMs : Option ℤ
  historyOlderEndMs : Option ℤ
  historyOlderUploadedChunks : Option ℕ
  historyOlderUploadedVisits : Option ℕ
  deriving DecidableEq

/-- The names of the fields. -/
inductive DeviceField where
  | deviceId
  | accessToken
  | accessTokenExpiresAt
  | refreshToken
  | initialImportCompletedAt
  | historyBulkCutoffMs
  | historyBulkEndMs
  | historyBulkOperationId
  | historyBulkObjectId
  | historyBulkUploadedChunks
  | historyBulkUploadedVisits
  | historyOlderCutoffMs
  | historyOlderEndMs
  | historyOlderUploadedChunks
  | historyOlderUploadedVisits
  deriving DecidableEq

/-- What a field may hold. -/
inductive DeviceValue where
  | text (value : Option String)
  | number (value : Option ℤ)
  deriving DecidableEq

/-- The fields that hold the scope and the checkpoint of an import: `INITIAL_SCOPE` or
`OLDER_SCOPE`. -/
inductive BulkScopeFields where
  | initial
  | older
  deriving DecidableEq

namespace DeviceRecord

/-- What a field holds. -/
def get (record : DeviceRecord) : DeviceField → DeviceValue
  | .deviceId => .text (some record.deviceId)
  | .accessToken => .text (some record.accessToken)
  | .accessTokenExpiresAt => .text (some record.accessTokenExpiresAt)
  | .refreshToken => .number (some record.refreshToken)
  | .initialImportCompletedAt => .text record.initialImportCompletedAt
  | .historyBulkCutoffMs => .number record.historyBulkCutoffMs
  | .historyBulkEndMs => .number record.historyBulkEndMs
  | .historyBulkOperationId => .text record.historyBulkOperationId
  | .historyBulkObjectId => .text record.historyBulkObjectId
  | .historyBulkUploadedChunks => .number (record.historyBulkUploadedChunks.map Int.ofNat)
  | .historyBulkUploadedVisits => .number (record.historyBulkUploadedVisits.map Int.ofNat)
  | .historyOlderCutoffMs => .number record.historyOlderCutoffMs
  | .historyOlderEndMs => .number record.historyOlderEndMs
  | .historyOlderUploadedChunks => .number (record.historyOlderUploadedChunks.map Int.ofNat)
  | .historyOlderUploadedVisits => .number (record.historyOlderUploadedVisits.map Int.ofNat)

/-- `device[fields.cutoff]`. -/
def cutoff (record : DeviceRecord) : BulkScopeFields → Option ℤ
  | .initial => record.historyBulkCutoffMs
  | .older => record.historyOlderCutoffMs

/-- `device[fields.end]`. -/
def endMs (record : DeviceRecord) : BulkScopeFields → Option ℤ
  | .initial => record.historyBulkEndMs
  | .older => record.historyOlderEndMs

/-- Both fields of the checkpoint are set. -/
def setCheckpoint (record : DeviceRecord) (fields : BulkScopeFields)
    (uploadedChunks uploadedVisits : Option ℕ) : DeviceRecord :=
  match fields with
  | .initial =>
      { record with
        historyBulkUploadedChunks := uploadedChunks
        historyBulkUploadedVisits := uploadedVisits }
  | .older =>
      { record with
        historyOlderUploadedChunks := uploadedChunks
        historyOlderUploadedVisits := uploadedVisits }

end DeviceRecord

/-- An update of the record: what is known when the record is read for it. -/
inductive DeviceUpdate where
  /-- `refreshAccessTokenOnce`, answered with new tokens. -/
  | refresh (deviceId accessToken : String) (refreshToken : ℕ) (accessTokenExpiresAt : String)
  /-- `flushChunk`, the chunk uploaded. -/
  | checkpoint (fields : BulkScopeFields) (uploadedChunks uploadedVisits : ℕ)
  /-- `collectHistoryBulk`, all chunks uploaded. -/
  | clearCheckpoint (fields : BulkScopeFields)
  /-- `uploadHistoryBulk`, before the upload. -/
  | chunkIds (operationId objectId : String)
  /-- `backfillHistoryBulk`, for the first time. -/
  | initialScope (cutoffMs endMs : ℤ)
  /-- `importOlderHistoryPass`, with no scope under way, -/
  | olderScope (cutoffMs : ℤ)
  /-- and at its end. -/
  | olderCompleted (olderCutoff : ℤ)
  /-- `initializeCaptureForSettings`, at its second read. -/
  | captureBoundary (now : ℤ)
  /-- `ensureHistoryBulkBoundary`. -/
  | replayBoundary (now : ℤ)
  /-- `runInitialImport`, at its end. -/
  | importCompleted (deviceId now : String)
  deriving DecidableEq

namespace DeviceUpdate

/-- The test an update makes of the record it read. -/
def wanted (record : DeviceRecord) : DeviceUpdate → Bool
  | .refresh deviceId _ _ _ => record.deviceId == deviceId
  | .olderScope cutoffMs =>
      record.initialImportCompletedAt.isSome && record.historyOlderCutoffMs.isNone &&
        match record.historyBulkCutoffMs with
        | none => false
        | some coveredFromMs => decide (cutoffMs < coveredFromMs)
  | .captureBoundary _ => record.historyBulkEndMs.isNone
  | .replayBoundary _ =>
      record.initialImportCompletedAt.isNone && record.historyBulkEndMs.isNone
  | .importCompleted deviceId _ => record.deviceId == deviceId
  | .checkpoint _ _ _ | .clearCheckpoint _ | .chunkIds _ _ | .initialScope _ _
  | .olderCompleted _ => true

/-- The record it puts back. -/
def apply (record : DeviceRecord) : DeviceUpdate → DeviceRecord
  | .refresh _ accessToken refreshToken accessTokenExpiresAt =>
      { record with
        accessToken := accessToken
        refreshToken := refreshToken
        accessTokenExpiresAt := accessTokenExpiresAt }
  | .checkpoint fields uploadedChunks uploadedVisits =>
      record.setCheckpoint fields (some uploadedChunks) (some uploadedVisits)
  | .clearCheckpoint fields => record.setCheckpoint fields none none
  | .chunkIds operationId objectId =>
      { record with
        historyBulkOperationId := some operationId
        historyBulkObjectId := some objectId }
  | .initialScope cutoffMs endMs =>
      { record with
        historyBulkCutoffMs := some cutoffMs
        historyBulkEndMs := some endMs }
  | .olderScope cutoffMs =>
      { record with
        historyOlderCutoffMs := some cutoffMs
        historyOlderEndMs := record.historyBulkCutoffMs }
  | .olderCompleted olderCutoff =>
      { record with
        historyBulkCutoffMs := some olderCutoff
        historyOlderCutoffMs := none
        historyOlderEndMs := none }
  | .captureBoundary now => { record with historyBulkEndMs := some now }
  | .replayBoundary now => { record with historyBulkEndMs := some now }
  | .importCompleted _ now => { record with initialImportCompletedAt := some now }

/-- The fields an update sets: its own. -/
def sets : DeviceUpdate → List DeviceField
  | .refresh _ _ _ _ => [.accessToken, .refreshToken, .accessTokenExpiresAt]
  | .checkpoint .initial _ _ | .clearCheckpoint .initial =>
      [.historyBulkUploadedChunks, .historyBulkUploadedVisits]
  | .checkpoint .older _ _ | .clearCheckpoint .older =>
      [.historyOlderUploadedChunks, .historyOlderUploadedVisits]
  | .chunkIds _ _ => [.historyBulkOperationId, .historyBulkObjectId]
  | .initialScope _ _ => [.historyBulkCutoffMs, .historyBulkEndMs]
  | .olderScope _ => [.historyOlderCutoffMs, .historyOlderEndMs]
  | .olderCompleted _ => [.historyBulkCutoffMs, .historyOlderCutoffMs, .historyOlderEndMs]
  | .captureBoundary _ | .replayBoundary _ => [.historyBulkEndMs]
  | .importCompleted _ _ => [.initialImportCompletedAt]

/-- **An update copies** every field that is not its own from the record it read. -/
theorem get_apply {update : DeviceUpdate} {field : DeviceField} (hother : field ∉ update.sets)
    (record : DeviceRecord) : (update.apply record).get field = record.get field := by
  cases update with
  | checkpoint fields _ _ => cases fields <;> cases field <;> first | rfl | simp [sets] at hother
  | clearCheckpoint fields => cases fields <;> cases field <;> first | rfl | simp [sets] at hother
  | _ => cases field <;> first | rfl | simp [sets] at hother

end DeviceUpdate

end Client

end HelixSync
