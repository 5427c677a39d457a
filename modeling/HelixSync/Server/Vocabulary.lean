import Mathlib.Algebra.Ring.Int.Defs
import Mathlib.Algebra.Ring.Nat
import Mathlib.Data.Prod.Lex
import Mathlib.Order.Fin.Basic

/-!
# The vocabulary of synchronized objects

Object types, operation types and the four classifications the server makes of a
pair of them (`server/src/sync/vocabulary.rs`). On the wire both are strings, so a
client may send a name outside the vocabulary; such a name is kept as
`HelixSync.ObjectType.other` or `HelixSync.OperationType.other`, which every
classification below treats as the source's catch-all branch does.

The classifications are what the rest of the server branches on:

* an **origination** may introduce an object the account has never seen;
* a **terminal** operation writes the object's tombstone;
* a **restore** clears it again.

No operation is two of these at once (`HelixSync.not_isOrigination_of_isTerminal`,
`HelixSync.not_isOrigination_of_isRestore`, `HelixSync.not_isRestore_of_isTerminal`),
which is what lets the upload path sort the operations of a batch into disjoint
bins.
-/

namespace HelixSync

/-- A UUID, as the 128-bit number whose order is the order of its bytes. -/
abbrev Uuid := Fin (2 ^ 128)

/-- Numerals are UUIDs. -/
instance neZero_uuid : NeZero (2 ^ 128 : ℕ) := ⟨by decide⟩

instance lawfulBEq_uuid : LawfulBEq Uuid := inferInstance

/-- The type of a synchronized object (docs/protocol.md §1.3). -/
inductive ObjectType where
  | bookmark
  | bookmarkFolder
  | historyVisit
  | tab
  | window
  | tabGroup
  | extensionMeta
  | extensionStorageEntry
  /-- A name outside the vocabulary. -/
  | other (name : String)
  deriving DecidableEq, Repr

/-- The type of an operation (docs/protocol.md §6). -/
inductive OperationType where
  | create
  | update
  | move
  | delete
  | restore
  | visit
  | bulkImport
  | close
  | activate
  | observe
  | set
  /-- A name outside the vocabulary. -/
  | other (name : String)
  deriving DecidableEq, Repr

/-- The identity of an object on the server: its type and its id. -/
abbrev ObjectKey := ObjectType × Uuid

/-- `is_known_object_type`. -/
def isKnownObjectType : ObjectType → Bool
  | .other _ => false
  | _ => true

/-- `allowed_operation_types`: what may be done to an object of each type. -/
def allowedOperationTypes : ObjectType → List OperationType
  | .bookmark | .bookmarkFolder => [.create, .update, .move, .delete, .restore]
  | .historyVisit => [.visit, .bulkImport]
  | .tab => [.create, .update, .close, .activate, .move]
  | .window => [.create, .update, .close]
  | .tabGroup => [.create, .update, .delete]
  | .extensionMeta => [.observe]
  | .extensionStorageEntry => [.set, .delete]
  | .other _ => []

/-- `is_terminal_operation`: the operation types that create a tombstone. -/
def isTerminalOperation : ObjectType → OperationType → Bool
  | .bookmark, .delete => true
  | .bookmarkFolder, .delete => true
  | .tab, .close => true
  | .window, .close => true
  | .tabGroup, .delete => true
  | .extensionStorageEntry, .delete => true
  | _, _ => false

/-- `is_restore_operation`: the operation types that clear a tombstone. -/
def isRestoreOperation : ObjectType → OperationType → Bool
  | .bookmark, .restore => true
  | .bookmarkFolder, .restore => true
  | _, _ => false

/-- `is_origination_operation`: the operation types that may introduce an object
no earlier operation of the account named. -/
def isOriginationOperation (objectType : ObjectType) (operationType : OperationType) : Bool :=
  operationType == .create
    || objectType == .historyVisit
    || (objectType == .extensionMeta && operationType == .observe)
    || (objectType == .extensionStorageEntry && operationType == .set)

variable {t : ObjectType} {o : OperationType}

theorem not_isOrigination_of_isTerminal (h : isTerminalOperation t o = true) :
    isOriginationOperation t o = false := by
  cases t <;> cases o <;> first | rfl | exact absurd h (by simp [isTerminalOperation])

theorem not_isOrigination_of_isRestore (h : isRestoreOperation t o = true) :
    isOriginationOperation t o = false := by
  cases t <;> cases o <;> first | rfl | exact absurd h (by simp [isRestoreOperation])

theorem not_isRestore_of_isTerminal (h : isTerminalOperation t o = true) :
    isRestoreOperation t o = false := by
  cases t <;> cases o <;> first | rfl | exact absurd h (by simp [isTerminalOperation])

/-- Every operation on a history visit is an origination, so none of them is ever
looked up in the ledger before it is accepted. -/
theorem isOrigination_historyVisit : isOriginationOperation .historyVisit o = true := by
  cases o <;> rfl

/-! ### The ordering key -/

/-- The ordering key of docs/protocol.md §8.1, compared lexicographically; the
higher key wins. -/
structure OrderingKey where
  lamportTimestamp : ℤ
  deviceId : Uuid
  operationId : Uuid
  deriving DecidableEq, Repr

namespace OrderingKey

/-- The key as a lexicographic triple, which its derived order compares. -/
def toTriple (k : OrderingKey) : ℤ ×ₗ Uuid ×ₗ Uuid :=
  toLex (k.lamportTimestamp, toLex (k.deviceId, k.operationId))

theorem toTriple_injective : Function.Injective toTriple := by
  rintro ⟨l, d, o⟩ ⟨l', d', o'⟩ h
  simpa [toTriple] using h

instance : LinearOrder OrderingKey := LinearOrder.lift' toTriple toTriple_injective

/-- The comparison, coordinate by coordinate. -/
theorem lt_iff {a b : OrderingKey} :
    a < b ↔ a.lamportTimestamp < b.lamportTimestamp ∨
      a.lamportTimestamp = b.lamportTimestamp ∧ (a.deviceId < b.deviceId ∨
        a.deviceId = b.deviceId ∧ a.operationId < b.operationId) := by
  change toTriple a < toTriple b ↔ _
  simp only [toTriple, Prod.Lex.toLex_lt_toLex]

end OrderingKey

end HelixSync
