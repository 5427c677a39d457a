import HelixSync.Lib.JsonText

/-!
# What an envelope is bound to

A payload is sealed with associated data that says which operation, or which restore point, it
belongs to (`extension/src/crypto/index.ts`, `restore-points/format.ts`), since the server that
stores it could hand it out with another.

* `HelixSync.Client.aad_binds`: the associated data of two operations are the same only if type,
  object and operation are, and those of a restore point are no operation's.
-/

namespace HelixSync

namespace Client

/-- `buildOperationAad`: `JSON.stringify([objectType, objectId, operationType])`, in UTF-8. -/
def buildOperationAad (objectType objectId operationType : String) : ByteArray :=
  (String.ofList ('[' :: JsonText.quote objectType ++ ',' :: JsonText.quote objectId ++
    ',' :: JsonText.quote operationType ++ [']'])).toUTF8

def restorePointAadObjectType : String := "bookmarkRestorePoint"

def restorePointAadOperationType : String := "snapshot"

def pointAad (pointId : String) : ByteArray :=
  buildOperationAad restorePointAadObjectType pointId restorePointAadOperationType

/-- The object types on the wire (`sync/types.ts`). -/
def objectTypes : List String :=
  ["bookmark", "bookmarkFolder", "historyVisit", "tab", "window", "tabGroup", "extensionMeta",
    "extensionStorageEntry"]

variable {type id op type' id' op' : String}

/-- The three texts are read back one after the other. -/
theorem buildOperationAad_inj (h : buildOperationAad type id op = buildOperationAad type' id' op') :
    type = type' ∧ id = id' ∧ op = op' := by
  rw [buildOperationAad, buildOperationAad, String.toUTF8_eq_toByteArray,
    String.toUTF8_eq_toByteArray, String.toByteArray_inj, String.ofList_inj] at h
  simp only [List.cons_append, List.append_assoc, List.cons.injEq, true_and] at h
  obtain ⟨htype, h⟩ := JsonText.quote_append_inj h
  obtain ⟨hid, h⟩ := JsonText.quote_append_inj (List.tail_eq_of_cons_eq h)
  exact ⟨htype, hid, (JsonText.quote_append_inj (List.tail_eq_of_cons_eq h)).1⟩

/-- **An envelope is bound to its place**: whatever the texts are, quotation marks and commas
included, the associated data of two operations are the same only if type, object and operation are;
those of two restore points only if their ids are; and those of a restore point are never those of
an operation on an object of the wire's types. -/
theorem aad_binds :
    (∀ type id op type' id' op', buildOperationAad type id op = buildOperationAad type' id' op' ↔
      type = type' ∧ id = id' ∧ op = op') ∧
    Function.Injective pointAad ∧
    ∀ pointId, ∀ type ∈ objectTypes, ∀ id op, pointAad pointId ≠ buildOperationAad type id op := by
  refine ⟨fun type id op type' id' op' => ⟨buildOperationAad_inj, ?_⟩, ?_, ?_⟩
  · rintro ⟨rfl, rfl, rfl⟩
    rfl
  · intro pointId pointId' h
    exact (buildOperationAad_inj h).2.1
  · intro pointId type hmem id op h
    -- The type of a restore point is not among them.
    rw [← (buildOperationAad_inj h).1] at hmem
    exact absurd hmem (by decide)

end Client

end HelixSync
