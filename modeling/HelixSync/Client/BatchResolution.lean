import HelixSync.Client.DownloadPage

/-!
# A batch of fields in one transaction

`resolveEntriesInTx` (`extension/src/sync/conflict.ts`) as it goes through the store: the
distinct slots of a batch are read in chunks, the walk over the entries keeps what it has
decided in a map, and the records of that map are written in chunks at the end. A single
field is a batch of one (`HelixSync.Client.FieldStateTx.resolveField`).

The chunks make no difference, since a slot is read once and written at most once, and so
the transaction is the batch of `HelixSync.Client.Conflict`
(`HelixSync.Client.FieldStateTx.resolveFieldsBatch_eq`), whose entries are resolved one
after the other.

The key of a slot is the string `objectId:field`; as object ids are UUIDs, that is the pair.
-/

namespace HelixSync

namespace Client

/-! ### Chunks -/

theorem flatten_map_chunk {α : Type} (size : ℕ) (items : List α) (n : ℕ) :
    ((List.range n).map fun i => (items.drop (i * size)).take size).flatten =
      items.take (n * size) := by
  induction n with
  | zero => simp
  | succ n ih =>
    rw [List.range_succ, List.map_append, List.flatten_append, ih, Nat.succ_mul, List.take_add]
    simp

/-- **The chunks of a list**, one after the other, are the list. -/
theorem flatten_chunks {α : Type} {size : ℕ} (hsize : 0 < size) (items : List α) :
    (chunks size items).flatten = items := by
  rw [chunks, flatten_map_chunk]
  refine List.take_of_length_le ?_
  have hmod := Nat.div_add_mod (items.length + size - 1) size
  have hlt := Nat.mod_lt (items.length + size - 1) hsize
  rw [Nat.mul_comm]
  omega

/-- A fold over chunks is a fold over the list. -/
theorem foldl_chunks {α β : Type} {size : ℕ} (hsize : 0 < size) (step : β → α → β) (b : β)
    (items : List α) :
    (chunks size items).foldl (fun b chunk => chunk.foldl step b) b = items.foldl step b := by
  rw [← List.foldl_flatten, flatten_chunks hsize]

/-! ### The transaction -/

namespace FieldStateTx

/-- `IDB_BATCH_CHUNK`. -/
def idbBatchChunk : ℕ := 200

/-- `Map.set`: a key that is there keeps its place. -/
def setRecord (key : SlotKey) (record : FieldStateRecord) :
    List (SlotKey × FieldStateRecord) → List (SlotKey × FieldStateRecord)
  | [] => [(key, record)]
  | (other, held) :: rest =>
    if other = key then (key, record) :: rest else (other, held) :: setRecord key record rest

/-- `store.put`. -/
def put (store : FieldStore) (write : SlotKey × FieldStateRecord) : FieldStore :=
  Function.update store write.1 (some write.2)

/-- The reads of one chunk: `currentByKey.set(slice[j], rec)`. -/
def readSlice (store currentByKey : FieldStore) (slice : List SlotKey) : FieldStore :=
  slice.foldl (fun currentByKey key => Function.update currentByKey key (store key)) currentByKey

/-- The walk: the records read or decided, the records to write, and the results. -/
structure Walk where
  currentByKey : FieldStore
  pendingWrites : List (SlotKey × FieldStateRecord)
  results : List ResolveResult

/-- One entry of the walk. -/
def Walk.step (w : Walk) (entry : BatchFieldResolution) : Walk :=
  let key := entry.slot
  let arbitrated := arbitrateField (w.currentByKey key) entry.field entry.incoming
  let results := w.results ++ [arbitrated.1]
  match arbitrated.2 with
  | none => { w with results }
  | some next =>
    { currentByKey := Function.update w.currentByKey key (some next)
      pendingWrites := setRecord key next w.pendingWrites
      results }

/-- `resolveEntriesInTx`. -/
def resolveEntriesInTx (store : FieldStore) (entries : List BatchFieldResolution) :
    List ResolveResult × FieldStore :=
  let keys := entries.map BatchFieldResolution.slot
  let distinctKeys := keys.eraseDups
  let currentByKey := (chunks idbBatchChunk distinctKeys).foldl (readSlice store) emptyStore
  let walk := entries.foldl Walk.step ⟨currentByKey, [], []⟩
  (walk.results,
    (chunks idbBatchChunk walk.pendingWrites).foldl (fun store slice => slice.foldl put store) store)

/-- `resolveInTransaction`: the transaction holds the store from its first read to its end. -/
def resolveInTransaction (store : FieldStore) (entries : List BatchFieldResolution) :
    List ResolveResult × FieldStore := resolveEntriesInTx store entries

/-- `resolveField`: the first result, which is always there. -/
def resolveField (store : FieldStore) (entry : BatchFieldResolution) :
    Option ResolveResult × FieldStore :=
  let resolved := resolveInTransaction store [entry]
  (resolved.1.head?, resolved.2)

/-- `resolveFieldsBatch`. -/
def resolveFieldsBatch (store : FieldStore) (entries : List BatchFieldResolution) :
    List ResolveResult × FieldStore :=
  if entries.length = 0 then ([], store) else resolveInTransaction store entries

/-- Entries given to `resolveField` one by one, in order: the results, and the store. -/
def resolveOneByOne (store : FieldStore) :
    List BatchFieldResolution → List (Option ResolveResult) × FieldStore
  | [] => ([], store)
  | entry :: entries =>
    let first := resolveField store entry
    let rest := resolveOneByOne first.2 entries
    (first.1 :: rest.1, rest.2)

/-! ### What is read -/

theorem foldl_readSlice (store : FieldStore) (keys : List SlotKey) :
    ∀ currentByKey : FieldStore, ∀ key, readSlice store currentByKey keys key =
      if key ∈ keys then store key else currentByKey key := by
  induction keys with
  | nil => exact fun _ _ => rfl
  | cons first keys ih =>
    intro currentByKey key
    rw [readSlice, List.foldl_cons, ← readSlice, ih]
    rcases eq_or_ne key first with rfl | hne
    · simp
    · simp [hne, Function.update_of_ne]

/-- **What is read** is the store, at the slots of the batch. -/
theorem readAll_eq (store : FieldStore) (keys : List SlotKey) :
    (chunks idbBatchChunk keys.eraseDups).foldl (readSlice store) emptyStore =
      fun key => if key ∈ keys then store key else none := by
  have hfold := foldl_chunks (show 0 < idbBatchChunk by decide)
    (fun currentByKey key => Function.update currentByKey key (store key)) emptyStore keys.eraseDups
  change (chunks idbBatchChunk keys.eraseDups).foldl (readSlice store) emptyStore =
    readSlice store emptyStore keys.eraseDups at hfold
  rw [hfold]
  funext key
  rw [foldl_readSlice]
  simp only [List.mem_eraseDups]
  rfl

/-! ### What is written -/

/-- No slot is written twice. -/
def Distinct (pendingWrites : List (SlotKey × FieldStateRecord)) : Prop :=
  (pendingWrites.map Prod.fst).Nodup

variable {pendingWrites : List (SlotKey × FieldStateRecord)} {key : SlotKey}
  {record : FieldStateRecord}

theorem mem_setRecord {other : SlotKey}
    (h : other ∈ (setRecord key record pendingWrites).map Prod.fst) :
    other = key ∨ other ∈ pendingWrites.map Prod.fst := by
  induction pendingWrites with
  | nil => simpa [setRecord] using h
  | cons write rest ih =>
    obtain ⟨held, value⟩ := write
    rw [setRecord] at h
    split at h
    · simp only [List.map_cons, List.mem_cons] at h ⊢
      tauto
    · simp only [List.map_cons, List.mem_cons] at h ⊢
      rcases h with rfl | h
      · exact Or.inr (Or.inl rfl)
      · exact (ih h).imp_right Or.inr

theorem Distinct.setRecord (h : Distinct pendingWrites) :
    Distinct (setRecord key record pendingWrites) := by
  induction pendingWrites with
  | nil => exact List.nodup_singleton key
  | cons write rest ih =>
    obtain ⟨held, value⟩ := write
    obtain ⟨hnotin, hrest⟩ := List.nodup_cons.mp h
    rw [FieldStateTx.setRecord]
    split
    · rename_i heq
      subst heq
      exact List.nodup_cons.mpr ⟨hnotin, hrest⟩
    · rename_i hne
      refine List.nodup_cons.mpr ⟨fun hmem => ?_, ih hrest⟩
      exact (mem_setRecord hmem).elim hne hnotin

/-- Writes to other slots. -/
theorem foldl_put_of_notMem (h : key ∉ pendingWrites.map Prod.fst) (store : FieldStore)
    (value : Option FieldStateRecord) :
    pendingWrites.foldl put (Function.update store key value) =
      Function.update (pendingWrites.foldl put store) key value := by
  induction pendingWrites generalizing store with
  | nil => rfl
  | cons write rest ih =>
    rw [List.map_cons, List.mem_cons, not_or] at h
    rw [List.foldl_cons, List.foldl_cons, put, Function.update_comm h.1, ih h.2]
    rfl

/-- **A record replaced in its place** is a record written last. -/
theorem foldl_put_setRecord (h : Distinct pendingWrites) (store : FieldStore) :
    (setRecord key record pendingWrites).foldl put store =
      Function.update (pendingWrites.foldl put store) key (some record) := by
  induction pendingWrites generalizing store with
  | nil => rfl
  | cons write rest ih =>
    obtain ⟨held, value⟩ := write
    obtain ⟨hnotin, hrest⟩ := List.nodup_cons.mp h
    rw [setRecord]
    split
    · rename_i heq
      subst heq
      rw [List.foldl_cons, List.foldl_cons, put, put, foldl_put_of_notMem hnotin,
        foldl_put_of_notMem hnotin, Function.update_idem]
    · exact ih hrest _

/-! ### The walk -/

/-- A walk that has come to a store: it has read or decided what the store holds, and its
writes make the store it began with into that one. -/
structure ComesTo (keys : List SlotKey) (store : FieldStore) (w : Walk) (current : FieldStore) :
    Prop where
  read : ∀ key ∈ keys, w.currentByKey key = current key
  distinct : Distinct w.pendingWrites
  written : w.pendingWrites.foldl put store = current

/-- **One entry**: the walk comes to the store after the entry. -/
theorem ComesTo.step {keys : List SlotKey} {store current : FieldStore} {w : Walk}
    {entry : BatchFieldResolution} (h : ComesTo keys store w current) (hslot : entry.slot ∈ keys) :
    ComesTo keys store (w.step entry) (resolveEntry current entry) ∧
      (w.step entry).results =
        w.results ++ [(arbitrateField (current entry.slot) entry.field entry.incoming).1] := by
  have hread := h.read entry.slot hslot
  rcases hnext : (arbitrateField (current entry.slot) entry.field entry.incoming).2 with _ | next
  · have hstep : w.step entry = { w with results :=
        w.results ++ [(arbitrateField (current entry.slot) entry.field entry.incoming).1] } := by
      simp only [Walk.step, hread, hnext]
    rw [hstep, resolveEntry_of_none hnext]
    exact ⟨⟨h.read, h.distinct, h.written⟩, rfl⟩
  · have hstep : w.step entry =
        ⟨Function.update w.currentByKey entry.slot (some next),
          setRecord entry.slot next w.pendingWrites,
          w.results ++ [(arbitrateField (current entry.slot) entry.field entry.incoming).1]⟩ := by
      simp only [Walk.step, hread, hnext]
    rw [hstep, resolveEntry_of_some hnext]
    refine ⟨⟨fun key hkey => ?_, h.distinct.setRecord, ?_⟩, rfl⟩
    · change Function.update w.currentByKey entry.slot (some next) key = _
      rw [Function.update_apply, Function.update_apply, h.read key hkey]
    · rw [foldl_put_setRecord h.distinct, h.written]

theorem ComesTo.foldl {keys : List SlotKey} {store : FieldStore} :
    ∀ (entries : List BatchFieldResolution), (∀ e ∈ entries, e.slot ∈ keys) →
      ∀ (w : Walk) (current : FieldStore), ComesTo keys store w current →
        ComesTo keys store (entries.foldl Walk.step w) (entries.foldl resolveEntry current) ∧
          (entries.foldl Walk.step w).results = w.results ++ resolveResults current entries := by
  intro entries
  induction entries with
  | nil => exact fun _ w _ h => ⟨h, (List.append_nil _).symm⟩
  | cons entry entries ih =>
    intro hkeys w current h
    obtain ⟨hstep, hresults⟩ := h.step (hkeys entry List.mem_cons_self)
    obtain ⟨hend, hall⟩ := ih (fun e he => hkeys e (List.mem_cons_of_mem _ he)) _ _ hstep
    refine ⟨hend, ?_⟩
    rw [List.foldl_cons, hall, hresults, List.append_assoc]
    rfl

/-- **The transaction resolves its entries in order.** -/
theorem resolveInTransaction_eq (store : FieldStore) (entries : List BatchFieldResolution) :
    resolveInTransaction store entries =
      (resolveResults store entries, entries.foldl resolveEntry store) := by
  have hstart : ComesTo (entries.map BatchFieldResolution.slot) store
      ⟨fun key => if key ∈ entries.map BatchFieldResolution.slot then store key else none, [], []⟩
      store := ⟨fun key hkey => if_pos hkey, List.nodup_nil, rfl⟩
  obtain ⟨hend, hresults⟩ := ComesTo.foldl entries (fun e he => List.mem_map_of_mem he)
    ⟨fun key => if key ∈ entries.map BatchFieldResolution.slot then store key else none, [], []⟩
    store hstart
  unfold resolveInTransaction resolveEntriesInTx
  simp only [readAll_eq]
  rw [foldl_chunks (show 0 < idbBatchChunk by decide), hend.written, hresults]
  rfl

/-- **The chunks make no difference.** -/
theorem resolveFieldsBatch_eq (store : FieldStore) (entries : List BatchFieldResolution) :
    resolveFieldsBatch store entries = Client.resolveFieldsBatch store entries := by
  refine Prod.ext ?_ ?_
  · rw [resolveFieldsBatch_fst, resolveFieldsBatch, resolveInTransaction_eq]
    split
    · rename_i hlen
      rw [List.length_eq_zero_iff.mp hlen]
      rfl
    · rfl
  · rw [resolveFieldsBatch_snd, resolveFieldsBatch, resolveInTransaction_eq]
    split
    · rename_i hlen
      rw [List.length_eq_zero_iff.mp hlen]
      rfl
    · rfl

/-- A single field. -/
theorem resolveField_eq (store : FieldStore) (entry : BatchFieldResolution) :
    resolveField store entry =
      (some (arbitrateField (store entry.slot) entry.field entry.incoming).1,
        resolveEntry store entry) := by
  rw [resolveField, resolveInTransaction_eq]
  rfl

/-- **Batched resolution is one-at-a-time resolution**: the same results, and the same store. -/
theorem resolveFieldsBatch_one_by_one (store : FieldStore) (entries : List BatchFieldResolution) :
    resolveOneByOne store entries =
      ((resolveFieldsBatch store entries).1.map some, (resolveFieldsBatch store entries).2) := by
  rw [resolveFieldsBatch_eq, resolveFieldsBatch_fst, resolveFieldsBatch_snd]
  induction entries generalizing store with
  | nil => rfl
  | cons entry entries ih =>
    rw [resolveOneByOne, resolveField_eq, ih]
    rfl

end FieldStateTx

end Client

end HelixSync
