import HelixSync.Client.MappingEvidence

/-!
# When object mappings are a partial bijection

Every thread has the evidence of a lookup when it writes a mapping or opens a tab, so the mappings are a
partial bijection in every state of a run exactly if nothing comes between a lookup and its write
(`HelixSync.Client.always_bijective_iff`). Something does when a batch of remote operations both creates
and updates a tab: two threads look it up before either has opened it
(`HelixSync.Client.createAndUpdate_opens_twice`).
-/

namespace HelixSync

namespace Client

open Threads (Respects)

open MappingState (exec)

open MappingProgram

variable {cfg : MappingConfig} {β δ : Type} {s : MappingState}

/-- A program respects the contract, and is over in states with a property of its result. -/
abbrev Keeps (cfg : MappingConfig) (program : MappingProgram β) (Q : β → MappingState → Prop)
    (s : MappingState) : Prop :=
  Respects (mappingSystem cfg) mappingContract program Q s

/-- A property that what the others do does not end. -/
abbrev Lasting (P : MappingState → Prop) : Prop := mappingContract.Stable P

/-- **Evidence is at hand when it is needed**: a program respects the contract whatever is known when it
begins. -/
def SelfReliant (cfg : MappingConfig) (program : MappingProgram β) : Prop :=
  ∀ s, Keeps cfg program (fun _ _ => True) s

/-! ### Rules -/

theorem keeps_ask {call : MappingCall} {Q : call.Result → MappingState → Prop}
    (h : ∀ s', Rely s s' → Sound s' → CallNeeds call s' ∧ ∀ answer result t,
      exec call answer s' = some (result, t) → Sound t → Rely s' t → Q result t) :
    Keeps cfg (ask call) Q s := h

/-- One program after the other, with what lasts. -/
theorem Keeps.andThen {program : MappingProgram β} {f : β → MappingProgram δ}
    {Q : β → MappingState → Prop} {R : δ → MappingState → Prop} {P : MappingState → Prop}
    (h : Keeps cfg program Q s) (hP : Lasting P) (hs : P s)
    (hf : ∀ result s, Q result s → P s → Keeps cfg (f result) R s) :
    Keeps cfg (program >>= f) R s :=
  Respects.bind (h.frame Rely.trans hP hs) fun result s hboth => hf result s hboth.1 hboth.2

namespace SelfReliant

theorem pure {result : β} : SelfReliant cfg (Pure.pure result) := fun _ => trivial

theorem ask {call : MappingCall} (h : ∀ s, CallNeeds call s) :
    SelfReliant cfg (MappingProgram.ask call) :=
  fun _ _ _ _ => ⟨h _, fun _ _ _ _ _ _ => trivial⟩

theorem throw : SelfReliant cfg (MappingProgram.throw : MappingProgram β) :=
  fun _ _ _ _ => ⟨trivial, fun _ result => result.elim⟩

theorem bind {program : MappingProgram β} {f : β → MappingProgram δ} (h : SelfReliant cfg program)
    (hf : ∀ result, SelfReliant cfg (f result)) : SelfReliant cfg (program >>= f) :=
  fun s => Respects.bind (h s) fun result s _ => hf result s

theorem foldlM {ζ : Type} {f : β → ζ → MappingProgram β} (xs : List ζ) (b : β)
    (hf : ∀ b x, SelfReliant cfg (f b x)) : SelfReliant cfg (xs.foldlM f b) :=
  fun _ => Respects.foldlM xs trivial fun x _ b s _ => hf b x s

theorem all (bodies : List MappingBody) : SelfReliant cfg (Thread.all bodies) :=
  fun _ => (Respects.all Rely.trans (fun _ _ _ _ => trivial) (P := fun _ => True)
    (fun _ _ _ _ => trivial) trivial).mono fun _ _ _ => trivial

theorem ite {p : Prop} [Decidable p] {yes no : MappingProgram β} (hyes : SelfReliant cfg yes)
    (hno : SelfReliant cfg no) : SelfReliant cfg (if p then yes else no) := by
  split
  · exact hyes
  · exact hno

end SelfReliant

/-! ### Lookups and writes -/

section Lookups

open MappingState

variable {key : MappingKey} {objectId : Uuid} {objectType : ObjectType} {lookedAt : ℕ}

theorem row_of_firstByKey : ∀ {rows : List MappingRow} {row : MappingRow},
    firstByKey rows = some row → row ∈ rows
  | [], _, h => absurd h (by simp [firstByKey])
  | other :: rows, row, h => by
    rw [firstByKey] at h
    split at h
    · rename_i first hfirst
      have hmem : first ∈ rows := row_of_firstByKey hfirst
      rw [← Option.some.inj h]
      split
      · exact List.mem_cons_self
      · exact List.mem_cons_of_mem other hmem
    · rw [← Option.some.inj h]
      exact List.mem_cons_self

theorem firstByKey_eq_none : ∀ {rows : List MappingRow}, firstByKey rows = none → rows = []
  | [], _ => rfl
  | row :: rows, h => by
    rw [firstByKey] at h
    split at h <;> exact absurd h (by simp)

theorem ne_of_firstByKey_eq_none (h : firstByKey (s.rowsFor objectType objectId) = none) :
    ∀ row ∈ s.rows, row.key.1 = objectType → row.objectId ≠ objectId := by
  intro row hrow htype hobject
  have hmem : row ∈ s.rowsFor objectType objectId :=
    List.mem_filter.mpr ⟨hrow, by simp [htype, hobject]⟩
  rw [firstByKey_eq_none h] at hmem
  exact absurd hmem List.not_mem_nil

/-- The moment of a lookup by the id. -/
theorem keyClear_of_rowOf (hs : Sound s) (h : s.rowOf key = none) : KeyClear key objectId s.moment s := by
  refine ⟨le_refl _, fun g hg hkey hlinked _ => ?_⟩
  obtain ⟨row, hrow, hrowKey, -⟩ := hs.row_of_linked g hg hlinked
  have hne := List.find?_eq_none.mp h row hrow
  exact absurd (hrowKey.trans hkey) (by simpa using hne)

/-- What a lookup by the object finds is the only row of its type with the object, and the first of the
types. -/
theorem row_of_rowByObject {row : MappingRow} (h : s.rowByObject objectId = some row) :
    row ∈ s.rows ∧ row.objectId = objectId ∧
      (row.key.1 ≠ .bookmark → ∀ other ∈ s.rows, other.key.1 = .bookmark → other.objectId ≠ objectId) := by
  have hmem : ∀ {objectType : ObjectType}, firstByKey (s.rowsFor objectType objectId) = some row →
      row ∈ s.rows ∧ row.key.1 = objectType ∧ row.objectId = objectId := by
    intro objectType hfirst
    obtain ⟨hrow, hboth⟩ := List.mem_filter.mp (row_of_firstByKey hfirst)
    simp only [decide_eq_true_eq] at hboth
    exact ⟨hrow, hboth⟩
  rw [rowByObject, List.findSome?_cons] at h
  split at h
  · rename_i first hfirst
    rw [Option.some.inj h] at hfirst
    obtain ⟨hrow, htype, hobject⟩ := hmem hfirst
    exact ⟨hrow, hobject, fun hne => absurd htype hne⟩
  · rename_i hnone
    obtain ⟨objectType, -, hfirst⟩ := List.exists_of_findSome?_eq_some h
    obtain ⟨hrow, -, hobject⟩ := hmem hfirst
    exact ⟨hrow, hobject, fun _ => ne_of_firstByKey_eq_none hnone⟩

/-- If nothing is found, there is no row of any type. -/
theorem ne_of_rowByObject_eq_none (h : s.rowByObject objectId = none)
    (htype : objectType ∈ [ObjectType.bookmark, .tab, .tabGroup, .window]) :
    ∀ row ∈ s.rows, row.key.1 = objectType → row.objectId ≠ objectId :=
  ne_of_firstByKey_eq_none (List.findSome?_eq_none_iff.mp h objectType htype)

/-- What a lookup of an object shows, by the key that it finds. -/
structure Located (objectId : Uuid) (found : Option MappingKey) (lookedAt : ℕ) (s : MappingState) :
    Prop where
  bookmark : ObjectClear .bookmark objectId (found.map Prod.snd) lookedAt s
  missing : found = none → TabClear objectId lookedAt s ∧
    ∀ objectType ∈ [ObjectType.tab, .tabGroup], ObjectClear objectType objectId none lookedAt s
  present : ∀ key ∈ found, KeyClear key objectId lookedAt s ∧
    ObjectClear key.1 objectId (some key.2) lookedAt s

theorem Located.stable {found : Option MappingKey} : Lasting (Located objectId found lookedAt) :=
  fun _ _ h hrely => ⟨h.bookmark.stable hrely,
    fun hnone => ⟨(h.missing hnone).1.stable hrely,
      fun objectType htype => ((h.missing hnone).2 objectType htype).stable hrely⟩,
    fun key hkey => ⟨(h.present key hkey).1.stable hrely, (h.present key hkey).2.stable hrely⟩⟩

/-- **The moment of a lookup by the object.** -/
theorem located (hs : Sound s) :
    Located objectId ((s.rowByObject objectId).map MappingRow.key) s.moment s := by
  have hclear : ∀ {objectType : ObjectType} {except : Option ChromiumId},
      (∀ row ∈ s.rows, row.key.1 = objectType → row.objectId = objectId → some row.key.2 = except) →
        ObjectClear objectType objectId except s.moment s :=
    fun h => ⟨le_refl _, fun row hrow htype hobject hne => absurd (h row hrow htype hobject) hne⟩
  cases hfound : s.rowByObject objectId with
  | none =>
    have hnone := fun {objectType} => @ne_of_rowByObject_eq_none s objectId objectType hfound
    refine ⟨hclear fun row hrow htype hobject => absurd hobject (hnone (by simp) row hrow htype),
      fun _ => ⟨⟨le_refl _, fun g hg htype hobject hlinked => ?_⟩, fun objectType htype =>
        hclear fun row hrow htype' hobject => absurd hobject (hnone ?_ row hrow htype')⟩,
      fun _ h => absurd h (by simp)⟩
    · obtain ⟨row, hrow, hkey, hrowObject⟩ := hs.row_of_linked g hg hlinked
      exact absurd (hrowObject.trans hobject) (@hnone .tab (by simp) row hrow (hkey ▸ htype))
    · rcases List.mem_pair.mp htype with rfl | rfl <;> simp
  | some row =>
    obtain ⟨hrow, hobject, hfirst⟩ := row_of_rowByObject hfound
    have hsame : ∀ other ∈ s.rows, other.key.1 = row.key.1 → other.objectId = objectId →
        some other.key.2 = some row.key.2 := fun other hother htype hobject' => by
      rw [hs.rows other hother row hrow htype (hobject'.trans hobject.symm)]
    refine ⟨hclear fun other hother htype hobject' => ?_, fun h => absurd h (by simp), ?_⟩
    · by_cases hbookmark : row.key.1 = .bookmark
      · exact hsame other hother (htype.trans hbookmark.symm) hobject'
      · exact absurd hobject' (hfirst hbookmark other hother htype)
    · intro key hkey
      obtain rfl : row.key = key := Option.some.inj hkey
      refine ⟨⟨le_refl _, fun g hg hgkey hlinked _ => ?_⟩, hclear hsame⟩
      obtain ⟨other, hother, hotherKey, hotherObject⟩ := hs.row_of_linked g hg hlinked
      rw [← hotherObject, hs.row_unique other hother row hrow (hotherKey.trans hgkey), hobject]

end Lookups

section Programs

variable {key : MappingKey} {objectId : Uuid} {lookedAt : ℕ}

theorem keeps_lookupObjectId : Keeps cfg (lookupObjectId key)
    (fun found s => found.1 = none → ∀ objectId, KeyClear key objectId found.2 s) s := by
  refine Respects.bind (Q := fun found s => found.1 key.2 = none → ∀ objectId,
    KeyClear key objectId found.2 s) ?_ (by rintro ⟨found, lookedAt⟩ s h; exact h)
  refine keeps_ask fun s' _ hs => ⟨trivial, fun answer result t h _ _ => ?_⟩
  obtain ⟨rfl, rfl⟩ := Prod.mk.inj (Option.some.inj h)
  intro hnone objectId
  refine keyClear_of_rowOf hs ?_
  simpa using hnone

theorem keeps_lookupChromiumLocalId : Keeps cfg (lookupChromiumLocalId objectId)
    (fun found s => Located objectId found.1 found.2 s) s := by
  refine Respects.bind (Q := fun found s => Located objectId (found.1 objectId) found.2 s) ?_
    (by rintro ⟨found, lookedAt⟩ s h; exact h)
  refine keeps_ask fun s' _ hs => ⟨trivial, fun answer result t h _ _ => ?_⟩
  obtain ⟨rfl, rfl⟩ := Prod.mk.inj (Option.some.inj h)
  simpa using located hs

/-- What is known of a value of `uuidv7`: it was not drawn before, in a state in which something lasting
held, and no row is of it. -/
structure Minted (P : MappingState → Prop) (objectId : Uuid) (s : MappingState) : Prop where
  before : ∃ s', P s' ∧ objectId ∉ s'.drawn ∧ Rely s' s
  drawn : objectId ∈ s.drawn
  clear : ∀ objectType lookedAt, lookedAt ≤ s.moment → ObjectClear objectType objectId none lookedAt s

theorem keeps_uuidv7 {P : MappingState → Prop} (hP : Lasting P) (hs : P s) :
    Keeps cfg (ask .uuidv7) (Minted P) s := by
  refine keeps_ask fun s' hrely _ => ⟨trivial, fun answer result t h _ hguarantee => ?_⟩
  cases answer with
  | uuid value =>
    simp only [exec] at h
    split at h
    · exact absurd h (by simp)
    · rename_i hfresh
      obtain ⟨rfl, rfl⟩ := Prod.mk.inj (Option.some.inj h)
      rw [not_or] at hfresh
      refine ⟨⟨s', hP _ _ hs hrely, hfresh.1, hguarantee⟩, List.mem_cons_self,
        fun objectType lookedAt hle => ⟨hle, fun row hrow _ hobject _ => ?_⟩⟩
      exact absurd (List.mem_map.mpr ⟨row, hrow, hobject⟩) hfresh.2
  | _ => exact absurd h (by simp [exec])

theorem Evidence.lasting {link : Link} : Lasting (Evidence link) := fun _ _ h hrely => h.stable hrely

theorem keeps_establishMapping (h : Evidence ⟨key, objectId, lookedAt⟩ s) :
    Keeps cfg (establishMapping key objectId lookedAt) (fun _ _ => True) s :=
  keeps_ask fun _ hrely _ => ⟨⟨List.pairwise_singleton _ _,
    List.forall_mem_singleton.mpr (h.stable hrely)⟩, fun _ _ _ _ _ _ => trivial⟩

theorem selfReliant_lookupObjectId : SelfReliant cfg (lookupObjectId key) :=
  fun _ => keeps_lookupObjectId.mono fun _ _ _ => trivial

/-- **`getOrCreateObjectId`** has the evidence that no row was found. -/
theorem selfReliant_getOrCreateObjectId : SelfReliant cfg (getOrCreateObjectId key) := by
  intro s
  refine Respects.bind keeps_lookupObjectId ?_
  rintro ⟨existing, lookedAt⟩ s hclear
  cases existing with
  | some objectId => trivial
  | none =>
    have hlasting : Lasting fun s => ∀ objectId, KeyClear key objectId lookedAt s :=
      fun _ _ h hrely objectId => (h objectId).stable hrely
    refine Respects.bind (keeps_uuidv7 hlasting (hclear rfl)) fun objectId s hminted => ?_
    obtain ⟨s', hkey, -, hrely⟩ := hminted.before
    have hkey' := (hkey objectId).stable hrely
    have hevidence : Evidence ⟨key, objectId, lookedAt⟩ s :=
      ⟨hkey', (hminted.clear key.1 lookedAt hkey'.1).except⟩
    exact Respects.bind (keeps_establishMapping hevidence) fun _ _ _ => trivial

/-! ### The capture of tabs -/

section Tabs

variable (caches : TabFlushCaches)

theorem selfReliant_cachedLookupObjectId : SelfReliant cfg (cachedLookupObjectId key caches) := by
  rw [cachedLookupObjectId]
  split
  · exact .pure
  · exact selfReliant_lookupObjectId.bind fun _ => .pure

theorem selfReliant_cachedGetOrCreateObjectId :
    SelfReliant cfg (cachedGetOrCreateObjectId key caches) := by
  rw [cachedGetOrCreateObjectId]
  split
  · exact .pure
  · exact selfReliant_getOrCreateObjectId.bind fun _ => .pure

theorem selfReliant_forgetMapping : SelfReliant cfg (forgetMapping key) := .ask fun _ => trivial

theorem selfReliant_stageRemoval : SelfReliant cfg (stageRemoval key caches) := by
  refine (selfReliant_cachedLookupObjectId caches).bind ?_
  rintro ⟨objectId, caches⟩
  cases objectId with
  | none => exact .pure
  | some objectId => exact selfReliant_forgetMapping.bind fun _ => .pure

theorem selfReliant_tabPayload (tab : BrowserTab) : SelfReliant cfg (tabPayload tab caches) := by
  rw [tabPayload]
  split
  · refine (selfReliant_cachedGetOrCreateObjectId caches).bind fun caches => ?_
    split
    · exact .pure
    · exact (selfReliant_cachedGetOrCreateObjectId caches).bind fun _ => .pure
  · exact .pure

theorem selfReliant_stageTabCreated (tab : BrowserTab) :
    SelfReliant cfg (stageTabCreated tab caches) := by
  rw [stageTabCreated]
  split
  · exact .pure
  · refine (selfReliant_tabPayload caches tab).bind ?_
    rintro ⟨isTab, caches⟩
    exact .ite (selfReliant_cachedGetOrCreateObjectId caches) .pure

theorem selfReliant_stageTabUpdated (tabId : ChromiumId) (tab : BrowserTab) :
    SelfReliant cfg (stageTabUpdated tabId tab caches) := by
  refine (selfReliant_cachedLookupObjectId caches).bind ?_
  rintro ⟨objectId, caches⟩
  cases objectId with
  | none =>
    exact SelfReliant.bind (.ask fun _ => trivial) fun opening =>
      .ite .pure (selfReliant_stageTabCreated caches tab)
  | some objectId => exact (selfReliant_tabPayload caches tab).bind fun _ => .pure

/-- **One event of a tab.** -/
theorem selfReliant_stageTabEvent (event : QueuedTabEvent) :
    SelfReliant cfg (stageTabEvent caches event) := by
  cases event with
  | tabCreated tab => exact selfReliant_stageTabCreated caches tab
  | tabUpdated tabId tab => exact selfReliant_stageTabUpdated caches tabId tab
  | tabActivated tabId => exact (selfReliant_cachedLookupObjectId caches).bind fun _ => .pure
  | groupUpdated groupId => exact selfReliant_cachedGetOrCreateObjectId caches
  | tabRemoved | groupRemoved | windowRemoved => exact selfReliant_stageRemoval caches
  | windowCreated windowId =>
    cases windowId with
    | none => exact .pure
    | some windowId => exact selfReliant_cachedGetOrCreateObjectId caches

theorem selfReliant_prefetchTabFlushCaches (events : List QueuedTabEvent) :
    SelfReliant cfg (prefetchTabFlushCaches events) :=
  SelfReliant.bind (.ask fun _ => trivial) fun _ => SelfReliant.bind (.ask fun _ => trivial) fun _ =>
    SelfReliant.bind (.ask fun _ => trivial) fun _ => .pure

theorem selfReliant_flushTabEvents (events : List QueuedTabEvent) :
    SelfReliant cfg (flushTabEvents events) := by
  refine SelfReliant.bind (.ask fun _ => trivial) fun tabsOn => .ite ?_ .pure
  refine SelfReliant.bind (.ask fun _ => trivial) fun groupsOn => ?_
  refine SelfReliant.bind (.ite .pure (selfReliant_prefetchTabFlushCaches _)) fun caches => ?_
  exact (SelfReliant.foldlM _ caches fun caches event =>
    selfReliant_stageTabEvent caches event).bind fun _ => .pure

end Tabs

/-! ### Materializing tabs -/

/-- **`syncTabGroup`**: a group that is joined has the evidence of the row that was found, and a group
that is made that of no row, and that its id is new. -/
theorem selfReliant_syncTabGroup : SelfReliant cfg (syncTabGroup objectId) := by
  refine SelfReliant.bind (.ask fun _ => trivial) fun supported => .ite ?_ .pure
  refine SelfReliant.bind (.ask fun _ => trivial) fun _ => fun s => ?_
  refine Respects.bind keeps_lookupChromiumLocalId ?_
  rintro ⟨existing, lookedAt⟩ s hlocated
  have hgroup : Keeps cfg (ask (.tabsGroup (existing.map Prod.snd))) (fun groupId s => ∀ id ∈ groupId,
      Evidence ⟨(.tabGroup, id), objectId,
        if existing.all fun key => key.1 = .tabGroup then lookedAt else 0⟩ s) s := by
    refine keeps_ask fun s' hrely hs' => ⟨trivial, fun answer result t h _ hguarantee => ?_⟩
    have hlocated' := Located.stable _ _ hlocated hrely
    intro id hid
    cases existing with
    | none =>
      -- the id is new, so nothing was given to it
      rcases make_cases h with ⟨rfl, -⟩ | ⟨id', -, hfresh, rfl, rfl⟩
      · exact absurd hid (by simp)
      · obtain rfl : id' = id := Option.some.inj hid
        obtain ⟨htab, hobject⟩ := hlocated'.missing rfl
        refine ⟨⟨htab.1, fun g hg hkey _ _ => ?_⟩, ?_⟩
        · exact absurd (hs'.live_issued _ (hs'.given_live g hg)) (hkey ▸ hfresh)
        · exact ((hobject .tabGroup (by simp)).stable hguarantee).except
    | some key =>
      obtain ⟨hresult, rfl⟩ := Prod.mk.inj (Option.some.inj h)
      have hkeyId : key.2 = id := by
        rw [← hresult] at hid
        split at hid
        · exact Option.some.inj hid
        · exact absurd hid (by simp)
      by_cases htype : key.1 = .tabGroup
      · have hkey : key = (.tabGroup, id) := Prod.ext htype hkeyId
        obtain ⟨hkeyClear, hobject⟩ := hlocated'.present key rfl
        rw [hkey] at hkeyClear hobject
        simpa [htype] using (⟨hkeyClear, hobject⟩ : Evidence ⟨(.tabGroup, id), objectId, lookedAt⟩ s')
      · simp only [Option.all_some, htype, decide_false, Bool.false_eq_true, if_false]
        exact ⟨⟨Nat.zero_le _, fun _ _ _ _ hlt => absurd hlt (Nat.not_lt_zero _)⟩,
          ⟨Nat.zero_le _, fun _ _ _ _ _ => Nat.zero_le _⟩⟩
  refine Respects.bind hgroup fun groupId s hevidence => ?_
  cases groupId with
  | none =>
    have hthrow : SelfReliant cfg (ask (.unlockGroup objectId) >>= fun _ => (throw : MappingProgram Unit)) :=
      .bind (.ask fun _ => trivial) fun _ => .throw
    exact hthrow s
  | some groupId =>
    have hunlock : SelfReliant cfg (ask (.unlockGroup objectId)) := .ask fun _ => trivial
    exact Respects.bind (keeps_establishMapping (hevidence groupId rfl)) fun _ s _ => hunlock s

theorem selfReliant_joinGroup (p : TabPayload) : SelfReliant cfg (joinGroup p) := by
  rw [joinGroup]
  split
  · exact .pure
  · exact selfReliant_syncTabGroup

/-- **`materializeTab`**: a tab is opened with the evidence that no row of the object was found, and its
id is new. -/
theorem selfReliant_materializeTab (isSyncableUrl : String → Bool) (p : TabPayload) :
    SelfReliant cfg (materializeTab isSyncableUrl objectId p) := by
  refine .ite (fun s => ?_) .pure
  refine Respects.bind keeps_lookupChromiumLocalId ?_
  rintro ⟨existing, lookedAt⟩ s hlocated
  cases existing with
  | some key =>
    have hupdate : SelfReliant cfg (ask (.tabsUpdate key.2) >>= fun updated =>
        if updated then joinGroup p else throw) :=
      .bind (.ask fun _ => trivial) fun updated => .ite (selfReliant_joinGroup p) .throw
    exact hupdate s
  | none =>
    have hopen : Keeps cfg (ask (.tabsCreate objectId lookedAt)) (fun created s => ∀ id ∈ created,
        Evidence ⟨(.tab, id), objectId, lookedAt⟩ s) s := by
      refine keeps_ask fun s' hrely hs' => ?_
      obtain ⟨htab, hobject⟩ := (Located.stable _ _ hlocated hrely).missing rfl
      refine ⟨htab, fun answer result t h _ hguarantee id hid => ?_⟩
      obtain ⟨⟨made, u⟩, hmade, heq⟩ := Option.map_eq_some_iff.mp h
      obtain ⟨rfl, rfl⟩ := Prod.mk.inj heq
      rcases make_cases hmade with ⟨rfl, -⟩ | ⟨id', -, hfresh, rfl, rfl⟩
      · exact absurd hid (by simp)
      · obtain rfl : id' = id := Option.some.inj hid
        refine ⟨⟨htab.1, fun g hg hkey _ _ => ?_⟩, ?_⟩
        · exact absurd (hs'.live_issued _ (hs'.given_live g hg)) (hkey ▸ hfresh)
        · exact ((hobject .tab (by simp)).stable hguarantee).except
    refine Respects.bind hopen fun created s hevidence => ?_
    cases created with
    | none => exact SelfReliant.throw s
    | some id =>
      have hset : ∀ opening, SelfReliant cfg (ask (.setMaterializing id opening)) := fun _ =>
        .ask fun _ => trivial
      refine Keeps.andThen (hset true s) Evidence.lasting (hevidence id rfl) fun _ s _ hlink => ?_
      refine Respects.bind (keeps_establishMapping hlink) fun _ s _ => ?_
      exact (hset false).bind (fun _ => selfReliant_joinGroup p) s

theorem selfReliant_materializeAll (targets : List (Uuid × TabPayload)) :
    SelfReliant cfg (materializeAll targets) :=
  .foldlM _ () fun _ _ => .all _

theorem selfReliant_restoreTab (isSyncableUrl : String → Bool) :
    SelfReliant cfg (restoreTab isSyncableUrl objectId) := by
  refine SelfReliant.bind (.ask fun _ => trivial) fun stored => ?_
  split
  · exact .pure
  · exact selfReliant_materializeTab isSyncableUrl _

theorem selfReliant_restoreTabs (objectIds : List Uuid) : SelfReliant cfg (restoreTabs objectIds) :=
  SelfReliant.bind (.ask fun _ => trivial) fun _ => selfReliant_materializeAll _

theorem selfReliant_forgetClosed (objectIds : List Uuid) : SelfReliant cfg (forgetClosed objectIds) :=
  .ite .pure (SelfReliant.bind (.ask fun _ => trivial) fun _ => .ask fun _ => trivial)

theorem selfReliant_applyTabRemoteBatch (items : List RemoteItem) :
    SelfReliant cfg (MappingProgram.applyTabRemoteBatch items) := by
  refine .ite .pure ?_
  refine SelfReliant.bind (.ask fun _ => trivial) fun policy => ?_
  refine SelfReliant.bind (.ask fun _ => trivial) fun results => ?_
  exact (selfReliant_forgetClosed _).bind fun _ => selfReliant_materializeAll _

end Programs

/-! ### The capture of bookmarks -/

section BookmarkCapture

variable {flush : BookmarkFlush}

/-- The links that a flush has collected: each has its evidence, and no two are of one object. -/
structure Gathered (links : List Link) (s : MappingState) : Prop where
  evidence : ∀ link ∈ links, Evidence link s
  drawn : ∀ link ∈ links, link.objectId ∈ s.drawn
  objects : links.Pairwise fun a b => a.objectId ≠ b.objectId

theorem Gathered.lasting {links : List Link} : Lasting (Gathered links) := fun _ _ h hrely =>
  ⟨fun link hlink => (h.evidence link hlink).stable hrely,
    fun link hlink => hrely.drawn _ (h.drawn link hlink), h.objects⟩

/-- **`objectIdFor`** collects a link for an id without a row. -/
theorem keeps_objectIdFor (h : Gathered flush.newMappings s) (id : ChromiumId) :
    Keeps cfg (objectIdFor cfg flush id) (fun flush s => Gathered flush.newMappings s) s := by
  rw [objectIdFor]
  split
  · exact h
  · exact h
  refine Keeps.andThen keeps_lookupObjectId Gathered.lasting h ?_
  rintro ⟨existing, lookedAt⟩ s hclear hgathered
  cases existing with
  | some objectId => exact hgathered
  | none =>
    have hlasting : Lasting fun s => (∀ objectId, KeyClear (.bookmark, id) objectId lookedAt s) ∧
        Gathered flush.newMappings s := fun s s' h hrely =>
      ⟨fun objectId => (h.1 objectId).stable hrely, Gathered.lasting s s' h.2 hrely⟩
    refine Respects.bind (keeps_uuidv7 hlasting ⟨hclear rfl, hgathered⟩) fun objectId s hminted => ?_
    obtain ⟨s', ⟨hkey, hbefore⟩, hfresh, hrely⟩ := hminted.before
    have hkey' := (hkey objectId).stable hrely
    have hgathered' := Gathered.lasting s' s hbefore hrely
    refine ⟨?_, ?_, ?_⟩
    · refine List.forall_mem_append.mpr ⟨hgathered'.evidence, List.forall_mem_singleton.mpr ?_⟩
      exact ⟨hkey', (hminted.clear _ lookedAt hkey'.1).except⟩
    · exact List.forall_mem_append.mpr ⟨hgathered'.drawn, List.forall_mem_singleton.mpr hminted.drawn⟩
    · refine List.pairwise_append.mpr ⟨hbefore.objects, List.pairwise_singleton _ _, ?_⟩
      rintro link hlink new hnew heq
      have hobject : link.objectId = objectId := heq.trans (List.mem_singleton.mp hnew ▸ rfl)
      exact hfresh (hobject ▸ hbefore.drawn link hlink)

theorem keeps_computePosition (h : Gathered flush.newMappings s) (index : ℕ) :
    Keeps cfg (computePosition cfg flush index) (fun result s => Gathered result.2.newMappings s) s := by
  have hask : ∀ call, (∀ s, CallNeeds call s) → SelfReliant cfg (ask call) := fun _ h => .ask h
  refine Keeps.andThen (hask .bookmarkIds (fun _ => trivial) s) Gathered.lasting h fun siblings s _ h => ?_
  cases siblings with
  | none => exact h
  | some siblings =>
    refine Respects.bind (Respects.foldlM _ h fun id _ flush s h => keeps_objectIdFor h id)
      fun flush s h => ?_
    exact Keeps.andThen (hask .flag (fun _ => trivial) s) Gathered.lasting h fun _ _ _ h => h

theorem keeps_cachedObjectId (h : Gathered flush.newMappings s) (id : ChromiumId) :
    Keeps cfg (cachedObjectId flush id) (fun result s => Gathered result.2.newMappings s) s := by
  rw [cachedObjectId]
  split
  · exact h
  · refine Keeps.andThen keeps_lookupObjectId Gathered.lasting h ?_
    rintro ⟨found, lookedAt⟩ s - h
    exact h

theorem keeps_stageCreated (h : Gathered flush.newMappings s) (id : ChromiumId)
    (parentId : Option ChromiumId) (index : ℕ) :
    Keeps cfg (stageCreated cfg flush id parentId index) (fun flush s => Gathered flush.newMappings s)
      s := by
  refine Respects.bind (Q := fun flush s => Gathered flush.newMappings s) ?_ fun flush s h => ?_
  · split
    · exact h
    · exact keeps_objectIdFor h id
  · cases parentId with
    | none => exact h
    | some parentId =>
      refine Respects.bind (keeps_objectIdFor h parentId) fun flush s h => ?_
      refine Respects.bind (keeps_computePosition h index) ?_
      rintro ⟨returns, flush⟩ s h
      exact h

theorem keeps_stageRemoved (h : Gathered flush.newMappings s) (id : ChromiumId)
    (descendants : List ChromiumId) : Keeps cfg (stageRemoved flush id descendants)
      (fun flush s => Gathered flush.newMappings s) s := by
  refine Respects.bind (keeps_cachedObjectId h id) ?_
  rintro ⟨isMapped, flush⟩ s h
  cases isMapped <;> exact h

theorem keeps_stageChanged (h : Gathered flush.newMappings s) (id : ChromiumId) :
    Keeps cfg (stageChanged flush id) (fun flush s => Gathered flush.newMappings s) s := by
  refine Respects.bind (keeps_cachedObjectId h id) ?_
  rintro ⟨isMapped, flush⟩ s h
  have hflag : SelfReliant cfg (ask .flag) := .ask fun _ => trivial
  exact Keeps.andThen (hflag s) Gathered.lasting h fun _ _ _ h => h

theorem keeps_stageMoved (h : Gathered flush.newMappings s) (id parentId : ChromiumId) (index : ℕ) :
    Keeps cfg (stageMoved cfg flush id parentId index) (fun flush s => Gathered flush.newMappings s)
      s := by
  have hflag : SelfReliant cfg (ask .flag) := .ask fun _ => trivial
  refine Respects.bind (keeps_cachedObjectId h id) ?_
  rintro ⟨isMapped, flush⟩ s h
  refine Keeps.andThen (hflag s) Gathered.lasting h fun isThere s _ h => ?_
  split
  · refine Respects.bind (keeps_objectIdFor h parentId) fun flush s h => ?_
    refine Respects.bind (keeps_computePosition h index) ?_
    rintro ⟨returns, flush⟩ s h
    exact Keeps.andThen (hflag s) Gathered.lasting h fun _ _ _ h => h
  · exact h

/-- **One event of a bookmark.** -/
theorem keeps_stageBookmarkEvent (h : Gathered flush.newMappings s) (event : QueuedBookmarkEvent) :
    Keeps cfg (stageBookmarkEvent cfg flush event) (fun flush s => Gathered flush.newMappings s) s := by
  cases event with
  | created id parentId index => exact keeps_stageCreated h id parentId index
  | removed id descendants => exact keeps_stageRemoved h id descendants
  | changed id => exact keeps_stageChanged h id
  | moved id parentId index => exact keeps_stageMoved h id parentId index

theorem dedupeByKey_sublist (links : List Link) : (dedupeByKey links).Sublist links := by
  induction links with
  | nil => exact .slnil
  | cons link links ih => exact (List.filter_sublist.trans ih).cons_cons link

theorem pairwise_dedupeByKey (links : List Link) :
    (dedupeByKey links).Pairwise fun a b => a.key ≠ b.key := by
  induction links with
  | nil => exact .nil
  | cons link links ih =>
    refine List.pairwise_cons.mpr ⟨fun other hother => ?_, ih.filter _⟩
    have hne := (List.mem_filter.mp hother).2
    exact fun heq => absurd heq.symm (by simpa using hne)

/-- What a flush writes has its evidence. -/
theorem keeps_commitFlush (h : Gathered flush.newMappings s) :
    Keeps cfg (commitFlush flush) (fun _ _ => True) s := by
  rw [commitFlush]
  split
  · have hsublist := dedupeByKey_sublist flush.newMappings
    refine Respects.bind (Q := fun _ _ => True) ?_ fun _ s _ => ?_
    · refine keeps_ask fun s' hrely _ => ⟨⟨?_, fun link hlink => ?_⟩, fun _ _ _ _ _ _ => trivial⟩
      · exact (pairwise_dedupeByKey _).and (h.objects.sublist hsublist)
      · exact (h.evidence link (hsublist.subset hlink)).stable hrely
    · have hdelete : SelfReliant cfg (ask (.deleteMappings .bookmark flush.deletedLocalIds)) :=
        .ask fun _ => trivial
      exact hdelete s
  · exact trivial

theorem selfReliant_prefetchFlushCaches (events : List QueuedBookmarkEvent) :
    SelfReliant cfg (prefetchFlushCaches events) :=
  SelfReliant.bind (.ask fun _ => trivial) fun _ => SelfReliant.bind (.ask fun _ => trivial) fun _ =>
    SelfReliant.bind (.ask fun _ => trivial) fun _ => .pure

theorem selfReliant_flushBookmarkEvents (events : List QueuedBookmarkEvent) :
    SelfReliant cfg (flushBookmarkEvents cfg events) := by
  refine SelfReliant.bind (.ask fun _ => trivial) fun enabled => .ite ?_ .pure
  refine SelfReliant.bind (.ite .pure (selfReliant_prefetchFlushCaches _)) fun mappingCache => ?_
  intro s
  have hempty : Gathered [] s := ⟨nofun, nofun, .nil⟩
  exact Respects.bind (Respects.foldlM _ hempty fun event _ flush s h =>
    keeps_stageBookmarkEvent h event) fun flush s h => keeps_commitFlush h

end BookmarkCapture

/-! ### Materializing bookmarks -/

section Materialize

variable {objectId : Uuid} {lookedAt : ℕ} {prefetched : Option FoundIds}

/-- What was found of the objects that are not built-in folders. -/
def FoundClear (cfg : MappingConfig) (ids : FoundIds) (s : MappingState) : Prop :=
  ∀ objectId id, cfg.rootByObjectId objectId = none → (ids objectId).1 = some id →
    ObjectClear .bookmark objectId (some id) (ids objectId).2 s

theorem FoundClear.lasting {ids : FoundIds} : Lasting (FoundClear cfg ids) :=
  fun _ _ h hrely objectId id hroot hid => (h objectId id hroot hid).stable hrely

theorem FoundClear.update {ids : FoundIds} (h : FoundClear cfg ids s) {found : Option ChromiumId × ℕ}
    (hfound : ∀ id, found.1 = some id → ObjectClear .bookmark objectId (some id) found.2 s) :
    FoundClear cfg (Function.update ids objectId found) s := by
  intro other id hroot hid
  by_cases heq : other = objectId
  · subst heq
    rw [Function.update_self] at hid ⊢
    exact hfound id hid
  · rw [Function.update_of_ne heq] at hid ⊢
    exact h other id hroot hid

/-- The same of what was prefetched, if anything was. -/
def PrefetchClear (cfg : MappingConfig) (prefetched : Option FoundIds) (s : MappingState) : Prop :=
  ∀ ids ∈ prefetched, FoundClear cfg ids s

theorem PrefetchClear.lasting : Lasting (PrefetchClear cfg prefetched) :=
  fun s s' h hrely ids hids => FoundClear.lasting s s' (h ids hids) hrely

theorem PrefetchClear.map (h : PrefetchClear cfg prefetched s) {f : FoundIds → FoundIds}
    (hf : ∀ ids, FoundClear cfg ids s → FoundClear cfg (f ids) s) :
    PrefetchClear cfg (prefetched.map f) s := by
  rintro ids hids
  obtain ⟨old, hold, rfl⟩ := Option.mem_map.mp hids
  exact hf old (h old hold)

theorem keeps_chromiumIdsFor (objectIds : List Uuid) : Keeps cfg (chromiumIdsFor cfg objectIds)
    (fun ids s => FoundClear cfg ids s ∧ ∀ objectId ∈ objectIds, (ids objectId).1 = none →
      ObjectClear .bookmark objectId none (ids objectId).2 s) s := by
  refine Respects.bind (Q := fun found s => ∀ objectId,
    (objectId ∈ objectIds ∨ found.1 objectId ≠ none) →
      ObjectClear .bookmark objectId ((found.1 objectId).map Prod.snd) found.2 s) ?_ ?_
  · refine keeps_ask fun s' _ hs => ⟨trivial, fun answer result t h _ _ objectId hasked => ?_⟩
    obtain ⟨rfl, rfl⟩ := Prod.mk.inj (Option.some.inj h)
    dsimp only at hasked ⊢
    split
    · exact (located hs).bookmark
    · rename_i hnotMem
      rw [if_neg hnotMem] at hasked
      exact absurd hasked (by simp [hnotMem])
  · rintro ⟨mappings, lookedAt⟩ s h
    refine ⟨fun objectId id hroot hid => ?_, fun objectId hmem hnone => ?_⟩
    · dsimp only at hid
      rw [hroot] at hid
      rw [Option.none_or] at hid
      have hfound : mappings objectId ≠ none := fun hnone => by simp [hnone] at hid
      have hclear := h objectId (.inr hfound)
      rwa [hid] at hclear
    · dsimp only at hnone
      rw [Option.or_eq_none_iff] at hnone
      have hclear := h objectId (.inl hmem)
      rwa [hnone.2] at hclear

/-- The end of `materialize`. -/
theorem keeps_linkNode {id : ChromiumId} (hkey : KeyClear (.bookmark, id) objectId lookedAt s)
    (hobject : ObjectClear .bookmark objectId none lookedAt s) (h : PrefetchClear cfg prefetched s) :
    Keeps cfg (linkNode objectId id lookedAt prefetched) (PrefetchClear cfg) s := by
  have hlasting : Lasting fun s => ObjectClear .bookmark objectId none lookedAt s ∧
      PrefetchClear cfg prefetched s := fun s s' h hrely =>
    ⟨h.1.stable hrely, PrefetchClear.lasting s s' h.2 hrely⟩
  refine Keeps.andThen (keeps_establishMapping ⟨hkey, hobject.except⟩) hlasting ⟨hobject, h⟩
    fun _ s _ h => ?_
  refine Keeps.andThen (SelfReliant.all _ s) hlasting h fun _ s _ h => ?_
  exact h.2.map fun ids hids => hids.update fun id' _ => h.1.except

theorem keeps_createNode (parentId : ChromiumId)
    (hobject : ObjectClear .bookmark objectId none lookedAt s) (h : PrefetchClear cfg prefetched s) :
    Keeps cfg (createNode objectId parentId lookedAt prefetched) (PrefetchClear cfg) s := by
  have hlasting : Lasting fun s => ObjectClear .bookmark objectId none lookedAt s ∧
      PrefetchClear cfg prefetched s := fun s s' h hrely =>
    ⟨h.1.stable hrely, PrefetchClear.lasting s s' h.2 hrely⟩
  have hcreate : Keeps cfg (ask (.bookmarksCreate parentId)) (fun created s => ∀ id ∈ created,
      KeyClear (.bookmark, id) objectId lookedAt s) s := by
    refine keeps_ask fun s' hrely hs' => ⟨trivial, fun answer result t hexec _ _ id hid => ?_⟩
    rcases make_cases hexec with ⟨rfl, -⟩ | ⟨id', -, hfresh, rfl, rfl⟩
    · exact absurd hid (by simp)
    · obtain rfl : id' = id := Option.some.inj hid
      exact ⟨(hobject.stable hrely).1, fun g hg hkey _ _ =>
        absurd (hs'.live_issued _ (hs'.given_live g hg)) (hkey ▸ hfresh)⟩
  refine Keeps.andThen hcreate hlasting ⟨hobject, h⟩ fun created s hkey h => ?_
  cases created with
  | none => exact fun _ _ _ => ⟨trivial, fun _ result => result.elim⟩
  | some id => exact keeps_linkNode (hkey id rfl) h.1 h.2

/-- A node that `findUnlinkedMatch` finds has no row. -/
theorem keeps_findUnlinkedMatch (hle : lookedAt ≤ s.moment) : Keeps cfg findUnlinkedMatch
    (fun found s => ∀ id ∈ found, ∀ objectId, KeyClear (.bookmark, id) objectId lookedAt s) s := by
  have hlasting : Lasting fun s => lookedAt ≤ s.moment := fun _ _ h hrely => h.trans hrely.moment
  have hask : SelfReliant cfg (ask .bookmarkIds) := .ask fun _ => trivial
  refine Keeps.andThen (hask s) hlasting hle fun candidates s _ hle => ?_
  refine Respects.bind (Q := fun linked s => ∀ id ∈ candidates.getD [], linked.1 id = none →
    ∀ objectId, KeyClear (.bookmark, id) objectId lookedAt s) ?_ ?_
  · refine keeps_ask fun s' hrely hs => ⟨trivial, fun answer result t h _ _ id hid hnone objectId => ?_⟩
    obtain ⟨rfl, rfl⟩ := Prod.mk.inj (Option.some.inj h)
    refine (keyClear_of_rowOf hs ?_).mono (hle.trans hrely.moment)
    simpa [hid] using hnone
  · rintro ⟨linked, moment⟩ s h id hid
    have hnone := List.find?_some hid
    exact h id (List.mem_of_find?_eq_some hid) (Option.isNone_iff_eq_none.mp hnone)

/-- **`materialize`, for an object without a node.** -/
theorem keeps_materializeNew (p : BookmarkPayload) (parentId : Option ChromiumId)
    (hobject : ObjectClear .bookmark objectId none lookedAt s) (h : PrefetchClear cfg prefetched s) :
    Keeps cfg (materializeNew cfg objectId p parentId lookedAt prefetched) (PrefetchClear cfg) s := by
  have hlasting : Lasting fun s => ObjectClear .bookmark objectId none lookedAt s ∧
      PrefetchClear cfg prefetched s := fun s s' h hrely =>
    ⟨h.1.stable hrely, PrefetchClear.lasting s s' h.2 hrely⟩
  cases parentId with
  | none => exact h
  | some parentId =>
    rw [materializeNew]
    split
    · exact h
    have hask : SelfReliant cfg (ask .flag) := .ask fun _ => trivial
    refine Keeps.andThen (hask s) hlasting ⟨hobject, h⟩ fun linking s _ h => ?_
    have hfind : Keeps cfg (if linking then findUnlinkedMatch else pure none) (fun found s =>
        ∀ id ∈ found, ∀ objectId, KeyClear (.bookmark, id) objectId lookedAt s) s := by
      split
      · exact keeps_findUnlinkedMatch h.1.1
      · exact fun _ h => absurd h (by simp)
    refine Keeps.andThen hfind hlasting h fun found s hkey h => ?_
    cases found with
    | some id => exact keeps_linkNode (hkey id rfl objectId) h.1 h.2
    | none => exact keeps_createNode parentId h.1 h.2

/-- A mapping whose node is gone is forgotten, and nothing is known of the object any more. -/
theorem keeps_forgetMapping {id : ChromiumId}
    (hobject : ObjectClear .bookmark objectId (some id) lookedAt s) :
    Keeps cfg (forgetMapping (.bookmark, id)) (fun _ s => ObjectClear .bookmark objectId none lookedAt s)
      s := by
  refine keeps_ask fun s' hrely _ => ⟨trivial, fun answer result t h _ _ => ?_⟩
  obtain ⟨-, rfl⟩ := Prod.mk.inj (Option.some.inj h)
  obtain ⟨hle, hrows⟩ := hobject.stable hrely
  refine ⟨hle, fun row hrow htype hrowObject _ => ?_⟩
  obtain ⟨hold, hkey⟩ := List.mem_filter.mp hrow
  refine hrows row hold htype hrowObject fun heq => ?_
  have hkey' : row.key = (.bookmark, id) := Prod.ext htype (Option.some.inj heq)
  exact absurd hkey (by simp [hkey'])

/-- What is known of an object that was asked for, by what was prefetched or by a lookup. -/
theorem keeps_prefetchedOr {answers : FoundIds → Bool} {objectIds : List Uuid}
    (h : PrefetchClear cfg prefetched s)
    (hanswers : ∀ ids, answers ids = true → (ids objectId).1.isSome = true)
    (hmem : objectId ∈ objectIds) : Keeps cfg (prefetchedOr cfg prefetched answers objectIds)
      (fun ids s => FoundClear cfg ids s ∧
        ((ids objectId).1 = none → ObjectClear .bookmark objectId none (ids objectId).2 s)) s := by
  rw [prefetchedOr]
  split
  · rename_i ids hids
    obtain ⟨hsome, hanswer⟩ := Option.filter_eq_some_iff.mp hids
    refine ⟨h ids hsome, fun hnone => ?_⟩
    have hfound := hanswers ids hanswer
    rw [hnone] at hfound
    exact absurd hfound (by simp)
  · exact (keeps_chromiumIdsFor _).mono fun ids s hfound => ⟨hfound.1, hfound.2 objectId hmem⟩

/-- **`materialize`** has the evidence that no row of the object was found, or that the row that was
found has been forgotten. -/
theorem keeps_materialize (objectId : Uuid) (p : BookmarkPayload) (h : PrefetchClear cfg prefetched s) :
    Keeps cfg (materialize cfg objectId p prefetched) (PrefetchClear cfg) s := by
  have hanswers : ∀ ids, answersFor objectId p ids = true → (ids objectId).1.isSome = true := by
    intro ids h
    rw [answersFor, Bool.and_eq_true] at h
    exact h.1
  refine Keeps.andThen (keeps_prefetchedOr h hanswers List.mem_cons_self) PrefetchClear.lasting h
    fun ids s hfound h => ?_
  obtain ⟨hpresent, hmissing⟩ := hfound
  have hpresent' := hpresent objectId
  rcases hids : ids objectId with ⟨mapped, lookedAt⟩
  rw [hids] at hmissing hpresent'
  cases mapped with
  | none =>
    dsimp only
    exact keeps_materializeNew p _ (hmissing rfl) h
  | some id =>
    dsimp only
    cases hroot : cfg.rootByObjectId objectId with
    | some root =>
      rw [mappedNodeExists, hroot]
      exact h
    | none =>
      have hlasting : Lasting fun s => ObjectClear .bookmark objectId (some id) lookedAt s ∧
          PrefetchClear cfg prefetched s := fun s s' h hrely =>
        ⟨h.1.stable hrely, PrefetchClear.lasting s s' h.2 hrely⟩
      have hexists : SelfReliant cfg (mappedNodeExists cfg objectId id) := by
        rw [mappedNodeExists, hroot]
        exact .ask fun _ => trivial
      refine Keeps.andThen (hexists s) hlasting ⟨hpresent' id hroot rfl, h⟩ fun isThere s _ h => ?_
      split
      · exact h.2
      · refine Keeps.andThen (keeps_forgetMapping h.1) PrefetchClear.lasting h.2 fun _ s hobject h => ?_
        exact keeps_materializeNew p _ hobject (h.map fun ids hids => hids.update fun _ h => absurd h (by simp))

theorem selfReliant_retryRecord (stored : SlotKey → Option Json) (found : FoundIds) :
    SelfReliant cfg (retryRecord cfg stored found objectId) := by
  rw [retryRecord]
  refine .ite (fun s => ?_) .pure
  have hnone : PrefetchClear cfg none s := nofun
  exact Respects.bind (keeps_materialize objectId _ hnone) fun _ _ _ => trivial

theorem selfReliant_retryDeferredParent : SelfReliant cfg (retryDeferredParent cfg objectId) := by
  refine SelfReliant.bind (.ask fun _ => trivial) fun deferred => ?_
  refine SelfReliant.bind (.ask fun _ => trivial) fun stored => fun s => ?_
  refine Respects.bind (keeps_chromiumIdsFor deferred) fun found s _ => ?_
  exact SelfReliant.foldlM _ () (fun _ _ => selfReliant_retryRecord stored found) s

theorem keeps_forgetDescendants (descendants : List ChromiumId) (h : PrefetchClear cfg prefetched s) :
    Keeps cfg (forgetDescendants descendants prefetched) (PrefetchClear cfg) s := by
  have hask : ∀ call, (∀ s, CallNeeds call s) → SelfReliant cfg (ask call) := fun _ h => .ask h
  refine Keeps.andThen (hask (.getMappingsByLocalIds .bookmark descendants) (fun _ => trivial) s)
    PrefetchClear.lasting h ?_
  rintro ⟨forgotten, lookedAt⟩ s - h
  refine Keeps.andThen (hask (.deleteMappings .bookmark descendants) (fun _ => trivial) s)
    PrefetchClear.lasting h fun _ s _ h => ?_
  refine h.map fun ids hids other id hroot hid => ?_
  split at hid
  · exact absurd hid (by simp)
  · rename_i hne
    simpa only [if_neg hne] using hids other id hroot hid

theorem keeps_applyDelete (objectId : Uuid) (h : PrefetchClear cfg prefetched s) :
    Keeps cfg (applyDelete cfg objectId prefetched) (PrefetchClear cfg) s := by
  have hask : ∀ call, (∀ s, CallNeeds call s) → SelfReliant cfg (ask call) := fun _ h => .ask h
  refine Keeps.andThen (keeps_prefetchedOr h (fun _ h => h) List.mem_cons_self) PrefetchClear.lasting h
    fun ids s _ h => ?_
  cases (ids objectId).1 with
  | none => exact h
  | some id =>
    refine Keeps.andThen (hask .bookmarkIds (fun _ => trivial) s) PrefetchClear.lasting h
      fun descendants s _ h => ?_
    refine Keeps.andThen (hask (.bookmarksRemoveTree (id :: descendants.getD [])) (fun _ => trivial) s)
      PrefetchClear.lasting h fun _ s _ h => ?_
    have hforget : SelfReliant cfg (forgetMapping (.bookmark, id)) := .ask fun _ => trivial
    refine Keeps.andThen (hforget s) PrefetchClear.lasting h fun _ s _ h => ?_
    exact keeps_forgetDescendants _ (h.map fun ids hids => hids.update fun _ h => absurd h (by simp))

theorem keeps_applyResolved (resolved : BookmarksModule.ResolvedOp)
    (h : PrefetchClear cfg prefetched s) :
    Keeps cfg (applyResolved cfg prefetched resolved) (PrefetchClear cfg) s := by
  obtain ⟨⟨op, payload⟩, kind, res⟩ := resolved
  rw [applyResolved]
  dsimp only
  split
  · exact keeps_materialize _ _ h
  · exact keeps_applyDelete _ h
  · exact h

theorem keeps_applySlice (slice : List RemoteItem) (h : PrefetchClear cfg prefetched s) :
    Keeps cfg (applySlice cfg prefetched slice) (PrefetchClear cfg) s := by
  have hask : SelfReliant cfg (ask (.resolveRemoteSlice slice)) := .ask fun _ => trivial
  refine Keeps.andThen (hask s) PrefetchClear.lasting h fun resolved s _ h => ?_
  exact Respects.foldlM _ h fun operation _ prefetched s h => keeps_applyResolved operation h

theorem selfReliant_applyRemoteBatch (items : List RemoteItem) :
    SelfReliant cfg (applyRemoteBatch cfg items) := by
  intro s
  refine Respects.bind (keeps_chromiumIdsFor _) fun ids s hfound => ?_
  have hprefetched : PrefetchClear cfg (some ids) s := fun _ hids => Option.some.inj hids ▸ hfound.1
  exact Respects.bind (Respects.foldlM _ hprefetched fun slice _ prefetched s h =>
    keeps_applySlice slice h) fun _ _ _ => trivial

theorem selfReliant_applyRemote (item : RemoteItem) : SelfReliant cfg (applyRemote cfg item) := by
  intro s
  have hnone : PrefetchClear cfg none s := nofun
  exact Respects.bind (keeps_applySlice [item] hnone) fun _ _ _ => trivial

end Materialize

/-! ### Every run -/

/-- **Every thread has the evidence that its calls need.** -/
theorem mappingContract_lawful : mappingContract.Lawful (mappingSystem cfg) where
  rely_refl := Rely.refl
  rely_trans := Rely.trans
  exec _ _ _ _ _ hs hneeds hok h := exec_lawful hs hneeds hok h
  body p s _ _ := by
    cases p with
    | flushTabEvents events => exact selfReliant_flushTabEvents events s
    | flushBookmarkEvents events => exact selfReliant_flushBookmarkEvents events s
    | applyTabRemoteBatch items => exact selfReliant_applyTabRemoteBatch items s
    | materializeTab objectId p => exact selfReliant_materializeTab _ p s
    | restoreTab objectId => exact selfReliant_restoreTab _ s
    | restoreTabs objectIds => exact selfReliant_restoreTabs objectIds s
    | applyRemoteBatch items => exact selfReliant_applyRemoteBatch items s
    | applyRemote item => exact selfReliant_applyRemote item s
    | retryDeferredParent parentObjectId => exact selfReliant_retryDeferredParent s
  admits _ _ _ := trivial
  outside e _ hs := outside_lawful e hs
  stopped _ hs := sound_stopped hs

/-- One event: the mappings are a partial bijection after it exactly if the call that it executes is
undisturbed. -/
theorem disturbed_step {pool : MappingPool} (h : mappingContract.Holds (mappingSystem cfg) pool)
    {e : MappingEvent} (hdisturbed : ¬pool.CallMeets CallUndisturbed e) :
    ¬Bijective (pool.step (mappingSystem cfg) e).shared := by
  cases e with
  | advance thread answer =>
    rw [Threads.Pool.CallMeets] at hdisturbed
    show ¬Bijective (pool.advance (mappingSystem cfg) thread answer).shared
    rw [Threads.Pool.advance]
    cases hprogram : pool.threads thread with
    | call call next =>
      rw [hprogram] at hdisturbed
      have hneeds : CallNeeds call pool.shared := h.needs mappingContract_lawful hprogram
      obtain ⟨result, t, hexec, hbroken⟩ := exec_breaks h.keeps hneeds hdisturbed
      have hexec' : (mappingSystem cfg).exec call answer pool.shared = some (result, t) := hexec
      dsimp only
      rw [hexec']
      exact hbroken
    | done | start | await =>
      rw [hprogram] at hdisturbed
      exact absurd trivial hdisturbed
  | enter | outside | stop => exact absurd trivial hdisturbed

/-- **When object mappings are a partial bijection**: they are in every state of a run exactly if nothing
comes between a lookup of a mapping and the write of it or the opening of a tab. -/
theorem always_bijective_iff (cfg : MappingConfig) (events : List MappingEvent) :
    Runs.Always (Threads.Pool.step (mappingSystem cfg)) (fun pool => Bijective pool.shared)
        (Threads.Pool.idle MappingState.empty) events ↔
      Runs.Meets (Threads.Pool.step (mappingSystem cfg))
        (fun pool e => pool.CallMeets CallUndisturbed e) (Threads.Pool.idle MappingState.empty) events :=
  Runs.always_iff_meets (I := mappingContract.Holds (mappingSystem cfg)) (fun _ h => h.keeps.toBijective)
    (fun _ e h hok => h.step mappingContract_lawful e hok)
    (fun _ _ h hdisturbed => disturbed_step h hdisturbed) (.idle sound_empty)

/-! ### A tab that is created and updated -/

/-- No built-in folders, and every URL is synced. -/
def openConfig : MappingConfig := ⟨fun _ => none, fun _ => none, [], fun _ => true⟩

/-- An operation of device 2 on the tab 7, and the URL that it has. -/
def tabItem (lamportTimestamp : ℤ) (operationId : Uuid) (operationType : OperationType) (url : String) :
    RemoteItem :=
  (⟨operationId, 2, lamportTimestamp, .tab, 7, operationType⟩, .object [("url", .string url)])

/-- One batch creates the tab and updates it. Both operations win, so that thread 1 and thread 2 materialize
it. They look it up, and each opens a tab and writes its mapping. -/
def createAndUpdate : List MappingEvent :=
  [.enter (.applyTabRemoteBatch [tabItem 1 11 .create "a", tabItem 2 12 .update "b"]),
    .advance 0 (.policy .automatic), .advance 0 .nothing, .advance 0 .nothing, .advance 0 .nothing,
    .advance 1 .nothing, .advance 2 .nothing, .advance 1 (.id 101), .advance 2 (.id 102),
    .advance 1 .nothing, .advance 1 .nothing, .advance 2 .nothing, .advance 2 .nothing]

/-- The profile after it. -/
def afterCreateAndUpdate : MappingState :=
  (Runs.run (Threads.Pool.step (mappingSystem openConfig)) (Threads.Pool.idle MappingState.empty)
    createAndUpdate).shared

/-- **A tab is opened twice**, and two rows have its object. -/
theorem createAndUpdate_opens_twice : afterCreateAndUpdate.opened = [⟨102, 7⟩, ⟨101, 7⟩] ∧
    afterCreateAndUpdate.rows = [⟨(.tab, 102), 7, 1⟩, ⟨(.tab, 101), 7, 0⟩] ∧
    ¬Bijective afterCreateAndUpdate := by
  refine ⟨by decide +kernel, by decide +kernel, fun h => ?_⟩
  have hopened : (⟨101, 7⟩ : OpenedTab) ∈ afterCreateAndUpdate.opened ∧
      (⟨102, 7⟩ : OpenedTab) ∈ afterCreateAndUpdate.opened := by decide +kernel
  exact absurd (h.opened _ hopened.1 _ hopened.2 rfl) (by decide)

end Client

end HelixSync
