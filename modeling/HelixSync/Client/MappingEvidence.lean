import HelixSync.Client.ObjectMappings

/-!
# The evidence of a lookup

A thread looks a mapping up and writes later, so what it goes back to may be out of date. Against the
others it has the evidence of its lookup (`HelixSync.Client.Evidence`): what speaks against its write
either is not linked any more or is newer than the lookup. That stays true whatever the others do, since
what they write is stamped with a later moment (`HelixSync.Client.Rely`).

A call that has its evidence keeps the mappings a partial bijection if nothing has come between
(`HelixSync.Client.exec_lawful`), and else breaks it at once (`HelixSync.Client.exec_breaks`). That the
threads have the evidence is shown in `HelixSync.Client.MappingBijection`.
-/

namespace HelixSync

namespace Client

/-! ### The property and its condition -/

/-- **A partial bijection**: while it is there an id is given one object only, no two rows of a type have
the same object, and at most one tab is open for an object. -/
structure Bijective (s : MappingState) : Prop where
  given : ∀ g ∈ s.given, ∀ g' ∈ s.given, g.key = g'.key → g.objectId = g'.objectId
  rows : ∀ row ∈ s.rows, ∀ row' ∈ s.rows, row.key.1 = row'.key.1 → row.objectId = row'.objectId →
    row.key = row'.key
  opened : ∀ tab ∈ s.opened, ∀ tab' ∈ s.opened, tab.objectId = tab'.objectId →
    tab.chromiumId = tab'.chromiumId

theorem bijective_iff {s : MappingState} : Bijective s ↔
    (∀ g ∈ s.given, ∀ g' ∈ s.given, g.key = g'.key → g.objectId = g'.objectId) ∧
    (∀ row ∈ s.rows, ∀ row' ∈ s.rows, row.key.1 = row'.key.1 → row.objectId = row'.objectId →
      row.key = row'.key) ∧
    ∀ tab ∈ s.opened, ∀ tab' ∈ s.opened, tab.objectId = tab'.objectId →
      tab.chromiumId = tab'.chromiumId :=
  ⟨fun h => ⟨h.given, h.rows, h.opened⟩, fun h => ⟨h.1, h.2.1, h.2.2⟩⟩

instance (s : MappingState) : Decidable (Bijective s) := decidable_of_iff _ bijective_iff.symm

/-- **Nothing has come between** a lookup and its write: what the id was given since, or was given and
is not linked to any more, is the same object, and what rows of the object were written since are of
ids that the batch itself writes. -/
def LinkUndisturbed (batch : List Link) (s : MappingState) (link : Link) : Prop :=
  (∀ g ∈ s.given, g.key = link.key → g.linked = false ∨ link.lookedAt ≤ g.moment →
    g.objectId = link.objectId) ∧
  ∀ row ∈ s.rows, row.key.1 = link.key.1 → row.objectId = link.objectId →
    link.lookedAt ≤ row.writtenAt → row.key ∈ batch.map Link.key

instance (batch : List Link) (s : MappingState) (link : Link) :
    Decidable (LinkUndisturbed batch s link) :=
  inferInstanceAs (Decidable (_ ∧ _))

/-- The tabs that are there for an object were linked to it before it was looked up. -/
def TabUndisturbed (s : MappingState) (objectId : Uuid) (lookedAt : ℕ) : Prop :=
  ∀ tab ∈ s.opened, tab.objectId = objectId →
    ∃ g ∈ s.given, g.key = (.tab, tab.chromiumId) ∧ g.objectId = objectId ∧ g.linked = true ∧
      g.moment < lookedAt

/-- The condition of a call: a write is undisturbed, and so is the opening of a tab. -/
def CallUndisturbed : MappingCall → MappingAnswer → MappingState → Prop
  | .putMappings links, _, s => ∀ link ∈ links, LinkUndisturbed links s link
  | .tabsCreate objectId lookedAt, .id id, s =>
    (ObjectType.tab, id) ∉ s.issued → TabUndisturbed s objectId lookedAt
  | _, _, _ => True

/-! ### What is kept -/

/-- What a profile keeps. A linked id has its row, and only what is there has been given an object. -/
structure Sound (s : MappingState) : Prop extends Bijective s where
  row_unique : ∀ row ∈ s.rows, ∀ row' ∈ s.rows, row.key = row'.key → row = row'
  row_of_linked : ∀ g ∈ s.given, g.linked = true →
    ∃ row ∈ s.rows, row.key = g.key ∧ row.objectId = g.objectId
  given_live : ∀ g ∈ s.given, g.key ∈ s.live
  live_issued : ∀ key ∈ s.live, key ∈ s.issued
  opened_live : ∀ tab ∈ s.opened, (ObjectType.tab, tab.chromiumId) ∈ s.live

/-- What a thread relies on: what is written later is stamped with a later moment, and links end but do
not come back. -/
structure Rely (s s' : MappingState) : Prop where
  moment : s.moment ≤ s'.moment
  issued : ∀ key ∈ s.issued, key ∈ s'.issued
  drawn : ∀ value ∈ s.drawn, value ∈ s'.drawn
  given : ∀ g ∈ s'.given, g.linked = true → g.moment < s.moment → g ∈ s.given
  rows : ∀ row ∈ s'.rows, row.writtenAt < s.moment → row ∈ s.rows

theorem Rely.refl (s : MappingState) : Rely s s :=
  ⟨le_refl _, fun _ h => h, fun _ h => h, fun _ h _ _ => h, fun _ h _ => h⟩

theorem Rely.trans (s s' s'' : MappingState) (h : Rely s s') (h' : Rely s' s'') : Rely s s'' where
  moment := h.moment.trans h'.moment
  issued key hkey := h'.issued key (h.issued key hkey)
  drawn value hvalue := h'.drawn value (h.drawn value hvalue)
  given g hg hlinked hlt := h.given g (h'.given g hg hlinked (hlt.trans_le h.moment)) hlinked hlt
  rows row hrow hlt := h.rows row (h'.rows row hrow (hlt.trans_le h.moment)) hlt

/-! ### The evidence of a lookup -/

/-- No link of an id is older than a lookup, unless it is to an object. -/
def KeyClear (key : MappingKey) (objectId : Uuid) (lookedAt : ℕ) (s : MappingState) : Prop :=
  lookedAt ≤ s.moment ∧
    ∀ g ∈ s.given, g.key = key → g.linked = true → g.moment < lookedAt → g.objectId = objectId

/-- No row of an object is older than a lookup, unless it is of an id. -/
def ObjectClear (objectType : ObjectType) (objectId : Uuid) (except : Option ChromiumId)
    (lookedAt : ℕ) (s : MappingState) : Prop :=
  lookedAt ≤ s.moment ∧ ∀ row ∈ s.rows, row.key.1 = objectType → row.objectId = objectId →
    some row.key.2 ≠ except → lookedAt ≤ row.writtenAt

/-- **The evidence for a link.** -/
structure Evidence (link : Link) (s : MappingState) : Prop where
  key : KeyClear link.key link.objectId link.lookedAt s
  object : ObjectClear link.key.1 link.objectId (some link.key.2) link.lookedAt s

section Stable

variable {key : MappingKey} {objectType : ObjectType} {objectId : Uuid} {id : Option ChromiumId}
  {lookedAt : ℕ} {link : Link} {s s' : MappingState}

theorem KeyClear.stable (h : KeyClear key objectId lookedAt s) (hrely : Rely s s') :
    KeyClear key objectId lookedAt s' :=
  ⟨h.1.trans hrely.moment, fun g hg hkey hlinked hlt =>
    h.2 g (hrely.given g hg hlinked (hlt.trans_le h.1)) hkey hlinked hlt⟩

theorem ObjectClear.stable (h : ObjectClear objectType objectId id lookedAt s) (hrely : Rely s s') :
    ObjectClear objectType objectId id lookedAt s' := by
  refine ⟨h.1.trans hrely.moment, fun row hrow htype hobject hne => ?_⟩
  by_contra hlt
  have hold : row ∈ s.rows := hrely.rows row hrow ((not_le.mp hlt).trans_le h.1)
  exact hlt (h.2 row hold htype hobject hne)

/-- An object of which nothing is known is clear but for any id. -/
theorem ObjectClear.except (h : ObjectClear objectType objectId none lookedAt s) :
    ObjectClear objectType objectId id lookedAt s :=
  ⟨h.1, fun row hrow htype hobject _ => h.2 row hrow htype hobject (by simp)⟩

theorem Evidence.stable (h : Evidence link s) (hrely : Rely s s') : Evidence link s' :=
  ⟨h.key.stable hrely, h.object.stable hrely⟩

theorem KeyClear.mono {earlier : ℕ} (h : KeyClear key objectId lookedAt s) (hle : earlier ≤ lookedAt) :
    KeyClear key objectId earlier s :=
  ⟨hle.trans h.1, fun g hg hkey hlinked hlt => h.2 g hg hkey hlinked (hlt.trans_le hle)⟩

/-- No link to an object is older than a lookup of it. -/
def TabClear (objectId : Uuid) (lookedAt : ℕ) (s : MappingState) : Prop :=
  lookedAt ≤ s.moment ∧ ∀ g ∈ s.given, g.key.1 = .tab → g.objectId = objectId → g.linked = true →
    lookedAt ≤ g.moment

theorem TabClear.stable (h : TabClear objectId lookedAt s) (hrely : Rely s s') :
    TabClear objectId lookedAt s' := by
  refine ⟨h.1.trans hrely.moment, fun g hg htype hobject hlinked => ?_⟩
  by_contra hlt
  have hold : g ∈ s.given := hrely.given g hg hlinked ((not_le.mp hlt).trans_le h.1)
  exact hlt (h.2 g hold htype hobject hlinked)

end Stable

/-! ### What the operations do -/

section Operations

open MappingState

variable {s : MappingState} {links : List Link} {keys : List MappingKey} {key : MappingKey}

theorem mem_foldl_putRow {row : MappingRow} (new : List MappingRow) : ∀ {rows : List MappingRow},
    new.Pairwise (fun a b => a.key ≠ b.key) →
      (row ∈ new.foldl putRow rows ↔ row ∈ new ∨ row ∈ rows ∧ ∀ other ∈ new, other.key ≠ row.key) := by
  induction new with
  | nil => simp
  | cons first new ih =>
    intro rows hdistinct
    obtain ⟨hfirst, hrest⟩ := List.pairwise_cons.mp hdistinct
    rw [List.foldl_cons, ih hrest, List.forall_mem_cons]
    simp only [putRow, List.mem_cons, List.mem_filter, decide_eq_true_eq]
    constructor
    · rintro (hnew | ⟨rfl | ⟨hrow, hne⟩, hothers⟩)
      · exact .inl (.inr hnew)
      · exact .inl (.inl rfl)
      · exact .inr ⟨hrow, fun h => hne h.symm, hothers⟩
    · rintro ((rfl | hnew) | ⟨hrow, hne, hothers⟩)
      · exact .inr ⟨.inl rfl, fun other hother => (hfirst other hother).symm⟩
      · exact .inl hnew
      · exact .inr ⟨.inr ⟨hrow, fun h => hne h.symm⟩, hothers⟩

/-- A row that was not there before is a new one. -/
theorem mem_of_mem_foldl_putRow {row : MappingRow} (new : List MappingRow) :
    ∀ {rows : List MappingRow}, row ∈ new.foldl putRow rows → row ∈ new ∨ row ∈ rows := by
  induction new with
  | nil => exact .inr
  | cons first new ih =>
    intro rows hrow
    rcases ih hrow with hnew | hput
    · exact .inl (List.mem_cons_of_mem first hnew)
    · rcases List.mem_cons.mp hput with rfl | hold
      · exact .inl List.mem_cons_self
      · exact .inr (List.mem_of_mem_filter hold)

theorem mem_given_putMappings {g : Given} : g ∈ (s.putMappings links).given ↔
    (∃ link ∈ links, link.key ∈ s.live ∧ g = ⟨link.key, link.objectId, s.moment, true⟩) ∨
      g ∈ s.given := by
  simp only [putMappings, List.mem_append, List.mem_map, List.mem_filter, decide_eq_true_eq]
  constructor
  · rintro (⟨link, ⟨hlink, hlive⟩, rfl⟩ | hg)
    · exact .inl ⟨link, hlink, hlive, rfl⟩
    · exact .inr hg
  · rintro (⟨link, hlink, hlive, rfl⟩ | hg)
    · exact .inl ⟨link, ⟨hlink, hlive⟩, rfl⟩
    · exact .inr hg

theorem mem_rows_putMappings (hdistinct : links.Pairwise fun a b => a.key ≠ b.key) {row : MappingRow} :
    row ∈ (s.putMappings links).rows ↔
      (∃ link ∈ links, row = s.linkRow link) ∨ row ∈ s.rows ∧ row.key ∉ links.map Link.key := by
  have hrows : (links.map s.linkRow).Pairwise fun a b => a.key ≠ b.key :=
    List.pairwise_map.mpr hdistinct
  rw [putMappings, mem_foldl_putRow _ hrows, List.forall_mem_map]
  simp only [List.mem_map, linkRow, not_exists, not_and, ne_eq]
  constructor
  · rintro (⟨link, hlink, rfl⟩ | hold)
    · exact .inl ⟨link, hlink, rfl⟩
    · exact .inr hold
  · rintro (⟨link, hlink, rfl⟩ | hold)
    · exact .inl ⟨link, hlink, rfl⟩
    · exact .inr hold

theorem mem_given_deleteMappings {g : Given} (hg : g ∈ (s.deleteMappings keys).given) :
    ∃ old ∈ s.given, old.key = g.key ∧ old.objectId = g.objectId ∧
      (g.linked = true → g = old ∧ g.key ∉ keys) := by
  obtain ⟨old, hold, rfl⟩ := List.mem_map.mp hg
  refine ⟨old, hold, ?_⟩
  split
  · exact ⟨rfl, rfl, fun h => absurd h (by simp)⟩
  · rename_i hne
    exact ⟨rfl, rfl, fun _ => ⟨rfl, hne⟩⟩

/-! #### What others rely on -/

theorem rely_putMappings : Rely s (s.putMappings links) where
  moment := Nat.le_succ _
  issued _ h := h
  drawn _ h := h
  given g hg _ hlt := by
    rcases mem_given_putMappings.mp hg with ⟨link, -, -, rfl⟩ | hold
    · exact absurd hlt (lt_irrefl _)
    · exact hold
  rows row hrow hlt := by
    rcases mem_of_mem_foldl_putRow _ hrow with hnew | hold
    · obtain ⟨link, -, rfl⟩ := List.mem_map.mp hnew
      exact absurd hlt (lt_irrefl _)
    · exact hold

theorem rely_deleteMappings : Rely s (s.deleteMappings keys) where
  moment := le_refl _
  issued _ h := h
  drawn _ h := h
  given g hg hlinked _ := by
    obtain ⟨old, hold, -, -, heq⟩ := mem_given_deleteMappings hg
    rw [(heq hlinked).1]
    exact hold
  rows _ hrow _ := List.mem_of_mem_filter hrow

theorem rely_issue : Rely s (s.issue key) where
  moment := le_refl _
  issued _ h := List.mem_cons_of_mem key h
  drawn _ h := h
  given _ hg _ _ := hg
  rows _ hrow _ := hrow

theorem rely_drop : Rely s (s.drop keys) where
  moment := le_refl _
  issued _ h := h
  drawn _ h := h
  given _ hg _ _ := List.mem_of_mem_filter hg
  rows _ hrow _ := hrow

/-! #### What is kept -/

theorem sound_empty : Sound empty where
  given := nofun
  rows := nofun
  opened := nofun
  row_unique := nofun
  row_of_linked := nofun
  given_live := nofun
  live_issued := nofun
  opened_live := nofun

theorem Sound.deleteMappings (h : Sound s) : Sound (s.deleteMappings keys) where
  given g hg g' hg' hkey := by
    obtain ⟨old, hold, hk, ho, -⟩ := mem_given_deleteMappings hg
    obtain ⟨old', hold', hk', ho', -⟩ := mem_given_deleteMappings hg'
    rw [← ho, ← ho']
    exact h.given old hold old' hold' (by rw [hk, hk', hkey])
  rows row hrow row' hrow' :=
    h.rows row (List.mem_of_mem_filter hrow) row' (List.mem_of_mem_filter hrow')
  opened := h.opened
  row_unique row hrow row' hrow' :=
    h.row_unique row (List.mem_of_mem_filter hrow) row' (List.mem_of_mem_filter hrow')
  row_of_linked g hg hlinked := by
    obtain ⟨old, hold, -, -, heq⟩ := mem_given_deleteMappings hg
    obtain ⟨rfl, hkey⟩ := heq hlinked
    obtain ⟨row, hrow, hk, ho⟩ := h.row_of_linked g hold hlinked
    exact ⟨row, List.mem_filter.mpr ⟨hrow, by simpa [hk] using hkey⟩, hk, ho⟩
  given_live g hg := by
    obtain ⟨old, hold, hk, -, -⟩ := mem_given_deleteMappings hg
    rw [← hk]
    exact h.given_live old hold
  live_issued := h.live_issued
  opened_live := h.opened_live

theorem Sound.issue (h : Sound s) : Sound (s.issue key) where
  given := h.given
  rows := h.rows
  opened := h.opened
  row_unique := h.row_unique
  row_of_linked := h.row_of_linked
  given_live g hg := List.mem_cons_of_mem key (h.given_live g hg)
  live_issued other hother := by
    rcases List.mem_cons.mp hother with rfl | hold
    · exact List.mem_cons_self
    · exact List.mem_cons_of_mem key (h.live_issued other hold)
  opened_live tab htab := List.mem_cons_of_mem key (h.opened_live tab htab)

theorem Sound.drop (h : Sound s) : Sound (s.drop keys) where
  given g hg g' hg' := h.given g (List.mem_of_mem_filter hg) g' (List.mem_of_mem_filter hg')
  rows := h.rows
  opened tab htab tab' htab' :=
    h.opened tab (List.mem_of_mem_filter htab) tab' (List.mem_of_mem_filter htab')
  row_unique := h.row_unique
  row_of_linked g hg := h.row_of_linked g (List.mem_of_mem_filter hg)
  given_live g hg := by
    obtain ⟨hold, hkey⟩ := List.mem_filter.mp hg
    exact List.mem_filter.mpr ⟨h.given_live g hold, hkey⟩
  live_issued key hkey := h.live_issued key (List.mem_of_mem_filter hkey)
  opened_live tab htab := by
    obtain ⟨hold, hkey⟩ := List.mem_filter.mp htab
    exact List.mem_filter.mpr ⟨h.opened_live tab hold, hkey⟩

/-- Two links of a batch are of different ids and of different objects. -/
def Distinct (links : List Link) : Prop :=
  links.Pairwise fun a b => a.key ≠ b.key ∧ a.objectId ≠ b.objectId

theorem Distinct.pairwise_key (h : Distinct links) : links.Pairwise fun a b => a.key ≠ b.key :=
  List.Pairwise.imp And.left h

theorem Distinct.ne (h : Distinct links) {a b : Link} (ha : a ∈ links) (hb : b ∈ links) (hne : a ≠ b) :
    a.key ≠ b.key ∧ a.objectId ≠ b.objectId := by
  have hsymm : Std.Symm fun a b : Link => a.key ≠ b.key ∧ a.objectId ≠ b.objectId :=
    ⟨fun _ _ hab => ⟨hab.1.symm, hab.2.symm⟩⟩
  exact List.Pairwise.forall h ha hb hne

/-- **A batch is written**, with its evidence and undisturbed. -/
theorem Sound.putMappings (h : Sound s) (hdistinct : Distinct links)
    (hevidence : ∀ link ∈ links, Evidence link s)
    (hundisturbed : ∀ link ∈ links, LinkUndisturbed links s link) : Sound (s.putMappings links) := by
  have hrow := @mem_rows_putMappings s links hdistinct.pairwise_key
  have hgiven := @mem_given_putMappings s links
  -- what an id of the batch was given before is the object of its link
  have hbefore : ∀ link ∈ links, ∀ g ∈ s.given, g.key = link.key → g.objectId = link.objectId := by
    intro link hlink g hg hkey
    by_cases hold : g.linked = true ∧ g.moment < link.lookedAt
    · exact (hevidence link hlink).key.2 g hg hkey hold.1 hold.2
    · refine (hundisturbed link hlink).1 g hg hkey ?_
      rw [not_and, not_lt] at hold
      cases hlinked : g.linked with
      | false => exact .inl rfl
      | true => exact .inr (hold hlinked)
  -- and a row of the object of a link that is not written over is of the same id
  have hkept : ∀ link ∈ links, ∀ row ∈ s.rows, row.key.1 = link.key.1 → row.objectId = link.objectId →
      row.key ∉ links.map Link.key → row.key = link.key := by
    intro link hlink row hold htype hobject hnotMem
    by_contra hne
    have hne' : some row.key.2 ≠ some link.key.2 := fun heq =>
      hne (Prod.ext htype (Option.some.inj heq))
    exact hnotMem ((hundisturbed link hlink).2 row hold htype hobject
      ((hevidence link hlink).object.2 row hold htype hobject hne'))
  have hsame : ∀ a ∈ links, ∀ b ∈ links, a.key = b.key ∨ a.objectId = b.objectId → a = b := by
    intro a ha b hb heq
    by_contra hne
    obtain ⟨hkey, hobject⟩ := hdistinct.ne ha hb hne
    exact heq.elim hkey hobject
  have hunique : ∀ g ∈ (s.putMappings links).given, ∀ g' ∈ (s.putMappings links).given,
      g.key = g'.key → g.objectId = g'.objectId := by
    intro g hg g' hg' hkey
    rcases hgiven.mp hg with ⟨link, hlink, -, rfl⟩ | hold <;>
      rcases hgiven.mp hg' with ⟨link', hlink', -, rfl⟩ | hold'
    · rw [hsame link hlink link' hlink' (.inl hkey)]
    · exact (hbefore link hlink g' hold' hkey.symm).symm
    · exact hbefore link' hlink' g hold hkey
    · exact h.given g hold g' hold' hkey
  refine ⟨⟨hunique, ?_, h.opened⟩, ?_, ?_, ?_, h.live_issued, h.opened_live⟩
  · intro row hr row' hr' htype hobject
    rcases hrow.mp hr with ⟨link, hlink, rfl⟩ | ⟨hold, hnotMem⟩ <;>
      rcases hrow.mp hr' with ⟨link', hlink', rfl⟩ | ⟨hold', hnotMem'⟩
    · rw [hsame link hlink link' hlink' (.inr hobject)]
    · exact (hkept link hlink row' hold' htype.symm hobject.symm hnotMem').symm
    · exact hkept link' hlink' row hold htype hobject hnotMem
    · exact h.rows row hold row' hold' htype hobject
  · intro row hr row' hr' hkey
    rcases hrow.mp hr with ⟨link, hlink, rfl⟩ | ⟨hold, hnotMem⟩ <;>
      rcases hrow.mp hr' with ⟨link', hlink', rfl⟩ | ⟨hold', hnotMem'⟩
    · rw [hsame link hlink link' hlink' (.inl hkey)]
    · exact absurd (List.mem_map.mpr ⟨link, hlink, hkey⟩) hnotMem'
    · exact absurd (List.mem_map.mpr ⟨link', hlink', hkey.symm⟩) hnotMem
    · exact h.row_unique row hold row' hold' hkey
  · intro g hg hlinked
    by_cases hmem : g.key ∈ links.map Link.key
    · obtain ⟨link, hlink, hkey⟩ := List.mem_map.mp hmem
      refine ⟨s.linkRow link, hrow.mpr (.inl ⟨link, hlink, rfl⟩), hkey, ?_⟩
      rcases hgiven.mp hg with ⟨link', hlink', -, rfl⟩ | hold
      · rw [hsame link' hlink' link hlink (.inl hkey.symm)]
        rfl
      · exact (hbefore link hlink g hold hkey.symm).symm
    · rcases hgiven.mp hg with ⟨link, hlink, -, rfl⟩ | hold
      · exact absurd (List.mem_map_of_mem hlink) hmem
      · obtain ⟨row, hr, hkey, hobject⟩ := h.row_of_linked g hold hlinked
        exact ⟨row, hrow.mpr (.inr ⟨hr, by rwa [hkey]⟩), hkey, hobject⟩
  · intro g hg
    rcases hgiven.mp hg with ⟨link, -, hlive, rfl⟩ | hold
    · exact hlive
    · exact h.given_live g hold

/-- **A disturbed batch** breaks the bijection. -/
theorem not_bijective_putMappings (h : Sound s) (hdistinct : Distinct links) {link : Link}
    (hlink : link ∈ links) (hdisturbed : ¬LinkUndisturbed links s link) :
    ¬Bijective (s.putMappings links) := by
  intro hafter
  refine hdisturbed ⟨fun g hg hkey _ => ?_, fun row hrow htype hobject _ => ?_⟩
  · have hlive : link.key ∈ s.live := hkey ▸ h.given_live g hg
    exact hafter.given g (mem_given_putMappings.mpr (.inr hg)) _
      (mem_given_putMappings.mpr (.inl ⟨link, hlink, hlive, rfl⟩)) hkey
  · by_contra hnotMem
    have hrows := @mem_rows_putMappings s links hdistinct.pairwise_key
    have hkey := hafter.rows row (hrows.mpr (.inr ⟨hrow, hnotMem⟩)) (s.linkRow link)
      (hrows.mpr (.inl ⟨link, hlink, rfl⟩)) htype hobject
    exact hnotMem (List.mem_map.mpr ⟨link, hlink, hkey.symm⟩)

/-- A tab is there for an object. -/
def MappingState.opens (s : MappingState) (id : ChromiumId) (objectId : Uuid) : MappingState :=
  { s.issue (.tab, id) with opened := ⟨id, objectId⟩ :: s.opened }

variable {id : ChromiumId} {objectId : Uuid} {lookedAt : ℕ}

theorem rely_opens : Rely s (s.opens id objectId) :=
  ⟨le_refl _, fun _ h => List.mem_cons_of_mem _ h, fun _ h => h, fun _ h _ _ => h, fun _ h _ => h⟩

/-- **A tab is opened** for an object that no row was found for, undisturbed. -/
theorem Sound.opens (h : Sound s) (hclear : TabClear objectId lookedAt s)
    (hundisturbed : TabUndisturbed s objectId lookedAt) : Sound (s.opens id objectId) := by
  have hclosed : ∀ tab ∈ s.opened, tab.objectId ≠ objectId := by
    intro tab htab heq
    obtain ⟨g, hg, hkey, hobject, hlinked, hlt⟩ := hundisturbed tab htab heq
    exact absurd (hclear.2 g hg (by rw [hkey]) hobject hlinked) (not_le.mpr hlt)
  have hissue : Sound (s.issue (.tab, id)) := h.issue
  refine ⟨⟨h.given, h.rows, ?_⟩, h.row_unique, h.row_of_linked, hissue.given_live,
    hissue.live_issued, ?_⟩
  · intro tab htab tab' htab' heq
    rcases List.mem_cons.mp htab with rfl | hold <;> rcases List.mem_cons.mp htab' with rfl | hold'
    · rfl
    · exact absurd heq.symm (hclosed tab' hold')
    · exact absurd heq (hclosed tab hold)
    · exact h.opened tab hold tab' hold' heq
  · intro tab htab
    rcases List.mem_cons.mp htab with rfl | hold
    · exact List.mem_cons_self
    · exact hissue.opened_live tab hold

/-- **A disturbed opening** makes a second tab. -/
theorem not_bijective_opens (h : Sound s) (hfresh : (ObjectType.tab, id) ∉ s.issued)
    (hdisturbed : ¬TabUndisturbed s objectId lookedAt) : ¬Bijective (s.opens id objectId) := by
  intro hafter
  refine hdisturbed fun tab htab heq => ?_
  have hid := hafter.opened tab (List.mem_cons_of_mem _ htab) ⟨id, objectId⟩ List.mem_cons_self heq
  refine absurd (h.live_issued _ (h.opened_live tab htab)) ?_
  rw [hid]
  exact hfresh

end Operations

/-! ### The calls -/

/-- What a thread has to have shown before a call. -/
def CallNeeds : MappingCall → MappingState → Prop
  | .putMappings links, s => Distinct links ∧ ∀ link ∈ links, Evidence link s
  | .tabsCreate objectId lookedAt, s => TabClear objectId lookedAt s
  | _, _ => True

/-- The contract of the threads. -/
def mappingContract : Threads.Contract MappingState MappingAnswer MappingCall MappingBody where
  keeps := Sound
  rely := Rely
  needs := CallNeeds
  ok := CallUndisturbed
  pre _ _ := True

section Calls

open MappingState

variable {s t : MappingState} {call : MappingCall} {answer : MappingAnswer} {result : call.Result}

/-- A state in which only what no row depends on has changed. -/
structure Quiet (s t : MappingState) : Prop where
  rows : t.rows = s.rows
  issued : t.issued = s.issued
  live : t.live = s.live
  drawn : ∀ value ∈ s.drawn, value ∈ t.drawn
  moment : t.moment = s.moment
  given : t.given = s.given
  opened : t.opened = s.opened

theorem Quiet.refl (s : MappingState) : Quiet s s := ⟨rfl, rfl, rfl, fun _ h => h, rfl, rfl, rfl⟩

theorem Quiet.sound (h : Quiet s t) (hs : Sound s) : Sound t := by
  obtain ⟨rows, fields, issued, live, drawn, tabs, lock, moment, given, opened⟩ := t
  obtain ⟨rfl, rfl, rfl, -, rfl, rfl, rfl⟩ := h
  exact ⟨⟨hs.given, hs.rows, hs.opened⟩, hs.row_unique, hs.row_of_linked, hs.given_live,
    hs.live_issued, hs.opened_live⟩

theorem Quiet.rely (h : Quiet s t) : Rely s t where
  moment := h.moment.ge
  issued _ hkey := h.issued ▸ hkey
  drawn := h.drawn
  given _ hg _ _ := h.given ▸ hg
  rows _ hrow _ := h.rows ▸ hrow

/-- What the browser makes has a new id. -/
theorem make_cases {objectType : ObjectType} {made : Option ChromiumId}
    (h : s.make objectType answer = some (made, t)) :
    (made = none ∧ t = s) ∨ ∃ id, answer = .id id ∧ (objectType, id) ∉ s.issued ∧ made = some id ∧
      t = s.issue (objectType, id) := by
  cases answer with
  | id id =>
    rw [make] at h
    split at h
    · exact absurd h (by simp)
    · rename_i hfresh
      obtain ⟨rfl, rfl⟩ := Prod.mk.inj (Option.some.inj h)
      exact .inr ⟨id, rfl, hfresh, rfl, rfl⟩
  | nothing =>
    obtain ⟨rfl, rfl⟩ := Prod.mk.inj (Option.some.inj h)
    exact .inl ⟨rfl, rfl⟩
  | flag | policy | uuid | ids | objects => exact absurd h (by simp [make])

/-- **What a call may do.** -/
theorem exec_cases (h : exec call answer s = some (result, t)) : Quiet s t ∨
    (∃ links, call = .putMappings links ∧ t = s.putMappings links) ∨
    (∃ keys, t = s.deleteMappings keys) ∨ (∃ keys, t = s.drop keys) ∨
    (∃ key, key ∉ s.issued ∧ t = s.issue key) ∨
    ∃ objectId lookedAt id, call = .tabsCreate objectId lookedAt ∧ answer = .id id ∧
      (ObjectType.tab, id) ∉ s.issued ∧ t = s.opens id objectId := by
  have hquiet : ∀ {a : call.Result} {u : MappingState}, some (a, u) = some (result, t) → Quiet s u →
      Quiet s t := fun heq hu => (Prod.mk.inj (Option.some.inj heq)).2 ▸ hu
  have hmake : ∀ {objectType : ObjectType} {made : Option ChromiumId},
      s.make objectType answer = some (made, t) → Quiet s t ∨ ∃ key, key ∉ s.issued ∧ t = s.issue key := by
    intro objectType made hmade
    rcases make_cases hmade with ⟨-, rfl⟩ | ⟨id, -, hfresh, -, rfl⟩
    · exact .inl (.refl t)
    · exact .inr ⟨_, hfresh, rfl⟩
  cases call with
  | putMappings links => exact .inr (.inl ⟨links, rfl, (Prod.mk.inj (Option.some.inj h)).2.symm⟩)
  | deleteMappings objectType ids =>
    exact .inr (.inr (.inl ⟨_, (Prod.mk.inj (Option.some.inj h)).2.symm⟩))
  | bookmarksRemoveTree ids =>
    exact .inr (.inr (.inr (.inl ⟨_, (Prod.mk.inj (Option.some.inj h)).2.symm⟩)))
  | tabsCreate objectId lookedAt =>
    obtain ⟨⟨made, u⟩, hmade, heq⟩ := Option.map_eq_some_iff.mp h
    obtain ⟨-, rfl⟩ := Prod.mk.inj heq
    rcases make_cases hmade with ⟨rfl, rfl⟩ | ⟨id, rfl, hfresh, rfl, rfl⟩
    · exact .inl (.refl u)
    · exact .inr (.inr (.inr (.inr (.inr ⟨objectId, lookedAt, id, rfl, rfl, hfresh, rfl⟩))))
  | tabsGroup existing =>
    cases existing with
    | some id => exact .inl (hquiet h (.refl s))
    | none =>
      rcases hmake h with hquiet | hissue
      · exact .inl hquiet
      · exact .inr (.inr (.inr (.inr (.inl hissue))))
  | bookmarksCreate parentId =>
    rcases hmake h with hquiet | hissue
    · exact .inl hquiet
    · exact .inr (.inr (.inr (.inr (.inl hissue))))
  | getMappingsByLocalIds | getMappingsByObjectIds | getFieldStates | tabsUpdate | bookmarksGet
  | isMaterializing => exact .inl (hquiet h (.refl s))
  | resolveTabs | resolveRemoteSlice | setMaterializing | unlockGroup =>
    exact .inl (hquiet h ⟨rfl, rfl, rfl, fun _ h => h, rfl, rfl, rfl⟩)
  | uuidv7 =>
    cases answer with
    | uuid value =>
      simp only [exec] at h
      split at h
      · exact absurd h (by simp)
      · exact .inl (hquiet h ⟨rfl, rfl, rfl, fun _ h => List.mem_cons_of_mem _ h, rfl, rfl, rfl⟩)
    | _ => exact absurd h (by simp [exec])
  | lockGroup objectId =>
    simp only [exec] at h
    split at h
    · exact absurd h (by simp)
    · exact .inl (hquiet h ⟨rfl, rfl, rfl, fun _ h => h, rfl, rfl, rfl⟩)
  | bookmarkIds =>
    cases answer with
    | ids ids =>
      simp only [exec] at h
      split at h
      · exact .inl (hquiet h (.refl s))
      · exact absurd h (by simp)
    | _ => exact .inl (hquiet h (.refl s))
  | fetchTabRestorePolicy | flag | getDeferredMaterializationsWaitingOn =>
    cases answer <;> first
      | exact .inl (hquiet h (.refl s))
      | exact absurd h (by simp [exec])
  | throws => exact result.elim

/-- A call of which was shown what it needs keeps a profile sound, undisturbed, and is something that
the others can rely on. -/
theorem exec_lawful (hs : Sound s) (hneeds : CallNeeds call s) (hok : CallUndisturbed call answer s)
    (h : exec call answer s = some (result, t)) : Sound t ∧ Rely s t := by
  rcases exec_cases h with hquiet | ⟨links, rfl, rfl⟩ | ⟨keys, rfl⟩ | ⟨keys, rfl⟩ | ⟨key, -, rfl⟩ |
    ⟨objectId, lookedAt, id, rfl, rfl, hfresh, rfl⟩
  · exact ⟨hquiet.sound hs, hquiet.rely⟩
  · exact ⟨hs.putMappings hneeds.1 hneeds.2 hok, rely_putMappings⟩
  · exact ⟨hs.deleteMappings, rely_deleteMappings⟩
  · exact ⟨hs.drop, rely_drop⟩
  · exact ⟨hs.issue, rely_issue⟩
  · exact ⟨hs.opens hneeds (hok hfresh), rely_opens⟩

/-- A disturbed call breaks the bijection at once. -/
theorem exec_breaks (hs : Sound s) (hneeds : CallNeeds call s)
    (hdisturbed : ¬CallUndisturbed call answer s) :
    ∃ result t, exec call answer s = some (result, t) ∧ ¬Bijective t := by
  cases call with
  | putMappings links =>
    simp only [CallUndisturbed, not_forall] at hdisturbed
    obtain ⟨link, hlink, hdisturbed⟩ := hdisturbed
    exact ⟨(), _, rfl, not_bijective_putMappings hs hneeds.1 hlink hdisturbed⟩
  | tabsCreate objectId lookedAt =>
    cases answer with
    | id id =>
      simp only [CallUndisturbed, Classical.not_imp] at hdisturbed
      obtain ⟨hfresh, hdisturbed⟩ := hdisturbed
      refine ⟨some id, s.opens id objectId, ?_, not_bijective_opens hs hfresh hdisturbed⟩
      simp only [exec, make, if_neg hfresh]
      rfl
    | _ => exact absurd trivial hdisturbed
  | _ => exact absurd trivial hdisturbed

/-- What happens outside. -/
theorem outside_lawful (e : MappingOutside) (hs : Sound s) :
    Sound (outside e s) ∧ Rely s (outside e s) := by
  cases e with
  | appears key =>
    rw [outside]
    split
    · exact ⟨hs, .refl s⟩
    · exact ⟨hs.issue, rely_issue⟩
  | gone key => exact ⟨hs.drop, rely_drop⟩
  | record fields =>
    have hquiet : Quiet s (outside (.record fields) s) := ⟨rfl, rfl, rfl, fun _ h => h, rfl, rfl, rfl⟩
    exact ⟨hquiet.sound hs, hquiet.rely⟩
  | sweep keys => exact ⟨hs.deleteMappings, rely_deleteMappings⟩

theorem sound_stopped (hs : Sound s) : Sound (stopped s) := by
  have hquiet : Quiet s (stopped s) := ⟨rfl, rfl, rfl, fun _ h => h, rfl, rfl, rfl⟩
  exact hquiet.sound hs

end Calls

end Client

end HelixSync
