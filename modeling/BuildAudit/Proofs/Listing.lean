import BuildAudit.Extraction
import BuildAudit.Proofs.Integrity

/-!
# Listings

What the symbol phase lists for an artifact (`Extractor.listing`) depends on files and tools alone, and
if the dumper starts, it is only missed for a file that cannot be read (`dump_eq_ok`).
`Graph.Lists g a listing` says that the references of an artifact are those that a listing comes to.
A graph that has registered more symbols still lists what it listed (`Registers.lists`), and writing
entries one after the other enters them as references (`enters_storeEntry`, `enters_forM`).
-/

namespace BuildAudit

open Update BuildAudit.Graph

/-! ## Listings -/

/-- What symbol tables list, each entry with the category of its table. -/
abbrev Listing := List (Category × SymbolEntry)

/-- What is listed for an artifact; a linker script has no symbols. -/
def ArtifactSymbols.listing (s : ArtifactSymbols) : Listing :=
  match s.format with
  | .linkerScript => []
  | .binary => Category.all.flatMap fun category => (s.entries category).map (category, ·)

theorem ArtifactSymbols.filter_listing {s : ArtifactSymbols} (binary : s.format = .binary)
    (category : Category) :
    s.listing.filter (·.1 == category) = (s.entries category).map (category, ·) := by
  have table (own : Category) : ((s.entries own).map (own, ·)).filter (·.1 == category) =
      if own = category then (s.entries own).map (own, ·) else [] := by
    by_cases same : own = category <;> simp [List.filter_map, Function.comp_def, same]
  rw [listing, binary]
  simp only [Category.all, List.flatMap_cons, List.flatMap_nil, List.filter_append, table]
  cases category <;> simp

/-- What the phase lists for an artifact; one without symbols, or that cannot be dumped, has none. -/
def Extractor.listing (x : Extractor) (a : Artifact) : Listing :=
  if a.type.hasSymbols then
    match (dump x.files x.tools x.nm a.name a.type).1 with
    | .ok s => s.listing
    | .error _ => []
  else []

/-- The dumper can always be started. -/
def Extractor.Starts (x : Extractor) : Prop := ∀ args, ∃ out, x.tools x.nm args = .ok out

/-! ## Dumping -/

/-- The runs of tools come to an end, whatever has run before. -/
def Runs.Finishes {α : Type} (r : Runs α) : Prop :=
  ∀ runs, ∃ a runs', ExceptT.run r runs = (.ok a, runs')

namespace Runs

variable {α β : Type}

theorem finishes_pure (a : α) : (pure a : Runs α).Finishes := fun runs => ⟨a, runs, rfl⟩

theorem Finishes.bind {r : Runs α} {f : α → Runs β} (hr : r.Finishes) (hf : ∀ a, (f a).Finishes) :
    (r >>= f).Finishes := by
  intro runs
  obtain ⟨a, runs', h⟩ := hr runs
  obtain ⟨b, runs'', h'⟩ := hf a runs'
  refine ⟨b, runs'', ?_⟩
  rw [run_bind_state, h]
  exact h'

end Runs

namespace Dumper

variable {d : Dumper}

theorem finishes_run (starts : ∀ args, ∃ out, d.tools d.program args = .ok out)
    (flags : List String) : (d.run flags).Finishes := by
  intro runs
  obtain ⟨out, h⟩ := starts (flags ++ [d.path])
  exact ⟨_, _, by simp only [run, Toolbox.run, h]; rfl⟩

theorem finishes_table (starts : ∀ args, ∃ out, d.tools d.program args = .ok out)
    (flags : List String) : (d.table flags).Finishes := by
  refine (finishes_run starts flags).bind fun entries => ?_
  split
  · exact finishes_run starts _
  · exact Runs.finishes_pure entries

theorem finishes_tables (starts : ∀ args, ∃ out, d.tools d.program args = .ok out) :
    d.tables.Finishes :=
  (finishes_table starts _).bind fun _ => (finishes_table starts _).bind fun _ =>
    (finishes_table starts _).bind fun _ => Runs.finishes_pure _

end Dumper

variable {x : Extractor}

/-- If the dumper starts, dumping fails only for a file that cannot be read. -/
theorem dump_eq_ok (starts : x.Starts) {path : String} {format : ArtifactFormat}
    (h : formatOf x.files path = .ok format) (type : ArtifactType) :
    ∃ s, (dump x.files x.tools x.nm path type).1 = .ok s := by
  unfold dump
  rw [h]
  cases format with
  | linkerScript => exact ⟨_, rfl⟩
  | binary =>
    obtain ⟨s, runs, hs⟩ :=
      Dumper.finishes_tables (d := ⟨x.tools, x.nm, path, type == .shared⟩) starts []
    refine ⟨{ s with runs }, ?_⟩
    change StateT.run (ExceptT.run _) [] = _ at hs
    simp only [hs]

theorem dump_eq_error {path : String} {failure : ReadFailure}
    (h : formatOf x.files path = .error failure) (type : ArtifactType) :
    (dump x.files x.tools x.nm path type).1 = .error (.read failure) := by
  unfold dump
  rw [h]

/-! ## References by artifact -/

/-- A reference without the id of its row. -/
def ReferenceRow.content (r : ReferenceRow) : Reference × Option String :=
  (r.reference, r.strayCategory)

variable {g g' g'' : Graph} {a b : Id} {listing listing' : Listing}

namespace Graph

/-- The references of an artifact. -/
def referencesAt (g : Graph) (a : Id) : List (Reference × Option String) :=
  (g.references.filter (·.reference.artifact == a)).map ReferenceRow.content

theorem referencesAt_eq (g : Graph) (a : Id) :
    g.referencesAt a = (g.references.map ReferenceRow.content).filter (·.1.artifact == a) := by
  rw [List.filter_map]
  rfl

theorem referencesAt_congr (references : g'.references = g.references) (a : Id) :
    g'.referencesAt a = g.referencesAt a := by
  rw [referencesAt, referencesAt, references]

theorem referencesAt_filter (g : Graph) (a : Id) (p : ReferenceRow → Bool) :
    Graph.referencesAt { g with references := g.references.filter p } a =
      (g.references.filter fun r => r.reference.artifact == a && p r).map ReferenceRow.content := by
  rw [referencesAt, List.filter_filter]

/-- The reference that a listed entry comes to, if its symbol is registered. -/
def entryReference? (g : Graph) (a : Id) (entry : Category × SymbolEntry) :
    Option (Reference × Option String) :=
  (g.symbolNamed? entry.2.name).map fun s =>
    (⟨a, s.id, entry.1, entry.2.code, entry.2.size⟩, none)

/-- The references of an artifact are those that the listing comes to. -/
def Lists (g : Graph) (a : Id) (listing : Listing) : Prop :=
  (g.referencesAt a).map some = listing.map (g.entryReference? a)

theorem lists_nil : g.Lists a [] ↔ g.referencesAt a = [] := by
  rw [Lists, List.map_nil, List.map_eq_nil_iff]

/-- Every symbol of a listing is registered once the references are there. -/
theorem Lists.symbol (h : g.Lists a listing) {entry : Category × SymbolEntry}
    (he : entry ∈ listing) : ∃ s, g.symbolNamed? entry.2.name = some s := by
  have member : g.entryReference? a entry ∈ (g.referencesAt a).map some := by
    rw [h]
    exact List.mem_map_of_mem he
  obtain ⟨r, -, hr⟩ := List.mem_map.1 member
  obtain ⟨s, hs, -⟩ := Option.map_eq_some_iff.1 hr.symm
  exact ⟨s, hs⟩

/-- The entry of a symbol table that a reference stands for, if its symbol is there. -/
def entryOf? (g : Graph) (r : Reference) : Option SymbolEntry :=
  (g.symbol? r.symbol).map fun s => ⟨s.name, r.code, r.size⟩

/-- The entries that an artifact has in one category. -/
def entriesOf (g : Graph) (a : Id) (category : Category) : List (Option SymbolEntry) :=
  (g.referencesOf a category).map g.entryOf?

theorem referencesOf_eq (g : Graph) (a : Id) (category : Category) :
    g.referencesOf a category =
      ((g.referencesAt a).filter fun r => r.2.isNone && r.1.category == category).map (·.1) := by
  simp only [referencesOf, readableReferences, referencesAt, List.filter_map,
    List.map_map, List.filter_filter]
  refine congrArg (List.map _) (List.filter_congr fun r _ => ?_)
  simp only [Function.comp_apply]
  ac_rfl

/-- The reference that an entry comes to stands for the entry. -/
theorem entryOf?_of_entryReference? (hg : g.Intact) {entry : Category × SymbolEntry}
    {r : Reference × Option String} (h : g.entryReference? a entry = some r) :
    r.1.category = entry.1 ∧ r.2 = none ∧ g.entryOf? r.1 = some entry.2 := by
  obtain ⟨s, named, rfl⟩ := Option.map_eq_some_iff.1 h
  obtain ⟨hs, name⟩ := (symbolNamed?_eq_some_iff hg.symbolNames).1 named
  have found := (symbol?_eq_some_iff hg.symbolIds_nodup).2 ⟨hs, rfl⟩
  exact ⟨rfl, rfl, by simp [entryOf?, found, name]⟩

/-- Every reference of a listed artifact comes from an entry. -/
theorem Lists.exists_entry (h : g.Lists a listing) {r : Reference × Option String}
    (hr : r ∈ g.referencesAt a) : ∃ entry ∈ listing, g.entryReference? a entry = some r := by
  have member : some r ∈ listing.map (g.entryReference? a) := by
    rw [← h]
    exact List.mem_map_of_mem hr
  exact List.mem_map.1 member

theorem Lists.unstrayed (hg : g.Intact) (h : g.Lists a listing) :
    ∀ r ∈ g.referencesAt a, r.2 = none := by
  intro r hr
  obtain ⟨entry, -, he⟩ := h.exists_entry hr
  exact (entryOf?_of_entryReference? hg he).2.1

/-- A listed artifact has the listed entries. -/
theorem Lists.entriesOf_eq (hg : g.Intact) (h : g.Lists a listing) (category : Category) :
    g.entriesOf a category = (listing.filter (·.1 == category)).map (some ·.2) := by
  unfold Lists at h
  rw [entriesOf, referencesOf_eq]
  generalize g.referencesAt a = rows at h
  induction rows generalizing listing with
  | nil =>
    rw [List.map_nil, eq_comm, List.map_eq_nil_iff] at h
    rw [h]
    rfl
  | cons r rows ih =>
    rcases listing with _ | ⟨entry, listing⟩
    · cases h
    · obtain ⟨first, rest⟩ := List.cons.inj h
      obtain ⟨same, stray, stands⟩ := entryOf?_of_entryReference? hg first.symm
      have ih := ih rest
      by_cases here : entry.1 = category
      · simpa [same, stray, here, stands] using ih
      · simpa [same, here] using ih

/-! ## Registering symbols -/

/-- `g'` is `g` with symbols registered that the listing names, each demangled; references may
differ. -/
structure Registers (g : Graph) (listing : Listing) (g' : Graph) : Prop where
  intact : g'.Intact
  commands : g'.commands = g.commands
  artifacts : g'.artifacts = g.artifacts
  edges : g'.edges = g.edges
  stamps : g'.stamps = g.stamps
  symbols : ∃ new, g'.symbols = g.symbols ++ new ∧
    ∀ s ∈ new, s.demangled = demangle s.name ∧ ∃ entry ∈ listing, entry.2.name = s.name

theorem Registers.refl (hg : g.Intact) : g.Registers [] g :=
  ⟨hg, rfl, rfl, rfl, rfl, [], by simp, nofun⟩

theorem Registers.trans (h : g.Registers listing g') (h' : g'.Registers listing' g'') :
    g.Registers (listing ++ listing') g'' := by
  obtain ⟨new, grown, named⟩ := h.symbols
  obtain ⟨new', grown', named'⟩ := h'.symbols
  refine ⟨h'.intact, h'.commands.trans h.commands, h'.artifacts.trans h.artifacts,
    h'.edges.trans h.edges, h'.stamps.trans h.stamps, new ++ new', ?_, fun s hs => ?_⟩
  · rw [grown', grown, List.append_assoc]
  · rcases List.mem_append.1 hs with hs | hs
    · obtain ⟨spelled, entry, he, name⟩ := named s hs
      exact ⟨spelled, entry, List.mem_append_left _ he, name⟩
    · obtain ⟨spelled, entry, he, name⟩ := named' s hs
      exact ⟨spelled, entry, List.mem_append_right _ he, name⟩

theorem Registers.mono (h : g.Registers listing g') (sub : ∀ e ∈ listing, e ∈ listing') :
    g.Registers listing' g' := by
  obtain ⟨new, grown, named⟩ := h.symbols
  refine { h with symbols := ⟨new, grown, fun s hs => ?_⟩ }
  obtain ⟨spelled, entry, he, name⟩ := named s hs
  exact ⟨spelled, entry, sub entry he, name⟩

theorem Registers.hasArtifact (h : g.Registers listing g') (id : Id) :
    g'.hasArtifact id = g.hasArtifact id := by
  rw [Graph.hasArtifact, Graph.hasArtifact, h.artifacts]

/-- A registered symbol keeps its row. -/
theorem Registers.symbolNamed? (h : g.Registers listing g') {name : String} {s : Symbol}
    (hs : g.symbolNamed? name = some s) : g'.symbolNamed? name = some s := by
  obtain ⟨new, grown, -⟩ := h.symbols
  unfold Graph.symbolNamed? at *
  rw [grown, List.find?_append, hs, Option.some_or]

/-- An artifact that is listed stays listed while its references stay. -/
theorem Registers.lists (h : g.Registers listing g') (lists : g.Lists a listing')
    (same : g'.referencesAt a = g.referencesAt a) : g'.Lists a listing' := by
  unfold Lists
  rw [same, show (g.referencesAt a).map some = _ from lists]
  refine List.map_congr_left fun entry he => ?_
  obtain ⟨s, hs⟩ := lists.symbol he
  rw [entryReference?, entryReference?, hs, h.symbolNamed? hs]

/-- Nothing is registered if every symbol is there. -/
theorem Registers.symbols_eq (h : g.Registers listing g')
    (known : ∀ entry ∈ listing, ∃ s, g.symbolNamed? entry.2.name = some s) :
    g'.symbols = g.symbols := by
  obtain ⟨new, grown, named⟩ := h.symbols
  rcases new with _ | ⟨s, new⟩
  · rw [grown, List.append_nil]
  · obtain ⟨-, entry, he, name⟩ := named s List.mem_cons_self
    obtain ⟨t, ht⟩ := known entry he
    have names := h.intact.symbolNames
    rw [grown, List.map_append, List.nodup_append] at names
    obtain ⟨ht, same⟩ := (symbolNamed?_eq_some_iff names.1).1 ht
    exact absurd (same.trans name)
      (names.2.2 _ (List.mem_map_of_mem ht) _ (List.mem_map_of_mem List.mem_cons_self))

/-! ## Entering listings -/

/-- `g'` is `g` with the references that a listing of an artifact comes to, and their symbols. -/
structure Enters (g : Graph) (a : Id) (listing : Listing) (g' : Graph) : Prop
    extends g.Registers listing g' where
  entered : ∃ rows, g'.references = g.references ++ rows ∧
    rows.map (some ·.content) = listing.map (g'.entryReference? a)

theorem Enters.refl (hg : g.Intact) (a : Id) : g.Enters a [] g :=
  ⟨.refl hg, [], by simp, rfl⟩

theorem Enters.trans (h : g.Enters a listing g') (h' : g'.Enters a listing' g'') :
    g.Enters a (listing ++ listing') g'' := by
  obtain ⟨rows, grown, entered⟩ := h.entered
  obtain ⟨rows', grown', entered'⟩ := h'.entered
  refine ⟨h.toRegisters.trans h'.toRegisters, rows ++ rows', ?_, ?_⟩
  · rw [grown', grown, List.append_assoc]
  · rw [List.map_append, List.map_append, entered', entered]
    congr 1
    -- what has been entered first still comes to the same references
    refine List.map_congr_left fun entry he => ?_
    have member : g'.entryReference? a entry ∈ rows.map (some ·.content) := by
      rw [entered]
      exact List.mem_map_of_mem he
    obtain ⟨r, -, hr⟩ := List.mem_map.1 member
    obtain ⟨s, hs, -⟩ := Option.map_eq_some_iff.1 hr.symm
    rw [entryReference?, entryReference?, hs, h'.toRegisters.symbolNamed? hs]

/-- Rows that a listing comes to belong to its artifact. -/
theorem artifact_eq_of_entered {rows : List ReferenceRow}
    (entered : rows.map (some ·.content) = listing.map (g.entryReference? a)) :
    ∀ r ∈ rows, r.reference.artifact = a := by
  intro r hr
  have member : some r.content ∈ listing.map (g.entryReference? a) := by
    rw [← entered]
    exact List.mem_map_of_mem hr
  obtain ⟨entry, -, he⟩ := List.mem_map.1 member
  obtain ⟨s, -, hs⟩ := Option.map_eq_some_iff.1 he
  exact (congrArg (·.1.artifact) hs).symm

theorem Enters.lists (h : g.Enters a listing g') (none : g.referencesAt a = []) :
    g'.Lists a listing := by
  obtain ⟨rows, grown, entered⟩ := h.entered
  have all : rows.filter (·.reference.artifact == a) = rows := List.filter_eq_self.2 fun r hr => by
    simpa using artifact_eq_of_entered entered r hr
  unfold referencesAt at none
  rw [Lists, referencesAt, grown, List.filter_append, List.map_append, none, List.nil_append, all,
    List.map_map, ← entered]
  rfl

theorem Enters.referencesAt_of_ne (h : g.Enters a listing g') (differ : b ≠ a) :
    g'.referencesAt b = g.referencesAt b := by
  obtain ⟨rows, grown, entered⟩ := h.entered
  have none : rows.filter (·.reference.artifact == b) = [] := List.filter_eq_nil_iff.2 fun r hr => by
    simpa [artifact_eq_of_entered entered r hr] using Ne.symm differ
  rw [referencesAt, grown, List.filter_append, none, List.append_nil, referencesAt]

/-- Asking for the id of a symbol registers its name. -/
theorem registers_symbolId (hg : g.Intact) (category : Category) (e : SymbolEntry) :
    ∃ s g', (symbolId e.name (demangle e.name)).exec g = (.ok s.id, g') ∧
      g.Registers [(category, e)] g' ∧ g'.symbolNamed? e.name = some s ∧
      g'.references = g.references := by
  have intact := keeps_symbolId e.name (demangle e.name) g hg
  have hr := exec_symbolId e.name (demangle e.name) g
  rcases known : g.symbolNamed? e.name with _ | s <;> rw [known] at hr <;> rw [hr] at intact
  · refine ⟨⟨nextId (g.symbols.map (·.id)), e.name, demangle e.name⟩, _, hr,
      ⟨intact, rfl, rfl, rfl, rfl, _, rfl, ?_⟩, ?_, rfl⟩
    · intro s hs
      obtain rfl := List.mem_singleton.1 hs
      exact ⟨rfl, _, List.mem_singleton_self _, rfl⟩
    · unfold Graph.symbolNamed? at *
      simp [List.find?_append, known]
  · exact ⟨s, g, hr, (Registers.refl hg).mono nofun, known, rfl⟩

theorem enters_storeEntry (hg : g.Intact) (there : g.hasArtifact a) (category : Category)
    (e : SymbolEntry) :
    ∃ g', (storeEntry a category e).exec g = (.ok (), g') ∧ g.Enters a [(category, e)] g' := by
  obtain ⟨s, g', hr, registers, hs, references⟩ := registers_symbolId hg category e
  have intact := keeps_addReference ⟨a, s.id, category, e.code, e.size⟩ g' registers.intact
  have hr' := exec_addReference ⟨a, s.id, category, e.code, e.size⟩ g'
  have row := ((symbolNamed?_eq_some_iff registers.intact.symbolNames).1 hs).1
  rw [registers.hasArtifact, if_pos ⟨there, hasSymbol_iff.2 ⟨s, row, rfl⟩⟩] at hr'
  rw [hr'] at intact
  refine ⟨_, (exec_bind_of_ok hr).trans hr', ⟨intact, registers.commands, registers.artifacts,
    registers.edges, registers.stamps, registers.symbols⟩, [_], congrArg (· ++ _) references, ?_⟩
  have entry : g'.entryReference? a (category, e) =
      some (⟨a, s.id, category, e.code, e.size⟩, none) := by
    rw [entryReference?, hs]
    rfl
  exact congrArg (fun o => [o]) entry.symm

theorem enters_forM {β : Type} {f : β → Update PUnit} {l : β → Listing} (hg : g.Intact)
    (there : g.hasArtifact a)
    (hf : ∀ b g, g.Intact → g.hasArtifact a →
      ∃ g', (f b).exec g = (.ok (), g') ∧ g.Enters a (l b) g') (bs : List β) :
    ∃ g', (bs.forM f).exec g = (.ok (), g') ∧ g.Enters a (bs.flatMap l) g' := by
  induction bs generalizing g with
  | nil => exact ⟨g, rfl, .refl hg a⟩
  | cons b bs ih =>
    obtain ⟨g', hr, enters⟩ := hf b g hg there
    obtain ⟨g'', hr', enters'⟩ := ih enters.intact (by rw [enters.hasArtifact]; exact there)
    exact ⟨g'', (exec_bind_of_ok hr).trans hr', enters.trans enters'⟩

end Graph

end BuildAudit
