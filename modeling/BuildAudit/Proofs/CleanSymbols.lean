import Mathlib.Algebra.Group.Int.Defs
import Mathlib.Data.List.TakeWhile
import BuildAudit.Proofs.Attained

/-!
# Clean symbols

What a symbol table lists is clean: plain names, sizes that fit, nothing twice
(`clean_entriesOf`), and what is listed as internal is not external (`clean_of_dump`).  In every store
that calls attain, the references of an artifact are those that some clean listing comes to, and a source
has none (`Graph.CleanlyListed`): a symbol phase replaces references by listings, and nothing else touches
them.  So symbols and references are clean as a whole (`symbols_clean`).
-/

namespace BuildAudit

open Update BuildAudit.Graph

variable {x : Extractor} {g g' : Graph} {s : Store}

/-! ## Entries -/

/-- A name of letters, digits, underscores and dollars that is none of those which the toolchain puts into
every object. -/
structure IsPlainName (name : String) : Prop where
  nonempty : name ≠ ""
  chars : ∀ c ∈ name.toList, c.isAlphanum ∨ c = '_' ∨ c = '$'
  useful : name ∉ SymbolTable.housekeepingNames

/-- A size is missing or fits a signed 64-bit number. -/
def IsPlainSize (size : Option Int) : Prop := ∀ n, size = some n → 0 ≤ n ∧ n < 2 ^ 63

/-- Entries with plain names and sizes, none twice. -/
structure CleanEntries (entries : List SymbolEntry) : Prop where
  names : ∀ e ∈ entries, IsPlainName e.name
  sizes : ∀ e ∈ entries, IsPlainSize e.size
  once : entries.Nodup

namespace SymbolTable

/-- Without a version and without noise, a name is plain. -/
theorem isPlainName_baseName {raw : List Char} (nonempty : String.ofList (baseName raw) ≠ "")
    (useful : isNoise (String.ofList (baseName raw)) = false) :
    IsPlainName (String.ofList (baseName raw)) := by
  simp only [isNoise, Bool.or_eq_false_iff, List.contains_eq_mem, decide_eq_false_iff_not] at useful
  obtain ⟨⟨-, dotless⟩, other⟩ := useful
  refine ⟨nonempty, fun c hc => ?_, other⟩
  have named : isNameChar c := by
    rw [String.toList_ofList] at hc
    exact List.mem_takeWhile_imp hc
  have differs : c ≠ '.' := fun dot => dotless (dot ▸ hc)
  simpa [isNameChar, differs, or_assoc] using named

theorem isPlainSize_bind_sizeOf? (field : Option (List Char)) : IsPlainSize (field.bind sizeOf?) := by
  intro n hn
  obtain ⟨digits, -, hd⟩ := Option.bind_eq_some_iff.1 hn
  simp only [sizeOf?, Option.ite_none_right_eq_some, Option.some.injEq] at hd
  obtain ⟨fits, rfl⟩ := hd
  have limit : Number.maxInt64 < 2 ^ 63 := by decide
  omega

theorem plain_of_entryOf? {line : List Char} {e : SymbolEntry} (h : entryOf? line = some e) :
    IsPlainName e.name ∧ IsPlainSize e.size := by
  unfold entryOf? at h
  split at h
  · rename_i size code raw layout
    simp only [Option.ite_none_left_eq_some, Bool.or_eq_true, not_or, beq_iff_eq,
      Bool.not_eq_true, Option.some.injEq] at h
    obtain ⟨⟨nonempty, useful⟩, rfl⟩ := h
    exact ⟨isPlainName_baseName nonempty useful, isPlainSize_bind_sizeOf? size⟩
  · cases h

theorem clean_entriesOf (listing : String) : CleanEntries (entriesOf listing) := by
  have plain : ∀ e ∈ entriesOf listing, IsPlainName e.name ∧ IsPlainSize e.size := by
    intro e he
    obtain ⟨line, -, hl⟩ := List.mem_filterMap.1 (mem_distinct.1 he)
    exact plain_of_entryOf? hl
  exact ⟨fun e he => (plain e he).1, fun e he => (plain e he).2, nodup_distinct _⟩

end SymbolTable

theorem CleanEntries.filter {entries : List SymbolEntry} (h : CleanEntries entries)
    (p : SymbolEntry → Bool) : CleanEntries (entries.filter p) where
  names := fun e he => h.names e (List.mem_of_mem_filter he)
  sizes := fun e he => h.sizes e (List.mem_of_mem_filter he)
  once := h.once.filter p

/-! ## Dumps -/

/-- If the runs of tools come to an end, what they give is as `P` says. -/
def Runs.Gives {α : Type} (r : Runs α) (P : α → Prop) : Prop :=
  ∀ runs a runs', ExceptT.run r runs = (.ok a, runs') → P a

section Gives

variable {α β : Type} {P : α → Prop} {Q : β → Prop}

theorem Runs.gives_pure {a : α} (h : P a) : (pure a : Runs α).Gives P := by
  rintro runs _ _ ⟨⟩
  exact h

theorem Runs.Gives.bind {r : Runs α} {f : α → Runs β} (hr : r.Gives P)
    (hf : ∀ a, P a → (f a).Gives Q) : (r >>= f).Gives Q := by
  intro runs b runs'' h
  rw [run_bind_state] at h
  rcases hrun : ExceptT.run r runs with ⟨e | a, runs'⟩ <;> rw [hrun] at h
  · cases h
  · exact hf a (hr runs a runs' hrun) runs' b runs'' h

end Gives

namespace Dumper

variable (d : Dumper)

theorem gives_run (flags : List String) : (d.run flags).Gives CleanEntries := by
  intro runs entries runs' h
  unfold run at h
  rcases hr : d.tools.run d.program (flags ++ [d.path]) with failure | ⟨out, run⟩ <;> rw [hr] at h <;>
    cases h
  · exact SymbolTable.clean_entriesOf out.stdout

theorem gives_table (flags : List String) : (d.table flags).Gives CleanEntries := by
  refine (gives_run d flags).bind fun entries clean => ?_
  split
  · exact gives_run d _
  · exact Runs.gives_pure clean

/-- Three clean tables, and what is internal is not external. -/
theorem gives_tables : d.tables.Gives fun s =>
    (∀ category, CleanEntries (s.entries category)) ∧
      ∀ e ∈ s.internal, ∀ f ∈ s.external, e.name ≠ f.name := by
  refine (gives_table d _).bind fun undefined cleanUndefined => ?_
  refine (gives_table d _).bind fun defined cleanDefined => ?_
  refine (gives_table d _).bind fun external cleanExternal => Runs.gives_pure ⟨?_, ?_⟩
  · rintro (_ | _ | _)
    · exact cleanUndefined
    · exact cleanExternal
    · exact cleanDefined.filter _
  · intro e he f hf same
    obtain ⟨-, hidden⟩ := List.mem_filter.1 he
    simp only [Bool.not_eq_true', List.any_eq_false, beq_iff_eq] at hidden
    exact hidden f hf same.symm

end Dumper

/-- A listing with plain names and sizes, where nothing stands twice and nothing internal is
external. -/
structure Listing.Clean (listing : Listing) : Prop where
  names : ∀ entry ∈ listing, IsPlainName entry.2.name
  sizes : ∀ entry ∈ listing, IsPlainSize entry.2.size
  once : listing.Nodup
  apart : ∀ e ∈ listing, ∀ f ∈ listing, e.1 = .internal → f.1 = .external → e.2.name ≠ f.2.name

theorem Listing.clean_nil : Listing.Clean [] := ⟨nofun, nofun, .nil, nofun⟩

theorem mem_listing {d : ArtifactSymbols} {entry : Category × SymbolEntry} (h : entry ∈ d.listing) :
    entry.2 ∈ d.entries entry.1 := by
  unfold ArtifactSymbols.listing at h
  split at h
  · cases h
  · obtain ⟨category, -, h⟩ := List.mem_flatMap.1 h
    obtain ⟨e, he, rfl⟩ := List.mem_map.1 h
    exact he

theorem nodup_listing {d : ArtifactSymbols} (once : ∀ category, (d.entries category).Nodup) :
    d.listing.Nodup := by
  unfold ArtifactSymbols.listing
  split
  · exact .nil
  · refine List.nodup_flatMap.2 ⟨fun category _ => (once category).map (Prod.mk_right_injective _), ?_⟩
    -- tables of different categories share no entry
    refine (show Category.all.Nodup by decide).imp fun {c c'} differ entry he he' => ?_
    obtain ⟨_, -, rfl⟩ := List.mem_map.1 he
    obtain ⟨_, -, same⟩ := List.mem_map.1 he'
    exact differ (congrArg Prod.fst same).symm

/-- What dumping an artifact lists is clean. -/
theorem clean_of_dump {path : String} {type : ArtifactType} {d : ArtifactSymbols}
    (h : (dump x.files x.tools x.nm path type).1 = .ok d) : d.listing.Clean := by
  unfold dump at h
  split at h
  · cases h
  · cases h
    exact Listing.clean_nil
  · rcases hr : ExceptT.run (Dumper.tables ⟨x.tools, x.nm, path, type == .shared⟩) [] with
      ⟨failure | symbols, runs⟩
    · simp only [show StateT.run (ExceptT.run _) [] = _ from hr] at h
      cases h
    · simp only [show StateT.run (ExceptT.run _) [] = _ from hr] at h
      cases h
      obtain ⟨clean, apart⟩ := Dumper.gives_tables _ [] symbols runs hr
      exact
        { names := fun entry he => (clean entry.1).names _ (mem_listing he)
          sizes := fun entry he => (clean entry.1).sizes _ (mem_listing he)
          once := nodup_listing fun category => (clean category).once
          apart := fun e he f hf internal external => by
            have he' := mem_listing he
            have hf' := mem_listing hf
            rw [internal] at he'
            rw [external] at hf'
            exact apart _ he' _ hf' }

/-! ## Graphs -/

/-- Symbols have plain names and are demangled.  The references of an artifact are those that a clean
listing comes to, and a source has none. -/
structure Graph.CleanlyListed (g : Graph) : Prop where
  intact : g.Intact
  symbols : ∀ s ∈ g.symbols, IsPlainName s.name ∧ s.demangled = demangle s.name
  listed : ∀ id, ∃ listing : Listing, listing.Clean ∧ g.Lists id listing
  sources : ∀ a ∈ g.artifacts, a.type = .source → g.referencesAt a.id = []

theorem cleanlyListed_empty : Graph.empty.CleanlyListed where
  intact := intact_empty
  symbols := nofun
  listed := fun _ => ⟨[], Listing.clean_nil, lists_nil.2 rfl⟩
  sources := nofun

/-- Where symbols and references are as before, only new sources could be a matter. -/
theorem Graph.CleanlyListed.congr (h : g.CleanlyListed) (intact : g'.Intact)
    (symbols : g'.symbols = g.symbols) (references : g'.references = g.references)
    (sources : ∀ a ∈ g'.artifacts, a.type = .source → g.referencesAt a.id = []) :
    g'.CleanlyListed where
  intact := intact
  symbols := symbols ▸ h.symbols
  listed := fun id => by
    obtain ⟨listing, clean, lists⟩ := h.listed id
    exact ⟨listing, clean, lists.congr references symbols⟩
  sources := fun a ha type => by
    rw [referencesAt_congr references]
    exact sources a ha type

theorem Graph.SameButCommands.cleanlyListed (same : g.SameButCommands g') (intact : g'.Intact)
    (h : g.CleanlyListed) : g'.CleanlyListed := by
  refine h.congr intact same.symbols same.references fun a ha type => ?_
  obtain ⟨old, hold, ids, -, types⟩ := same.artifact ha
  exact ids ▸ h.sources old hold (types.trans type)

/-- Nothing that has symbols turns into a source. -/
theorem Graph.Absorbs.cleanlyListed {obs : List Observation} {links : List (String × String)}
    (absorbs : g.Absorbs obs links g') (h : g.CleanlyListed) : g'.CleanlyListed := by
  refine h.congr absorbs.intact absorbs.rest.symbols absorbs.rest.references fun a ha type => ?_
  rcases absorbs.old_or_new h.intact ha with ⟨old, hold, ids, -, le⟩ | new
  · have source : old.type = .source := by
      rcases ArtifactType.le_iff.1 le.1 with same | ⟨-, narrowed | narrowed⟩
      · exact same.trans type
      · exact absurd (narrowed.symm.trans type) (by decide)
      · exact absurd (narrowed.symm.trans type) (by decide)
    exact ids ▸ h.sources old hold source
  · exact referencesAt_eq_nil h.intact new

/-- References may be replaced by those of clean listings, except for those of sources. -/
theorem Graph.Replaces.cleanlyListed {ps : List (Id × Listing)} (replaces : g.Replaces ps g')
    (h : g.CleanlyListed) (clean : ∀ p ∈ ps, p.2.Clean)
    (spared : ∀ a ∈ g.artifacts, a.type = .source → a.id ∉ ps.map (·.1)) : g'.CleanlyListed where
  intact := replaces.intact
  symbols := fun s hs => by
    obtain ⟨new, grown, named⟩ := replaces.symbols
    rw [grown] at hs
    rcases List.mem_append.1 hs with old | fresh
    · exact h.symbols s old
    · obtain ⟨spelled, entry, he, name⟩ := named s fresh
      obtain ⟨p, hp, he⟩ := List.mem_flatMap.1 he
      exact ⟨name ▸ (clean p hp).names entry he, spelled⟩
  listed := fun id => by
    by_cases replaced : id ∈ ps.map (·.1)
    · obtain ⟨p, hp, rfl⟩ := List.mem_map.1 replaced
      exact ⟨p.2, clean p hp, replaces.listed p hp⟩
    · obtain ⟨listing, cleanListing, lists⟩ := h.listed id
      exact ⟨listing, cleanListing, replaces.toRegisters.lists lists (replaces.others id replaced)⟩
  sources := fun a ha type => by
    rw [replaces.artifacts] at ha
    rw [replaces.others a.id (spared a ha type)]
    exact h.sources a ha type

theorem cleanlyListed_cleared (h : g.CleanlyListed) : (x.cleared g).CleanlyListed := by
  have intact := intact_cleared (x := x) h.intact
  unfold Extractor.cleared at *
  split at intact
  · rename_i force
    rw [if_pos force]
    exact ⟨intact, h.symbols, fun _ => ⟨[], Listing.clean_nil, lists_nil.2 rfl⟩, fun _ _ _ => rfl⟩
  · rename_i force
    rw [if_neg force]
    exact h

theorem cleanlyListed_symbolUpdate (hx : x.ReadsAll) (h : g.CleanlyListed) {report : PhaseReport}
    (hr : (symbolUpdate x).exec g = (.ok report, g')) : g'.CleanlyListed := by
  obtain ⟨report', g₁, hr', -, -, replaces⟩ := exec_symbolUpdate_replaces hx h.intact
  cases hr'.symm.trans hr
  refine replaces.cleanlyListed (cleanlyListed_cleared h) (fun p hp => ?_) fun a ha type => ?_
  · obtain ⟨row, -, -, d, hd, rfl⟩ := mem_planAll.1 hp
    exact clean_of_dump hd
  · rw [(registers_cleared h.intact).artifacts] at ha
    refine not_mem_planAll fun row hrow same symbols => ?_
    obtain rfl := List.inj_on_of_nodup_map h.intact.artifactIds_nodup hrow ha same
    rw [type] at symbols
    cases symbols

theorem keptByCalls_cleanlyListed : KeptByCalls Extractor.ReadsAll Graph.CleanlyListed where
  empty := cleanlyListed_empty
  stamps := fun _ _ h => ⟨{ h.intact with }, h.symbols, h.listed, h.sources⟩
  recording := fun entries replace g h => by
    obtain ⟨report, g', hr, intact, same, -⟩ := exec_writeEntries entries replace h.intact
    rw [hr]
    exact same.cleanlyListed intact h
  dependencies := fun x hx options order g report g' h hr =>
    (absorbs_of_dependencyUpdate (x := { x with options, order }) hx h.intact hr).cleanlyListed h
  symbols := fun x hx options order g report g' h hr =>
    cleanlyListed_symbolUpdate (x := { x with options, order }) hx h hr

/-! ## Clean references -/

/-- Symbols have plain names and are demangled, sizes fit, an artifact has no reference twice and no
symbol as external and as internal, and sources have no references at all. -/
structure Graph.Clean (g : Graph) : Prop where
  names : ∀ s ∈ g.symbols, IsPlainName s.name
  demangled : ∀ s ∈ g.symbols, s.demangled = demangle s.name
  sizes : ∀ r ∈ g.references, IsPlainSize r.reference.size
  /-- No two rows agree in artifact, category, symbol, code and size. -/
  once : (g.references.map (·.reference)).Nodup
  apart : ∀ r ∈ g.references, ∀ r' ∈ g.references, r.reference.artifact = r'.reference.artifact →
    r.reference.category = .internal → r'.reference.category = .external →
      r.reference.symbol ≠ r'.reference.symbol
  sources : ∀ a ∈ g.artifacts, a.type = .source → ∀ r ∈ g.references, r.reference.artifact ≠ a.id

theorem ReferenceRow.content_mem_referencesAt {r : ReferenceRow} (hr : r ∈ g.references) :
    r.content ∈ g.referencesAt r.reference.artifact :=
  List.mem_map_of_mem (List.mem_filter.2 ⟨hr, beq_self_eq_true _⟩)

/-- The references of a listed artifact stand for the listed entries, one by one. -/
theorem Graph.Lists.map_entryOf? (hg : g.Intact) {a : Id} {listing : Listing}
    (h : g.Lists a listing) :
    (g.referencesAt a).map (fun r => (r.1.category, g.entryOf? r.1)) =
      listing.map fun entry => (entry.1, some entry.2) := by
  apply List.map_injective_iff.2 (Option.some_injective _)
  calc ((g.referencesAt a).map fun r => (r.1.category, g.entryOf? r.1)).map some
      = ((g.referencesAt a).map some).map
          (Option.map fun r => (r.1.category, g.entryOf? r.1)) := by
        rw [List.map_map, List.map_map]
        rfl
    _ = listing.map fun entry =>
          (g.entryReference? a entry).map fun r => (r.1.category, g.entryOf? r.1) := by
        rw [show (g.referencesAt a).map some = _ from h, List.map_map]
        rfl
    _ = (listing.map fun entry => (entry.1, some entry.2)).map some := by
        rw [List.map_map]
        refine List.map_congr_left fun entry he => ?_
        obtain ⟨s, hs⟩ := h.symbol he
        obtain ⟨r, hr⟩ : ∃ r, g.entryReference? a entry = some r := ⟨_, by rw [entryReference?, hs]; rfl⟩
        obtain ⟨category, -, stands⟩ := entryOf?_of_entryReference? hg hr
        simp [hr, category, stands]

theorem Graph.CleanlyListed.nodup_references (h : g.CleanlyListed) :
    (g.references.map (·.reference)).Nodup := by
  rw [List.nodup_iff_count_le_one]
  intro r
  obtain ⟨listing, clean, lists⟩ := h.listed r.artifact
  have own : (g.references.map (·.reference)).filter (·.artifact == r.artifact) =
      (g.referencesAt r.artifact).map (·.1) := by
    rw [referencesAt, List.filter_map, List.map_map]
    rfl
  have entries : (listing.map fun entry => (entry.1, some entry.2)).Nodup :=
    clean.once.map fun e f same => by simpa [Prod.ext_iff] using same
  rw [← lists.map_entryOf? h.intact] at entries
  have once : ((g.referencesAt r.artifact).map (·.1)).Nodup := by
    refine List.Nodup.of_map (fun r => (r.category, g.entryOf? r)) ?_
    rwa [List.map_map]
  calc (g.references.map (·.reference)).count r
      = ((g.references.map (·.reference)).filter (·.artifact == r.artifact)).count r := by
        rw [List.count_filter]
        exact beq_self_eq_true r.artifact
    _ ≤ 1 := by
        rw [own]
        exact List.nodup_iff_count_le_one.1 once r

/-- A reference stands for an entry of the listing of its artifact. -/
theorem Graph.Lists.exists_entryOf? (hg : g.Intact) {a : Id} {listing : Listing}
    (h : g.Lists a listing) {r : ReferenceRow} (hr : r ∈ g.references)
    (artifact : r.reference.artifact = a) :
    ∃ entry ∈ listing, r.reference.category = entry.1 ∧ r.reference.size = entry.2.size ∧
      ∃ s, g.symbol? r.reference.symbol = some s ∧ s.name = entry.2.name := by
  obtain ⟨entry, he, comes⟩ := h.exists_entry (artifact ▸ ReferenceRow.content_mem_referencesAt hr)
  obtain ⟨category, -, stands⟩ := entryOf?_of_entryReference? hg comes
  obtain ⟨s, found, same⟩ := Option.map_eq_some_iff.1 stands
  exact ⟨entry, he, category, congrArg (·.size) same, s, found, congrArg (·.name) same⟩

theorem Graph.CleanlyListed.clean (h : g.CleanlyListed) : g.Clean where
  names := fun s hs => (h.symbols s hs).1
  demangled := fun s hs => (h.symbols s hs).2
  sizes := fun r hr => by
    obtain ⟨listing, clean, lists⟩ := h.listed r.reference.artifact
    obtain ⟨entry, he, -, size, -⟩ := lists.exists_entryOf? h.intact hr rfl
    exact size ▸ clean.sizes entry he
  once := h.nodup_references
  apart := fun r hr r' hr' artifact internal external same => by
    obtain ⟨listing, clean, lists⟩ := h.listed r'.reference.artifact
    obtain ⟨e, he, category, -, s, found, name⟩ := lists.exists_entryOf? h.intact hr artifact
    obtain ⟨f, hf, category', -, s', found', name'⟩ := lists.exists_entryOf? h.intact hr' rfl
    rw [same] at found
    obtain rfl := Option.some.inj (found.symm.trans found')
    exact clean.apart e he f hf (category ▸ internal) (category' ▸ external)
      (name.symm.trans name')
  sources := fun a ha type r hr same => by
    have none := h.sources a ha type
    rw [← same] at none
    exact List.not_mem_nil (none ▸ ReferenceRow.content_mem_referencesAt hr)

/-- Whatever is imported and extracted, in whatever order, with whatever files and tools there are each
time: symbols have plain names and are demangled, sizes fit, an artifact has no reference twice and no
symbol as external and as internal, and sources have no references. -/
theorem symbols_clean (attained : s.Attained Extractor.ReadsAll) : s.graph.Clean :=
  (attained.kept keptByCalls_cleanlyListed).2.clean

/-- What a dumper may print: a name with a version, twice, a housekeeping name, a label of a constant pool
and a size that does not fit. -/
def untidyExtractor : Extractor where
  files := ⟨[(["w"], .directory), (["w", "m.c"], .file .empty),
    (["w", "m.o"], .file ⟨#[0x7f, 0x45, 0x4c, 0x46]⟩)], []⟩
  tools := fun _ args => .ok {
    stdout :=
      if args.contains "--extern-only" then "0 ffffffffffffffff T main\n"
      else if args.contains "-S" then "0 ffffffffffffffff T main\n10 8 t step\n18 4 r .LC0\n"
      else "U puts@@V_2\nU puts@V_1\nU _GLOBAL_OFFSET_TABLE_\n" }
  searchDirectories := []

/-- An object that has been dumped, and its source. -/
def untidyExtracted : Store :=
  ((Call.extractSymbols {} .fifo).run untidyExtractor ⟨2, 0⟩
    ((Call.importLog "gcc -c -o m.o m.c".toUTF8 "/w" {}).run untidyExtractor ⟨1, 0⟩ .empty).2).2

/-- Three references of the object are left, and none of its source. -/
theorem symbols_clean_untidy :
    untidyExtracted.graph.Clean ∧
      untidyExtracted.graph.artifacts.map (·.type) = [.object, .source] ∧
      untidyExtracted.graph.references.map (·.reference) =
        [⟨1, 1, .undefined, 'U', none⟩, ⟨1, 2, .external, 'T', none⟩,
          ⟨1, 3, .internal, 't', some 8⟩] := by
  have reads : untidyExtractor.ReadsAll := fun _ => rfl
  exact ⟨symbols_clean (.call (.call .empty reads _ _) reads _ _), by decide +kernel,
    by decide +kernel⟩

end BuildAudit
