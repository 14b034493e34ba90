import BuildAudit.Proofs.LinkAudits
import BuildAudit.Proofs.NameOrder

/-!
# Symbols that are left undefined

The audit of undefined symbols, in terms of rows: which references and edges there are.  It lists exactly
the symbols that an artifact refers to as undefined and that none of its direct dependencies has as
external, in the order of their names, and with each symbol all artifacts that have it as external
(`undefinedSymbols_exact`).
-/

namespace BuildAudit

open BuildAudit.Graph

variable {g : Graph} {a : Id}

/-! ## References -/

/-- The artifact has a reference of the category to the symbol. -/
def Graph.Refers (g : Graph) (artifact : Id) (category : Category) (symbol : Id) : Prop :=
  ∃ row ∈ g.references, row.strayCategory = none ∧ row.reference.artifact = artifact ∧
    row.reference.category = category ∧ row.reference.symbol = symbol

instance (g : Graph) (artifact : Id) (category : Category) (symbol : Id) :
    Decidable (g.Refers artifact category symbol) :=
  inferInstanceAs (Decidable (∃ row ∈ g.references, _))

theorem mem_symbolsOf_iff {category : Category} {symbol : Id} :
    symbol ∈ g.symbolsOf a category ↔ g.Refers a category symbol := by
  simp only [symbolsOf, referencesOf, readableReferences, Refers, List.mem_map, List.mem_filter,
    Option.isNone_iff_eq_none, Bool.and_eq_true, beq_iff_eq]
  constructor
  · rintro ⟨_, ⟨⟨row, ⟨hrow, readable⟩, rfl⟩, own, same⟩, rfl⟩
    exact ⟨row, hrow, readable, own, same, rfl⟩
  · rintro ⟨row, hrow, readable, own, same, rfl⟩
    exact ⟨_, ⟨⟨row, ⟨hrow, readable⟩, rfl⟩, own, same⟩, rfl⟩

/-- What the direct dependencies define, by edges. -/
theorem mem_providedTo_iff_refers (hg : g.Intact) {symbol : Id} :
    symbol ∈ providedTo g a ↔ ∃ d, ⟨a, d⟩ ∈ g.edges ∧ g.Refers d .external symbol := by
  simp only [mem_providedTo_iff, dependenciesOf, List.mem_filter, List.contains_iff_mem, mem_symbolsOf_iff]
  constructor
  · rintro ⟨d, ⟨-, edge⟩, provides⟩
    exact ⟨d.id, edge, provides⟩
  · rintro ⟨_, edge, provides⟩
    obtain ⟨d, hd, rfl⟩ := hasArtifact_iff.1 (hg.edgeEnds _ edge).2
    exact ⟨d, ⟨hd, edge⟩, provides⟩

theorem mem_openSymbols_iff_refers (hg : g.Intact) {symbol : Id} :
    symbol ∈ openSymbols g a ↔
      g.Refers a .undefined symbol ∧ ∀ d, ⟨a, d⟩ ∈ g.edges → ¬ g.Refers d .external symbol := by
  rw [mem_openSymbols_iff, mem_symbolsOf_iff, mem_providedTo_iff_refers hg, not_exists]
  simp only [not_and]

theorem mem_exporters_iff {symbol : Id} {c : Artifact} :
    c ∈ g.exporters symbol ↔ c ∈ g.artifacts ∧ g.Refers c.id .external symbol := by
  rw [exporters, List.mem_filter, List.contains_iff_mem, mem_symbolsOf_iff]

/-! ## The audit -/

namespace UnresolvedSymbol

theorem le_trans (u v w : UnresolvedSymbol) (h : le u v) (h' : le v w) : le u w := by
  simp only [le, decide_eq_true_eq] at *
  exact String.le_trans h h'

theorem le_total (u v : UnresolvedSymbol) : le u v || le v u := by
  simpa [le] using String.le_total u.symbol.name v.symbol.name

end UnresolvedSymbol

/-- The entries of the audit, before they are sorted. -/
theorem mem_entries_iff {u : UnresolvedSymbol} :
    u ∈ (openSymbols g a).filterMap g.unresolved? ↔
      u.symbol.id ∈ openSymbols g a ∧ g.symbol? u.symbol.id = some u.symbol ∧
        u.candidates = g.exporters u.symbol.id := by
  simp only [List.mem_filterMap, unresolved?_eq_some_iff]
  constructor
  · rintro ⟨_, hid, rfl, row, candidates⟩
    exact ⟨hid, row, candidates⟩
  · rintro ⟨hid, row, candidates⟩
    exact ⟨_, hid, rfl, row, candidates⟩

/-- Entries with the same name are the same. -/
theorem eq_of_name_eq (hg : g.Intact) {u v : UnresolvedSymbol}
    (hu : u ∈ (openSymbols g a).filterMap g.unresolved?) (hv : v ∈ (openSymbols g a).filterMap g.unresolved?)
    (same : u.symbol.name = v.symbol.name) : u = v := by
  obtain ⟨-, row, candidates⟩ := mem_entries_iff.1 hu
  obtain ⟨-, row', candidates'⟩ := mem_entries_iff.1 hv
  have ids := hg.symbolIds_nodup
  have symbols : u.symbol = v.symbol := List.inj_on_of_nodup_map hg.symbolNames
    ((symbol?_eq_some_iff ids).1 row).1 ((symbol?_eq_some_iff ids).1 row').1 same
  have same : u.candidates = v.candidates := by rw [candidates, candidates', symbols]
  calc u = ⟨u.symbol, u.candidates⟩ := rfl
    _ = v := by rw [symbols, same]

/-- The audit lists the symbols that the artifact refers to as undefined and that no direct dependency has
as external, each once and in the order of the bytes of their names.  With each symbol it lists the
artifacts of the whole graph that have it as external, in the order of their ids; none of these is a
direct dependency. -/
theorem undefinedSymbols_exact (hg : g.Intact) (a : Id) :
    ∃ us, undefinedSymbols g a = .ok us ∧
      (∀ symbol, symbol ∈ us.map (·.symbol) ↔
        symbol ∈ g.symbols ∧ g.Refers a .undefined symbol.id ∧
          ∀ d, ⟨a, d⟩ ∈ g.edges → ¬ g.Refers d .external symbol.id) ∧
      us.Pairwise (fun u v => Text.bytes u.symbol.name < Text.bytes v.symbol.name) ∧
      ∀ u ∈ us,
        (∀ c, c ∈ u.candidates ↔ c ∈ g.artifacts ∧ g.Refers c.id .external u.symbol.id) ∧
        (u.candidates.map (·.id)).Pairwise (· < ·) ∧ ∀ c ∈ u.candidates, ⟨a, c.id⟩ ∉ g.edges := by
  have listed {u : UnresolvedSymbol} := (List.mergeSort_perm _ UnresolvedSymbol.le).mem_iff.trans
    (mem_entries_iff (g := g) (a := a) (u := u))
  have ids := hg.symbolIds_nodup
  refine ⟨_, undefinedSymbols_eq hg a, fun symbol => ?_, ?_, fun u hu => ?_⟩
  · rw [← mem_openSymbols_iff_refers hg, List.mem_map]
    constructor
    · rintro ⟨u, hu, rfl⟩
      obtain ⟨left, row, -⟩ := listed.1 hu
      exact ⟨((symbol?_eq_some_iff ids).1 row).1, left⟩
    · rintro ⟨hsymbol, left⟩
      have row := (symbol?_eq_some_iff ids).2 ⟨hsymbol, rfl⟩
      exact ⟨⟨symbol, g.exporters symbol.id⟩, listed.2 ⟨left, row, rfl⟩, rfl⟩
  · have once : ((openSymbols g a).filterMap g.unresolved?).Nodup := by
      refine List.Nodup.of_map (·.symbol.id) ?_
      rw [map_symbol_entries fun id hid => hasSymbol_of_mem_symbolsOf hg (mem_openSymbols_iff.1 hid).1]
      exact nodup_openSymbols g a
    refine pairwise_lt_mergeSort UnresolvedSymbol.le_trans UnresolvedSymbol.le_total once ?_
    intro u hu v hv le other
    rw [UnresolvedSymbol.le, decide_eq_true_eq] at le
    exact Text.bytes_lt_iff.2 (lt_of_le_of_ne le fun same => other (eq_of_name_eq hg hu hv same))
  · obtain ⟨left, -, candidates⟩ := listed.1 hu
    rw [candidates]
    refine ⟨fun c => mem_exporters_iff, hg.artifactIds.sublist (List.filter_sublist.map _),
      fun c hc edge => ?_⟩
    -- a direct dependency would provide the symbol
    exact ((mem_openSymbols_iff_refers hg).1 left).2 c.id edge (mem_exporters_iff.1 hc).2

/-- A program that is linked against one library and needs, in two references, what two others have. -/
def looselyLinked : Graph where
  artifacts := [⟨1, "/app", .executable, none⟩, ⟨2, "/libm.so", .shared, none⟩,
    ⟨3, "/libz.so", .shared, none⟩, ⟨4, "/libz.a", .static, none⟩]
  edges := [⟨1, 2⟩]
  symbols := [⟨1, "crc32", ""⟩, ⟨2, "sin", ""⟩]
  references := [⟨1, ⟨1, 1, .undefined, 'U', none⟩, none⟩, ⟨2, ⟨1, 1, .undefined, 'w', none⟩, none⟩,
    ⟨3, ⟨1, 2, .undefined, 'U', none⟩, none⟩, ⟨4, ⟨2, 2, .external, 'T', some 8⟩, none⟩,
    ⟨5, ⟨4, 1, .external, 'T', some 8⟩, none⟩, ⟨6, ⟨3, 1, .external, 'T', some 8⟩, none⟩]

/-- What the library has is not listed, and both others are candidates for the rest. -/
theorem undefinedSymbols_exact_loose :
    looselyLinked.Intact ∧ ∃ us, undefinedSymbols looselyLinked 1 = .ok us ∧
      ⟨2, "sin", ""⟩ ∉ us.map (·.symbol) ∧
      ∃ u ∈ us, u.symbol = ⟨1, "crc32", ""⟩ ∧
        ∀ c, c ∈ u.candidates ↔ c ∈ looselyLinked.artifacts ∧ looselyLinked.Refers c.id .external 1 := by
  have intact : looselyLinked.Intact := by decide
  obtain ⟨us, audited, listed, -, entries⟩ := undefinedSymbols_exact intact 1
  have left : (⟨1, "crc32", ""⟩ : Symbol) ∈ us.map (·.symbol) := by
    refine (listed _).2 ⟨by decide, by decide, fun d edge => ?_⟩
    obtain rfl : d = 2 := by simpa [looselyLinked] using edge
    decide
  obtain ⟨u, hu, same⟩ := List.mem_map.1 left
  refine ⟨intact, us, audited, fun provided => ?_, u, hu, same, ?_⟩
  · exact ((listed _).1 provided).2.2 2 (by decide) (by decide)
  · have candidates := (entries u hu).1
    rwa [same] at candidates

end BuildAudit
