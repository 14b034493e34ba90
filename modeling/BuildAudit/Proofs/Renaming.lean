import Mathlib.Data.Multiset.Basic
import BuildAudit.Proofs.ExactTotals
import BuildAudit.Proofs.LinkAudits
import BuildAudit.Proofs.Listing

/-!
# Symbols under other ids

Graphs that tell the same about artifacts and their symbols, but have given other ids to the symbols
(`Graph.Renames`).  Every query answers the same on both, up to these ids: what an artifact lists
(`Renames.entriesOf`), who defines a symbol (`Renames.exporters`), what is left undefined
(`Renames.undefinedSymbols`), which libraries are of use (`Renames.dependencyUsage`) and which symbols
are duplicates (`Renames.duplicates?`).  The answers that hold symbols are compared by what they show
(`UnresolvedSymbol.shown`, `Duplicate.shown`), and that is also what they are sorted by.
`Graph.SameSymbols` takes all of this together.
-/

namespace BuildAudit

open BuildAudit.Graph

variable {ρ : Id → Id} {g g' : Graph}

/-- The symbol under another id. -/
def Symbol.renumber (ρ : Id → Id) (s : Symbol) : Symbol := { s with id := ρ s.id }

def Reference.renumber (ρ : Id → Id) (r : Reference) : Reference := { r with symbol := ρ r.symbol }

/-- The name of a symbol in symbol tables and to programmers. -/
def Symbol.names (s : Symbol) : String × String := (s.name, s.demangled)

/-- `g'` has the artifacts, edges, symbols and references of `g`, with other ids for the symbols.  The
tables of symbols and references may be in any order, but the references of one artifact are in the
same. -/
structure Graph.Renames (ρ : Id → Id) (g g' : Graph) : Prop where
  intact : g.Intact
  intact' : g'.Intact
  artifacts : g'.artifacts = g.artifacts
  edges : g'.edges = g.edges
  symbols : g'.symbols.Perm (g.symbols.map (·.renumber ρ))
  references : ∀ a, g'.referencesAt a = (g.referencesAt a).map fun r => (r.1.renumber ρ, r.2)

theorem hasSymbol_of_mem_readableReferences (hg : g.Intact) {r : Reference}
    (h : r ∈ g.readableReferences) : g.hasSymbol r.symbol := by
  obtain ⟨row, hrow, rfl⟩ := List.mem_map.1 h
  exact (hg.referenceEnds row (List.mem_of_mem_filter hrow)).2

/-- What an entry of the audit shows of a symbol and its candidates. -/
def UnresolvedSymbol.shown (u : UnresolvedSymbol) : (String × String) × List Artifact :=
  (u.symbol.names, u.candidates)

/-- Entries are sorted by what they show. -/
theorem UnresolvedSymbol.map_shown_mergeSort (us : List UnresolvedSymbol) :
    (us.mergeSort le).map shown = (us.map shown).mergeSort fun v w => v.1.1 ≤ w.1.1 :=
  List.map_mergeSort fun _ _ _ _ => rfl

/-- The names, the total size and the occurrences of a duplicate, in any order. -/
abbrev ShownDuplicate := (String × String) × Int × Multiset Occurrence

/-- What the report shows of a duplicate; the order of its occurrences does not count. -/
def Duplicate.shown (d : Duplicate) : ShownDuplicate :=
  (d.symbol.names, d.totalSize, d.occurrences)

def SizedReference.renumber (ρ : Id → Id) (r : SizedReference) : SizedReference :=
  { r with symbol := r.symbol.renumber ρ }

namespace Graph.Renames

variable (h : g.Renames ρ g')

include h

/-! ## Symbols -/

theorem names : (g'.symbols.map Symbol.names).Perm (g.symbols.map Symbol.names) := by
  have perm := h.symbols.map Symbol.names
  rwa [List.map_map] at perm

theorem injective {i j : Id} (hi : g.hasSymbol i) (hj : g.hasSymbol j) (same : ρ i = ρ j) : i = j := by
  have ids : (g.symbols.map (fun s => ρ s.id)).Nodup := by
    have ids := (h.symbols.map (·.id)).nodup_iff.1 h.intact'.symbolIds_nodup
    rwa [List.map_map] at ids
  obtain ⟨s, hs, rfl⟩ := hasSymbol_iff.1 hi
  obtain ⟨t, ht, rfl⟩ := hasSymbol_iff.1 hj
  rw [List.inj_on_of_nodup_map ids hs ht same]

theorem mem_map_iff {ids : List Id} (all : ∀ i ∈ ids, g.hasSymbol i) {i : Id} (hi : g.hasSymbol i) :
    ρ i ∈ ids.map ρ ↔ i ∈ ids := by
  constructor
  · intro member
    obtain ⟨j, hj, same⟩ := List.mem_map.1 member
    rwa [← h.injective (all j hj) hi same]
  · exact List.mem_map_of_mem

theorem mem_symbols {s : Symbol} (hs : s ∈ g.symbols) : s.renumber ρ ∈ g'.symbols :=
  h.symbols.mem_iff.2 (List.mem_map_of_mem hs)

theorem symbol? {i : Id} (hi : g.hasSymbol i) :
    g'.symbol? (ρ i) = (g.symbol? i).map (·.renumber ρ) := by
  obtain ⟨s, found, rfl⟩ := symbol?_of_hasSymbol hi
  have hs := ((symbol?_eq_some_iff h.intact.symbolIds_nodup).1 found).1
  rw [found, Option.map_some]
  exact (symbol?_eq_some_iff h.intact'.symbolIds_nodup).2 ⟨h.mem_symbols hs, rfl⟩

theorem symbolNamed? (name : String) :
    g'.symbolNamed? name = (g.symbolNamed? name).map (·.renumber ρ) := by
  rcases found : g.symbolNamed? name with _ | s
  · rw [symbolNamed?_eq_none_iff] at found
    rw [Option.map_none, symbolNamed?_eq_none_iff]
    intro member
    obtain ⟨s', hs', rfl⟩ := List.mem_map.1 member
    obtain ⟨s, hs, rfl⟩ := List.mem_map.1 (h.symbols.mem_iff.1 hs')
    exact found (List.mem_map.2 ⟨s, hs, rfl⟩)
  · obtain ⟨hs, name⟩ := (symbolNamed?_eq_some_iff h.intact.symbolNames).1 found
    rw [Option.map_some]
    exact (symbolNamed?_eq_some_iff h.intact'.symbolNames).2 ⟨h.mem_symbols hs, name⟩

/-! ## What artifacts list -/

theorem referencesOf (a : Id) (category : Category) :
    g'.referencesOf a category = (g.referencesOf a category).map (·.renumber ρ) := by
  rw [referencesOf_eq, referencesOf_eq, h.references, List.filter_map, List.map_map, List.map_map]
  rfl

theorem entriesOf (a : Id) (category : Category) :
    g'.entriesOf a category = g.entriesOf a category := by
  rw [Graph.entriesOf, Graph.entriesOf, h.referencesOf, List.map_map]
  refine List.map_congr_left fun r hr => ?_
  have found := h.symbol? (hasSymbol_of_mem_symbolsOf h.intact (List.mem_map_of_mem hr))
  simp only [Function.comp_apply, entryOf?, Reference.renumber, found, Option.map_map]
  rfl

theorem symbolsOf (a : Id) (category : Category) :
    g'.symbolsOf a category = (g.symbolsOf a category).map ρ := by
  rw [Graph.symbolsOf, Graph.symbolsOf, h.referencesOf, List.map_map, List.map_map]
  rfl

theorem mem_symbolsOf {i : Id} (hi : g.hasSymbol i) (a : Id) (category : Category) :
    ρ i ∈ g'.symbolsOf a category ↔ i ∈ g.symbolsOf a category := by
  rw [h.symbolsOf]
  exact h.mem_map_iff (fun _ => hasSymbol_of_mem_symbolsOf h.intact) hi

theorem exporters {i : Id} (hi : g.hasSymbol i) : g'.exporters (ρ i) = g.exporters i := by
  rw [Graph.exporters, Graph.exporters, h.artifacts]
  refine List.filter_congr fun a _ => ?_
  rw [Bool.eq_iff_iff, List.contains_iff_mem, List.contains_iff_mem, h.mem_symbolsOf hi]

theorem dependenciesOf (a : Id) : g'.dependenciesOf a = g.dependenciesOf a := by
  rw [Graph.dependenciesOf, Graph.dependenciesOf, h.artifacts, h.edges]

/-! ## The audits -/

theorem providedTo (a : Id) : providedTo g' a = (BuildAudit.providedTo g a).map ρ := by
  simp only [BuildAudit.providedTo, h.dependenciesOf, h.symbolsOf, List.map_flatMap]

theorem openSymbols (a : Id) : openSymbols g' a = (BuildAudit.openSymbols g a).map ρ := by
  have needed : ∀ i ∈ g.symbolsOf a .undefined, g.hasSymbol i := fun _ =>
    hasSymbol_of_mem_symbolsOf h.intact
  have provided : ∀ i ∈ BuildAudit.providedTo g a, g.hasSymbol i := by
    intro i hi
    obtain ⟨d, -, hd⟩ := mem_providedTo_iff.1 hi
    exact hasSymbol_of_mem_symbolsOf h.intact hd
  rw [BuildAudit.openSymbols, BuildAudit.openSymbols, h.symbolsOf, h.providedTo,
    distinct_map (fun _ _ => h.injective) needed, List.filter_map]
  refine congrArg (List.map ρ) (List.filter_congr fun i hi => ?_)
  have there := needed i (mem_distinct.1 hi)
  simp only [Function.comp_apply, Bool.not_eq_eq_eq_not, Bool.not_not]
  rw [Bool.eq_iff_iff, List.contains_iff_mem, List.contains_iff_mem, h.mem_map_iff provided there]

theorem unresolved? {i : Id} (hi : g.hasSymbol i) :
    (g'.unresolved? (ρ i)).map UnresolvedSymbol.shown =
      (g.unresolved? i).map UnresolvedSymbol.shown := by
  rw [Graph.unresolved?, Graph.unresolved?, h.symbol? hi, h.exporters hi]
  simp only [Option.map_map]
  rfl

theorem undefinedSymbols (a : Id) :
    (undefinedSymbols g' a).map (·.map UnresolvedSymbol.shown) =
      (BuildAudit.undefinedSymbols g a).map (·.map UnresolvedSymbol.shown) := by
  have shown : ((BuildAudit.openSymbols g' a).filterMap g'.unresolved?).map UnresolvedSymbol.shown =
      ((BuildAudit.openSymbols g a).filterMap g.unresolved?).map UnresolvedSymbol.shown := by
    rw [h.openSymbols, List.filterMap_map, List.map_filterMap, List.map_filterMap]
    refine List.filterMap_congr fun i hi => h.unresolved? ?_
    exact hasSymbol_of_mem_symbolsOf h.intact (mem_openSymbols_iff.1 hi).1
  rw [undefinedSymbols_eq h.intact', undefinedSymbols_eq h.intact]
  simp only [Except.map, UnresolvedSymbol.map_shown_mergeSort, shown]

theorem isUseful (a : Id) (library : Artifact) :
    isUseful g' a library = BuildAudit.isUseful g a library := by
  rw [Bool.eq_iff_iff, isUseful_iff, isUseful_iff]
  constructor
  · rintro ⟨_, exported, needed⟩
    rw [h.symbolsOf] at exported
    obtain ⟨i, hi, rfl⟩ := List.mem_map.1 exported
    have there := hasSymbol_of_mem_symbolsOf h.intact hi
    exact ⟨i, hi, (h.mem_symbolsOf there a .undefined).1 needed⟩
  · rintro ⟨i, exported, needed⟩
    have there := hasSymbol_of_mem_symbolsOf h.intact exported
    exact ⟨ρ i, (h.mem_symbolsOf there _ _).2 exported, (h.mem_symbolsOf there _ _).2 needed⟩

theorem dependencyUsage (a : Id) : dependencyUsage g' a = BuildAudit.dependencyUsage g a := by
  have same : BuildAudit.isUseful g' a = BuildAudit.isUseful g a := funext (h.isUseful a)
  rw [BuildAudit.dependencyUsage, BuildAudit.dependencyUsage, h.dependenciesOf, same]

theorem exportersNamed (name : String) :
    (g'.symbolNamed? name).map (g'.exporters ·.id) = (g.symbolNamed? name).map (g.exporters ·.id) := by
  rw [h.symbolNamed?, Option.map_map]
  refine Option.map_congr fun s found => ?_
  have hs := ((symbolNamed?_eq_some_iff h.intact.symbolNames).1 found).1
  exact h.exporters (hasSymbol_iff.2 ⟨s, hs, rfl⟩)

/-! ## Sizes -/

theorem contents :
    (g'.references.map ReferenceRow.content).Perm
      ((g.references.map ReferenceRow.content).map fun r => (r.1.renumber ρ, r.2)) := by
  refine perm_of_filter_key_eq (·.1.artifact) fun a => ?_
  rw [← referencesAt_eq, h.references, referencesAt_eq, List.filter_map (l := g.references.map _)]
  rfl

theorem readableReferences :
    g'.readableReferences.Perm (g.readableReferences.map (·.renumber ρ)) := by
  have readable (g : Graph) : g.readableReferences =
      ((g.references.map ReferenceRow.content).filter (·.2.isNone)).map (·.1) := by
    rw [List.filter_map, List.map_map]
    rfl
  have perm := (h.contents.filter (·.2.isNone)).map (·.1)
  rw [← readable, List.filter_map, List.map_map] at perm
  rw [readable g, List.map_map]
  exact perm

theorem sized? {r : Reference} (hr : g.hasSymbol r.symbol) :
    g'.sized? (r.renumber ρ) = (g.sized? r).map (·.renumber ρ) := by
  obtain ⟨s, found, -⟩ := symbol?_of_hasSymbol hr
  have found' := h.symbol? hr
  have row : g'.artifact? r.artifact = g.artifact? r.artifact := by
    rw [artifact?, artifact?, h.artifacts]
  unfold Graph.sized? Reference.renumber
  rw [found', found, row]
  rcases r.size with _ | size
  · rfl
  · by_cases small : size ≤ 0
    · simp [small]
    · rcases g.artifact? r.artifact with _ | row <;> simp [small, SizedReference.renumber]

theorem sizedReferences : g'.sizedReferences.Perm (g.sizedReferences.map (·.renumber ρ)) := by
  have perm := h.readableReferences.filterMap g'.sized?
  rw [List.filterMap_map] at perm
  rw [Graph.sizedReferences, Graph.sizedReferences, List.map_filterMap]
  refine perm.trans (.of_eq (List.filterMap_congr fun r hr => h.sized? ?_))
  exact hasSymbol_of_mem_readableReferences h.intact hr

end Graph.Renames

/-! ## Duplicates -/

theorem symbol?_of_mem_sizedReferences {r : SizedReference} (h : r ∈ g.sizedReferences) :
    g.symbol? r.symbol.id = some r.symbol := by
  obtain ⟨row, -, hr⟩ := List.mem_filterMap.1 h
  simp only [sized?, Option.bind_eq_bind, Option.bind_eq_some_iff] at hr
  obtain ⟨size, -, hr⟩ := hr
  split at hr
  · cases hr
  · simp only [Option.bind_eq_some_iff] at hr
    obtain ⟨s, found, a, -, same⟩ := hr
    cases same
    have id : s.id = row.symbol := by simpa using List.find?_some found
    rwa [id]

theorem mem_symbols_of_mem_sizedReferences (hg : g.Intact) {r : SizedReference}
    (h : r ∈ g.sizedReferences) : r.symbol ∈ g.symbols :=
  ((symbol?_eq_some_iff hg.symbolIds_nodup).1 (symbol?_of_mem_sizedReferences h)).1

/-- Sorting forgets the order in which elements were, if no two of them rank the same. -/
theorem mergeSort_eq_of_perm {α : Type} {le : α → α → Bool} {xs ys : List α}
    (trans : ∀ x y z, le x y → le y z → le x z) (total : ∀ x y, le x y || le y x)
    (antisymm : ∀ x ∈ xs, ∀ y ∈ xs, le x y → le y x → x = y) (perm : xs.Perm ys) :
    xs.mergeSort le = ys.mergeSort le := by
  have sorted (zs : List α) : (zs.mergeSort le).Pairwise fun x y => le x y :=
    List.pairwise_mergeSort trans total zs
  have same : (xs.mergeSort le).Perm (ys.mergeSort le) :=
    ((List.mergeSort_perm xs le).trans perm).trans (List.mergeSort_perm ys le).symm
  refine List.Perm.eq_of_pairwise (fun x y hx hy => ?_) (sorted xs) (sorted ys) same
  have hx := (List.mergeSort_perm xs le).mem_iff.1 hx
  have hy := perm.mem_iff.2 ((List.mergeSort_perm ys le).mem_iff.1 hy)
  exact antisymm x hx y hy

namespace Duplicate

/-- The order of the report, by what it shows. -/
def shownLe (v w : ShownDuplicate) : Bool :=
  v.2.1 > w.2.1 || (v.2.1 == w.2.1 && v.1.1 ≤ w.1.1)

theorem shownLe_iff {v w : ShownDuplicate} :
    shownLe v w ↔ w.2.1 < v.2.1 ∨ v.2.1 = w.2.1 ∧ v.1.1 ≤ w.1.1 := by
  simp [shownLe]

theorem shownLe_trans (u v w : ShownDuplicate) (h : shownLe u v) (h' : shownLe v w) :
    shownLe u w := by
  rw [shownLe_iff] at *
  rcases h with h | ⟨same, h⟩ <;> rcases h' with h' | ⟨same', h'⟩
  · exact .inl (by omega)
  · exact .inl (by omega)
  · exact .inl (by omega)
  · exact .inr ⟨same.trans same', String.le_trans h h'⟩

theorem shownLe_total (v w : ShownDuplicate) : shownLe v w || shownLe w v := by
  rw [Bool.or_eq_true, shownLe_iff, shownLe_iff]
  rcases Int.lt_trichotomy v.2.1 w.2.1 with less | same | more
  · exact .inr (.inl less)
  · rcases String.le_total v.1.1 w.1.1 with le | le
    · exact .inl (.inr ⟨same, le⟩)
    · exact .inr (.inr ⟨same.symm, le⟩)
  · exact .inl (.inl more)

theorem name_eq_of_shownLe {v w : ShownDuplicate} (h : shownLe v w) (h' : shownLe w v) :
    v.1.1 = w.1.1 := by
  rw [shownLe_iff] at h h'
  rcases h with h | ⟨same, h⟩ <;> rcases h' with h' | ⟨same', h'⟩
  · omega
  · omega
  · omega
  · exact String.le_antisymm h h'

theorem map_shown_ranked (groups : List Duplicate) :
    (ranked groups).map shown = ((groups.map shown).filter (1 < ·.2.2.card)).mergeSort shownLe := by
  have sorted (ds : List Duplicate) : (ds.mergeSort le).map shown = (ds.map shown).mergeSort shownLe :=
    List.map_mergeSort fun _ _ _ _ => rfl
  have several (ds : List Duplicate) : (ds.filter (1 < ·.occurrences.length)).map shown =
      (ds.map shown).filter (1 < ·.2.2.card) := by
    rw [List.filter_map]
    rfl
  rw [ranked, sorted, several]

/-- The entry of a symbol under another id, made of the same references under other ids. -/
theorem shown_ofSymbol {rows rows' : List SizedReference}
    (perm : rows'.Perm (rows.map (·.renumber ρ))) {s : Symbol}
    (own : ∀ r ∈ rows, ρ r.symbol.id = ρ s.id → r.symbol.id = s.id) :
    (ofSymbol rows' (s.renumber ρ)).shown = (ofSymbol rows s).shown := by
  have perm : (rows'.filter (·.symbol.id == ρ s.id)).Perm
      ((rows.filter (·.symbol.id == s.id)).map (·.renumber ρ)) := by
    have perm := perm.filter (·.symbol.id == ρ s.id)
    rw [List.filter_map] at perm
    refine perm.trans (.of_eq (congrArg _ (List.filter_congr fun r hr => ?_)))
    rw [Bool.eq_iff_iff]
    simp only [Function.comp_apply, SizedReference.renumber, Symbol.renumber, beq_iff_eq]
    exact ⟨own r hr, congrArg ρ⟩
  have sizes := perm.map (·.size)
  have places := perm.map fun r => (⟨r.artifact, r.category, r.size⟩ : Occurrence)
  rw [List.map_map] at sizes places
  have total := sizes.sum_eq
  have occurrences := Multiset.coe_eq_coe.2 places
  exact Prod.ext rfl (Prod.ext total occurrences)

/-- Rows under other ids and in another order give groups that show the same, if ids tell the symbols of
the rows apart. -/
theorem map_shown_groups_of_perm {rows rows' : List SizedReference}
    (perm : rows'.Perm (rows.map (·.renumber ρ)))
    (ids : ∀ r ∈ rows, ∀ q ∈ rows, ρ r.symbol.id = ρ q.symbol.id → r.symbol = q.symbol) :
    ((groups rows').map shown).Perm ((groups rows).map shown) := by
  have symbols : (distinct (rows'.map (·.symbol))).Perm
      ((distinct (rows.map (·.symbol))).map (·.renumber ρ)) := by
    have apart (s t : Symbol) (hs : s ∈ rows.map (·.symbol)) (ht : t ∈ rows.map (·.symbol))
        (same : s.renumber ρ = t.renumber ρ) : s = t := by
      obtain ⟨r, hr, rfl⟩ := List.mem_map.1 hs
      obtain ⟨q, hq, rfl⟩ := List.mem_map.1 ht
      exact ids r hr q hq (congrArg Symbol.id same)
    have perm := perm.map (·.symbol)
    rw [List.map_map] at perm
    rw [← distinct_map apart fun _ hs => hs, List.map_map]
    exact distinct_perm perm
  rw [groups, groups, List.map_map, List.map_map]
  refine (symbols.map _).trans (.of_eq ?_)
  rw [List.map_map]
  refine List.map_congr_left fun s hs => ?_
  obtain ⟨q, hq, rfl⟩ := List.mem_map.1 (mem_distinct.1 hs)
  exact shown_ofSymbol perm fun r hr same => by rw [ids r hr q hq same]

/-- Groups of symbols with the same name are the same. -/
theorem eq_of_name_eq (hg : g.Intact) {f : DuplicateFilter} {d e : Duplicate}
    (hd : d ∈ groups (g.sizedReferences.filter f.accepts))
    (he : e ∈ groups (g.sizedReferences.filter f.accepts)) (same : d.symbol.name = e.symbol.name) : d = e := by
  have inside {s : Symbol} (hs : s ∈ (g.sizedReferences.filter f.accepts).map (·.symbol)) : s ∈ g.symbols := by
    obtain ⟨r, hr, rfl⟩ := List.mem_map.1 hs
    exact mem_symbols_of_mem_sizedReferences hg (List.mem_of_mem_filter hr)
  obtain ⟨symbol, entry⟩ := mem_groups_iff.1 hd
  obtain ⟨symbol', entry'⟩ := mem_groups_iff.1 he
  have symbols : d.symbol = e.symbol :=
    List.inj_on_of_nodup_map hg.symbolNames (inside symbol) (inside symbol') same
  rw [entry, entry', symbols]

/-- Groups that show the same are ranked alike, if no two of them show the same name. -/
theorem map_shown_ranked_of_perm {groups groups' : List Duplicate}
    (perm : (groups'.map shown).Perm (groups.map shown))
    (names : ∀ d ∈ groups, ∀ e ∈ groups, d.symbol.name = e.symbol.name → d = e) :
    (ranked groups').map shown = (ranked groups).map shown := by
  rw [map_shown_ranked, map_shown_ranked]
  symm
  refine mergeSort_eq_of_perm shownLe_trans shownLe_total ?_ (perm.symm.filter _)
  intro v hv w hw le le'
  obtain ⟨d, hd, rfl⟩ := List.mem_map.1 (List.mem_of_mem_filter hv)
  obtain ⟨e, he, rfl⟩ := List.mem_map.1 (List.mem_of_mem_filter hw)
  rw [names d hd e he (name_eq_of_shownLe le le')]

/-- What shows the same has totals that fit alike. -/
theorem forall_totalSize_of_perm {groups groups' : List Duplicate}
    (perm : (groups'.map shown).Perm (groups.map shown)) :
    (∀ d ∈ groups', d.totalSize ≤ Number.maxInt64) ↔ ∀ d ∈ groups, d.totalSize ≤ Number.maxInt64 := by
  have shows (ds : List Duplicate) : (∀ d ∈ ds, d.totalSize ≤ Number.maxInt64) ↔
      ∀ v ∈ ds.map shown, v.2.1 ≤ Number.maxInt64 := by
    rw [List.forall_mem_map]
    rfl
  rw [shows, shows]
  exact forall_congr' fun v => imp_congr_left perm.mem_iff

end Duplicate

/-- The same symbols are duplicates, with the same totals and the same occurrences, and if the sizes of one
overflow, they do so on both. -/
theorem Graph.Renames.duplicates? (h : g.Renames ρ g') (f : DuplicateFilter) :
    (duplicates? g' f).map (·.map Duplicate.shown) =
      (BuildAudit.duplicates? g f).map (·.map Duplicate.shown) := by
  have row : ∀ r ∈ g.sizedReferences.filter f.accepts, r.symbol ∈ g.symbols :=
    fun _ hr => mem_symbols_of_mem_sizedReferences h.intact (List.mem_of_mem_filter hr)
  have perm : (g'.sizedReferences.filter f.accepts).Perm
      ((g.sizedReferences.filter f.accepts).map (·.renumber ρ)) := by
    have perm := h.sizedReferences.filter f.accepts
    rwa [List.filter_map] at perm
  have groups := Duplicate.map_shown_groups_of_perm perm fun r hr q hq same => by
    have there : g.hasSymbol r.symbol.id := hasSymbol_iff.2 ⟨_, row r hr, rfl⟩
    have there' : g.hasSymbol q.symbol.id := hasSymbol_iff.2 ⟨_, row q hq, rfl⟩
    exact List.inj_on_of_nodup_map h.intact.symbolIds_nodup (row r hr) (row q hq)
      (h.injective there there' same)
  rw [duplicates?_eq, duplicates?_eq, if_congr (Duplicate.forall_totalSize_of_perm groups) rfl rfl]
  split_ifs
  · exact congrArg some (Duplicate.map_shown_ranked_of_perm groups fun d hd e he =>
      Duplicate.eq_of_name_eq h.intact hd he)
  · rfl

/-! ## All queries -/

/-- The graphs have the same symbols by name and list the same for each artifact, and every query about
symbols gives the same answer on both, whatever ids the symbols have. -/
structure Graph.SameSymbols (g g' : Graph) : Prop where
  names : (g'.symbols.map Symbol.names).Perm (g.symbols.map Symbol.names)
  entriesOf : ∀ a category, g'.entriesOf a category = g.entriesOf a category
  undefinedSymbols : ∀ a, (undefinedSymbols g' a).map (·.map UnresolvedSymbol.shown) =
    (BuildAudit.undefinedSymbols g a).map (·.map UnresolvedSymbol.shown)
  dependencyUsage : ∀ a, dependencyUsage g' a = BuildAudit.dependencyUsage g a
  exporters : ∀ name,
    (g'.symbolNamed? name).map (g'.exporters ·.id) = (g.symbolNamed? name).map (g.exporters ·.id)
  duplicates : ∀ f, (duplicates? g' f).map (·.map Duplicate.shown) =
    (duplicates? g f).map (·.map Duplicate.shown)

theorem Graph.Renames.sameSymbols (h : g.Renames ρ g') : g.SameSymbols g' :=
  ⟨h.names, h.entriesOf, h.undefinedSymbols, h.dependencyUsage, h.exportersNamed, h.duplicates?⟩

end BuildAudit
