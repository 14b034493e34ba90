import Mathlib.Data.List.Nodup
import BuildAudit.Query.Linkage
import BuildAudit.Proofs.Integrity

/-!
# What an edge is worth

Two audits look at the dependencies of an artifact: one lists the symbols that they leave undefined, the
other the libraries that define none of those it needs.  Edges are cut (`Graph.unlink`), and the audits
are compared before and after.  Cutting off useless libraries leaves no other symbol undefined
(`openSymbols_unlink_useless`), and cutting off one dependency leaves those undefined for which the
artifact relies on it (`openSymbols_unlink_perm`).
-/

namespace BuildAudit

open BuildAudit.Graph

/-- The graph without the edges from an artifact to some others. -/
def Graph.unlink (g : Graph) (artifact : Id) (others : List Id) : Graph :=
  { g with edges := g.edges.filter fun e => ¬ (e.dependee = artifact ∧ e.dependency ∈ others) }

/-- For the symbol, the artifact relies on the dependency: it needs the symbol, and none of its other
dependencies defines it. -/
def Graph.ReliesOn (g : Graph) (artifact : Id) (dependency : Artifact) (symbol : Id) : Prop :=
  symbol ∈ g.symbolsOf artifact .undefined ∧ symbol ∈ g.symbolsOf dependency.id .external ∧
    ∀ other ∈ g.dependenciesOf artifact, other ≠ dependency →
      symbol ∉ g.symbolsOf other.id .external

variable {g : Graph} {s : Store} {a : Id} {ids : List Id}

/-! ## Cutting edges -/

theorem exec_removeDependency_unlink (g : Graph) (a d : Id) :
    ((removeDependency a d).exec g).2 = g.unlink a [d] := by
  rw [exec_removeDependency]
  refine congrArg (fun edges => { g with edges }) (List.filter_congr fun e _ => ?_)
  rcases e with ⟨b, c⟩
  simp only [ne_eq, Edge.mk.injEq, List.mem_singleton]

theorem unlink_unlink (g : Graph) (a d : Id) (ids : List Id) :
    (g.unlink a [d]).unlink a ids = g.unlink a (d :: ids) := by
  simp only [unlink, List.filter_filter]
  refine congrArg (fun edges => { g with edges }) (List.filter_congr fun e _ => ?_)
  by_cases own : e.dependee = a <;> simp [own, Bool.and_comm]

/-- Removing edges one after the other cuts them all. -/
theorem Store.applyAll_removeDependency (s : Store) (a : Id) (ids : List Id) :
    s.applyAll (ids.map (.removeDependency a ·)) = { s with graph := s.graph.unlink a ids } := by
  induction ids generalizing s with
  | nil => simp [Store.applyAll, unlink]
  | cons d ids ih =>
    have first : s.apply (.removeDependency a d) = { s with graph := s.graph.unlink a [d] } := by
      rw [← exec_removeDependency_unlink]
      rfl
    rw [List.map_cons, Store.applyAll, List.foldl_cons, ← Store.applyAll, first, ih, unlink_unlink]

theorem dependenciesOf_unlink (g : Graph) (a : Id) (ids : List Id) :
    (g.unlink a ids).dependenciesOf a = (g.dependenciesOf a).filter (·.id ∉ ids) := by
  simp [dependenciesOf, unlink, List.filter_filter, and_comm]

/-! ## Open symbols -/

theorem mem_providedTo_iff {symbol : Id} :
    symbol ∈ providedTo g a ↔
      ∃ d ∈ g.dependenciesOf a, symbol ∈ g.symbolsOf d.id .external := by
  simp [providedTo]

theorem mem_providedTo_unlink_iff {symbol : Id} :
    symbol ∈ providedTo (g.unlink a ids) a ↔
      ∃ d ∈ g.dependenciesOf a, d.id ∉ ids ∧ symbol ∈ g.symbolsOf d.id .external := by
  rw [mem_providedTo_iff, dependenciesOf_unlink]
  simp only [List.mem_filter, and_assoc, decide_eq_true_eq]
  rfl

theorem mem_openSymbols_iff {symbol : Id} :
    symbol ∈ openSymbols g a ↔
      symbol ∈ g.symbolsOf a .undefined ∧ symbol ∉ providedTo g a := by
  simp [openSymbols]

theorem nodup_openSymbols (g : Graph) (a : Id) : (openSymbols g a).Nodup :=
  (nodup_distinct _).filter _

theorem isUseful_iff {d : Artifact} :
    isUseful g a d ↔ ∃ symbol ∈ g.symbolsOf d.id .external, symbol ∈ g.symbolsOf a .undefined := by
  simp [isUseful]

/-! ## Cutting off useless libraries -/

theorem openSymbols_unlink_useless
    (useless : ∀ d ∈ g.dependenciesOf a, d.id ∈ ids → isUseful g a d = false) :
    openSymbols (g.unlink a ids) a = openSymbols g a := by
  refine List.filter_congr fun symbol needed => ?_
  have same : symbol ∈ providedTo (g.unlink a ids) a ↔ symbol ∈ providedTo g a := by
    rw [mem_providedTo_unlink_iff, mem_providedTo_iff]
    constructor
    · rintro ⟨d, hd, -, provides⟩
      exact ⟨d, hd, provides⟩
    · rintro ⟨d, hd, provides⟩
      refine ⟨d, hd, fun cut => ?_, provides⟩
      -- a library that provides what is needed is useful
      have useful : isUseful g a d := isUseful_iff.2 ⟨symbol, provides, mem_distinct.1 needed⟩
      rw [useless d hd cut] at useful
      cases useful
  simp [same]

theorem undefinedSymbols_unlink_useless
    (useless : ∀ d ∈ g.dependenciesOf a, d.id ∈ ids → isUseful g a d = false) :
    undefinedSymbols (g.unlink a ids) a = undefinedSymbols g a := by
  unfold undefinedSymbols
  rw [openSymbols_unlink_useless useless]
  rfl

theorem dependencyUsage_unlink_useless
    (useless : ∀ d ∈ g.dependenciesOf a, d.id ∈ ids → isUseful g a d = false) :
    dependencyUsage (g.unlink a ids) a =
      ⟨(dependencyUsage g a).useful, (dependencyUsage g a).useless.filter (·.id ∉ ids)⟩ := by
  have same : isUseful (g.unlink a ids) a = isUseful g a := rfl
  simp only [dependencyUsage, dependenciesOf_unlink, same, List.filter_filter,
    DependencyUsage.mk.injEq]
  constructor
  · refine List.filter_congr fun d hd => ?_
    by_cases cut : d.id ∈ ids
    · simp [useless d hd cut]
    · simp [cut]
  · refine List.filter_congr fun d _ => ?_
    ac_rfl

/-! ## Cutting off any dependency -/

/-- The entry of an open symbol in the audit. -/
def Graph.unresolved? (g : Graph) (id : Id) : Option UnresolvedSymbol :=
  (g.symbol? id).map fun symbol => ⟨symbol, g.exporters id⟩

theorem Graph.symbol?_of_hasSymbol {id : Id} (h : g.hasSymbol id) :
    ∃ symbol, g.symbol? id = some symbol ∧ symbol.id = id := by
  obtain ⟨symbol, found⟩ := Option.isSome_iff_exists.1 (List.find?_isSome.2 (List.any_eq_true.1 h))
  exact ⟨symbol, found, by simpa using List.find?_some found⟩

theorem hasSymbol_of_mem_symbolsOf (hg : g.Intact) {category : Category} {symbol : Id}
    (h : symbol ∈ g.symbolsOf a category) : g.hasSymbol symbol := by
  simp only [symbolsOf, referencesOf, readableReferences, List.mem_map, List.mem_filter] at h
  obtain ⟨r, ⟨⟨row, ⟨hrow, -⟩, rfl⟩, -⟩, rfl⟩ := h
  exact (hg.referenceEnds row hrow).2

theorem mapM_unresolved {ids : List Id} (h : ∀ id ∈ ids, g.hasSymbol id) :
    ids.mapM (unresolved g) = .ok (ids.filterMap g.unresolved?) := by
  induction ids with
  | nil => rfl
  | cons id ids ih =>
    obtain ⟨there, h⟩ := List.forall_mem_cons.1 h
    obtain ⟨symbol, found, -⟩ := symbol?_of_hasSymbol there
    have entry : g.unresolved? id = some ⟨symbol, g.exporters id⟩ := by simp [unresolved?, found]
    have ok : unresolved g id = .ok ⟨symbol, g.exporters id⟩ := by simp [unresolved, found]
    rw [List.mapM_cons, ok, ih h, List.filterMap_cons_some entry]
    rfl

/-- The audit succeeds, with the entries of the open symbols in order. -/
theorem undefinedSymbols_eq (hg : g.Intact) (a : Id) :
    undefinedSymbols g a =
      .ok (((openSymbols g a).filterMap g.unresolved?).mergeSort UnresolvedSymbol.le) := by
  unfold undefinedSymbols
  rw [mapM_unresolved fun id hid => hasSymbol_of_mem_symbolsOf hg (mem_openSymbols_iff.1 hid).1]
  rfl

theorem unresolved?_eq_some_iff {id : Id} {u : UnresolvedSymbol} :
    g.unresolved? id = some u ↔
      u.symbol.id = id ∧ g.symbol? u.symbol.id = some u.symbol ∧
        u.candidates = g.exporters u.symbol.id := by
  simp only [unresolved?, Option.map_eq_some_iff]
  constructor
  · rintro ⟨symbol, found, rfl⟩
    obtain rfl : symbol.id = id := by simpa using List.find?_some found
    exact ⟨rfl, found, rfl⟩
  · rintro ⟨rfl, found, candidates⟩
    exact ⟨u.symbol, found, by rw [← candidates]⟩

theorem map_symbol_entries {ids : List Id} (h : ∀ id ∈ ids, g.hasSymbol id) :
    (ids.filterMap g.unresolved?).map (·.symbol.id) = ids := by
  induction ids with
  | nil => rfl
  | cons id ids ih =>
    obtain ⟨there, h⟩ := List.forall_mem_cons.1 h
    obtain ⟨symbol, found, same⟩ := symbol?_of_hasSymbol there
    have entry : g.unresolved? id = some ⟨symbol, g.exporters id⟩ := by simp [unresolved?, found]
    rw [List.filterMap_cons_some entry, List.map_cons, ih h, same]

/-- The symbols that are open only if a dependency is cut off. -/
def Graph.lostWith (g : Graph) (a d : Id) : List Id :=
  (openSymbols (g.unlink a [d]) a).filter (· ∈ providedTo g a)

/-- Symbols that were open stay open. -/
theorem openSymbols_unlink_filter (g : Graph) (a d : Id) :
    ((openSymbols (g.unlink a [d]) a).filter fun symbol => !decide (symbol ∈ providedTo g a)) =
      openSymbols g a := by
  unfold openSymbols
  rw [List.filter_filter]
  refine List.filter_congr fun symbol _ => ?_
  -- what is provided without the dependency is provided with it
  have fewer : symbol ∈ providedTo (g.unlink a [d]) a → symbol ∈ providedTo g a := by
    rw [mem_providedTo_unlink_iff, mem_providedTo_iff]
    rintro ⟨e, he, -, provides⟩
    exact ⟨e, he, provides⟩
  by_cases provided : symbol ∈ providedTo g a
  · simp [provided]
  · simp [provided, mt fewer provided]

theorem openSymbols_unlink_perm (g : Graph) (a d : Id) :
    (openSymbols (g.unlink a [d]) a).Perm (openSymbols g a ++ g.lostWith a d) := by
  have parts := List.filter_append_perm (fun symbol => decide (symbol ∈ providedTo g a))
    (openSymbols (g.unlink a [d]) a)
  rw [openSymbols_unlink_filter] at parts
  exact parts.symm.trans List.perm_append_comm

theorem mem_lostWith_iff (hg : g.Intact) {d : Artifact} (hd : d ∈ g.dependenciesOf a) {symbol : Id} :
    symbol ∈ g.lostWith a d.id ↔ g.ReliesOn a d symbol := by
  have same {e : Artifact} (he : e ∈ g.dependenciesOf a) : e.id = d.id ↔ e = d :=
    ⟨fun h => List.inj_on_of_nodup_map hg.artifactIds_nodup (List.mem_of_mem_filter he)
      (List.mem_of_mem_filter hd) h, congrArg _⟩
  rw [lostWith, List.mem_filter, mem_openSymbols_iff, mem_providedTo_unlink_iff, decide_eq_true_eq,
    mem_providedTo_iff]
  constructor
  · rintro ⟨⟨needed, unprovided⟩, e, he, provides⟩
    have others : ∀ other ∈ g.dependenciesOf a, other ≠ d →
        symbol ∉ g.symbolsOf other.id .external := fun other ho ne provides' =>
      unprovided ⟨other, ho, by simpa [same ho] using ne, provides'⟩
    obtain rfl : e = d := by_contra fun ne => others e he ne provides
    exact ⟨needed, provides, others⟩
  · rintro ⟨needed, provides, others⟩
    refine ⟨⟨needed, ?_⟩, d, hd, provides⟩
    rintro ⟨e, he, ne, provides'⟩
    exact others e he (by simpa [same he] using ne) provides'

/-! ## Both audits -/

theorem mem_useless_iff {d : Artifact} :
    d ∈ (dependencyUsage g a).useless ↔
      d ∈ g.dependenciesOf a ∧ d.type = .shared ∧ isUseful g a d = false := by
  simp [dependencyUsage, and_comm]

/-- Whether a library is useful can be told by its id. -/
theorem not_isUseful_of_id {cut : List Artifact}
    (listed : ∀ d ∈ cut, d ∈ (dependencyUsage g a).useless) {d : Artifact}
    (h : d.id ∈ cut.map (·.id)) : isUseful g a d = false := by
  obtain ⟨e, he, same⟩ := List.mem_map.1 h
  have := (mem_useless_iff.1 (listed e he)).2.2
  rwa [isUseful, same] at this

/-- Among rows of a graph, those with the ids of some are these. -/
theorem Graph.Intact.mem_ids_iff (hg : g.Intact) {cut : List Artifact}
    (rows : ∀ d ∈ cut, d ∈ g.artifacts) {d : Artifact} (hd : d ∈ g.artifacts) :
    d.id ∈ cut.map (·.id) ↔ d ∈ cut := by
  constructor
  · intro h
    obtain ⟨e, he, same⟩ := List.mem_map.1 h
    rwa [← List.inj_on_of_nodup_map hg.artifactIds_nodup (rows e he) hd same]
  · exact List.mem_map_of_mem

/-- Without useless libraries, the audits list what they have listed before, but for these. -/
theorem audits_unlink_useless (hg : g.Intact) {cut : List Artifact}
    (listed : ∀ d ∈ cut, d ∈ (dependencyUsage g a).useless) :
    undefinedSymbols (g.unlink a (cut.map (·.id))) a = undefinedSymbols g a ∧
    dependencyUsage (g.unlink a (cut.map (·.id))) a =
      ⟨(dependencyUsage g a).useful, (dependencyUsage g a).useless.filter (· ∉ cut)⟩ := by
  have useless : ∀ d ∈ g.dependenciesOf a, d.id ∈ cut.map (·.id) → isUseful g a d = false :=
    fun d _ => not_isUseful_of_id listed
  have rows : ∀ d ∈ (dependencyUsage g a).useless, d ∈ g.artifacts := fun d hd =>
    List.mem_of_mem_filter (mem_useless_iff.1 hd).1
  refine ⟨undefinedSymbols_unlink_useless useless, ?_⟩
  rw [dependencyUsage_unlink_useless useless, DependencyUsage.mk.injEq]
  refine ⟨rfl, List.filter_congr fun d hd => ?_⟩
  simp only [hg.mem_ids_iff (fun e he => rows e (listed e he)) (rows d hd)]

/-- Without a dependency, the audit lists what it has listed before, and the entries of the symbols for
which the artifact relies on the dependency. -/
theorem undefinedSymbols_unlink (hg : g.Intact) {d : Artifact} (hd : d ∈ g.dependenciesOf a) :
    ∃ before gained after, undefinedSymbols g a = .ok before ∧
      undefinedSymbols (g.unlink a [d.id]) a = .ok after ∧
      after.Perm (before ++ gained) ∧ (after.map (·.symbol.id)).Nodup ∧
      ∀ u, u ∈ gained ↔ g.symbol? u.symbol.id = some u.symbol ∧
        u.candidates = g.exporters u.symbol.id ∧ g.ReliesOn a d u.symbol.id := by
  have intact : (g.unlink a [d.id]).Intact := by
    rw [← exec_removeDependency_unlink]
    exact keeps_removeDependency a d.id g hg
  refine ⟨_, (g.lostWith a d.id).filterMap g.unresolved?, _, undefinedSymbols_eq hg a,
    undefinedSymbols_eq intact a, ?_, ?_, fun u => ?_⟩
  · have entries := (openSymbols_unlink_perm g a d.id).filterMap g.unresolved?
    rw [List.filterMap_append] at entries
    refine (List.mergeSort_perm _ _).trans (entries.trans ?_)
    exact (List.mergeSort_perm _ _).symm.append_right _
  · refine ((List.mergeSort_perm _ _).map _).nodup_iff.2 ?_
    rw [map_symbol_entries fun id hid =>
      hasSymbol_of_mem_symbolsOf intact (mem_openSymbols_iff.1 hid).1]
    exact nodup_openSymbols _ a
  · simp only [List.mem_filterMap, unresolved?_eq_some_iff, mem_lostWith_iff hg hd]
    constructor
    · rintro ⟨id, relies, rfl, row, candidates⟩
      exact ⟨row, candidates, relies⟩
    · rintro ⟨row, candidates, relies⟩
      exact ⟨_, relies, rfl, row, candidates⟩

/-- The two audits agree about what an edge is worth.  Cutting off libraries that are listed as useless
leaves the same symbols undefined and the other libraries where they were listed.  Cutting off any
dependency leaves undefined, besides those that were, the symbols for which the artifact relies on
it. -/
theorem audits_agree (hg : s.graph.Intact) (a : Id) :
    (∀ cut : List Artifact, (∀ d ∈ cut, d ∈ (dependencyUsage s.graph a).useless) →
      let after := (s.applyAll (cut.map fun d => .removeDependency a d.id)).graph
      undefinedSymbols after a = undefinedSymbols s.graph a ∧
      (dependencyUsage after a).useful = (dependencyUsage s.graph a).useful ∧
      (dependencyUsage after a).useless = (dependencyUsage s.graph a).useless.filter (· ∉ cut)) ∧
    ∀ d ∈ s.graph.dependenciesOf a, ∃ before gained after,
      undefinedSymbols s.graph a = .ok before ∧
      undefinedSymbols (s.apply (.removeDependency a d.id)).graph a = .ok after ∧
      after.Perm (before ++ gained) ∧ (after.map (·.symbol.id)).Nodup ∧
      ∀ u, u ∈ gained ↔ s.graph.symbol? u.symbol.id = some u.symbol ∧
        u.candidates = s.graph.exporters u.symbol.id ∧ s.graph.ReliesOn a d u.symbol.id := by
  constructor
  · intro cut listed
    have removals : cut.map (fun d => Store.Operation.removeDependency a d.id) =
        (cut.map (·.id)).map (.removeDependency a ·) := by simp
    rw [removals, Store.applyAll_removeDependency]
    obtain ⟨undefined, usage⟩ := audits_unlink_useless hg listed
    exact ⟨undefined, by rw [usage], by rw [usage]⟩
  · intro d hd
    have removal : (s.apply (.removeDependency a d.id)).graph = s.graph.unlink a [d.id] :=
      exec_removeDependency_unlink s.graph a d.id
    rw [removal]
    exact undefinedSymbols_unlink hg hd

/-- A program that is linked against a library which it needs and one which it does not. -/
def overlinked : Store where
  graph := {
    artifacts := [⟨1, "/app", .executable, none⟩, ⟨2, "/libm.so", .shared, none⟩,
      ⟨3, "/libz.so", .shared, none⟩]
    edges := [⟨1, 2⟩, ⟨1, 3⟩]
    symbols := [⟨1, "crc32", ""⟩, ⟨2, "sin", ""⟩]
    references := [⟨1, ⟨1, 1, .undefined, 'U', none⟩, none⟩, ⟨2, ⟨2, 2, .external, 'T', none⟩, none⟩,
      ⟨3, ⟨3, 1, .external, 'T', some 8⟩, none⟩] }

theorem overlinked_intact : overlinked.graph.Intact := by
  decide

/-- The one library can go, and without the other one its symbol is undefined. -/
theorem audits_agree_overlinked :
    undefinedSymbols (overlinked.apply (.removeDependency 1 2)).graph 1 =
      undefinedSymbols overlinked.graph 1 ∧
    ∃ after, undefinedSymbols (overlinked.apply (.removeDependency 1 3)).graph 1 = .ok after ∧
      ⟨⟨1, "crc32", ""⟩, [⟨3, "/libz.so", .shared, none⟩]⟩ ∈ after := by
  obtain ⟨useless, any⟩ := audits_agree overlinked_intact 1
  obtain ⟨before, gained, after, -, hr, perm, -, mem⟩ :=
    any ⟨3, "/libz.so", .shared, none⟩ (by decide)
  refine ⟨(useless [⟨2, "/libm.so", .shared, none⟩] (by decide)).1, after, hr, ?_⟩
  refine perm.mem_iff.2 (List.mem_append_right _ ((mem _).2 ⟨by decide, by decide, ?_⟩))
  exact ⟨by decide, by decide, by decide⟩

end BuildAudit
