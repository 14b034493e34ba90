import Mathlib.Data.List.Sort
import BuildAudit.Proofs.UnresolvedSymbols

/-!
# The use of libraries

The shared libraries that an artifact is linked against are listed either as useful or as useless, by
whether they define a symbol that the artifact needs (`mem_useful_iff_needs`).  Each is judged on its
own, so that a library is not useless because another one defines the same symbols, and nothing but the
rows that the audit asks for decides (`dependencyUsage_congr`).
-/

namespace BuildAudit

open BuildAudit.Graph

variable {g g' : Graph} {a i : Id} {d : Artifact}

/-- The artifact directly depends on the shared library. -/
def Graph.LinksTo (g : Graph) (artifact : Id) (library : Artifact) : Prop :=
  library ∈ g.artifacts ∧ ⟨artifact, library.id⟩ ∈ g.edges ∧ library.type = .shared

/-- Some symbol that the artifact refers to as undefined is one that the other has as external. -/
def Graph.Needs (g : Graph) (artifact other : Id) : Prop :=
  ∃ symbol, g.Refers artifact .undefined symbol ∧ g.Refers other .external symbol

/-! ## Both lists -/

theorem isUseful_iff_needs : isUseful g a d ↔ g.Needs a d.id := by
  simp only [isUseful_iff, mem_symbolsOf_iff, Needs, and_comm]

theorem mem_libraries_iff :
    d ∈ (g.dependenciesOf a).filter (·.type == .shared) ↔ g.LinksTo a d := by
  simp only [dependenciesOf, LinksTo, List.mem_filter, List.contains_iff_mem, beq_iff_eq, and_assoc]

theorem mem_useful_iff_needs : d ∈ (dependencyUsage g a).useful ↔ g.LinksTo a d ∧ g.Needs a d.id := by
  rw [dependencyUsage, List.mem_filter, mem_libraries_iff, isUseful_iff_needs]

theorem mem_useless_iff_needs :
    d ∈ (dependencyUsage g a).useless ↔ g.LinksTo a d ∧ ¬ g.Needs a d.id := by
  rw [dependencyUsage, List.mem_filter, mem_libraries_iff, Bool.not_eq_true', ← Bool.not_eq_true,
    isUseful_iff_needs]

/-- Both lists have the order of the table of artifacts. -/
theorem ascending_dependencyUsage (hg : g.Intact) (a : Id) :
    ((dependencyUsage g a).useful.map (·.id)).Pairwise (· < ·) ∧
      ((dependencyUsage g a).useless.map (·.id)).Pairwise (· < ·) := by
  have part {p q : Artifact → Bool} :
      ((((g.dependenciesOf a).filter p).filter q).map (·.id)).Pairwise (· < ·) :=
    hg.artifactIds.sublist <| List.Sublist.map _ <|
      List.filter_sublist.trans <| List.filter_sublist.trans List.filter_sublist
  exact ⟨part, part⟩

/-! ## What decides -/

/-- The artifact with this id is a shared library. -/
def Graph.IsShared (g : Graph) (i : Id) : Prop :=
  ∃ library ∈ g.artifacts, library.id = i ∧ library.type = .shared

/-- The graphs agree in the edges and needs of an artifact, and in which of its dependencies are shared
libraries and what these define for others. -/
structure Graph.AgreeOn (g g' : Graph) (artifact : Id) : Prop where
  edges : ∀ i, ⟨artifact, i⟩ ∈ g.edges ↔ ⟨artifact, i⟩ ∈ g'.edges
  needs : ∀ symbol, g.Refers artifact .undefined symbol ↔ g'.Refers artifact .undefined symbol
  types : ∀ i, ⟨artifact, i⟩ ∈ g.edges → (g.IsShared i ↔ g'.IsShared i)
  defines : ∀ i, ⟨artifact, i⟩ ∈ g.edges → g.IsShared i →
    ∀ symbol, g.Refers i .external symbol ↔ g'.Refers i .external symbol

theorem Graph.AgreeOn.linked_iff (agree : g.AgreeOn g' a) :
    ⟨a, i⟩ ∈ g.edges ∧ g.IsShared i ↔ ⟨a, i⟩ ∈ g'.edges ∧ g'.IsShared i := by
  rw [← agree.edges i]
  exact and_congr_right (agree.types i)

theorem Graph.AgreeOn.needs_iff (agree : g.AgreeOn g' a) (edge : ⟨a, i⟩ ∈ g.edges) (shared : g.IsShared i) :
    g.Needs a i ↔ g'.Needs a i :=
  exists_congr fun symbol => and_congr (agree.needs symbol) (agree.defines i edge shared symbol)

theorem exists_linksTo_iff :
    (∃ d, g.LinksTo a d ∧ d.id = i) ↔ ⟨a, i⟩ ∈ g.edges ∧ g.IsShared i := by
  constructor
  · rintro ⟨d, ⟨hd, edge, shared⟩, rfl⟩
    exact ⟨edge, d, hd, rfl, shared⟩
  · rintro ⟨edge, d, hd, rfl, shared⟩
    exact ⟨d, ⟨hd, edge, shared⟩, rfl⟩

/-- A list of libraries by the ids of those in it. -/
theorem mem_ids_iff {libraries : List Artifact} (p : Id → Prop)
    (listed : ∀ d, d ∈ libraries ↔ g.LinksTo a d ∧ p d.id) :
    i ∈ libraries.map (·.id) ↔ (⟨a, i⟩ ∈ g.edges ∧ g.IsShared i) ∧ p i := by
  rw [← exists_linksTo_iff, List.mem_map]
  constructor
  · rintro ⟨d, hd, rfl⟩
    obtain ⟨linked, hp⟩ := (listed d).1 hd
    exact ⟨⟨d, linked, rfl⟩, hp⟩
  · rintro ⟨⟨d, linked, rfl⟩, hp⟩
    exact ⟨d, (listed d).2 ⟨linked, hp⟩, rfl⟩

/-- What is not asked for has no influence. -/
theorem dependencyUsage_congr (hg : g.Intact) (hg' : g'.Intact) (agree : g.AgreeOn g' a) :
    (dependencyUsage g a).useful.map (·.id) = (dependencyUsage g' a).useful.map (·.id) ∧
      (dependencyUsage g a).useless.map (·.id) = (dependencyUsage g' a).useless.map (·.id) := by
  obtain ⟨useful, useless⟩ := ascending_dependencyUsage hg a
  obtain ⟨useful', useless'⟩ := ascending_dependencyUsage hg' a
  constructor
  · refine useful.eq_of_mem_iff useful' fun i => ?_
    rw [mem_ids_iff (g.Needs a) fun _ => mem_useful_iff_needs,
      mem_ids_iff (g'.Needs a) fun _ => mem_useful_iff_needs, ← agree.linked_iff]
    exact and_congr_right fun ⟨edge, shared⟩ => agree.needs_iff edge shared
  · refine useless.eq_of_mem_iff useless' fun i => ?_
    rw [mem_ids_iff (¬ g.Needs a ·) fun _ => mem_useless_iff_needs,
      mem_ids_iff (¬ g'.Needs a ·) fun _ => mem_useless_iff_needs, ← agree.linked_iff]
    exact and_congr_right fun ⟨edge, shared⟩ => not_congr (agree.needs_iff edge shared)

/-- Rows of a graph are found by their ids. -/
theorem Graph.Intact.filterMap_artifact? (hg : g.Intact) {rows : List Artifact}
    (h : ∀ d ∈ rows, d ∈ g.artifacts) : (rows.map (·.id)).filterMap g.artifact? = rows := by
  have found : ∀ d ∈ rows, g.artifact? d.id = some d := fun d hd =>
    (artifact?_eq_some_iff hg.artifactIds_nodup).2 ⟨h d hd, rfl⟩
  rw [List.filterMap_map]
  exact (List.filterMap_congr found).trans List.filterMap_some

/-- With the same rows of libraries, the lists are the same. -/
theorem dependencyUsage_eq (hg : g.Intact) (hg' : g'.Intact) (agree : g.AgreeOn g' a)
    (rows : ∀ d, g.LinksTo a d → d ∈ g'.artifacts) : dependencyUsage g a = dependencyUsage g' a := by
  obtain ⟨useful, useless⟩ := dependencyUsage_congr hg hg' agree
  have useful_eq : (dependencyUsage g a).useful = (dependencyUsage g' a).useful := by
    rw [← hg'.filterMap_artifact? fun d hd => rows d (mem_useful_iff_needs.1 hd).1, useful,
      hg'.filterMap_artifact? fun d hd => (mem_useful_iff_needs.1 hd).1.1]
  have useless_eq : (dependencyUsage g a).useless = (dependencyUsage g' a).useless := by
    rw [← hg'.filterMap_artifact? fun d hd => rows d (mem_useless_iff_needs.1 hd).1, useless,
      hg'.filterMap_artifact? fun d hd => (mem_useless_iff_needs.1 hd).1.1]
  exact congrArg₂ DependencyUsage.mk useful_eq useless_eq

/-! ## The audit -/

/-- The shared libraries that an artifact directly depends on are listed once, in the order of their
ids: as useful those that have as external what the artifact refers to as undefined, and the others as
useless.  In a graph that agrees in what the audit asks for, it lists the same libraries. -/
theorem dependencyUsage_exact (hg : g.Intact) (a : Id) :
    (∀ d, g.LinksTo a d ↔ d ∈ (dependencyUsage g a).useful ∨ d ∈ (dependencyUsage g a).useless) ∧
    (dependencyUsage g a).useful.Disjoint (dependencyUsage g a).useless ∧
    ((dependencyUsage g a).useful.map (·.id)).Pairwise (· < ·) ∧
    ((dependencyUsage g a).useless.map (·.id)).Pairwise (· < ·) ∧
    (∀ d, d ∈ (dependencyUsage g a).useful ↔ g.LinksTo a d ∧
      ∃ symbol, g.Refers a .undefined symbol ∧ g.Refers d.id .external symbol) ∧
    ∀ g' : Graph, g'.Intact → g.AgreeOn g' a →
      (dependencyUsage g' a).useful.map (·.id) = (dependencyUsage g a).useful.map (·.id) ∧
      (dependencyUsage g' a).useless.map (·.id) = (dependencyUsage g a).useless.map (·.id) ∧
      ((∀ d, g.LinksTo a d → d ∈ g'.artifacts) → dependencyUsage g' a = dependencyUsage g a) := by
  obtain ⟨useful, useless⟩ := ascending_dependencyUsage hg a
  refine ⟨fun d => ?_, fun d hd hd' => ?_, useful, useless, fun d => mem_useful_iff_needs,
    fun g' hg' agree => ?_⟩
  · rw [mem_useful_iff_needs, mem_useless_iff_needs, ← and_or_left, and_iff_left (Classical.em _)]
  · exact (mem_useless_iff_needs.1 hd').2 (mem_useful_iff_needs.1 hd).2
  · obtain ⟨same, same'⟩ := dependencyUsage_congr hg hg' agree
    exact ⟨same.symm, same'.symm, fun rows => (dependencyUsage_eq hg hg' agree rows).symm⟩

/-- A program that is linked against two libraries with the symbol that it needs, and one without. -/
def linkedTwice : Graph where
  artifacts := [⟨1, "/app", .executable, none⟩, ⟨2, "/libm.so", .shared, none⟩,
    ⟨3, "/libz.so", .shared, none⟩, ⟨4, "/libz-ng.so", .shared, none⟩]
  edges := [⟨1, 2⟩, ⟨1, 3⟩, ⟨1, 4⟩]
  symbols := [⟨1, "crc32", ""⟩, ⟨2, "sin", ""⟩]
  references := [⟨1, ⟨1, 1, .undefined, 'U', none⟩, none⟩, ⟨2, ⟨2, 2, .external, 'T', none⟩, none⟩,
    ⟨3, ⟨3, 1, .external, 'T', none⟩, none⟩, ⟨4, ⟨4, 1, .external, 'T', none⟩, none⟩]

/-- The same with another program, which needs the other symbol. -/
def linkedTwiceBeside : Graph where
  artifacts := linkedTwice.artifacts ++ [⟨5, "/tool", .executable, none⟩]
  edges := linkedTwice.edges ++ [⟨5, 2⟩]
  symbols := linkedTwice.symbols
  references := linkedTwice.references ++ [⟨5, ⟨5, 2, .undefined, 'U', none⟩, none⟩]

theorem agreeOn_linkedTwice : linkedTwice.AgreeOn linkedTwiceBeside 1 where
  edges := fun i => by simp [linkedTwiceBeside]
  needs := fun symbol => by simp [Graph.Refers, linkedTwiceBeside]
  types := fun i edge => by simp [Graph.IsShared, linkedTwiceBeside]
  defines := fun i edge shared symbol => by simp [Graph.Refers, linkedTwiceBeside]

/-- Both libraries with the symbol are useful, and the third one is useless, whatever another program
needs. -/
theorem dependencyUsage_exact_twice :
    (linkedTwice.Intact ∧ linkedTwiceBeside.Intact ∧ linkedTwice.AgreeOn linkedTwiceBeside 1) ∧
    ⟨3, "/libz.so", .shared, none⟩ ∈ (dependencyUsage linkedTwice 1).useful ∧
    ⟨4, "/libz-ng.so", .shared, none⟩ ∈ (dependencyUsage linkedTwice 1).useful ∧
    (dependencyUsage linkedTwiceBeside 1).useless.map (·.id) = [2] := by
  have intact : linkedTwice.Intact := by decide
  have intact' : linkedTwiceBeside.Intact := by decide
  obtain ⟨-, -, -, -, useful, others⟩ := dependencyUsage_exact intact 1
  refine ⟨⟨intact, intact', agreeOn_linkedTwice⟩, ?_, ?_, ?_⟩
  · exact (useful _).2 ⟨⟨by decide, by decide, rfl⟩, 1, by decide, by decide⟩
  · exact (useful _).2 ⟨⟨by decide, by decide, rfl⟩, 1, by decide, by decide⟩
  · rw [(others _ intact' agreeOn_linkedTwice).2.1]
    decide

end BuildAudit
