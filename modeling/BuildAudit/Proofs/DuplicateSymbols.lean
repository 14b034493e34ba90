import BuildAudit.Proofs.NameOrder
import BuildAudit.Proofs.SurfacingErrors

/-!
# Symbols that take up space more than once

The report of duplicates, in terms of rows.  It lists exactly the symbols with at least two references
that count, each with these references in the order of their ids, the most wasteful first
(`duplicates_exact`).  The report is made by grouping references by their symbols; in which order the
groups come does not matter (`ranked_of_perm`), as no two of them rank the same.
-/

namespace BuildAudit

open BuildAudit.Graph

variable {g : Graph} {f : DuplicateFilter}

namespace Duplicate

/-! ## The report -/

theorem mem_ranked_iff {ds : List Duplicate} {d : Duplicate} :
    d ∈ ranked ds ↔ d ∈ ds ∧ 2 ≤ d.occurrences.length := by
  rw [ranked, (List.mergeSort_perm _ _).mem_iff, List.mem_filter, decide_eq_true_eq]
  rfl

/-- The first stands before the second in the report: it takes up more space, or as much and has the
lesser name. -/
def Before (d e : Duplicate) : Prop :=
  e.totalSize < d.totalSize ∨
    d.totalSize = e.totalSize ∧ Text.bytes d.symbol.name < Text.bytes e.symbol.name

theorem le_trans (c d e : Duplicate) (h : le c d) (h' : le d e) : le c e :=
  shownLe_trans c.shown d.shown e.shown h h'

theorem le_total (d e : Duplicate) : le d e || le e d := shownLe_total d.shown e.shown

/-- In whatever order the groups come, the report is the same. -/
theorem ranked_of_perm (hg : g.Intact) {ds : List Duplicate} (perm : ds.Perm (groups (g.acceptedBy f))) :
    ranked ds = duplicates g f := by
  refine mergeSort_eq_of_perm le_trans le_total (fun d hd e he le le' => ?_) (perm.filter _)
  have group {d : Duplicate} (hd : d ∈ ds.filter (1 < ·.occurrences.length)) :
      d ∈ groups (g.acceptedBy f) := perm.mem_iff.1 (List.mem_of_mem_filter hd)
  exact eq_of_name_eq hg (group hd) (group he) (name_eq_of_shownLe (v := d.shown) (w := e.shown) le le')

theorem nodup_groups (rows : List SizedReference) : (groups rows).Nodup := by
  refine List.Nodup.of_map (·.symbol) ?_
  rw [groups, List.map_map]
  exact (nodup_distinct _).map fun _ _ same => same

/-- No two groups rank the same. -/
theorem pairwise_before_duplicates (hg : g.Intact) : (duplicates g f).Pairwise Before := by
  refine pairwise_lt_mergeSort le_trans le_total ((nodup_groups _).filter _) fun d hd e he le other => ?_
  rcases (shownLe_iff (v := d.shown) (w := e.shown)).1 le with more | ⟨same, lesser⟩
  · exact .inl more
  · refine .inr ⟨same, Text.bytes_lt_iff.2 (lt_of_le_of_ne lesser fun name => other ?_)⟩
    exact eq_of_name_eq hg (List.mem_of_mem_filter hd) (List.mem_of_mem_filter he) name

theorem nodup_duplicates (g : Graph) (f : DuplicateFilter) : (duplicates g f).Nodup :=
  (List.mergeSort_perm _ _).nodup_iff.2 ((nodup_groups _).filter _)

/-- The entries of the report. -/
theorem mem_duplicates_iff (hg : g.Intact) (unstrayed : ∀ r ∈ g.references, r.strayCategory = none)
    {d : Duplicate} :
    d ∈ duplicates g f ↔ d.symbol ∈ g.symbols ∧ 2 ≤ (g.countedRows f d.symbol.id).length ∧
      d = ofSymbol (g.acceptedBy f) d.symbol := by
  have report : duplicates g f = ranked (groups (g.acceptedBy f)) := rfl
  have count := (shows_ofSymbol (f := f) hg unstrayed d.symbol).length_eq
  rw [report, mem_ranked_iff, mem_groups_iff]
  constructor
  · rintro ⟨⟨row, entry⟩, several⟩
    obtain ⟨r, hr, same⟩ := List.mem_map.1 row
    rw [entry, ← count] at several
    exact ⟨same ▸ mem_symbols_of_mem_acceptedBy hg hr, several, entry⟩
  · rintro ⟨symbol, several, entry⟩
    rw [count, ← entry] at several
    refine ⟨⟨?_, entry⟩, several⟩
    -- what has an occurrence has a reference
    have own := (forall₂_acceptedBy (f := f) hg unstrayed d.symbol.id).length_eq
    obtain ⟨r, hr⟩ : ∃ r, r ∈ (g.acceptedBy f).filter (·.symbol.id == d.symbol.id) :=
      List.exists_mem_of_length_pos (by rw [← own, count, ← entry]; omega)
    obtain ⟨hr, id⟩ := List.mem_filter.1 hr
    exact List.mem_map.2 ⟨r, hr, List.inj_on_of_nodup_map hg.symbolIds_nodup
      (mem_symbols_of_mem_acceptedBy hg hr) symbol (eq_of_beq id)⟩

end Duplicate

/-- In a store whose references all have a category, and where the space of no symbol exceeds what a number
can hold, the report of duplicates lists the symbols with at least two references that count, each once.
With each it lists all these references, in the order of their ids, and their total size.  The symbols
stand in a strict order, by their total sizes downwards and then by the bytes of their names, so it does
not matter in which order the groups of references come. -/
theorem duplicates_exact {s : Store} (hs : s.graph.Intact)
    (unstrayed : ∀ row ∈ s.graph.references, row.strayCategory = none) (f : DuplicateFilter)
    (fits : ∀ symbol ∈ s.graph.symbols, s.graph.countedSize f symbol.id ≤ Number.maxInt64) :
    ∃ ds, (Database.sound s).duplicates f = .ok ds ∧
      (∀ symbol, symbol ∈ ds.map (·.symbol) ↔
        symbol ∈ s.graph.symbols ∧ 2 ≤ (s.graph.countedRows f symbol.id).length) ∧
      (ds.map (·.symbol)).Nodup ∧
      (∀ d ∈ ds,
        ((s.graph.countedRows f d.symbol.id).map (·.id)).Pairwise (· < ·) ∧
        List.Forall₂ (Occurrence.Shows s.graph) (s.graph.countedRows f d.symbol.id) d.occurrences ∧
        d.totalSize = s.graph.countedSize f d.symbol.id) ∧
      ds.Pairwise Duplicate.Before ∧
      ∃ groups, Duplicate.groups? (s.graph.acceptedBy f) = some groups ∧
        ∀ groups', groups'.Perm groups → Duplicate.ranked groups' = ds := by
  have listed {d : Duplicate} := Duplicate.mem_duplicates_iff (f := f) (d := d) hs unstrayed
  have sized : ∀ r ∈ s.graph.acceptedBy f, 0 < r.size := fun r hr =>
    size_pos_of_mem_sizedReferences (List.mem_of_mem_filter hr)
  have made : (Database.sound s).duplicates f = .ok (duplicates s.graph f) := by
    rw [Database.duplicates_sound hs unstrayed, if_pos fits]
  have grouped : Duplicate.groups? (s.graph.acceptedBy f) = some (Duplicate.groups (s.graph.acceptedBy f)) := by
    rw [Duplicate.groups?_eq sized, if_pos ((Duplicate.forall_totalSize_iff hs unstrayed).2 fits)]
  refine ⟨_, made, fun symbol => ?_, ?_, fun d hd => ?_, Duplicate.pairwise_before_duplicates hs, _, grouped,
    fun groups perm => Duplicate.ranked_of_perm hs perm⟩
  · rw [List.mem_map]
    constructor
    · rintro ⟨d, hd, rfl⟩
      exact ⟨(listed.1 hd).1, (listed.1 hd).2.1⟩
    · rintro ⟨hsymbol, several⟩
      exact ⟨Duplicate.ofSymbol (s.graph.acceptedBy f) symbol, listed.2 ⟨hsymbol, several, rfl⟩, rfl⟩
  · refine List.Nodup.map_on (fun d hd e he same => ?_) (Duplicate.nodup_duplicates s.graph f)
    rw [(listed.1 hd).2.2, (listed.1 he).2.2, same]
  · obtain ⟨-, -, entry⟩ := listed.1 hd
    refine ⟨hs.referenceIds.sublist (List.filter_sublist.map _), ?_, ?_⟩
    · rw [entry]
      exact Duplicate.shows_ofSymbol hs unstrayed d.symbol
    · rw [entry]
      exact Duplicate.totalSize_ofSymbol hs unstrayed d.symbol

/-- Two object files that both have two tables, and a library that has one of these as well.  One of the
files has a function that the other one refers to. -/
def bulky : Store where
  graph := {
    artifacts := [⟨1, "/a.o", .object, none⟩, ⟨2, "/b.o", .object, none⟩, ⟨3, "/libm.a", .static, none⟩]
    symbols := [⟨1, "sines", ""⟩, ⟨2, "primes", ""⟩, ⟨3, "main", ""⟩]
    references := [⟨1, ⟨1, 1, .internal, 'd', some 64⟩, none⟩, ⟨2, ⟨1, 2, .internal, 'd', some 60⟩, none⟩,
      ⟨3, ⟨2, 2, .internal, 'd', some 60⟩, none⟩, ⟨4, ⟨2, 1, .internal, 'd', some 56⟩, none⟩,
      ⟨5, ⟨3, 1, .external, 'D', some 64⟩, none⟩, ⟨6, ⟨1, 3, .external, 'T', some 12⟩, none⟩,
      ⟨7, ⟨2, 3, .undefined, 'U', none⟩, none⟩] }

/-- Outside the library each table is there twice.  The function has a size in one place only. -/
theorem duplicates_exact_bulky :
    bulky.graph.Intact ∧ ∃ ds,
      (Database.sound bulky).duplicates { excludedTypes := [.static] } = .ok ds ∧
      ⟨3, "main", ""⟩ ∉ ds.map (·.symbol) ∧ ⟨2, "primes", ""⟩ ∈ ds.map (·.symbol) ∧
      ∃ d ∈ ds, d.symbol = ⟨1, "sines", ""⟩ ∧ d.totalSize = 120 ∧ d.occurrences.length = 2 := by
  have intact : bulky.graph.Intact := by decide
  obtain ⟨ds, found, listed, -, entries, -⟩ := duplicates_exact intact (by decide)
    { excludedTypes := [.static] } (by decide)
  refine ⟨intact, ds, found, ?_, (listed _).2 (by decide), ?_⟩
  · rw [listed]
    decide
  · obtain ⟨d, hd, symbol⟩ := List.mem_map.1 ((listed ⟨1, "sines", ""⟩).2 (by decide))
    obtain ⟨-, shows, total⟩ := entries d hd
    rw [symbol] at shows total
    exact ⟨d, hd, symbol, total, shows.length_eq.symm⟩

end BuildAudit
