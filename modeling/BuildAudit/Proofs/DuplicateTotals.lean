import BuildAudit.Proofs.DuplicateSymbols

/-!
# Totals of duplicates

The report of duplicates adds up sizes in 64 bits with a sign, one after the other.  Each size fits by
itself, but nothing bounds their sum.  Where the accumulation never overflows, the totals of the report are
exact; where it does for one symbol, the program is stopped and there is no report
(`duplicates_total_exact`).
-/

namespace BuildAudit

open BuildAudit.Graph

/-! ## Accumulations -/

namespace Number

/-- Adding up numbers one after the other never leaves the range of 64 bits with a sign. -/
def NeverOverflows (ns : List Int) : Prop := ∀ n, fitsInt64 (ns.take n).sum

/-- Of sums of positive numbers, the last one is the largest. -/
theorem neverOverflows_iff {ns : List Int} (positive : ∀ n ∈ ns, 0 < n) :
    NeverOverflows ns ↔ ns.sum ≤ maxInt64 := by
  have taken (n : Nat) : 0 ≤ (ns.take n).sum :=
    List.sum_nonneg fun m hm => (positive m (List.mem_of_mem_take hm)).le
  constructor
  · intro fits
    have last := (fitsInt64_iff_of_nonneg (taken ns.length)).1 (fits ns.length)
    rwa [List.take_length] at last
  · intro fits n
    have rest : 0 ≤ (ns.drop n).sum :=
      List.sum_nonneg fun m hm => (positive m (List.mem_of_mem_drop hm)).le
    have split : ns.sum = (ns.take n).sum + (ns.drop n).sum := by
      rw [← List.sum_append, List.take_append_drop]
    exact (fitsInt64_iff_of_nonneg (taken n)).2 (by omega)

end Number

/-- The sizes of the references to a symbol that count, in the order in which they are added up. -/
def Graph.countedSizes (g : Graph) (f : DuplicateFilter) (symbol : Id) : List Int :=
  (g.countedRows f symbol).filterMap (·.reference.size)

section Sizes

variable {g : Graph} {f : DuplicateFilter} {symbol : Id}

/-- A size that counts is positive, and fits if symbol tables hold it. -/
theorem size_of_mem_countedSizes (plain : ∀ r ∈ g.references, IsPlainSize r.reference.size) {size : Int}
    (h : size ∈ g.countedSizes f symbol) : 0 < size ∧ size ≤ Number.maxInt64 := by
  obtain ⟨row, hrow, known⟩ := List.mem_filterMap.1 h
  obtain ⟨hrow, counted⟩ := List.mem_filter.1 hrow
  obtain ⟨-, ⟨size', known', positive⟩, -⟩ := of_decide_eq_true counted
  obtain rfl := Option.some.inj (known.symm.trans known')
  have fits : size < 2 ^ 63 := (plain row hrow size known).2
  exact ⟨positive, Int.le_of_lt_add_one fits⟩

theorem neverOverflows_countedSizes_iff (plain : ∀ r ∈ g.references, IsPlainSize r.reference.size) :
    Number.NeverOverflows (g.countedSizes f symbol) ↔ g.countedSize f symbol ≤ Number.maxInt64 :=
  Number.neverOverflows_iff fun _ hsize => (size_of_mem_countedSizes plain hsize).1

end Sizes

/-! ## Entries of the report -/

namespace Duplicate

variable {g : Graph} {f : DuplicateFilter} {d : Duplicate}

/-- The space that a symbol takes up, as a number without bounds. -/
def space (d : Duplicate) : Int := (d.occurrences.map (·.size)).sum

theorem size_pos_of_mem_duplicates (hd : d ∈ duplicates g f) {o : Occurrence} (ho : o ∈ d.occurrences) :
    0 < o.size := by
  obtain ⟨-, entry⟩ := mem_groups_iff.1 (mem_ranked_iff.1 hd).1
  rw [entry] at ho
  obtain ⟨r, hr, rfl⟩ := List.mem_map.1 ho
  exact size_pos_of_mem_sizedReferences (List.mem_of_mem_filter (List.mem_of_mem_filter hr))

theorem totalSize_of_mem_duplicates (hd : d ∈ duplicates g f) : d.totalSize = d.space := by
  obtain ⟨-, entry⟩ := mem_groups_iff.1 (mem_ranked_iff.1 hd).1
  rw [space, entry, ofSymbol, List.map_map]
  rfl

theorem size_le_space_of_mem_duplicates (hd : d ∈ duplicates g f) {o : Occurrence}
    (ho : o ∈ d.occurrences) : o.size ≤ d.space := by
  refine List.single_le_sum (fun size hsize => ?_) _ (List.mem_map_of_mem ho)
  obtain ⟨o', ho', rfl⟩ := List.mem_map.1 hsize
  exact (size_pos_of_mem_duplicates hd ho').le

theorem space_pos_of_mem_duplicates (hd : d ∈ duplicates g f) : 0 < d.space := by
  have several : 2 ≤ d.occurrences.length := (mem_ranked_iff.1 hd).2
  obtain ⟨o, ho⟩ := List.exists_mem_of_length_pos (by omega : 0 < d.occurrences.length)
  exact (size_pos_of_mem_duplicates hd ho).trans_le (size_le_space_of_mem_duplicates hd ho)

theorem pairwise_space_duplicates (hg : g.Intact) :
    (duplicates g f).Pairwise fun d e => e.space ≤ d.space := by
  refine (pairwise_before_duplicates hg).imp_of_mem fun {d e} hd he before => ?_
  rw [← totalSize_of_mem_duplicates hd, ← totalSize_of_mem_duplicates he]
  rcases before with more | ⟨same, -⟩
  · exact more.le
  · exact same.ge

end Duplicate

/-- In every store that imports and extractions attain, whatever the symbol dumper prints, and for every
filter: the sizes that count are positive and fit 64 bits with a sign, and adding up those of a symbol
never overflows exactly if their sum fits.  If it never overflows for any symbol, the report is made, the
total of each symbol is the sum of the sizes of its occurrences, it is positive and no less than any of
them, and the symbols stand in the order of the space that they take up.  If it overflows for a symbol, the
report stops the program. -/
theorem duplicates_total_exact {s : Store} (attained : s.Attained Extractor.ReadsAll)
    (f : DuplicateFilter) :
    let sizes (symbol : Symbol) := s.graph.countedSizes f symbol.id
    (∀ symbol ∈ s.graph.symbols, (∀ size ∈ sizes symbol, 0 < size ∧ size ≤ Number.maxInt64) ∧
      (Number.NeverOverflows (sizes symbol) ↔ (sizes symbol).sum ≤ Number.maxInt64)) ∧
    ((∀ symbol ∈ s.graph.symbols, Number.NeverOverflows (sizes symbol)) →
      ∃ ds, (Database.sound s).duplicates f = .ok ds ∧
        (∀ d ∈ ds, d.totalSize = d.space ∧ 0 < d.totalSize ∧ ∀ o ∈ d.occurrences, o.size ≤ d.totalSize) ∧
        ds.Pairwise fun d e => e.space ≤ d.space) ∧
    ((∃ symbol ∈ s.graph.symbols, ¬ Number.NeverOverflows (sizes symbol)) →
      (Database.sound s).duplicates f = .error .overflow) := by
  intro sizes
  have listed := (attained.kept keptByCalls_cleanlyListed).2
  have plain := listed.clean.sizes
  have report := Database.duplicates_sound listed.intact (fun r hr => listed.unstrayed hr) f
  have fits (symbol : Symbol) : Number.NeverOverflows (sizes symbol) ↔
      s.graph.countedSize f symbol.id ≤ Number.maxInt64 := neverOverflows_countedSizes_iff plain
  refine ⟨fun symbol _ => ⟨fun size => size_of_mem_countedSizes plain, fits symbol⟩, fun never => ?_, ?_⟩
  · rw [if_pos fun symbol hsymbol => (fits symbol).1 (never symbol hsymbol)] at report
    refine ⟨_, report, fun d hd => ?_, Duplicate.pairwise_space_duplicates listed.intact⟩
    rw [Duplicate.totalSize_of_mem_duplicates hd]
    exact ⟨rfl, Duplicate.space_pos_of_mem_duplicates hd,
      fun o ho => Duplicate.size_le_space_of_mem_duplicates hd ho⟩
  · rintro ⟨symbol, hsymbol, overflows⟩
    rw [report, if_neg fun all => overflows ((fits symbol).2 (all symbol hsymbol))]

theorem tablesExtracted_attained (size : String) :
    (tablesExtracted size).Attained Extractor.ReadsAll :=
  .call (.call .empty (fun _ => rfl) _ _) (fun _ => rfl) _ _

/-- Tables of 64 bytes do not overflow. -/
theorem duplicates_total_exact_tables :
    (tablesExtracted "40").graph.countedSizes {} 1 = [64, 64] ∧
      ∃ ds, (Database.sound (tablesExtracted "40")).duplicates {} = .ok ds ∧
        ∀ d ∈ ds, d.totalSize = d.space ∧ 0 < d.totalSize := by
  have symbols : (tablesExtracted "40").graph.symbols = [⟨1, "table", ""⟩] := by decide +kernel
  have sizes : (tablesExtracted "40").graph.countedSizes {} 1 = [64, 64] := by decide +kernel
  obtain ⟨each, exact, -⟩ := duplicates_total_exact (tablesExtracted_attained "40") {}
  rw [symbols] at each exact
  have fits : ((tablesExtracted "40").graph.countedSizes {} 1).sum ≤ Number.maxInt64 := by
    rw [sizes]; decide
  obtain ⟨-, never⟩ := each _ List.mem_cons_self
  obtain ⟨ds, made, totals, -⟩ := exact (List.forall_mem_singleton.2 (never.2 fits))
  exact ⟨sizes, ds, made, fun d hd => ⟨(totals d hd).1, (totals d hd).2.1⟩⟩

/-- Two tables of 2 ^ 62 bytes take up 2 ^ 63 bytes, and their report is not made. -/
theorem duplicates_total_overflows :
    ¬ ∀ s : Store, s.Attained Extractor.ReadsAll → ∀ f, ∃ ds, (Database.sound s).duplicates f = .ok ds := by
  intro made
  have stopped : (Database.sound (tablesExtracted "4000000000000000")).duplicates {} = .error .overflow := by
    decide +kernel
  obtain ⟨ds, report⟩ := made _ (tablesExtracted_attained "4000000000000000") {}
  cases report.symm.trans stopped

end BuildAudit
