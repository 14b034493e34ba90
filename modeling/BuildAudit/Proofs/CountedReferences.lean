import Mathlib.Data.List.Forall2
import BuildAudit.Proofs.Renaming

/-!
# References that count

A reference counts for a report of duplicates if it has a positive size and the filter lets its artifact
and its category pass.  The entry of a symbol shows its references that count (`Duplicate.shows_ofSymbol`)
and adds up their sizes (`Duplicate.totalSize_ofSymbol`), so a report is made exactly if these sizes do not
overflow for any symbol (`Graph.duplicates?_eq_counted`).
-/

namespace BuildAudit

open BuildAudit.Graph

variable {g : Graph} {f : DuplicateFilter}

/-! ## References that count -/

/-- The filter lets a category pass in artifacts of a type: where it names what is wanted, both are among
it, and neither is excluded. -/
structure DuplicateFilter.Admits (f : DuplicateFilter) (type : ArtifactType) (category : Category) :
    Prop where
  wantedType : f.types = [] ∨ type ∈ f.types
  otherType : type ∉ f.excludedTypes
  wantedCategory : f.categories = [] ∨ category ∈ f.categories
  otherCategory : category ∉ f.excludedCategories

instance (f : DuplicateFilter) (type : ArtifactType) (category : Category) :
    Decidable (f.Admits type category) :=
  decidable_of_iff
    ((f.types = [] ∨ type ∈ f.types) ∧ type ∉ f.excludedTypes ∧
      (f.categories = [] ∨ category ∈ f.categories) ∧ category ∉ f.excludedCategories)
    ⟨fun ⟨h₁, h₂, h₃, h₄⟩ => ⟨h₁, h₂, h₃, h₄⟩,
      fun h => ⟨h.wantedType, h.otherType, h.wantedCategory, h.otherCategory⟩⟩

theorem DuplicateFilter.accepts_iff {r : SizedReference} :
    f.accepts r ↔ f.Admits r.artifact.type r.category := by
  simp only [accepts, Bool.and_eq_true, Bool.or_eq_true, List.isEmpty_iff, Bool.not_eq_true',
    List.contains_eq_mem, decide_eq_false_iff_not, decide_eq_true_eq]
  constructor
  · rintro ⟨⟨⟨h₁, h₂⟩, h₃⟩, h₄⟩
    exact ⟨h₁, h₂, h₃, h₄⟩
  · intro h
    exact ⟨⟨⟨h.wantedType, h.otherType⟩, h.wantedCategory⟩, h.otherCategory⟩

/-- A reference counts if its size is positive and the filter lets it pass. -/
def Graph.Counts (g : Graph) (f : DuplicateFilter) (r : Reference) : Prop :=
  (∃ size ∈ r.size, 0 < size) ∧ ∃ a ∈ g.artifacts, a.id = r.artifact ∧ f.Admits a.type r.category

instance (g : Graph) (f : DuplicateFilter) (r : Reference) : Decidable (g.Counts f r) :=
  inferInstanceAs (Decidable (_ ∧ ∃ a ∈ g.artifacts, _))

/-- The references to a symbol that count. -/
def Graph.countedRows (g : Graph) (f : DuplicateFilter) (symbol : Id) : List ReferenceRow :=
  g.references.filter fun row => row.reference.symbol = symbol ∧ g.Counts f row.reference

/-- The space that a symbol takes up where it counts. -/
def Graph.countedSize (g : Graph) (f : DuplicateFilter) (symbol : Id) : Int :=
  ((g.countedRows f symbol).filterMap (·.reference.size)).sum

/-- Where every category is one, all references are readable. -/
theorem sizedReferences_eq (unstrayed : ∀ r ∈ g.references, r.strayCategory = none) :
    g.sizedReferences = g.references.filterMap fun row => g.sized? row.reference := by
  have readable : g.references.filter (·.strayCategory.isNone) = g.references :=
    List.filter_eq_self.2 fun row hrow => by rw [unstrayed row hrow]; rfl
  rw [sizedReferences, readableReferences, readable, List.filterMap_map]
  rfl

theorem sized?_eq_some_iff (hg : g.Intact) {r : Reference} {found : SizedReference} :
    g.sized? r = some found ↔
      (r.size = some found.size ∧ 0 < found.size) ∧
        (found.symbol ∈ g.symbols ∧ found.symbol.id = r.symbol) ∧
        (found.artifact ∈ g.artifacts ∧ found.artifact.id = r.artifact) ∧ found.category = r.category := by
  rw [← symbol?_eq_some_iff hg.symbolIds_nodup,
    ← artifact?_eq_some_iff hg.artifactIds_nodup]
  obtain ⟨symbol, artifact, category, size⟩ := found
  simp only [sized?, Option.bind_eq_bind, Option.bind_eq_some_iff]
  constructor
  · rintro ⟨n, hn, row⟩
    split at row
    · cases row
    · simp only [Option.bind_eq_some_iff] at row
      obtain ⟨s, hs, a, ha, same⟩ := row
      cases same
      exact ⟨⟨hn, by omega⟩, hs, ha, rfl⟩
  · rintro ⟨⟨hn, positive⟩, hs, ha, rfl⟩
    refine ⟨size, hn, ?_⟩
    rw [if_neg (by omega), hs, ha]
    rfl

/-- The references that pass the filter, as they are read for the report. -/
def Graph.acceptedBy (g : Graph) (f : DuplicateFilter) : List SizedReference :=
  g.sizedReferences.filter f.accepts

theorem mem_symbols_of_mem_acceptedBy (hg : g.Intact) {r : SizedReference} (h : r ∈ g.acceptedBy f) :
    r.symbol ∈ g.symbols :=
  mem_symbols_of_mem_sizedReferences hg (List.mem_of_mem_filter h)

/-- Each element for which there is something, and what there is. -/
theorem forall₂_filterMap {α β : Type} (find : α → Option β) (xs : List α) :
    List.Forall₂ (fun x y => find x = some y) (xs.filter (find · |>.isSome)) (xs.filterMap find) := by
  induction xs with
  | nil => exact .nil
  | cons x xs ih =>
    rcases found : find x with _ | y
    · simpa [List.filterMap_cons, found] using ih
    · simpa [List.filterMap_cons, found] using ih

/-- A reference to the symbol that is read and passes the filter is one that counts. -/
theorem exists_sized?_iff_counts (hg : g.Intact) {row : ReferenceRow} (hrow : row ∈ g.references)
    {symbol : Id} :
    (∃ r, g.sized? row.reference = some r ∧ f.accepts r ∧ r.symbol.id = symbol) ↔
      row.reference.symbol = symbol ∧ g.Counts f row.reference := by
  simp only [DuplicateFilter.accepts_iff, sized?_eq_some_iff hg]
  constructor
  · rintro ⟨r, ⟨⟨size, positive⟩, ⟨-, id⟩, artifact, category⟩, admits, own⟩
    rw [category] at admits
    exact ⟨id.symm.trans own, ⟨r.size, size, positive⟩, r.artifact, artifact.1, artifact.2, admits⟩
  · rintro ⟨own, ⟨size, known, positive⟩, a, ha, artifact, admits⟩
    obtain ⟨s, hs, id⟩ := hasSymbol_iff.1 (hg.referenceEnds row hrow).2
    exact ⟨⟨s, a, row.reference.category, size⟩,
      ⟨⟨known, positive⟩, ⟨hs, id⟩, ⟨ha, artifact⟩, rfl⟩, admits, id.trans own⟩

/-- The references to a symbol that are read and pass the filter are those that count, in the same
order. -/
theorem forall₂_acceptedBy (hg : g.Intact) (unstrayed : ∀ r ∈ g.references, r.strayCategory = none)
    (symbol : Id) :
    List.Forall₂ (fun row r => g.sized? row.reference = some r) (g.countedRows f symbol)
      ((g.acceptedBy f).filter (·.symbol.id == symbol)) := by
  let find (row : ReferenceRow) : Option SizedReference :=
    (g.sized? row.reference).filter fun r => r.symbol.id == symbol && f.accepts r
  have own : (g.acceptedBy f).filter (·.symbol.id == symbol) = g.references.filterMap find := by
    rw [acceptedBy, List.filter_filter, sizedReferences_eq unstrayed, List.filter_filterMap]
  have rows : g.countedRows f symbol = g.references.filter (find · |>.isSome) := by
    refine List.filter_congr fun row hrow => ?_
    rw [Bool.eq_iff_iff, decide_eq_true_eq, ← exists_sized?_iff_counts hg hrow]
    simp [find, Option.isSome_filter, Option.any_eq_true, and_comm]
  rw [own, rows]
  exact (forall₂_filterMap find g.references).imp fun row r found => (Option.filter_eq_some_iff.1 found).1

/-! ## Occurrences -/

/-- An occurrence shows the artifact, the category and the size of a reference. -/
structure Occurrence.Shows (g : Graph) (row : ReferenceRow) (o : Occurrence) : Prop where
  artifact : o.artifact ∈ g.artifacts ∧ o.artifact.id = row.reference.artifact
  category : o.category = row.reference.category
  size : row.reference.size = some o.size

/-- Occurrences have the sizes of what they show. -/
theorem map_size_of_shows {rows : List ReferenceRow} {os : List Occurrence}
    (shows : List.Forall₂ (Occurrence.Shows g) rows os) :
    os.map (·.size) = rows.filterMap (·.reference.size) := by
  induction shows with
  | nil => rfl
  | cons first _ ih => simp [first.size, ih]

namespace Duplicate

section Entries

variable (hg : g.Intact) (unstrayed : ∀ r ∈ g.references, r.strayCategory = none)

include hg unstrayed

/-- The entry that is made for a symbol shows its references that count. -/
theorem shows_ofSymbol (s : Symbol) :
    List.Forall₂ (Occurrence.Shows g) (g.countedRows f s.id)
      (ofSymbol (g.acceptedBy f) s).occurrences := by
  refine List.forall₂_map_right_iff.2 ((forall₂_acceptedBy hg unstrayed s.id).imp fun row r found => ?_)
  obtain ⟨⟨size, -⟩, -, artifact, category⟩ := (sized?_eq_some_iff hg).1 found
  exact ⟨artifact, category, size⟩

/-- The entry of a symbol has the size of its references that count. -/
theorem totalSize_ofSymbol (s : Symbol) :
    (ofSymbol (g.acceptedBy f) s).totalSize = g.countedSize f s.id := by
  rw [countedSize, ← map_size_of_shows (shows_ofSymbol hg unstrayed s), ofSymbol, List.map_map]
  rfl

/-- The totals of all entries fit exactly if the sizes of every symbol do. -/
theorem forall_totalSize_iff :
    (∀ d ∈ groups (g.acceptedBy f), d.totalSize ≤ Number.maxInt64) ↔
      ∀ symbol ∈ g.symbols, g.countedSize f symbol.id ≤ Number.maxInt64 := by
  constructor
  · intro fits symbol hsymbol
    by_cases row : symbol ∈ (g.acceptedBy f).map (·.symbol)
    · rw [← totalSize_ofSymbol hg unstrayed]
      exact fits _ (mem_groups_iff.2 ⟨row, rfl⟩)
    · -- what has no reference takes up no space
      have own : (g.acceptedBy f).filter (·.symbol.id == symbol.id) = [] := by
        refine List.filter_eq_nil_iff.2 fun r hr same => row (List.mem_map.2 ⟨r, hr, ?_⟩)
        exact List.inj_on_of_nodup_map hg.symbolIds_nodup (mem_symbols_of_mem_acceptedBy hg hr) hsymbol
          (eq_of_beq same)
      have none := (forall₂_acceptedBy (f := f) hg unstrayed symbol.id).length_eq
      rw [own, List.length_nil, List.length_eq_zero_iff] at none
      rw [countedSize, none]
      exact Int.natCast_nonneg Number.maxInt64
  · intro fits d hd
    obtain ⟨symbol, entry⟩ := mem_groups_iff.1 hd
    obtain ⟨r, hr, same⟩ := List.mem_map.1 symbol
    rw [entry, totalSize_ofSymbol hg unstrayed]
    exact fits _ (same ▸ mem_symbols_of_mem_acceptedBy hg hr)

end Entries

end Duplicate

/-- The report is made, with exact totals, unless the sizes that count overflow for a symbol. -/
theorem Graph.duplicates?_eq_counted (hg : g.Intact)
    (unstrayed : ∀ r ∈ g.references, r.strayCategory = none) (f : DuplicateFilter) :
    duplicates? g f =
      if ∀ symbol ∈ g.symbols, g.countedSize f symbol.id ≤ Number.maxInt64 then some (duplicates g f)
      else none := by
  rw [duplicates?_eq]
  exact if_congr (Duplicate.forall_totalSize_iff hg unstrayed) rfl rfl

end BuildAudit
