import BuildAudit.Graph
import BuildAudit.Number

/-!
# Duplicates

Symbols that take up space in more than one place, the most wasteful first.  The sizes of a symbol are
added up in 64 bits with a sign, and where that overflows, there is no report.
-/

namespace BuildAudit

/-- Why there is no result: something has failed, or a number has overflowed, which stops the program. -/
inductive Halt (ε : Type) where
  | failure (error : ε)
  | overflow
  deriving DecidableEq, Repr

/-- Which occurrences count.  An empty list of what is wanted accepts everything. -/
structure DuplicateFilter where
  types : List ArtifactType := []
  excludedTypes : List ArtifactType := []
  categories : List Category := []
  excludedCategories : List Category := []
  deriving DecidableEq, Repr

def DuplicateFilter.accepts (f : DuplicateFilter) (r : SizedReference) : Bool :=
  (f.types.isEmpty || f.types.contains r.artifact.type) &&
    !f.excludedTypes.contains r.artifact.type &&
    (f.categories.isEmpty || f.categories.contains r.category) &&
    !f.excludedCategories.contains r.category

/-- One place where a symbol occurs. -/
structure Occurrence where
  artifact : Artifact
  category : Category
  size : Int
  deriving DecidableEq, Repr

/-- A symbol with more than one occurrence. -/
structure Duplicate where
  symbol : Symbol
  totalSize : Int
  occurrences : List Occurrence
  deriving DecidableEq, Repr

namespace Duplicate

/-- What is reported about a symbol, unless adding up the sizes overflows. -/
def ofSymbol? (rows : List SizedReference) (symbol : Symbol) : Option Duplicate :=
  let own := rows.filter (·.symbol.id == symbol.id)
  (Number.sumInt64? (own.map (·.size))).map fun total =>
    ⟨symbol, total, own.map fun r => ⟨r.artifact, r.category, r.size⟩⟩

/-- The order of the report: by size downwards, then by name. -/
def le (a b : Duplicate) : Bool :=
  a.totalSize > b.totalSize || (a.totalSize == b.totalSize && a.symbol.name ≤ b.symbol.name)

/-- The references of each symbol taken together. -/
def groups? (rows : List SizedReference) : Option (List Duplicate) :=
  (distinct (rows.map (·.symbol))).mapM (ofSymbol? rows)

/-- Those with more than one occurrence, in the order of the report. -/
def ranked (groups : List Duplicate) : List Duplicate :=
  (groups.filter (1 < ·.occurrences.length)).mergeSort le

def ofRows? (rows : List SizedReference) : Option (List Duplicate) := (groups? rows).map ranked

end Duplicate

/-- The symbols with more than one accepted occurrence of a positive size, unless the sizes of a symbol
overflow. -/
def duplicates? (g : Graph) (f : DuplicateFilter) : Option (List Duplicate) :=
  Duplicate.ofRows? (g.sizedReferences.filter f.accepts)

end BuildAudit
