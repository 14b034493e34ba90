import BuildAudit.Artifact

/-!
# Symbols

The names that artifacts share: rows for symbols and for references to them, and the three ways in
which an artifact can relate to a symbol.
-/

namespace BuildAudit

/-- How an artifact relates to a symbol. -/
inductive Category where
  /-- Needed but not defined. -/
  | undefined
  /-- Defined and visible to other artifacts. -/
  | external
  /-- Defined for the artifact alone. -/
  | internal
  deriving DecidableEq, Repr, Inhabited

namespace Category

/-- Every category, in order of declaration. -/
def all : List Category := [undefined, external, internal]

/-- The name of a category, as stored and printed. -/
def name : Category → String
  | undefined => "undefined"
  | external => "external"
  | internal => "internal"

def ofName? (s : String) : Option Category := all.find? (·.name == s)

end Category

/-- A symbol of the graph. -/
structure Symbol where
  id : Id
  /-- The name in symbol tables, without a version. -/
  name : String
  /-- The name as a programmer writes it; empty if `name` encodes none. -/
  demangled : String
  deriving DecidableEq, Repr, Inhabited

/-- The text that reports show for a symbol. -/
def Symbol.display (s : Symbol) : String := if s.demangled == "" then s.name else s.demangled

/-- One appearance of a symbol in the symbol table of an artifact. -/
structure Reference where
  artifact : Id
  symbol : Id
  category : Category
  /-- The letter by which the symbol table classifies the symbol. -/
  code : Char
  size : Option Int
  deriving DecidableEq, Repr, Inhabited

end BuildAudit
