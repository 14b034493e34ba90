import BuildAudit.Distinct
import BuildAudit.Instant
import BuildAudit.Symbol

/-!
# The build graph

Tables of commands, artifacts, dependency edges, symbols and symbol references, and the times at
which the phases of the work last ended.  Rows stand in the order of their ids.  This file holds
the tables and what can be read from them; `BuildAudit.Graph.Update` changes them.
-/

namespace BuildAudit

/-- The first artifact needs the second. -/
structure Edge where
  dependee : Id
  dependency : Id
  deriving DecidableEq, Repr, Inhabited

/-- A stored reference. -/
structure ReferenceRow where
  id : Id
  reference : Reference
  /-- A text that others have put in place of the category, if it names none. -/
  strayCategory : Option String := none
  deriving DecidableEq, Repr, Inhabited

/-! ### Phases -/

/-- The phases of the work whose end is recorded. -/
inductive Phase where
  | importCommands
  | extractDependencies
  | extractSymbols
  deriving DecidableEq, Repr, Inhabited

namespace Phase

/-- Every phase, in the order of the work. -/
def all : List Phase := [importCommands, extractDependencies, extractSymbols]

/-- The name of a phase, as stored and printed. -/
def name : Phase → String
  | importCommands => "import-commands"
  | extractDependencies => "extract-dependencies"
  | extractSymbols => "extract-symbols"

def ofName? (s : String) : Option Phase := all.find? (·.name == s)

end Phase

/-- A recorded time: an instant, or a text that is no time. -/
inductive Stamp where
  | at (time : Instant)
  | unreadable (text : String)
  deriving DecidableEq, Repr

namespace Stamp

/-- What a text records. -/
def ofText (text : String) : Stamp :=
  match Instant.ofText? text with
  | some time => .at time
  | none => .unreadable text

/-- What recording an instant leaves.  The text of a year outside 0 to 9999 has a sign, which no
reader of times accepts. -/
def ofInstant (time : Instant) : Stamp :=
  if 0 ≤ time.year ∧ time.year ≤ 9999 then .at time else .unreadable time.text

end Stamp

/-- The recorded time of each phase. -/
structure Stamps where
  importCommands : Option Stamp := none
  extractDependencies : Option Stamp := none
  extractSymbols : Option Stamp := none
  deriving DecidableEq, Repr

namespace Stamps

def get (s : Stamps) : Phase → Option Stamp
  | .importCommands => s.importCommands
  | .extractDependencies => s.extractDependencies
  | .extractSymbols => s.extractSymbols

def set (s : Stamps) (p : Phase) (stamp : Stamp) : Stamps :=
  match p with
  | .importCommands => { s with importCommands := some stamp }
  | .extractDependencies => { s with extractDependencies := some stamp }
  | .extractSymbols => { s with extractSymbols := some stamp }

end Stamps

/-! ### Tables -/

structure Graph where
  commands : List CommandRecord := []
  artifacts : List Artifact := []
  edges : List Edge := []
  symbols : List Symbol := []
  references : List ReferenceRow := []
  stamps : Stamps := {}
  deriving DecidableEq, Repr

/-- The id of the next row of a table: one more than the largest, starting at one. -/
def nextId (ids : List Id) : Id := ids.foldl max 0 + 1

/-- How many rows each table has. -/
structure GraphStats where
  commands : Nat
  artifacts : Nat
  dependencies : Nat
  symbols : Nat
  references : Nat
  deriving DecidableEq, Repr

/-- A reference of a known, positive size, with its symbol and its artifact. -/
structure SizedReference where
  symbol : Symbol
  artifact : Artifact
  category : Category
  size : Int
  deriving DecidableEq, Repr

/-- Which way to follow edges. -/
inductive Direction where
  /-- From an artifact to what it needs. -/
  | dependencies
  /-- From an artifact to what needs it. -/
  | dependees
  deriving DecidableEq, Repr

namespace Graph

def empty : Graph := {}

/-! ### Rows -/

def command? (g : Graph) (id : Id) : Option CommandRecord := g.commands.find? (·.id == id)

def hasCommand (g : Graph) (id : Id) : Bool := g.commands.any (·.id == id)

def commandOf? (g : Graph) (directory executable args : String) : Option CommandRecord :=
  g.commands.find? fun c =>
    c.directory == directory && c.executable == executable && c.args == args

def artifact? (g : Graph) (id : Id) : Option Artifact := g.artifacts.find? (·.id == id)

def hasArtifact (g : Graph) (id : Id) : Bool := g.artifacts.any (·.id == id)

def artifactNamed? (g : Graph) (name : String) : Option Artifact :=
  g.artifacts.find? (·.name == name)

/-- The artifacts that carry a symbol table. -/
def binaries (g : Graph) : List Artifact := g.artifacts.filter (·.type.hasSymbols)

def symbol? (g : Graph) (id : Id) : Option Symbol := g.symbols.find? (·.id == id)

def hasSymbol (g : Graph) (id : Id) : Bool := g.symbols.any (·.id == id)

def symbolNamed? (g : Graph) (name : String) : Option Symbol := g.symbols.find? (·.name == name)

def stats (g : Graph) : GraphStats :=
  ⟨g.commands.length, g.artifacts.length, g.edges.length, g.symbols.length, g.references.length⟩

/-! ### Edges -/

/-- What an artifact directly needs. -/
def dependenciesOf (g : Graph) (id : Id) : List Artifact :=
  g.artifacts.filter fun a => g.edges.contains ⟨id, a.id⟩

/-- What directly needs an artifact. -/
def dependeesOf (g : Graph) (id : Id) : List Artifact :=
  g.artifacts.filter fun a => g.edges.contains ⟨a.id, id⟩

def neighbours (g : Graph) : Direction → Id → List Artifact
  | .dependencies => g.dependenciesOf
  | .dependees => g.dependeesOf

/-- The order of edges: by dependee, then by dependency. -/
def edgeLe (a b : Edge) : Bool :=
  a.dependee < b.dependee || (a.dependee == b.dependee && a.dependency ≤ b.dependency)

/-- Every edge, by dependee and dependency. -/
def sortedEdges (g : Graph) : List Edge := g.edges.mergeSort edgeLe

/-! ### References -/

/-- The references whose category is one. -/
def readableReferences (g : Graph) : List Reference :=
  (g.references.filter (·.strayCategory.isNone)).map (·.reference)

/-- The references of one artifact in one category. -/
def referencesOf (g : Graph) (artifact : Id) (category : Category) : List Reference :=
  g.readableReferences.filter fun r => r.artifact == artifact && r.category == category

/-- The symbols that an artifact has in one category. -/
def symbolsOf (g : Graph) (artifact : Id) (category : Category) : List Id :=
  (g.referencesOf artifact category).map (·.symbol)

/-- The artifacts that define a symbol for others. -/
def exporters (g : Graph) (symbol : Id) : List Artifact :=
  g.artifacts.filter fun a => (g.symbolsOf a.id .external).contains symbol

/-- The reference with its rows, if it has a positive size and both rows are there. -/
def sized? (g : Graph) (r : Reference) : Option SizedReference := do
  let size ← r.size
  if size ≤ 0 then none
  else return ⟨← g.symbol? r.symbol, ← g.artifact? r.artifact, r.category, size⟩

def sizedReferences (g : Graph) : List SizedReference :=
  g.readableReferences.filterMap g.sized?

end Graph

end BuildAudit
