import BuildAudit.FileTree
import BuildAudit.Graph.Update

/-!
# Linkage

What an artifact's direct dependencies give it: which of its undefined symbols none of them
defines, and which of its shared libraries define none of them.
-/

namespace BuildAudit

/-- Finds an artifact by its name, or else by the canonical form of a path. -/
def findArtifact? (files : FileTree) (g : Graph) (name : String) : Option Artifact :=
  match g.artifactNamed? name with
  | some a => some a
  | none =>
    match files.canonicalize name with
    | .ok path => g.artifactNamed? path
    | .error _ => none

/-- What to say about a name that finds nothing. -/
def unknownArtifact (name : String) : String := "Unknown artifact: " ++ name

/-! ### Undefined symbols -/

/-- An undefined symbol that no direct dependency defines. -/
structure UnresolvedSymbol where
  symbol : Symbol
  /-- The artifacts anywhere in the graph that define it for others. -/
  candidates : List Artifact
  deriving DecidableEq, Repr

/-- The symbols that the direct dependencies of an artifact define for others. -/
def providedTo (g : Graph) (artifact : Id) : List Id :=
  (g.dependenciesOf artifact).flatMap fun d => g.symbolsOf d.id .external

/-- The undefined symbols of an artifact that its direct dependencies leave open, each once. -/
def openSymbols (g : Graph) (artifact : Id) : List Id :=
  (distinct (g.symbolsOf artifact .undefined)).filter (!(providedTo g artifact).contains ·)

/-- An open symbol with the artifacts that could provide it. -/
def unresolved (g : Graph) (id : Id) : Except StoreError UnresolvedSymbol :=
  match g.symbol? id with
  | some symbol => .ok ⟨symbol, g.exporters id⟩
  | none => .error (.danglingSymbol id)

/-- The order of symbols by name. -/
def UnresolvedSymbol.le (a b : UnresolvedSymbol) : Bool := a.symbol.name ≤ b.symbol.name

/-- The undefined symbols of an artifact that its direct dependencies leave open, by name. -/
def undefinedSymbols (g : Graph) (artifact : Id) : Except StoreError (List UnresolvedSymbol) :=
  ((openSymbols g artifact).mapM (unresolved g)).map (·.mergeSort UnresolvedSymbol.le)

/-! ### Useless libraries -/

/-- The shared libraries among the direct dependencies of an artifact. -/
structure DependencyUsage where
  useful : List Artifact
  useless : List Artifact
  deriving DecidableEq, Repr

/-- Whether a library defines a symbol that the artifact needs. -/
def isUseful (g : Graph) (artifact : Id) (library : Artifact) : Bool :=
  (g.symbolsOf library.id .external).any (g.symbolsOf artifact .undefined).contains

/-- The shared dependencies of an artifact, split by whether it needs them. -/
def dependencyUsage (g : Graph) (artifact : Id) : DependencyUsage :=
  let libraries := (g.dependenciesOf artifact).filter (·.type == .shared)
  ⟨libraries.filter (isUseful g artifact), libraries.filter (!isUseful g artifact ·)⟩

end BuildAudit
