import BuildAudit.Graph

/-!
# Graphs by name

Ids say nothing by themselves.  Here a graph is seen without them: artifacts with the command that
generates them, edges between names, references of named symbols.
-/

namespace BuildAudit

/-- An artifact without its id. -/
structure NamedArtifact where
  name : String
  type : ArtifactType
  generator : Option CommandRecord
  deriving DecidableEq, Repr

/-- A reference without ids. -/
structure NamedReference where
  artifact : String
  symbol : Symbol
  category : Category
  code : Char
  size : Option Int
  deriving DecidableEq, Repr

namespace Graph

/-- The artifacts, each with its generator. -/
def namedArtifacts (g : Graph) : List NamedArtifact :=
  g.artifacts.map fun a => ⟨a.name, a.type, a.generator.bind g.command?⟩

def namedEdges (g : Graph) : List (String × String) :=
  g.edges.filterMap fun e => do
    return ((← g.artifact? e.dependee).name, (← g.artifact? e.dependency).name)

/-- The references, with the name of the artifact and the symbol. -/
def namedReferences (g : Graph) : List NamedReference :=
  g.readableReferences.filterMap fun r => do
    return ⟨(← g.artifact? r.artifact).name, ← g.symbol? r.symbol, r.category, r.code, r.size⟩

end Graph

end BuildAudit
