import BuildAudit.Graph

/-!
# Updates of the graph

The statements that change a graph.  An update that fails keeps what it has written before; what to
do about that is the matter of a transaction (`BuildAudit.Store`).
-/

namespace BuildAudit

/-- Why an operation on a store failed. -/
inductive StoreError where
  | typeConflict (name : String) (existing requested : ArtifactType)
  | generatorConflict (name : String) (existing requested : Id)
  | selfDependency (id : Id)
  /-- A row would refer to one that is not there. -/
  | foreignKey
  | nestedTransaction
  | commitOutside
  | rollbackOutside
  /-- The recorded time of a phase is no time. -/
  | unreadableTime (text : String) (phase : Phase)
  /-- A reference names a symbol that is not there. -/
  | danglingSymbol (id : Id)
  /-- In the given column of a row stands no kind of artifacts. -/
  | unknownType (column : Nat) (text : String)
  | unknownCategory (text : String)
  /-- The table of commands is gone. -/
  | noCommands
  /-- A row cannot refer to a command, as there is no table of them. -/
  | noParent
  /-- The database can only be read. -/
  | readOnly
  deriving DecidableEq, Repr

def StoreError.message : StoreError → String
  | typeConflict name existing requested =>
    "Artifact " ++ name ++ " is already a " ++ existing.name ++ " and cannot become a " ++
      requested.name
  | generatorConflict name existing requested =>
    "Artifact " ++ name ++ " is generated by command " ++ toString existing ++
      " and cannot also be generated by command " ++ toString requested
  | selfDependency id => "Artifact " ++ toString id ++ " cannot depend on itself"
  | foreignKey => "Database error: FOREIGN KEY constraint failed"
  | nestedTransaction => "Database error: cannot start a transaction within a transaction"
  | commitOutside => "Database error: cannot commit - no transaction is active"
  | rollbackOutside => "Database error: cannot rollback - no transaction is active"
  | unreadableTime text phase => "Invalid data: timestamp " ++ text ++ " for " ++ phase.name
  | danglingSymbol id => "Invalid data: dangling symbol " ++ toString id
  | unknownType column text =>
    "Database error: Conversion error from type Text at index: " ++ toString column ++
      ", unknown artifact type " ++ text
  | unknownCategory text =>
    "Database error: Conversion error from type Text at index: 7, unknown symbol category " ++ text
  | noCommands => "Database error: no such table: commands"
  | noParent => "Database error: no such table: main.commands"
  | readOnly => "Database error: attempt to write a readonly database"

/-- A change of the graph that gives a value or fails. -/
abbrev Update := ExceptT StoreError (StateM Graph)

namespace Graph

/-! ### Commands -/

/-- Records an invocation, giving its id and whether it was new. -/
def insertCommand (directory executable args : String) : Update (Id × Bool) := do
  let g ← get
  match g.commandOf? directory executable args with
  | some row => return (row.id, false)
  | none =>
    let id := nextId (g.commands.map (·.id))
    modify fun g => { g with commands := g.commands ++ [⟨id, directory, executable, args⟩] }
    return (id, true)

/-- Removes every command, giving their number.  Artifacts stay but lose their generators. -/
def truncateCommands : Update Nat := do
  let g ← get
  modify fun g => { g with
    commands := []
    artifacts := g.artifacts.map fun a =>
      { a with generator := a.generator.filter (!g.hasCommand ·) } }
  return g.commands.length

/-! ### Artifacts -/

def modifyArtifact (g : Graph) (id : Id) (f : Artifact → Artifact) : Graph :=
  { g with artifacts := g.artifacts.map fun a => if a.id == id then f a else a }

def requireCommand (id : Id) : Update Unit := do
  if !(← get).hasCommand id then throw .foreignKey

def insertArtifact (name : String) (type : ArtifactType) (generator : Option Id) : Update Id := do
  if let some command := generator then requireCommand command
  let g ← get
  let id := nextId (g.artifacts.map (·.id))
  modify fun g => { g with artifacts := g.artifacts ++ [⟨id, name, type, generator⟩] }
  return id

/-- Reconciles the kind of an artifact with an observed one.  A library of unknown kind may be
narrowed, and an observation may be vaguer than what is known. -/
def reconcileType (row : Artifact) (type : ArtifactType) : Update Unit := do
  if row.type ≠ type then
    if row.type.refinesTo type then
      modify (·.modifyArtifact row.id ({ · with type }))
    else if !(type == .library && row.type.isLibrary) then
      throw (.typeConflict row.name row.type type)

/-- Reconciles the generator of an artifact with an observed one: it may be gained but not
changed. -/
def reconcileGenerator (row : Artifact) (generator : Option Id) : Update Unit := do
  match row.generator, generator with
  | some existing, some requested =>
    if existing ≠ requested then throw (.generatorConflict row.name existing requested)
  | none, some requested =>
    requireCommand requested
    modify (·.modifyArtifact row.id ({ · with generator := some requested }))
  | _, none => return

/-- Creates an artifact, or reconciles it with the row of its name. -/
def upsertArtifact (name : String) (type : ArtifactType) (generator : Option Id) : Update Id := do
  match (← get).artifactNamed? name with
  | none => insertArtifact name type generator
  | some row =>
    reconcileType row type
    reconcileGenerator row generator
    return row.id

/-! ### Edges -/

/-- Records that one artifact needs another, once. -/
def addDependency (dependee dependency : Id) : Update Unit := do
  if dependee = dependency then throw (.selfDependency dependee)
  let g ← get
  if g.edges.contains ⟨dependee, dependency⟩ then return
  if !(g.hasArtifact dependee && g.hasArtifact dependency) then throw .foreignKey
  modify fun g => { g with edges := g.edges ++ [⟨dependee, dependency⟩] }

/-- Removes an edge, telling whether it was there. -/
def removeDependency (dependee dependency : Id) : Update Bool := do
  let g ← get
  modify fun g => { g with edges := g.edges.filter (· ≠ ⟨dependee, dependency⟩) }
  return g.edges.contains ⟨dependee, dependency⟩

/-! ### Symbols and references -/

/-- The id of the symbol with a name; the first sight of a name creates its row. -/
def symbolId (name demangled : String) : Update Id := do
  let g ← get
  match g.symbolNamed? name with
  | some row => return row.id
  | none =>
    let id := nextId (g.symbols.map (·.id))
    modify fun g => { g with symbols := g.symbols ++ [⟨id, name, demangled⟩] }
    return id

def addReference (r : Reference) : Update Unit := do
  let g ← get
  if !(g.hasArtifact r.artifact && g.hasSymbol r.symbol) then throw .foreignKey
  let id := nextId (g.references.map (·.id))
  modify fun g => { g with references := g.references ++ [{ id, reference := r }] }

/-- Removes the references of one artifact, giving their number. -/
def deleteReferences (artifact : Id) : Update Nat := do
  let g ← get
  let (gone, kept) := g.references.partition (·.reference.artifact == artifact)
  modify fun g => { g with references := kept }
  return gone.length

/-- Removes every reference, giving their number. -/
def clearReferences : Update Nat := do
  let g ← get
  modify fun g => { g with references := [] }
  return g.references.length

/-! ### Times of phases -/

def phaseTime (g : Graph) (p : Phase) : Except StoreError (Option Instant) :=
  match g.stamps.get p with
  | none => .ok none
  | some (.at time) => .ok (some time)
  | some (.unreadable text) => .error (.unreadableTime text p)

def setPhaseTime (p : Phase) (time : Instant) (g : Graph) : Graph :=
  { g with stamps := g.stamps.set p (.ofInstant time) }

/-- Whether the two extraction phases ended at the same time, or neither has. -/
def samePhaseTime (g : Graph) : Except StoreError Bool := do
  let dependencies ← g.phaseTime .extractDependencies
  let symbols ← g.phaseTime .extractSymbols
  return dependencies == symbols

end Graph

end BuildAudit
