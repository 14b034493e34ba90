import BuildAudit.Extraction
import BuildAudit.Import.Contents
import BuildAudit.Query.Closure
import BuildAudit.Query.Duplicates
import BuildAudit.Query.Linkage

/-!
# Damaged databases

A database may be changed by others, and then hold what no store writes: kinds and categories that
are none, references to symbols that are gone, no table of commands at all.  `Database` is a store
with such damage, and its operations are those of the store, except that they fail on a row that
cannot be read.
-/

namespace BuildAudit

/-- What is wrong with the tables of a database. -/
structure Damage where
  /-- The texts that stand in place of the kinds of artifacts. -/
  types : List (Id × String) := []
  /-- The table of commands is gone. -/
  commandsGone : Bool := false
  deriving DecidableEq, Repr

/-- A store and what is wrong with its database. -/
structure Database where
  store : Store := {}
  damage : Damage := {}
  /-- The damage at the beginning of the open transaction. -/
  savedDamage : Damage := {}
  deriving DecidableEq, Repr

namespace Database

def graph (d : Database) : Graph := d.store.graph

/-- The result of an operation that may change the database. -/
abbrev Answer (α : Type) := Except StoreError α × Database

/-- An operation that fails without doing anything. -/
def fail {α : Type} (d : Database) (e : StoreError) : Answer α := (.error e, d)

def lift {α : Type} (d : Database) (r : Except StoreError α × Store) : Answer α :=
  (r.1, { d with store := r.2 })

/-- An update, as a statement by itself. -/
def run {α : Type} (d : Database) (u : Update α) : Answer α := d.lift (d.store.run u)

/-! ### Transactions -/

/-- An operation that opens or ends a transaction. -/
def move (d : Database) (r : Except StoreError Store) : Answer Unit :=
  match r with
  | .ok store => (.ok (), { d with store })
  | .error e => d.fail e

def begin (d : Database) : Answer Unit :=
  let (r, d) := d.move d.store.begin
  (r, if r.isOk then { d with savedDamage := d.damage } else d)

def commit (d : Database) : Answer Unit := d.move d.store.commit

def rollback (d : Database) : Answer Unit :=
  let (r, d) := d.move d.store.rollback
  (r, if r.isOk then { d with damage := d.savedDamage } else d)

/-- The database as it is when opened again: an open transaction is lost, and missing tables are
made anew. -/
def reopened (d : Database) : Database :=
  let damage := if d.store.inTransaction then d.savedDamage else d.damage
  { store := d.store.reopened, damage := { damage with commandsGone := false } }

/-! ### Reading rows -/

/-- Fails on the row of an artifact whose kind is unknown; it stands in the given column. -/
def check (d : Database) (column : Nat) (row : Artifact) : Except StoreError Unit :=
  match d.damage.types.lookup row.id with
  | some text => .error (.unknownType column text)
  | none => .ok ()

/-- Rows of artifacts with their kind in the given column. -/
def readArtifacts (d : Database) (column : Nat) (rows : List Artifact) :
    Except StoreError (List Artifact) := do
  rows.forM (d.check column)
  return rows

def readArtifact? (d : Database) (row : Option Artifact) :
    Except StoreError (Option Artifact) :=
  (d.readArtifacts 2 row.toList).map List.head?

def commands (d : Database) : Except StoreError (List CommandRecord) :=
  if d.damage.commandsGone then .error .noCommands else .ok d.graph.commands

def stats (d : Database) : Except StoreError GraphStats :=
  if d.damage.commandsGone then .error .noCommands else .ok d.graph.stats

/-- The artifacts with a symbol table.  One whose kind is unknown counts as one. -/
def binaries (d : Database) : Except StoreError (List Artifact) := do
  let _ ← d.readArtifacts 2 d.graph.artifacts
  return d.graph.binaries

/-! ### Changing rows -/

def insertCommand (d : Database) (directory executable args : String) : Answer (Id × Bool) :=
  if d.damage.commandsGone then d.fail .noCommands
  else d.run (Graph.insertCommand directory executable args)

def truncateCommands (d : Database) : Answer Nat :=
  if d.damage.commandsGone then d.fail .noCommands else d.run Graph.truncateCommands

def upsertArtifact (d : Database) (name : String) (type : ArtifactType) (generator : Option Id) :
    Answer Id :=
  match d.readArtifact? (d.graph.artifactNamed? name) with
  | .error e => d.fail e
  | .ok none =>
    if d.damage.commandsGone then d.fail .noParent
    else d.run (Graph.upsertArtifact name type generator)
  | .ok (some row) =>
    if d.damage.commandsGone && row.generator.isNone && generator.isSome then
      let (r, d) := d.run (Graph.reconcileType row type)
      d.fail (match r with | .ok _ => .noParent | .error e => e)
    else d.run (Graph.upsertArtifact name type generator)

/-! ### Queries -/

def findArtifact? (files : FileTree) (d : Database) (name : String) :
    Except StoreError (Option Artifact) :=
  d.readArtifact? (BuildAudit.findArtifact? files d.graph name)

def undefinedSymbols (d : Database) (artifact : Id) :
    Except StoreError (List UnresolvedSymbol) := do
  let _ ← d.readArtifacts 2 (d.graph.dependenciesOf artifact)
  let found ← (openSymbols d.graph artifact).mapM fun id => do
    let u ← unresolved d.graph id
    let _ ← d.readArtifacts 2 u.candidates
    return u
  return found.mergeSort UnresolvedSymbol.le

def dependencyUsage (d : Database) (artifact : Id) : Except StoreError DependencyUsage := do
  let _ ← d.readArtifacts 2 (d.graph.dependenciesOf artifact)
  return BuildAudit.dependencyUsage d.graph artifact

def closure (d : Database) (start : Id) (direction : Direction) (types : List ArtifactType) :
    Except StoreError (List Artifact) := do
  let _ ← d.readArtifacts 2 (BuildAudit.closure d.graph start direction [])
  return BuildAudit.closure d.graph start direction types

def sizedReferences (d : Database) : Except StoreError (List SizedReference) := do
  let rows ← d.graph.references.mapM fun row =>
    match d.graph.sized? row.reference with
    | none => .ok []
    | some r => do
      d.check 5 r.artifact
      match row.strayCategory with
      | some text => .error (.unknownCategory text)
      | none => .ok [r]
  return rows.flatten

def duplicates (d : Database) (f : DuplicateFilter) :
    Except (Halt StoreError) (List Duplicate) :=
  match d.sizedReferences with
  | .error e => .error (.failure e)
  | .ok rows =>
    match Duplicate.ofRows? (rows.filter f.accepts) with
    | some found => .ok found
    | none => .error .overflow

/-! ### Imports and extractions -/

/-- Whether importing these entries touches the table of commands. -/
def needsCommands (entries : List RecordedEntry) (o : ImportOptions) : Bool :=
  o.replace || (entries.map Verdict.of).any fun
    | .accepted .. => true
    | _ => false

def importEntries (d : Database) (entries : List RecordedEntry) (o : ImportOptions)
    (now : Instant) : Answer ImportReport :=
  if d.damage.commandsGone && !d.store.inTransaction && needsCommands entries o then
    d.fail .noCommands
  else d.lift (BuildAudit.importEntries d.store entries o now)

/-- What an extraction gives: a report or an error, and the events. -/
abbrev Watched := Except StoreError ExtractionReport × List Event

/-- Runs the stale phases on tables that are all there. -/
def extractReadable (x : Extractor) (withSymbols : Bool) (now : Instant)
    (d : Database) : Watched × Database :=
  let r := BuildAudit.extract { x with check := d.check 2 } withSymbols now d.store
  ((r.report, r.events), { d with store := r.store })

/-- Runs the stale phases.  A phase that reads a row that cannot be read ends the run. -/
def extract (x : Extractor) (withSymbols : Bool) (now : Instant)
    (d : Database) : Watched × Database :=
  match stale d.graph x.options.force withSymbols with
  | .ok ⟨true, _⟩ =>
    if d.damage.commandsGone && !d.store.inTransaction then ((.error .noCommands, []), d)
    else d.extractReadable x withSymbols now
  | _ => d.extractReadable x withSymbols now

/-! ### Doing damage -/

/-- Puts a text in place of the kind of an artifact, giving the number of rows changed. -/
def damageType (d : Database) (id : Id) (text : String) : Nat × Database :=
  if d.graph.hasArtifact id then
    let types := d.damage.types.filter (·.1 != id)
    match ArtifactType.ofName? text with
    | some type =>
      (1, { d with
        store := d.store.mapGraph (·.modifyArtifact id ({ · with type }))
        damage := { d.damage with types } })
    | none => (1, { d with damage := { d.damage with types := (id, text) :: types } })
  else (0, d)

/-- Rewrites the references of one artifact, giving their number. -/
def rewriteReferences (d : Database) (artifact : Id) (f : ReferenceRow → ReferenceRow) :
    Nat × Database :=
  let own := fun (row : ReferenceRow) => row.reference.artifact == artifact
  (d.graph.references.countP own, { d with
    store := d.store.mapGraph fun g =>
      { g with references := g.references.map fun row => if own row then f row else row } })

/-- Puts a text in place of the category of every reference of an artifact. -/
def damageCategory (d : Database) (artifact : Id) (text : String) : Nat × Database :=
  d.rewriteReferences artifact fun row =>
    match Category.ofName? text with
    | some category =>
      { row with reference := { row.reference with category }, strayCategory := none }
    | none =>
      { row with
        reference := { row.reference with category := .undefined }, strayCategory := some text }

/-- Puts a text in place of the code of every reference of an artifact; an empty one reads as a
question mark. -/
def damageCode (d : Database) (artifact : Id) (text : String) : Nat × Database :=
  let code := text.toList.headD '?'
  d.rewriteReferences artifact fun row =>
    { row with reference := { row.reference with code } }

/-- Removes a symbol, whatever refers to it. -/
def damageSymbol (d : Database) (id : Id) : Nat × Database :=
  (d.graph.symbols.countP (·.id == id),
    { d with store := d.store.mapGraph fun g =>
        { g with symbols := g.symbols.filter (·.id != id) } })

/-- Puts a text in place of the time of a phase. -/
def damageTime (d : Database) (p : Phase) (text : String) : Nat × Database :=
  (1, { d with store := d.store.mapGraph fun g =>
        { g with stamps := g.stamps.set p (.ofText text) } })

def damageCommands (d : Database) : Nat × Database :=
  (0, { d with
    store := d.store.mapGraph ({ · with commands := [] })
    damage := { d.damage with commandsGone := true } })

end Database

end BuildAudit
