import BuildAudit.ArtifactSymbols
import BuildAudit.Extraction.Workers
import BuildAudit.Mangled

/-!
# Extraction

From stored commands to artifacts and dependency edges, and from artifacts to symbols and
references.  The two phases run in one transaction, and a phase runs only if its results are older
than what they are made from.
-/

namespace BuildAudit

structure ExtractionOptions where
  /-- How many units may be worked on at a time. -/
  jobs : Nat := 4
  /-- Do everything, then undo it. -/
  dryRun : Bool := false
  /-- Work even if the results are current. -/
  force : Bool := false
  deriving DecidableEq, Repr

/-- What an extraction looks at, and how it works. -/
structure Extractor where
  files : FileTree
  tools : Toolbox
  searchDirectories : List OsString
  /-- The symbol dumper. -/
  nm : String := "nm"
  options : ExtractionOptions := {}
  order : FinishOrder := .fifo
  /-- Fails on the row of an artifact that cannot be read, as others have changed it. -/
  check : Artifact → Except StoreError Unit := fun _ => .ok ()

structure ExtractionReport where
  dependencies : PhaseReport := .current
  symbols : PhaseReport := .current
  deriving DecidableEq, Repr

/-! ### Dependencies -/

/-- Creates or reconciles an artifact, whose row is read before. -/
def storeArtifact (x : Extractor) (name : String) (type : ArtifactType) (generator : Option Id) :
    Update Id := do
  ((← get).artifactNamed? name).forM fun row => ofExcept (x.check row)
  Graph.upsertArtifact name type generator

/-- Writes the output and the dependencies of a command. -/
def storeResolution (x : Extractor) (command : Id) (r : Resolution) : Update Unit := do
  let output ← storeArtifact x r.output r.outputType (some command)
  r.dependencies.forM fun d => do
    let dependency ← storeArtifact x d.path d.type none
    Graph.addDependency output dependency

/-- Resolves a command and writes what comes out. -/
def applyCommand (x : Extractor) (c : CommandRecord) : Update Outcome := do
  match c.resolve x.files x.searchDirectories with
  | .ok r =>
    storeResolution x c.id r
    return .completed (r.problems.map (·.message))
  | .error (.missingOutput tool) => return .skipped (tool ++ " writes no artifact")
  | .error e => return .failed e.message

/-- Every stored command is a unit of the dependency phase. -/
def dependencyPhase (x : Extractor) : Work PhaseReport := do
  let commands := (← get).graph.commands
  treatAll ⟨.command, applyCommand x⟩ x.options.jobs x.order commands

/-! ### Symbols -/

def storeEntry (artifact : Id) (category : Category)
    (e : SymbolEntry) : Update Unit := do
  let symbol ← Graph.symbolId e.name (demangle e.name)
  Graph.addReference ⟨artifact, symbol, category, e.code, e.size⟩

/-- Writes the symbols of an artifact in place of those that it had. -/
def storeSymbols (artifact : Id) (s : ArtifactSymbols) :
    Update Outcome := do
  let _ ← Graph.deleteReferences artifact
  match s.format with
  | .linkerScript => return .skipped "linker script"
  | .binary =>
    Category.all.forM fun category =>
      (s.entries category).forM (storeEntry artifact category)
    return .completed (s.failures.map (·.text))

/-- Dumps an artifact and writes what comes out. -/
def applyArtifact (x : Extractor) (a : Artifact) :
    Update Outcome := do
  match (dump x.files x.tools x.nm a.name a.type).1 with
  | .ok s => storeSymbols a.id s
  | .error e => return .failed e.message

/-- Every artifact with a symbol table is a unit of the symbol phase.  A forced run forgets all
references first. -/
def symbolPhase (x : Extractor) : Work PhaseReport := do
  if x.options.force then let _ ← Work.update Graph.clearReferences
  (← get).graph.artifacts.forM fun row => ofExcept (x.check row)
  let artifacts := (← get).graph.binaries
  treatAll ⟨.artifact, applyArtifact x⟩ x.options.jobs x.order artifacts

/-! ### Staleness -/

/-- Whether results of the time `done` have seen all that was there at the time `needed`. -/
def isCurrent (done needed : Option Instant) : Bool :=
  match done, needed with
  | some done, some needed => needed.le done
  | some _, none => true
  | none, _ => false

/-- The phases that a run has to do. -/
structure Stale where
  dependencies : Bool
  symbols : Bool
  deriving DecidableEq, Repr

/-- Whether the results of `phase` have seen those of `needed`. -/
def Graph.isCurrentPhase (g : Graph) (phase needed : Phase) : Except StoreError Bool := do
  return isCurrent (← g.phaseTime phase) (← g.phaseTime needed)

/-- The stale phases of a graph.  Times are only read where they decide. -/
def stale (g : Graph) (force withSymbols : Bool) : Except StoreError Stale := do
  let dependencies ←
    if force then pure true
    else (!·) <$> g.isCurrentPhase .extractDependencies .importCommands
  let symbols ←
    if !withSymbols then pure false
    else if force || dependencies then pure true
    else (!·) <$> g.isCurrentPhase .extractSymbols .extractDependencies
  return ⟨dependencies, symbols⟩

/-! ### Runs -/

def phases (x : Extractor) (s : Stale) : Work ExtractionReport := do
  let dependencies ← if s.dependencies then dependencyPhase x else pure .current
  let symbols ← if s.symbols then symbolPhase x else pure .current
  return ⟨dependencies, symbols⟩

/-- The phases as work on a graph, with the events that they show. -/
def watchedPhases (x : Extractor) (s : Stale) :
    StateM Graph (Except StoreError ExtractionReport × List Event) := fun g =>
  let (result, seen) := ExceptT.run (phases x s) { graph := g }
  ((result, seen.events), seen.graph)

/-- Records the time of the phases that were done. -/
def stampPhases (s : Stale) (now : Instant) (g : Graph) : Graph :=
  let g := if s.dependencies then g.setPhaseTime .extractDependencies now else g
  if s.symbols then g.setPhaseTime .extractSymbols now else g

/-- Whether a run with this report has written anything, be it to undo it. -/
def ExtractionReport.writes (report : ExtractionReport) (o : ExtractionOptions) : Bool :=
  [report.dependencies, report.symbols].any fun r =>
    !r.upToDate && (!o.dryRun || r.processed > 0)

/-- What a run gives: a report or an error, the store after it and the events. -/
structure ExtractionResult where
  report : Except StoreError ExtractionReport
  store : Store
  events : List Event := []

/-- Runs the stale phases in one transaction; `now` is the time at its end. -/
def extract (x : Extractor) (withSymbols : Bool) (now : Instant)
    (s : Store) : ExtractionResult :=
  match stale s.graph x.options.force withSymbols with
  | .error e => ⟨.error e, s, []⟩
  | .ok ⟨false, false⟩ => ⟨.ok {}, s, []⟩
  | .ok todo =>
    match s.transaction x.options.dryRun (·.1.isOk) (watchedPhases x todo) with
    | (.error e, s) => ⟨.error e, s, []⟩
    | (.ok (.error e, events), s) => ⟨.error e, s, events⟩
    | (.ok (.ok report, events), s) =>
      ⟨.ok report, if x.options.dryRun then s else s.mapGraph (stampPhases todo now), events⟩

end BuildAudit
