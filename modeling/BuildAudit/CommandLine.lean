import BuildAudit.CommandLine.Arguments
import BuildAudit.CommandLine.Workspace
import BuildAudit.Extraction
import BuildAudit.Query.Linkage

/-!
# The program

Runs of the program as functions on a workspace: reading the settings, opening the database, doing
the task, and the lines that are printed.  What a failing run has changed stays changed.
-/

namespace BuildAudit.CommandLine

/-- What a run finds around it, apart from the workspace. -/
structure Surroundings where
  tools : Toolbox
  /-- What can be read from standard input. -/
  input : ByteArray := .empty
  /-- The time of the run. -/
  now : Instant

/-- A part of a run, which changes the workspace and may end the run. -/
abbrev Run := ExceptT (Halt Failure) (StateM Workspace)

def fail {α : Type} (f : Failure) : Run α := throw (.failure f)

abbrev Lines := List String

/-! ### Settings -/

/-- The settings in force and the data directory that belongs to them. -/
structure Settings where
  config : Config := {}
  directory? : Option String := none
  deriving DecidableEq, Repr

/-- The settings of a named file, or of a named directory. -/
def settingsAt (files : FileTree) (path : String) : Except Failure Settings :=
  let file := if files.isDirectory path then Path.join path Config.fileName else path
  match Config.load files file with
  | .error e => .error (.ofConfig e)
  | .ok config => .ok ⟨config, some ((Path.parent? file).getD path)⟩

/-- The settings of the nearest data directory.  One that cannot be read counts as none. -/
def nearestSettings (files : FileTree) : Settings :=
  match Config.find files files.workingDirectory.path with
  | .ok (some (config, directory)) => ⟨config, some directory⟩
  | _ => {}

/-- The settings for an invocation.  A new project does not look at old settings. -/
def settingsFor (files : FileTree) (i : Invocation) : Except Failure Settings :=
  match i.task, i.config? with
  | .init _, _ => .ok {}
  | _, some path => settingsAt files path
  | _, none => .ok (nearestSettings files)

def requireUsable (c : Config) : Except Failure Unit :=
  match c.problems with
  | [] => .ok ()
  | problem :: _ => .error ⟨"Invalid configuration: " ++ problem.message, []⟩

/-- The library directories: those of the settings, or else those that the compiler knows. -/
def searchPaths (files : FileTree) (tools : Toolbox) (c : Config) : List OsString :=
  if c.toolchain.libraryDirectories.isEmpty then
    match discoverDirectories files tools c.toolchain.compiler with
    | .ok directories => directories
    | .error _ => []
  else c.toolchain.libraryDirectories.map .text

/-! ### Databases -/

/-- Makes a directory and those above it, telling whether that has worked. -/
def makeDirectories (path : String) : Run (Except OsError Unit) := do
  let w ← get
  let (made, files) := w.files.makeDirectories path
  set { w with files }
  return made

/-- Opens the database at a path, as it is or with all that is missing. -/
def openStore (path : String) (create : Bool) : Run Workspace.Handle := do
  if create then
    if let some parent := (Path.parent? path).filter (· != "") then
      if let .error e := ← makeDirectories parent then
        fail ⟨"Failed to create " ++ parent, [e.message]⟩
  else if !(← get).files.pathExists path then
    fail ⟨"No graph database at " ++ path ++ ". Run 'linkmap import' first.", []⟩
  let (opened, w) := (← get).openDatabase path
  set w
  match opened with
  | .ok handle => return handle
  | .error e => fail (e.failure path)

def requireArtifact (g : Graph) (name : String) : Run Artifact := do
  match findArtifact? (← get).files g name with
  | some a => return a
  | none => fail ⟨unknownArtifact name, []⟩

/-! ### New projects -/

/-- The lines above the settings of a new project. -/
def configHeading : Lines :=
  ["# linkmap configuration",
    "# Relative paths are resolved against this .linkmap/ directory.",
    "# Leave toolchain.library_dirs empty to ask the compiler.",
    ""]

/-- Writes the default settings into the data directory of the current directory. -/
def startProject (force : Bool) : Run Lines := do
  let file := Path.join Config.dataDirectory Config.fileName
  let files := (← get).files
  if files.pathExists file && !force then
    fail ⟨file ++ " already exists. Use --force to overwrite.", []⟩
  if !files.pathExists Config.dataDirectory then
    if let .error e := ← makeDirectories Config.dataDirectory then fail ⟨e.message, []⟩
  let text := String.join (configHeading.map (· ++ "\n")) ++ ({} : Config).text
  let w ← get
  match w.files.write file text.toUTF8 with
  | .ok files =>
    set { w with files }
    return []
  | .error e => fail ⟨e.message, []⟩

/-! ### Imports -/

/-- How recordings are imported. -/
structure ImportMode where
  json : Bool
  options : ImportOptions
  /-- The directory of invocations that name none. -/
  directory : String
  now : Instant
  deriving DecidableEq, Repr

def importContents (m : ImportMode) (contents : ByteArray) (s : Store) :
    Except ImportError ImportReport × Store :=
  if m.json then importDatabase s contents m.options m.now
  else importLog s contents m.directory m.options m.now

/-- Imports one recording into the database, and keeps what has become of it. -/
def importInto (m : ImportMode) (contents : ByteArray) (h : Workspace.Handle) :
    StateM Workspace (Except ImportError ImportReport × Workspace.Handle) := do
  let (result, store) := importContents m contents h.store
  if h.isReadOnly && result.toOption.any (·.writes m.options) then
    return (.error (.store .readOnly), h)
  modify (·.save h.place? store)
  return (result, { h with store })

/-- The failure to read a file that can be opened. -/
def unreadableRecording (json : Bool) (e : OsError) : ImportError :=
  if json then .malformed (.file e) else .unreadable (.file e)

def importFile (m : ImportMode) (path : String) (h : Workspace.Handle) :
    Run (ImportReport × Workspace.Handle) := do
  let files := (← get).files
  let failed := fun (e : ImportError) => (Failure.ofImport e).within ("Failed to import " ++ path)
  match files.locate path with
  | .error e => fail ⟨"Failed to open " ++ path, [e.message]⟩
  | .ok _ =>
    match files.read path with
    | .error e => fail (failed (unreadableRecording m.json e))
    | .ok contents =>
      match ← (importInto m contents h) with
      | (.ok report, h) => return (report, h)
      | (.error e, _) => fail (failed e)

/-- Imports files one after the other.  Only the first one replaces what was there before. -/
def importFiles (m : ImportMode) (total : ImportReport) (h : Workspace.Handle) :
    List String → Run ImportReport
  | [] => return total
  | path :: paths => do
    let (report, h) ← importFile m path h
    importFiles { m with options := { m.options with replace := false } } (total.merge report) h
      paths

def importLine (r : ImportReport) : String :=
  "Imported " ++ toString r.imported ++ " commands (" ++ toString r.existing ++
    " already present, " ++ toString r.skipped ++ " skipped, " ++ toString r.failed ++ " failed)"

/-- Imports files, or standard input if there are none. -/
def importAll (m : ImportMode) (database : String) (files : List String) (input : ByteArray) :
    Run Lines := do
  let h ← openStore database true
  if files.isEmpty then
    match ← (importInto m input h) with
    | (.ok report, _) => return [importLine report]
    | (.error e, _) => fail (.ofImport e)
  else return [importLine (← importFiles m {} h files)]

/-! ### Extraction -/

def phaseLine (name : String) (r : PhaseReport) : String :=
  name ++ ": " ++
    if r.upToDate then "up to date"
    else toString r.processed ++ " processed, " ++ toString r.skipped ++ " skipped, " ++
      toString r.failed ++ " failed"

/-- Extracts dependencies and perhaps symbols. -/
def extractAll (s : Settings) (tools : Toolbox) (symbols : Bool) (options : ExtractionOptions)
    (database : String) (now : Instant) : Run Lines := do
  let h ← openStore database false
  let files := (← get).files
  let x : Extractor :=
    { files, tools, options
      searchDirectories := searchPaths files tools s.config
      nm := s.config.toolchain.nm }
  let result := BuildAudit.extract x symbols now h.store
  modify (·.save h.place? result.store)
  match result.report with
  | .error e => fail (.ofStore e)
  | .ok r =>
    if h.isReadOnly && r.writes options then fail (.ofStore .readOnly)
    return [phaseLine "Dependencies" r.dependencies] ++
      (if symbols then [phaseLine "Symbols" r.symbols] else []) ++
      (if options.dryRun then ["Dry run: nothing was written"] else [])

/-- Makes the directory for logs.  A run goes on without one. -/
def makeLogDirectory (s : Settings) : Run Unit := do
  let _ ← makeDirectories (Path.join (s.directory?.getD Config.dataDirectory) "logs")

/-! ### Queries -/

def undefinedLines (symbols : List UnresolvedSymbol) : Lines :=
  symbols.flatMap fun u =>
    u.symbol.display :: u.candidates.map fun a => "    provided by " ++ a.name

/-- The useless libraries by themselves. -/
def uselessLines (u : DependencyUsage) : Lines := u.useless.map (·.name)

/-- The useless libraries beside those that the loader reports. -/
def crossCheckLines (ldd : String) (c : CrossCheck) : Lines :=
  c.agreed ++ c.onlyGraph.map (· ++ "    (graph only)") ++
    c.onlyLoader.map (· ++ "    (" ++ ldd ++ " only)")

def duplicateLines (found : List Duplicate) : Lines :=
  found.flatMap fun d =>
    (d.symbol.display ++ " (" ++ toString d.totalSize ++ " bytes total)") ::
      d.occurrences.map fun o =>
        "    " ++ Text.padLeft 8 (toString o.size) ++ " " ++ Text.padRight 8 o.category.name ++
          " " ++ o.artifact.name

def closureLines (reached : List Artifact) : Lines :=
  reached.map fun a => Text.padRight 10 a.type.name ++ " " ++ a.name

def phaseTimeLine (g : Graph) (p : Phase) : Except StoreError String :=
  (g.phaseTime p).map fun time? =>
    Text.padRight 22 p.name ++ " " ++ match time? with
      | some time => time.shortText
      | none => "never"

def statsLines (database : String) (g : Graph) : Except StoreError Lines := do
  let s := g.stats
  return [
    "Database:     " ++ database,
    "Commands:     " ++ toString s.commands,
    "Artifacts:    " ++ toString s.artifacts,
    "Dependencies: " ++ toString s.dependencies,
    "Symbols:      " ++ toString s.symbols,
    "References:   " ++ toString s.references] ++ (← Phase.all.mapM (phaseTimeLine g))

/-- Gives what a query of the graph finds. -/
def query {α : Type} (r : Except StoreError α) : Run α :=
  match r with
  | .ok a => return a
  | .error e => fail (.ofStore e)

/-- Lists the useless libraries of an artifact, beside the loader's report if that is asked for. -/
def uselessAll (s : Settings) (tools : Toolbox) (askLoader : Bool) (g : Graph) (a : Artifact) :
    Run Lines := do
  let usage := dependencyUsage g a.id
  if !askLoader then return uselessLines usage
  let ldd := s.config.toolchain.ldd
  match loaderUnused (← get).files tools ldd a.name with
  | .error e => fail (.ofLoader e)
  | .ok reported => return crossCheckLines ldd (crossCheck (uselessLines usage) reported)

/-! ### Tasks -/

/-- Does a task with the settings that are in force. -/
def perform (around : Surroundings) (s : Settings) (database : String) : Task → Run Lines
  | .init force => startProject force
  | .importFiles json options directory? files => do
    let current := (← get).files.workingDirectory.path
    importAll ⟨json, options, directory?.getD current, around.now⟩ database files around.input
  | .extract symbols force dryRun jobs? => do
    makeLogDirectory s
    let jobs := max 1 (jobs?.getD s.config.extraction.jobs)
    extractAll s around.tools symbols ⟨jobs, dryRun, force⟩ database around.now
  | .undefined name => do
    let g := (← openStore database false).store.graph
    let a ← requireArtifact g name
    return undefinedLines (← query (undefinedSymbols g a.id))
  | .useless name askLoader => do
    let g := (← openStore database false).store.graph
    let a ← requireArtifact g name
    uselessAll s around.tools askLoader g a
  | .duplicates filter => do
    let g := (← openStore database false).store.graph
    match duplicates? g filter with
    | some found => return duplicateLines found
    | none => throw .overflow
  | .closure name direction types => do
    let g := (← openStore database false).store.graph
    let a ← requireArtifact g name
    return closureLines (closure g a.id direction types)
  | .stats => do
    let g := (← openStore database false).store.graph
    query (statsLines database g)

def invoke (around : Surroundings) (i : Invocation) : Run Lines := do
  let s ← liftExcept (settingsFor (← get).files i)
  liftExcept (requireUsable s.config)
  perform around s (i.database?.getD (s.config.storePath s.directory?)) i.task
where
  liftExcept {α : Type} (r : Except Failure α) : Run α :=
    match r with
    | .ok a => return a
    | .error e => fail e

/-! ### Runs -/

/-- The line that names the program and its version. -/
def versionLine : String := "linkmap 0.0.1"

def helpLines : Lines :=
  ["Build graph auditing for native C/C++ projects", "",
    "Usage: linkmap [OPTIONS] <COMMAND>", "", "Commands:"] ++
    Verb.all.map ("  " ++ ·.name)

/-- How a run ends. -/
inductive Ending where
  | success (lines : Lines)
  | failure (failure : Failure)
  /-- The arguments make no sense. -/
  | misuse
  /-- The program has been stopped. -/
  | panic
  deriving DecidableEq, Repr

namespace Ending

def exitCode : Ending → UInt32
  | success _ => 0
  | failure _ => 1
  | misuse => 2
  | panic => 101

/-- What is printed on standard output. -/
def output : Ending → String
  | success lines => String.join (lines.map (· ++ "\n"))
  | _ => ""

/-- What is printed on standard error when a run fails. -/
def error? : Ending → Option String
  | failure f => some f.text
  | _ => none

end Ending

/-- Whether a run with these arguments reads standard input. -/
def readsInput (arguments : List String) : Bool :=
  match readArguments arguments with
  | .ok { task := .importFiles _ _ _ [], .. } => true
  | _ => false

def run (around : Surroundings) (arguments : List String) (w : Workspace) : Ending × Workspace :=
  match readArguments arguments with
  | .error .misuse => (.misuse, w)
  | .error .help => (.success helpLines, w)
  | .error .version => (.success [versionLine], w)
  | .ok invocation =>
    match (ExceptT.run (invoke around invocation)).run w with
    | (.ok lines, w) => (.success lines, w)
    | (.error (.failure f), w) => (.failure f, w)
    | (.error .overflow, w) => (.panic, w)

end BuildAudit.CommandLine
