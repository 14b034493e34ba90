import BuildAudit.FileTree
import BuildAudit.Toml.Reader

/-!
# Configuration

The settings of a project.  They stand in the file `config.toml` of the directory `.linkmap`, which
also holds the database.  The nearest such directory on the way up from the current one counts.  A
setting that the file leaves out has a default.
-/

namespace BuildAudit

structure StoreSettings where
  /-- The database, seen from the directory of the configuration. -/
  path : String := "graph.db"
  deriving DecidableEq, Repr

structure ExtractionSettings where
  /-- How many units may be worked on at a time. -/
  jobs : Nat := 4
  deriving DecidableEq, Repr

structure ToolchainSettings where
  /-- The compiler driver that is asked for its library directories. -/
  compiler : String := "cc"
  nm : String := "nm"
  ldd : String := "ldd"
  /-- The default library directories; without any, the compiler is asked. -/
  libraryDirectories : List String := []
  deriving DecidableEq, Repr

structure Config where
  store : StoreSettings := {}
  extraction : ExtractionSettings := {}
  toolchain : ToolchainSettings := {}
  deriving DecidableEq, Repr

namespace Config

/-! ### Reading -/

open Toml (Value)

/-- The values of a section.  A list gives them in the order of `names`; a time gives none. -/
def valuesOf? (names : List String) : Value → Option Toml.Table
  | .table entries => some entries
  | .array items => some (names.zip items)
  | .time => some []
  | _ => none

/-- A setting, or its default if there is none. -/
def setting {α : Type} (values : Toml.Table) (name : String) (default : α)
    (read : Value → Option α) : Option α :=
  match values.lookup name with
  | some value => read value
  | none => some default

def text? : Value → Option String
  | .string s => some s
  | _ => none

def texts? : Value → Option (List String)
  | .array items => items.mapM text?
  | _ => none

def count? : Value → Option Nat
  | .integer n => if 0 ≤ n then some n.toNat else none
  | _ => none

def store? (v : Value) : Option StoreSettings := do
  let d : StoreSettings := {}
  let values ← valuesOf? ["path"] v
  return { path := ← setting values "path" d.path text? }

def extraction? (v : Value) : Option ExtractionSettings := do
  let d : ExtractionSettings := {}
  let values ← valuesOf? ["jobs"] v
  return { jobs := ← setting values "jobs" d.jobs count? }

def toolchain? (v : Value) : Option ToolchainSettings := do
  let d : ToolchainSettings := {}
  let values ← valuesOf? ["compiler", "nm", "ldd", "library_dirs"] v
  return {
    compiler := ← setting values "compiler" d.compiler text?
    nm := ← setting values "nm" d.nm text?
    ldd := ← setting values "ldd" d.ldd text?
    libraryDirectories := ← setting values "library_dirs" d.libraryDirectories texts? }

/-- The configuration of a document.  Names that mean nothing are passed over. -/
def ofTable? (document : Toml.Table) : Option Config := do
  return {
    store := ← setting document "store" {} store?
    extraction := ← setting document "extraction" {} extraction?
    toolchain := ← setting document "toolchain" {} toolchain? }

def ofText? (text : String) : Option Config := Toml.read? text >>= ofTable?

/-! ### Writing -/

/-- A list of strings as a TOML value.  More than one stand on a line each. -/
def listText : List String → String
  | [] => "[]"
  | [item] => "[" ++ Toml.quote item ++ "]"
  | items => "[\n" ++ String.join (items.map fun item => "    " ++ Toml.quote item ++ ",\n") ++ "]"

def settingLine (name value : String) : String := name ++ " = " ++ value ++ "\n"

/-- The configuration as a TOML document. -/
def text (c : Config) : String :=
  "[store]\n" ++ settingLine "path" (Toml.quote c.store.path) ++
  "\n[extraction]\n" ++ settingLine "jobs" (toString c.extraction.jobs) ++
  "\n[toolchain]\n" ++ settingLine "compiler" (Toml.quote c.toolchain.compiler) ++
    settingLine "nm" (Toml.quote c.toolchain.nm) ++
    settingLine "ldd" (Toml.quote c.toolchain.ldd) ++
    settingLine "library_dirs" (listText c.toolchain.libraryDirectories)

/-! ### Values that cannot be used -/

/-- A setting that can be read but not used. -/
inductive Problem where
  | noJobs
  | unnamedTool (setting : String)
  deriving DecidableEq, Repr

def Problem.message : Problem → String
  | noJobs => "extraction.jobs: Must be at least 1."
  | unnamedTool setting => "toolchain." ++ setting ++ ": Tool name cannot be empty."

/-- What is wrong with the settings. -/
def problems (c : Config) : List Problem :=
  let tools :=
    [("compiler", c.toolchain.compiler), ("nm", c.toolchain.nm), ("ldd", c.toolchain.ldd)]
  (if c.extraction.jobs = 0 then [.noJobs] else []) ++
    (tools.filter fun (_, tool) => Text.trim tool == "").map fun (setting, _) =>
      .unnamedTool setting

/-! ### Files -/

/-- The directory for all data of a project. -/
def dataDirectory : String := ".linkmap"

/-- The file with the settings in the data directory. -/
def fileName : String := "config.toml"

/-- Where the database is.  A relative path starts at the data directory, if that is known. -/
def storePath (c : Config) (directory? : Option String) : String :=
  if Path.isAbsolute c.store.path then c.store.path
  else Path.join (directory?.getD dataDirectory) c.store.path

/-- Why a configuration cannot be loaded. -/
inductive LoadError where
  | unreadable (path : String) (cause : FileTree.TextError)
  | malformed (path : String)
  deriving DecidableEq, Repr

def LoadError.message : LoadError → String
  | unreadable path _ => "Failed to read config file: " ++ path
  | malformed path => "Failed to parse config file: " ++ path

def load (files : FileTree) (path : String) : Except LoadError Config :=
  match files.readText path with
  | .error cause => .error (.unreadable path cause)
  | .ok text =>
    match ofText? text with
    | some config => .ok config
    | none => .error (.malformed path)

/-- The settings that are in force in a directory, with the data directory that holds them: those of
the nearest directory above that has a file of settings, whether that can be loaded or not. -/
def find (files : FileTree) (start : String) : Except LoadError (Option (Config × String)) :=
  let candidates := (Path.ancestors start).map (Path.join · dataDirectory)
  match candidates.find? fun directory => files.pathExists (Path.join directory fileName) with
  | none => .ok none
  | some directory =>
    (load files (Path.join directory fileName)).map fun config => some (config, directory)

end Config

end BuildAudit
