import BuildAudit.Symbol
import BuildAudit.SymbolTable
import BuildAudit.Tool

/-!
# Symbols of an artifact

What a file of the build defines and needs.  The leading bytes tell a binary from a linker script;
a binary is dumped in three tables, one run each, and a shared library whose table comes out empty
is asked again for its dynamic one.
-/

namespace BuildAudit

/-- What a file that claims to be a binary is. -/
inductive ArtifactFormat where
  | binary
  /-- A text that tells a linker what to link instead. -/
  | linkerScript
  deriving DecidableEq, Repr

namespace ArtifactFormat

def name : ArtifactFormat → String
  | binary => "binary"
  | linkerScript => "linker-script"

def elfMagic : List UInt8 := [0x7f, 0x45, 0x4c, 0x46]

/-- The first bytes of an archive: `!<arch>` and a line feed. -/
def archiveMagic : List UInt8 := [0x21, 0x3c, 0x61, 0x72, 0x63, 0x68, 0x3e, 0x0a]

/-- Whether the contents begin with `magic`. -/
def startsWith (magic : List UInt8) (contents : ByteArray) : Bool :=
  (contents.extract 0 magic.length).toList == magic

def ofContents (contents : ByteArray) : ArtifactFormat :=
  if startsWith elfMagic contents || startsWith archiveMagic contents then binary
  else linkerScript

end ArtifactFormat

/-- A file that could not be read. -/
structure ReadFailure where
  path : String
  cause : OsError
  deriving DecidableEq, Repr

def ReadFailure.message (f : ReadFailure) : String :=
  "Failed to read " ++ f.path ++ ": " ++ f.cause.message

def formatOf (files : FileTree) (path : String) : Except ReadFailure ArtifactFormat :=
  match files.read path with
  | .ok contents => .ok (.ofContents contents)
  | .error cause => .error ⟨path, cause⟩

/-- Why an artifact could not be dumped. -/
inductive DumpError where
  | read (failure : ReadFailure)
  | notStarted (failure : StartFailure)
  deriving DecidableEq, Repr

def DumpError.message : DumpError → String
  | read failure => failure.message
  | notStarted failure => failure.message

/-- The three tables of an artifact. -/
structure ArtifactSymbols where
  format : ArtifactFormat
  undefined : List SymbolEntry := []
  external : List SymbolEntry := []
  internal : List SymbolEntry := []
  runs : List ToolRun := []
  deriving DecidableEq, Repr

namespace ArtifactSymbols

def entries (s : ArtifactSymbols) : Category → List SymbolEntry
  | .undefined => s.undefined
  | .external => s.external
  | .internal => s.internal

def failures (s : ArtifactSymbols) : List ToolRun := s.runs.filter (·.isFailure)

end ArtifactSymbols

/-! ### Dumping -/

/-- A dumper aimed at one artifact. -/
structure Dumper where
  tools : Toolbox
  program : String
  path : String
  /-- Whether an empty table is replaced by the dynamic one. -/
  dynamicFallback : Bool

/-- Work that runs tools: it collects the finished runs and ends early when one cannot start. -/
abbrev Runs := ExceptT StartFailure (StateM (List ToolRun))

namespace Dumper

/-- Runs the dumper once and reads the listing, whatever the exit code. -/
def run (d : Dumper) (flags : List String) : Runs (List SymbolEntry) := do
  match d.tools.run d.program (flags ++ [d.path]) with
  | .error failure => throw failure
  | .ok (out, run) =>
    modify (· ++ [run])
    return SymbolTable.entriesOf out.stdout

/-- One table; if it is empty, for a shared library, the dynamic one. -/
def table (d : Dumper) (flags : List String) : Runs (List SymbolEntry) := do
  let entries ← d.run flags
  if entries.isEmpty && d.dynamicFallback then d.run ("-D" :: flags) else return entries

/-- The defined entries that are not visible outside. -/
def hidden (defined external : List SymbolEntry) : List SymbolEntry :=
  defined.filter fun e => !external.any (·.name == e.name)

def tables (d : Dumper) : Runs ArtifactSymbols := do
  let undefined ← d.table ["--undefined-only"]
  let defined ← d.table ["-S", "--defined-only"]
  let external ← d.table ["-S", "--defined-only", "--extern-only"]
  return { format := .binary, undefined, external, internal := hidden defined external }

end Dumper

/-- The symbols of the artifact at `path`, and the runs that were made for them, also those before
a failure. -/
def dump (files : FileTree) (tools : Toolbox) (nm path : String) (type : ArtifactType) :
    Except DumpError ArtifactSymbols × List ToolRun :=
  match formatOf files path with
  | .error failure => (.error (.read failure), [])
  | .ok .linkerScript => (.ok { format := .linkerScript }, [])
  | .ok .binary =>
    match (Dumper.tables ⟨tools, nm, path, type == .shared⟩).run.run [] with
    | (.ok symbols, runs) => (.ok { symbols with runs }, runs)
    | (.error failure, runs) => (.error (.notStarted failure), runs)

end BuildAudit
