import BuildAudit.Command
import BuildAudit.Distinct
import BuildAudit.Tool

/-!
# Resolution

Which files a command reads and writes.  `resolve` walks over the arguments of a command and turns
every input and every library flag into the canonical path of a file, with its kind.  What goes
wrong with a single argument is kept as a problem of the resolution; only a command without a known
tool or without an output has no resolution at all.
-/

namespace BuildAudit

/-! ### Search directories of the toolchain -/

/-- The directories of the report that a compiler driver prints about its search paths: the first
line for libraries, up to each colon, as far as they exist. -/
def searchDirectories (files : FileTree) (report : String) : List OsString :=
  match (Text.lines report).findSome? (Text.after? "libraries:") with
  | none => []
  | some line =>
    let list := (Text.trimLeft line.toList).dropWhile (· == '=')
    let named := ((list.splitOn ':').filter (· ≠ [])).map String.ofList
    distinct <| named.filterMap fun (entry : String) =>
      match files.realPath entry with
      | .ok l => if files.isDirectory l.osPath then some l.osPath else none
      | .error _ => none

/-- Why a compiler driver did not tell its search directories. -/
inductive DiscoveryError where
  | failed (run : ToolRun)
  | notStarted (failure : StartFailure)
  deriving DecidableEq, Repr

def DiscoveryError.message : DiscoveryError → String
  | failed run => "Search path discovery failed: " ++ run.text
  | notStarted failure => failure.message

/-- Asks a compiler driver for its library search directories. -/
def discoverDirectories (files : FileTree) (tools : Toolbox) (compiler : String) :
    Except DiscoveryError (List OsString) :=
  match tools.run compiler ["-print-search-dirs"] with
  | .error failure => .error (.notStarted failure)
  | .ok (out, run) =>
    if out.exitCode ≠ 0 then .error (.failed run) else .ok (searchDirectories files out.stdout)

/-! ### Results -/

/-- A file that a command needs. -/
structure Dependency where
  /-- Canonical absolute path, as a text. -/
  path : String
  type : ArtifactType
  deriving DecidableEq, Repr

/-- What is wrong with one argument. -/
inductive Problem where
  | missingDirectory (flag : String)
  | missingLibraryName
  | invalidLibraryDirectory (directory : String) (cause : OsError)
  | unresolvedInput (token : String) (cause : OsError)
  | libraryNotFound (spec : String)
  | unresolvedLibrary (path : String) (cause : OsError)
  | selfDependency (path : String)
  deriving DecidableEq, Repr

def Problem.message : Problem → String
  | missingDirectory flag => "Missing directory after " ++ flag
  | missingLibraryName => "Missing library name after -l"
  | invalidLibraryDirectory directory cause =>
    "Invalid library directory " ++ directory ++ ": " ++ cause.message
  | unresolvedInput token cause => "Cannot resolve " ++ token ++ ": " ++ cause.message
  | libraryNotFound spec => "Cannot find library -l" ++ spec
  | unresolvedLibrary path cause => "Cannot resolve library " ++ path ++ ": " ++ cause.message
  | selfDependency path => path ++ " is listed as a dependency of itself"

/-- Why a command has no resolution. -/
inductive ResolveError where
  | unknownExecutable (executable : String)
  | missingOutput (executable : String)
  | command (error : CommandError)
  deriving DecidableEq, Repr

def ResolveError.message : ResolveError → String
  | unknownExecutable executable => "Unknown executable: " ++ executable
  | missingOutput executable => "Cannot determine the output of `" ++ executable ++ "`"
  | command error => error.message

/-- The files of one command. -/
structure Resolution where
  output : String
  outputType : ArtifactType
  /-- In order of first mention, each path once. -/
  dependencies : List Dependency
  includeDirectories : List String
  problems : List Problem
  deriving DecidableEq, Repr

/-- The absolute path of an output.  The file need not exist, so only the directory it stands in is
made canonical, and a path whose directory does not exist stays as it is written. -/
def absoluteOutput (files : FileTree) (directory output : String) : String :=
  let path := Path.join directory output
  match Path.parent? path, Path.fileName? path with
  | some parent, some name =>
    match files.canonicalize parent with
    | .ok parent => Path.join parent name
    | .error _ => path
  | _, _ => path

/-! ### Scanning arguments -/

/-- What stays the same while the arguments of one command are scanned. -/
structure ScanContext where
  files : FileTree
  directory : String
  output : String
  searchDirectories : List OsString

/-- What has been gathered from the arguments so far. -/
structure Scan where
  /-- Directories of `-L` flags. -/
  libraryDirectories : List OsString := []
  dependencies : List Dependency := []
  includeDirectories : List String := []
  problems : List Problem := []
  deriving DecidableEq, Repr

namespace Scan

def report (s : Scan) (p : Problem) : Scan := { s with problems := s.problems ++ [p] }

/-- Adds a dependency unless its path is the output or listed already. -/
def addDependency (ctx : ScanContext) (s : Scan) (d : Dependency) : Scan :=
  if d.path == ctx.output then s.report (.selfDependency d.path)
  else if s.dependencies.any (·.path == d.path) then s
  else { s with dependencies := s.dependencies ++ [d] }

def addIncludeDirectory (ctx : ScanContext) (s : Scan) (dir : String) : Scan :=
  { s with includeDirectories := s.includeDirectories ++ [Path.join ctx.directory dir] }

def addLibraryDirectory (ctx : ScanContext) (s : Scan) (dir : String) : Scan :=
  match ctx.files.realPath (Path.join ctx.directory dir) with
  | .ok l => { s with libraryDirectories := s.libraryDirectories ++ [l.osPath] }
  | .error cause => s.report (.invalidLibraryDirectory dir cause)

/-- Adds an input token.  Without a given kind, the canonical path tells it. -/
def addInput (ctx : ScanContext) (s : Scan) (token : String) (type? : Option ArtifactType) : Scan :=
  match ctx.files.canonicalize (Path.join ctx.directory token) with
  | .ok path => s.addDependency ctx ⟨path, type?.getD (.ofInput path)⟩
  | .error cause => s.report (.unresolvedInput token cause)

/-- The file names that a library flag may mean, in order of preference. -/
def libraryNames (spec : String) : List String :=
  match Text.after? ":" spec with
  | some file => [file]
  | none => ["lib" ++ spec ++ ".so", "lib" ++ spec ++ ".a"]

/-- The first file with one of the names: for each name, every directory is tried before the next
name. -/
def findLibrary (files : FileTree) (dirs : List OsString) (names : List String) :
    Option OsString :=
  names.findSome? fun name => (dirs.map (·.join name)).find? files.isFile

/-- The kind of a library, by the name that matched.  A file that is named exactly is a library of
some kind whatever its name. -/
def libraryType (spec path : String) : ArtifactType :=
  let type := ArtifactType.ofInput path
  if (Text.after? ":" spec).isSome && !type.isLibrary then .library else type

def addLibrary (ctx : ScanContext) (s : Scan) (spec : String) : Scan :=
  match findLibrary ctx.files (s.libraryDirectories ++ ctx.searchDirectories)
      (libraryNames spec) with
  | none => s.report (.libraryNotFound spec)
  | some path =>
    match ctx.files.canonicalize path with
    | .ok canonical => s.addDependency ctx ⟨canonical, libraryType spec path.lossy⟩
    | .error cause => s.report (.unresolvedLibrary path.lossy cause)

/-- The directory attached to an include flag. -/
def attachedInclude? (arg : String) : Option String :=
  ["-isystem", "-iquote", "-idirafter", "-I"].findSome? (Text.after? · arg)

/-- The arguments of a compiler driver from left to right. -/
def driver (ctx : ScanContext) (s : Scan) : List String → Scan
  | [] => s
  | arg :: rest =>
    if valueFlags.contains arg || arg == "-o" then
      match rest with
      | [] => s
      | _ :: rest => driver ctx s rest
    else if ["-I", "-isystem", "-iquote", "-idirafter"].contains arg then
      match rest with
      | [] => s.report (.missingDirectory arg)
      | dir :: rest => driver ctx (s.addIncludeDirectory ctx dir) rest
    else if arg == "-L" then
      match rest with
      | [] => s.report (.missingDirectory arg)
      | dir :: rest => driver ctx (s.addLibraryDirectory ctx dir) rest
    else if arg == "-l" then
      match rest with
      | [] => s.report .missingLibraryName
      | spec :: rest => driver ctx (s.addLibrary ctx spec) rest
    else if arg == "-fopenmp" then driver ctx s rest
    else
      match attachedInclude? arg with
      | some dir => driver ctx (s.addIncludeDirectory ctx dir) rest
      | none =>
        match Text.after? "-L" arg with
        | some dir => driver ctx (s.addLibraryDirectory ctx dir) rest
        | none =>
          match Text.after? "-l" arg with
          | some spec => driver ctx (s.addLibrary ctx spec) rest
          | none =>
            if isFlag arg then driver ctx s rest
            else driver ctx (s.addInput ctx arg none) rest

/-- Whether `-fopenmp` stands among the arguments as a flag and not as the value of one. -/
def usesOpenMP : List String → Bool
  | [] => false
  | arg :: rest =>
    if takesValue arg then
      match rest with
      | [] => false
      | _ :: rest => usesOpenMP rest
    else arg == "-fopenmp" || usesOpenMP rest

/-- The libraries that a driver links into a shared object compiled with `-fopenmp`. -/
def openMPLibraries : List String := ["gomp", "pthread"]

/-- The arguments of an archiver.  The first archive is the output, other archives and objects are
inputs, and all else is ignored. -/
def archiver (ctx : ScanContext) (s : Scan) (seenOutput : Bool) : List String → Scan
  | [] => s
  | arg :: rest =>
    match ArtifactType.ofOutput arg with
    | .static =>
      if seenOutput then archiver ctx (s.addInput ctx arg (some .static)) true rest
      else archiver ctx s true rest
    | .object => archiver ctx (s.addInput ctx arg (some .object)) seenOutput rest
    | _ => archiver ctx s seenOutput rest

end Scan

/-! ### Resolving a command -/

/-- What scanning the arguments of a tool of the given family gathers. -/
def scanArguments (ctx : ScanContext) (family : ToolFamily) (outputType : ArtifactType)
    (arguments : List String) : Scan :=
  match family with
  | .compileLink =>
    let scan := Scan.driver ctx {} arguments
    if Scan.usesOpenMP arguments && outputType == .shared then
      Scan.openMPLibraries.foldl (Scan.addLibrary ctx) scan
    else scan
  | .archive => Scan.archiver ctx {} false arguments

/-- The files that a command writes and reads. -/
def resolve (files : FileTree) (searchDirectories : List OsString) (c : Command) :
    Except ResolveError Resolution :=
  match c.family?, c.output? with
  | none, _ => .error (.unknownExecutable c.executable)
  | some _, none => .error (.missingOutput c.executable)
  | some family, some output =>
    let ctx : ScanContext :=
      { files, directory := c.directory, searchDirectories
        output := absoluteOutput files c.directory output }
    let outputType := ArtifactType.ofOutput output
    let scan := scanArguments ctx family outputType c.arguments
    .ok { output := ctx.output, outputType, dependencies := scan.dependencies
          includeDirectories := scan.includeDirectories, problems := scan.problems }

/-- The files of a stored command. -/
def CommandRecord.resolve (files : FileTree) (searchDirectories : List OsString)
    (record : CommandRecord) : Except ResolveError Resolution :=
  match record.command with
  | .ok c => BuildAudit.resolve files searchDirectories c
  | .error e => .error (.command e)

end BuildAudit
