import BuildAudit.Artifact
import BuildAudit.Shell.Words

/-!
# Commands

A build invocation as words: working directory, executable and arguments.  The executable's name
tells which family of tools it belongs to, and the family and the arguments tell which file the
invocation writes (`Command.output?`).
-/

namespace BuildAudit

/-- Why a command line cannot be used. -/
inductive CommandError where
  | empty
  /-- A quote or an escape of the line is left open. -/
  | unbalanced (line : String)
  /-- An argument cannot be written on a command line. -/
  | unquotable
  deriving DecidableEq, Repr

def CommandError.message : CommandError → String
  | empty => "Empty command line"
  | unbalanced line => "Unbalanced quoting in command line: " ++ line
  | unquotable =>
    "Argument cannot be quoted for replay: cannot shell-quote string containing nul byte"

/-! ### Tools -/

/-- The argument grammar that an executable follows. -/
inductive ToolFamily where
  /-- A compiler driver, which compiles and links. -/
  | compileLink
  /-- A static archiver. -/
  | archive
  deriving DecidableEq, Repr

namespace ToolFamily

def name : ToolFamily → String
  | compileLink => "compile-link"
  | archive => "archive"

def compilers : List String := ["cc", "c++", "gcc", "g++", "clang", "clang++"]

def archivers : List String := ["ar"]

/-- Whether `name` is `tool`, or `tool` with something before it that ends in a hyphen. -/
def isTool (name tool : String) : Bool :=
  name == tool || Text.endsIn ("-" ++ tool) name

/-- The family of an executable, by its file name. -/
def ofExecutable? (executable : String) : Option ToolFamily :=
  let name := (Path.fileName? executable).getD ""
  if archivers.any (isTool name) then some archive
  else if compilers.any (isTool name) then some compileLink
  else none

end ToolFamily

/-! ### Flags of a compiler driver -/

/-- Flags whose value is the next token and which name neither an input nor a search directory. -/
def valueFlags : List String :=
  ["-MT", "-MF", "-MQ", "-D", "-U", "-x", "-include", "-imacros", "-iprefix", "-iwithprefix",
    "-Xlinker", "-Xassembler", "-Xpreprocessor", "-z", "-arch", "-target"]

/-- Flags with which a driver writes no artifact, whatever `-o` says. -/
def noArtifactFlags : List String := ["-E", "-S", "-M", "-MM"]

/-- Whether the value of the flag is the next token. -/
def takesValue (flag : String) : Bool :=
  valueFlags.contains flag ||
    ["-o", "-I", "-L", "-l", "-isystem", "-iquote", "-idirafter"].contains flag

/-- Whether a token of a driver is a flag. -/
def isFlag (token : String) : Bool := Text.beginsWith "-" token

/-! ### What a driver writes -/

/-- What the arguments of a driver say about its output. -/
structure DriverMode where
  compileOnly : Bool := false
  noArtifact : Bool := false
  /-- The operand of the last `-o`. -/
  explicit : Option String := none
  /-- The first token that names a source. -/
  firstSource : Option String := none
  deriving DecidableEq, Repr

/-- Reads the arguments from left to right. -/
def DriverMode.read (m : DriverMode) : List String → DriverMode
  | [] => m
  | arg :: rest =>
    if arg == "-o" then
      match rest with
      | [] => { m with explicit := none }
      | path :: rest => read { m with explicit := some path } rest
    else
      match Text.after? "-o" arg with
      | some path => read { m with explicit := some path } rest
      | none =>
        if arg == "-c" then read { m with compileOnly := true } rest
        else if noArtifactFlags.contains arg then read { m with noArtifact := true } rest
        else if takesValue arg then
          match rest with
          | [] => m
          | _ :: rest => read m rest
        else if !isFlag arg && m.firstSource.isNone && ArtifactType.ofInput arg == .source then
          read { m with firstSource := some arg } rest
        else read m rest

/-- The file that the mode makes a driver write: none at all, the operand of `-o`, one object per
source, or `a.out`. -/
def DriverMode.output? (m : DriverMode) : Option String :=
  if m.noArtifact then none
  else if m.explicit.isSome then m.explicit
  else if m.compileOnly then (m.firstSource.bind Path.fileStem?).map (· ++ ".o")
  else some "a.out"

/-- The file that a driver with these arguments writes. -/
def driverOutput? (arguments : List String) : Option String :=
  (DriverMode.read {} arguments).output?

/-- The archive that an archiver writes: the first token that names one. -/
def archiverOutput? (arguments : List String) : Option String :=
  arguments.find? fun arg => ArtifactType.ofOutput arg == .static

/-! ### Commands -/

/-- An invocation in words. -/
structure Command where
  directory : String
  executable : String
  arguments : List String
  deriving DecidableEq, Repr

namespace Command

def family? (c : Command) : Option ToolFamily := ToolFamily.ofExecutable? c.executable

/-- Whether the executable follows a known grammar. -/
def isRecognized (c : Command) : Bool := c.family?.isSome

/-- The file that the invocation writes, as written on the command line. -/
def output? (c : Command) : Option String :=
  match c.family? with
  | some .compileLink => driverOutput? c.arguments
  | some .archive => archiverOutput? c.arguments
  | none => none

/-- The kind of that file. -/
def outputType? (c : Command) : Option ArtifactType := c.output?.map ArtifactType.ofOutput

/-- The arguments as one text that splits into them again. -/
def args (c : Command) : Except CommandError String :=
  match Shell.join? c.arguments with
  | some text => .ok text
  | none => .error .unquotable

def ofParts (directory executable args : String) : Except CommandError Command :=
  match Shell.split? args with
  | some arguments => .ok ⟨directory, executable, arguments⟩
  | none => .error (.unbalanced args)

/-- The command of a line.  The line may begin with the working directory: the first of two or more
words is one if it is no tool and the second is a tool, or if it is no tool and absolute. -/
def ofLine (line defaultDirectory : String) : Except CommandError Command :=
  match Shell.split? line with
  | none => .error (.unbalanced line)
  | some [] => .error .empty
  | some [executable] => .ok ⟨defaultDirectory, executable, []⟩
  | some (first :: second :: rest) =>
    if (ToolFamily.ofExecutable? first).isNone &&
        ((ToolFamily.ofExecutable? second).isSome || Path.isAbsolute first) then
      .ok ⟨first, second, rest⟩
    else .ok ⟨defaultDirectory, first, second :: rest⟩

end Command

/-- The command of a stored row. -/
def CommandRecord.command (c : CommandRecord) : Except CommandError Command :=
  Command.ofParts c.directory c.executable c.args

end BuildAudit
