import BuildAudit.FileTree

/-!
# External tools

What running an outside program gives, and the summaries of runs that reports quote.  A `Toolbox`
answers every invocation; what it knows about real programs is not the library's matter.
-/

namespace BuildAudit

/-- Captured output of a finished program. -/
structure ToolOutput where
  exitCode : Int := 0
  stdout : String := ""
  stderr : String := ""
  deriving DecidableEq, Repr

/-- Answers invocations; the error says why the program could not be started. -/
abbrev Toolbox := (program : String) → (args : List String) → Except OsError ToolOutput

/-- An invocation as one line. -/
def invocationLine (program : String) (args : List String) : String :=
  if args.isEmpty then program else program ++ " " ++ String.intercalate " " args

/-- A program that could not be started. -/
structure StartFailure where
  commandLine : String
  cause : OsError
  deriving DecidableEq, Repr

def StartFailure.message (f : StartFailure) : String :=
  "Failed to run " ++ f.commandLine ++ ": " ++ f.cause.message

/-- The summary of a finished invocation. -/
structure ToolRun where
  commandLine : String
  exitCode : Int
  stderr : String
  deriving DecidableEq, Repr

namespace ToolRun

/-- A run failed if it says so, or if it wrote anything but blanks to standard error. -/
def isFailure (r : ToolRun) : Bool := r.exitCode != 0 || Text.trim r.stderr != ""

def text (r : ToolRun) : String :=
  let head := "`" ++ r.commandLine ++ "` exited with " ++ toString r.exitCode
  let stderr := Text.trim r.stderr
  if stderr == "" then head else head ++ ": " ++ stderr

end ToolRun

/-- Runs a program and summarizes the run. -/
def Toolbox.run (tools : Toolbox) (program : String) (args : List String) :
    Except StartFailure (ToolOutput × ToolRun) :=
  let line := invocationLine program args
  match tools program args with
  | .error cause => .error ⟨line, cause⟩
  | .ok out => .ok (out, ⟨line, out.exitCode, out.stderr⟩)

end BuildAudit
