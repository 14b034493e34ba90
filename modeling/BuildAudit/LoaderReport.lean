import BuildAudit.Tool

/-!
# Loader reports

Which libraries the dynamic loader itself finds unused, and how its report compares with what the
graph says.
-/

namespace BuildAudit

namespace LoaderReport

/-- The line after which a report lists the unused libraries. -/
def heading : String := "Unused direct dependencies"

/-- The libraries that a report lists, one on each line after the first heading. -/
def librariesOf (report : String) : List String :=
  let rest := (Text.linesOf report.toList).dropWhile (!Text.occursIn heading.toList ·)
  ((rest.drop 1).map Text.trimChars).filter (· ≠ []) |>.map String.ofList

/-- The canonical form of a reported library; one that is not there stays as it is printed. -/
def canonicalLibrary (files : FileTree) (library : String) : String :=
  match files.canonicalize library with
  | .ok path => path
  | .error _ => library

end LoaderReport

/-- Why the loader gave no report. -/
inductive LoaderError where
  | failed (run : ToolRun)
  | notStarted (failure : StartFailure)
  deriving DecidableEq, Repr

def LoaderError.message : LoaderError → String
  | failed run => "Dependency report failed: " ++ run.text
  | notStarted failure => failure.message

/-- Asks the loader which libraries the file at `path` links without need.  Exit code 1 only says
that there are some. -/
def loaderUnused (files : FileTree) (tools : Toolbox) (ldd path : String) :
    Except LoaderError (List String) :=
  match tools.run ldd ["-u", "-r", path] with
  | .error failure => .error (.notStarted failure)
  | .ok (out, run) =>
    if out.exitCode > 1 || out.exitCode < 0 then .error (.failed run)
    else .ok ((LoaderReport.librariesOf out.stdout).map (LoaderReport.canonicalLibrary files))

/-- Where the graph and the loader agree about unused libraries. -/
structure CrossCheck where
  agreed : List String
  onlyGraph : List String
  onlyLoader : List String
  deriving DecidableEq, Repr

/-- Compares the libraries that the graph finds useless with those that the loader reports. -/
def crossCheck (useless reported : List String) : CrossCheck where
  agreed := useless.filter reported.contains
  onlyGraph := useless.filter (!reported.contains ·)
  onlyLoader := reported.filter (!useless.contains ·)

end BuildAudit
