import BuildAudit.Config
import BuildAudit.Import.Contents
import BuildAudit.LoaderReport

/-!
# Failures

What the program says when a run fails: a message and, below it, what caused it.
-/

namespace BuildAudit.CommandLine

structure Failure where
  message : String
  /-- The causes, each the cause of the one before. -/
  causes : List String := []
  deriving DecidableEq, Repr

namespace Failure

/-- The failure as the cause of another one. -/
def within (f : Failure) (message : String) : Failure := ⟨message, f.message :: f.causes⟩

/-- A cause below its head; the lines of one cause stand under each other. -/
def causeText (head indent cause : String) : String :=
  "\n" ++ head ++ String.intercalate ("\n" ++ indent) (cause.splitOn "\n")

/-- The whole text.  A single cause is indented; several are numbered. -/
def text (f : Failure) : String :=
  let causes := match f.causes with
    | [] => []
    | [cause] => [causeText "    " "    " cause]
    | causes => causes.zipIdx.map fun (cause, n) =>
      causeText (Text.padLeft 5 (toString n) ++ ": ") "       " cause
  "Error: " ++ f.message ++
    (if causes.isEmpty then "" else "\n\nCaused by:" ++ String.join causes)

end Failure

/-! ### Faults of databases -/

/-- The kinds of faults that a database reports. -/
inductive FaultKind where
  | general
  | permission
  | readOnly
  | diskError
  | cannotOpen
  | notDatabase
  deriving DecidableEq, Repr

/-- A kind of faults by its code, and what the code means. -/
def FaultKind.text : FaultKind → String
  | general => "Error code 1: SQL error or missing database"
  | permission => "Error code 3: Access permission denied"
  | readOnly => "Error code 8: Attempt to write a readonly database"
  | diskError => "Error code 10: Some kind of disk I/O error occurred"
  | cannotOpen => "Error code 14: Unable to open the database file"
  | notDatabase => "Error code 26: File opened that is not a database file"

/-- What a database reports. -/
structure DatabaseFault where
  message : String
  kind : FaultKind
  deriving DecidableEq, Repr

namespace DatabaseFault

/-- A database that can only be read was to be changed. -/
def readOnly : DatabaseFault := ⟨"attempt to write a readonly database", .readOnly⟩

def causes (f : DatabaseFault) : List String :=
  ["Database error: " ++ f.message, f.message, f.kind.text]

end DatabaseFault

/-! ### Failures of the library -/

namespace Failure

def ofConfig (e : Config.LoadError) : Failure :=
  match e with
  | .unreadable _ cause => ⟨e.message, [cause.message]⟩
  | .malformed _ => ⟨e.message, []⟩

def ofStore (e : StoreError) : Failure :=
  ⟨"Store error: " ++ e.message, match e with
    | .readOnly => DatabaseFault.readOnly.causes
    | _ => [e.message]⟩

def ofImport (e : ImportError) : Failure :=
  match e with
  | .unreadable cause => ⟨e.message, [cause.message]⟩
  | .malformed cause => ⟨e.message, [cause.message]⟩
  | .store cause => ofStore cause

def ofLoader (e : LoaderError) : Failure :=
  match e with
  | .notStarted failure => ⟨e.message, [failure.cause.message]⟩
  | .failed _ => ⟨e.message, []⟩

end Failure

end BuildAudit.CommandLine
