import BuildAudit.FileTree
import BuildAudit.Import.CompileDatabase
import BuildAudit.Import.Log

/-!
# Importing contents

A recording as the bytes of a file: a log or a compilation database.  Nothing is written unless the
whole file can be read.
-/

namespace BuildAudit

/-- What is wrong with a compilation database. -/
inductive CompileDatabaseError where
  | file (error : OsError)
  | json (error : Json.ReadError)
  deriving DecidableEq, Repr

def CompileDatabaseError.message : CompileDatabaseError → String
  | file error => error.message
  | json error => error.message

/-- Why a recording cannot be imported. -/
inductive ImportError where
  /-- The log is no text, or cannot be read. -/
  | unreadable (cause : FileTree.TextError)
  | malformed (cause : CompileDatabaseError)
  | store (error : StoreError)
  deriving DecidableEq, Repr

def ImportError.message : ImportError → String
  | unreadable cause => "Failed to read commands: " ++ cause.message
  | malformed cause => "Malformed compilation database: " ++ cause.message
  | store error => "Store error: " ++ error.message

def importLog (s : Store) (contents : ByteArray) (defaultDirectory : String) (o : ImportOptions)
    (now : Instant) : Except ImportError ImportReport × Store :=
  match FileTree.textOf contents with
  | .error e => (.error (.unreadable e), s)
  | .ok text =>
    let (result, s) := importEntries s (logEntries text defaultDirectory) o now
    (result.mapError .store, s)

/-- Imports the bytes of a compilation database. -/
def importDatabase (s : Store) (contents : ByteArray) (o : ImportOptions) (now : Instant) :
    Except ImportError ImportReport × Store :=
  match compileDatabase contents with
  | .error e => (.error (.malformed (.json e)), s)
  | .ok entries =>
    let (result, s) := importEntries s (entries.map CompileEntry.recorded) o now
    (result.mapError .store, s)

end BuildAudit
