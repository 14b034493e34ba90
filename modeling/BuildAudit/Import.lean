import BuildAudit.Command
import BuildAudit.Store

/-!
# Imports

Recorded invocations become rows of the graph.  A recording is a list of entries, each a command or
the reason why it is none; `Verdict` says what becomes of an entry, and `importEntries` writes a
whole recording in one transaction.
-/

namespace BuildAudit

abbrev RecordedEntry := Except CommandError Command

/-- What becomes of an entry. -/
inductive Verdict where
  /-- It is stored as this row. -/
  | accepted (directory executable args : String)
  /-- Its tool follows no known grammar. -/
  | skipped
  /-- It cannot be read, writes nothing or cannot be written down. -/
  | failed
  deriving DecidableEq, Repr

def Verdict.of : RecordedEntry → Verdict
  | .error _ => failed
  | .ok c =>
    if !c.isRecognized then skipped
    else if c.output?.isNone then failed
    else
      match c.args with
      | .ok args => accepted c.directory c.executable args
      | .error _ => failed

structure ImportOptions where
  /-- Do everything, then undo it. -/
  dryRun : Bool := false
  /-- Remove what was imported before. -/
  replace : Bool := false
  deriving DecidableEq, Repr

/-- How many entries met which fate. -/
structure ImportReport where
  imported : Nat := 0
  existing : Nat := 0
  skipped : Nat := 0
  failed : Nat := 0
  deriving DecidableEq, Repr

def ImportReport.merge (a b : ImportReport) : ImportReport :=
  ⟨a.imported + b.imported, a.existing + b.existing, a.skipped + b.skipped, a.failed + b.failed⟩

def importVerdict (report : ImportReport) : Verdict → Update ImportReport
  | .skipped => return { report with skipped := report.skipped + 1 }
  | .failed => return { report with failed := report.failed + 1 }
  | .accepted directory executable args => do
    let (_, new) ← Graph.insertCommand directory executable args
    if new then return { report with imported := report.imported + 1 }
    else return { report with existing := report.existing + 1 }

def writeEntries (entries : List RecordedEntry) (replace : Bool) : Update ImportReport := do
  if replace then let _ ← Graph.truncateCommands
  (entries.map Verdict.of).foldlM importVerdict {}

/-- Whether an import with this report has to be recorded as a new state of the commands. -/
def ImportReport.changes (report : ImportReport) (o : ImportOptions) : Bool :=
  !o.dryRun && (report.imported > 0 || o.replace)

/-- Whether an import with this report has written commands, be it to undo it or to find that they
were there. -/
def ImportReport.writes (report : ImportReport) (o : ImportOptions) : Bool :=
  o.replace || report.imported > 0 || report.existing > 0

/-- Imports a recording in one transaction; `now` is the time at its end. -/
def importEntries (s : Store) (entries : List RecordedEntry) (o : ImportOptions) (now : Instant) :
    Except StoreError ImportReport × Store :=
  match s.transaction o.dryRun Except.isOk (ExceptT.run (writeEntries entries o.replace)) with
  | (.error e, s) => (.error e, s)
  | (.ok (.error e), s) => (.error e, s)
  | (.ok (.ok report), s) =>
    (.ok report,
      if report.changes o then s.mapGraph (Graph.setPhaseTime .importCommands now) else s)

end BuildAudit
