import BuildAudit.CommandLine
import BuildAudit.Graph.Snapshot
import Std.Time.DateTime.Timestamp

/-!
# The executable

Reads the files below the current directory, and the data directories above it, runs the program on
them and writes back what the run has changed.  Databases are kept as snapshots.  Outside programs
are never started.
-/

namespace BuildAudit.Executable

open CommandLine (Workspace)

/-! ### Reading -/

def namesIn (path : String) : List String := (Path.segments path).filter (!Path.isIdle ·)

def locationOf (path : String) : Location := (namesIn path).map .text

def directoriesTo (l : Location) : List (Location × Entry) :=
  (List.range (l.length + 1)).map fun n => (l.take n, .directory)

/-- Where a symbolic link ends; one that ends nowhere stands for itself. -/
def targetOf (path : String) : IO String :=
  (do return (← IO.FS.realPath path).toString) <|> pure path

partial def entriesBelow (directory : String) : IO (List (Location × Entry)) := do
  let mut found := []
  for entry in ← (← IO.FS.realPath directory).readDir do
    let path := entry.path.toString
    let l := locationOf path
    match (← entry.path.symlinkMetadata).type with
    | .dir => found := (l, .directory) :: (← entriesBelow path) ++ found
    | .file => found := (l, .file (← IO.FS.readBinFile path)) :: found
    | .symlink => found := (l, .link (← targetOf path)) :: found
    | .other => pure ()
  return found

/-- The files that a run in a directory sees. -/
def readFiles (here : String) : IO FileTree := do
  let mut found := directoriesTo (locationOf here) ++ (← entriesBelow here)
  for directory in (Path.ancestors here).drop 1 do
    for entry in ← (← IO.FS.realPath directory).readDir do
      if entry.fileName == Config.dataDirectory && (← entry.path.isDir) then
        let data := entry.path.toString
        found := found ++ directoriesTo (locationOf data) ++ (← entriesBelow data)
  return ⟨found, namesIn here⟩

def storeOf? : Location × Entry → Option (Location × Store)
  | (l, .file contents) => do
    let text ← String.fromUTF8? contents
    let graph ← Snapshot.ofText? text
    return (l, { graph })
  | _ => none

/-- The workspace of a file tree in which databases are kept as snapshots. -/
def workspaceOf (files : FileTree) : Workspace :=
  (files.entries.filterMap storeOf?).foldl (fun w (l, s) => w.put l true s) { files }

/-! ### Writing -/

/-- Whether `after` keeps what `before` holds at a location. -/
def isUnchanged (before after : Workspace) (l : Location) (e : Entry) : Bool :=
  match before.files.entryAt? l, e with
  | some (.file old), .file new =>
    old == new && before.databases.lookup l == after.databases.lookup l
  | some _, .file _ => false
  | some _, _ => true
  | none, _ => false

def writeChanges (before after : Workspace) : IO Unit := do
  for (l, e) in after.files.entries do
    if !isUnchanged before after l e then
      match e, after.databases.lookup l with
      | .file _, some store => IO.FS.writeFile l.path (Snapshot.text store.graph)
      | .file contents, none => IO.FS.writeBinFile l.path contents
      | .directory, _ => IO.FS.createDirAll l.path
      | .link _, _ => pure ()

/-! ### Running -/

def now : IO Instant := do
  let t ← Std.Time.Timestamp.now
  return ⟨t.val.second.val, t.val.nano.val.toNat⟩

/-- Runs the program in the current directory. -/
def run (arguments : List String) : IO UInt32 := do
  let before := workspaceOf (← readFiles (← IO.currentDir).toString)
  let input ←
    if CommandLine.readsInput arguments then (← IO.getStdin).readBinToEnd else pure .empty
  let around : CommandLine.Surroundings :=
    { tools := fun _ _ => .error .accessDenied, input, now := ← now }
  let (ending, after) := CommandLine.run around arguments before
  writeChanges before after
  IO.print ending.output
  match ending with
  | .success _ => pure ()
  | .failure f => IO.eprintln f.text
  | .misuse => IO.eprint (CommandLine.Ending.success CommandLine.helpLines).output
  | .panic => IO.eprintln "attempt to add with overflow"
  return ending.exitCode

end BuildAudit.Executable

def main (arguments : List String) : IO UInt32 := BuildAudit.Executable.run arguments
