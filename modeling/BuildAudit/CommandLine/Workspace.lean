import BuildAudit.CommandLine.DatabaseFile
import BuildAudit.CommandLine.DatabaseName
import BuildAudit.CommandLine.Failure
import BuildAudit.Store

/-!
# Workspaces

A file tree in which some files are databases.  To the tree a database is a file like any other; the
store in it is kept beside.  A run of the program works on a workspace and leaves it changed, also
when it fails.
-/

namespace BuildAudit.CommandLine

structure Workspace where
  files : FileTree
  /-- The stores of the databases, by the location of their files. -/
  databases : List (Location × Store) := []

namespace Workspace

/-! ### Files of databases -/

/-- What the file of a database holds, as far as others can tell.  Its header says whether changes
go to a log first. -/
def databaseContents (logged : Bool) : ByteArray :=
  "SQLite format 3\x00".toUTF8 ++ (if logged then ⟨#[0x10, 0, 2, 2]⟩ else ⟨#[0x10, 0, 1, 1]⟩)

/-- Whether changes of the database with these contents go to a log first, if it is one. -/
def loggedOf? (contents : ByteArray) : Option Bool :=
  [true, false].find? (contents == databaseContents ·)

/-- The workspace with a store in the database at a location. -/
def put (w : Workspace) (l : Location) (logged : Bool) (s : Store) : Workspace where
  files := w.files.put l (.file (databaseContents logged))
  databases := (l, s) :: w.databases.filter (·.1 ≠ l)

/-- Where an open database is kept. -/
structure Place where
  location : Location
  logged : Bool := true
  readOnly : Bool := false
  deriving DecidableEq, Repr

/-- An open database: its store, and where that is kept, unless it is only for this run. -/
structure Handle where
  store : Store
  place? : Option Place
  deriving DecidableEq, Repr

/-- Whether nothing can be written to the database. -/
def Handle.isReadOnly (h : Handle) : Bool := h.place?.any (·.readOnly)

def save (w : Workspace) (place? : Option Place) (s : Store) : Workspace :=
  match place? with
  | some p => if p.readOnly then w else w.put p.location p.logged s
  | none => w

/-! ### Opening -/

/-- Why a database cannot be opened. -/
inductive OpenError where
  | name (error : NameError)
  /-- Its file cannot be opened. -/
  | cannotOpen
  /-- A file beside it, which takes its changes, cannot be opened. -/
  | cannotRecord
  /-- Its file cannot be read. -/
  | diskError
  /-- It needs to be changed first. -/
  | readOnly
  | notDatabase
  deriving DecidableEq, Repr

/-- What is reported about the database at a path that cannot be opened. -/
def OpenError.fault (path : String) : OpenError → DatabaseFault
  | name e =>
    ⟨e.message, match e with
      | .refusedAccess _ => .permission
      | _ => .general⟩
  | cannotOpen => ⟨"unable to open database file: " ++ path, .cannotOpen⟩
  | cannotRecord => ⟨"unable to open database file", .cannotOpen⟩
  | diskError => ⟨"disk I/O error", .diskError⟩
  | readOnly => .readOnly
  | notDatabase => ⟨"file is not a database", .notDatabase⟩

def OpenError.failure (path : String) (e : OpenError) : Failure :=
  ⟨"Failed to open " ++ path, (e.fault path).causes⟩

/-- The result of opening a database in a workspace, which stays changed. -/
abbrev Opened := Except OpenError Handle × Workspace

/-- A database that is kept in a file now. -/
def openAt (w : Workspace) (place : Place) (s : Store) : Opened :=
  (.ok ⟨s, some place⟩, w.save (some place) s)

/-- Opens the empty file at a location as a new database. -/
def openNew (w : Workspace) (n : DatabaseName) (l : Location) : Opened :=
  if n.isReadOnly then (.error .readOnly, w)
  else if DatabaseFile.lacksJournal l then (.error .cannotRecord, w)
  else w.openAt { location := l, logged := n.keeping == .logged } .empty

/-- Opens the database at a location.  One with a log cannot be used without it, and one without
gets a log if it can have one; one that does not change needs none. -/
def openOld (w : Workspace) (n : DatabaseName) (l : Location) (logged : Bool) (s : Store) :
    Opened :=
  if n.immutable || (!logged && n.keeping == .direct) then
    w.openAt { location := l, logged, readOnly := n.isReadOnly } s
  else if n.keeping == .direct then (.error .cannotRecord, w)
  else if !logged && n.isReadOnly then (.error .readOnly, w)
  else w.openAt { location := l, readOnly := n.isReadOnly } s

/-- Opens the file at a location as a database.  One that is missing is made, if that is asked
for. -/
def openFile (w : Workspace) (n : DatabaseName) (l : Location) : Opened :=
  match w.files.entryAt? l with
  | none =>
    if n.access == .creating && w.files.isDirectoryAt l.dropLast then
      { w with files := w.files.put l (.file .empty) }.openNew n l
    else (.error .cannotOpen, w)
  | some (.file contents) =>
    if contents.isEmpty then w.openNew n l
    else
      match loggedOf? contents, w.databases.lookup l with
      | some logged, some s => w.openOld n l logged s.reopened
      | _, _ => (.error .notDatabase, w)
  | some .directory => (.error (if n.access == .readOnly then .diskError else .cannotOpen), w)
  | some (.link _) => (.error .cannotOpen, w)

def openNamed (w : Workspace) (n : DatabaseName) : Opened :=
  if n.isTransient then
    (if n.isReadOnly then .error .readOnly else .ok ⟨.empty, none⟩, w)
  else
    match DatabaseFile.location? w.files n.path with
    | some l => w.openFile n l
    | none => (.error .cannotOpen, w)

/-- Opens the database that a text names. -/
def openDatabase (w : Workspace) (name : String) : Opened :=
  match DatabaseName.ofText name with
  | .ok n => w.openNamed n
  | .error e => (.error (.name e), w)

end Workspace

end BuildAudit.CommandLine
