import BuildAudit.OsString

/-!
# File trees

A file system as a value: which locations hold a file, a directory or a symbolic link, and which
directory relative paths start from.  `locate` follows a path through the tree one segment at a
time, the way an operating system does, and `realPath` does so for the path of each place on the way.
Names in a tree are bytes; `canonicalize` gives the path of the place that is reached as a text.
-/

namespace BuildAudit

/-- Why an operation on files failed. -/
inductive OsError where
  | noEntry
  | accessDenied
  | notDirectory
  | isDirectory
  | alreadyExists
  | nameTooLong
  | tooManyLinks
  /-- The path holds a NUL, which no system call takes. -/
  | nulByte
  deriving DecidableEq, Repr, Inhabited

def OsError.message : OsError → String
  | noEntry => "No such file or directory (os error 2)"
  | accessDenied => "Permission denied (os error 13)"
  | notDirectory => "Not a directory (os error 20)"
  | isDirectory => "Is a directory (os error 21)"
  | alreadyExists => "File exists (os error 17)"
  | nameTooLong => "File name too long (os error 36)"
  | tooManyLinks => "Too many levels of symbolic links (os error 40)"
  | nulByte => "file name contained an unexpected NUL byte"

/-- The names that lead from the root to an entry. -/
abbrev Location := List OsString

namespace Location

/-- The path of a location. -/
def osPath : Location → OsString
  | [] => "/"
  | l => l.foldl (fun p name => p ++ "/" ++ name) ""

/-- The path of a location as a text. -/
def path (l : Location) : String := "/" ++ String.intercalate "/" (l.map OsString.lossy)

/-- The length of the path to a location, in bytes; the root has none. -/
def size (l : Location) : Nat := l.foldl (fun n name => n + 1 + name.size) 0

end Location

/-- What a location holds. -/
inductive Entry where
  | file (contents : ByteArray)
  | directory
  | link (target : OsString)

structure FileTree where
  entries : List (Location × Entry)
  /-- The names that lead to the place where relative paths start; they are texts. -/
  workingPath : List String := []

namespace FileTree

/-- The empty tree: a root and nothing in it. -/
def empty : FileTree := ⟨[], []⟩

/-- Where relative paths start. -/
def workingDirectory (t : FileTree) : Location := t.workingPath.map .text

/-- What a location holds; the root is always a directory. -/
def entryAt? (t : FileTree) (l : Location) : Option Entry :=
  if l = [] then some .directory else t.entries.lookup l

def isDirectoryAt (t : FileTree) (l : Location) : Bool :=
  match t.entryAt? l with
  | some .directory => true
  | _ => false

def isFileAt (t : FileTree) (l : Location) : Bool :=
  match t.entryAt? l with
  | some (.file _) => true
  | _ => false

/-! ### Following paths -/

/-- The longest name that an entry may have, in bytes. -/
def maxNameLength : Nat := 255

/-- The longest path that an operation on a file takes, in bytes. -/
def maxPathLength : Nat := 4095

/-- Follows segments from a directory on.  Only names in places that fit are looked up; `follow` goes
on after a symbolic link, and `missing` says what to do about a name that is not there. -/
def walkWith (t : FileTree) (fits : Location → Bool)
    (missing : Location → List OsString → Except OsError Location)
    (follow : Location → List OsString → Except OsError Location) :
    Location → List OsString → Except OsError Location
  | here, [] => .ok here
  | here, segment :: rest =>
    if !t.isDirectoryAt here then .error .notDirectory
    else if segment.isIdle then walkWith t fits missing follow here rest
    else if segment == ".." then walkWith t fits missing follow here.dropLast rest
    else if segment.size > maxNameLength || !fits (here ++ [segment]) then .error .nameTooLong
    else
      match t.entryAt? (here ++ [segment]) with
      | none => missing (here ++ [segment]) rest
      | some (.link target) =>
        follow (if target.isAbsolute then [] else here) (target.segments ++ rest)
      | some _ => walkWith t fits missing follow (here ++ [segment]) rest

/-- Follows segments through at most `links` symbolic links. -/
def walk (t : FileTree) (fits : Location → Bool)
    (missing : Location → List OsString → Except OsError Location) :
    Nat → Location → List OsString → Except OsError Location
  | 0 => t.walkWith fits missing fun _ _ => .error .tooManyLinks
  | links + 1 => t.walkWith fits missing (t.walk fits missing links)

/-- The number of symbolic links that one path may pass through. -/
def maxLinks : Nat := 40

/-- Follows a path, however long it is, from the root or from the working directory. -/
def resolve (t : FileTree) (fits : Location → Bool)
    (missing : Location → List OsString → Except OsError Location) (p : OsString) :
    Except OsError Location :=
  if p.hasNul then .error .nulByte
  else if p == "" then .error .noEntry
  else t.walk fits missing maxLinks (if p.isAbsolute then [] else t.workingDirectory) p.segments

/-- Whether a path is too long for an operation on a file. -/
def isTooLong (p : OsString) : Bool := p.size > maxPathLength && !p.hasNul

/-- Follows the path of an operation on a file.  How long the paths of the places on the way are does
not matter. -/
def follow (t : FileTree) (missing : Location → List OsString → Except OsError Location)
    (p : OsString) : Except OsError Location :=
  if isTooLong p then .error .nameTooLong else t.resolve (fun _ => true) missing p

def locate (t : FileTree) (p : OsString) : Except OsError Location :=
  t.follow (fun _ _ => .error .noEntry) p

/-- Whether an operation on a file takes the path of a location. -/
def takesPath (l : Location) : Bool := l.size ≤ maxPathLength

/-- The place that a path leads to, with the path of each place on the way as the path of an operation
on a file: none of them may be too long. -/
def realPath (t : FileTree) (p : OsString) : Except OsError Location :=
  t.resolve takesPath (fun _ _ => .error .noEntry) p

/-- The absolute path without symbolic links that names the same entry, as a text. -/
def canonicalize (t : FileTree) (p : OsString) : Except OsError String :=
  (t.realPath p).map Location.path

def pathExists (t : FileTree) (p : OsString) : Bool :=
  match t.locate p with
  | .ok _ => true
  | .error _ => false

def isFile (t : FileTree) (p : OsString) : Bool :=
  match t.locate p with
  | .ok l => t.isFileAt l
  | .error _ => false

def isDirectory (t : FileTree) (p : OsString) : Bool :=
  match t.locate p with
  | .ok l => t.isDirectoryAt l
  | .error _ => false

def read (t : FileTree) (p : OsString) : Except OsError ByteArray :=
  match t.locate p with
  | .error e => .error e
  | .ok l =>
    match t.entryAt? l with
    | some (.file contents) => .ok contents
    | some .directory => .error .isDirectory
    | _ => .error .noEntry

/-- Why a file cannot be read as text. -/
inductive TextError where
  | file (error : OsError)
  /-- Its bytes are not UTF-8. -/
  | encoding
  deriving DecidableEq, Repr

def TextError.message : TextError → String
  | file error => error.message
  | encoding => "stream did not contain valid UTF-8"

def textOf (contents : ByteArray) : Except TextError String :=
  match String.fromUTF8? contents with
  | some text => .ok text
  | none => .error .encoding

def readText (t : FileTree) (p : String) : Except TextError String :=
  match t.read p with
  | .error e => .error (.file e)
  | .ok contents => textOf contents

/-! ### Changing a tree -/

/-- The tree with `e` at `l`. -/
def put (t : FileTree) (l : Location) (e : Entry) : FileTree :=
  { t with entries := t.entries.filter (·.1 ≠ l) ++ [(l, e)] }

/-- The location that writing to a path fills: the end of the path need not exist yet. -/
def locateNew (t : FileTree) (p : String) : Except OsError Location :=
  t.follow (fun l rest => if rest.isEmpty then .ok l else .error .noEntry) p

/-- Writes a whole file, which need not exist yet. -/
def write (t : FileTree) (p : String) (contents : ByteArray) : Except OsError FileTree :=
  if Text.endsIn "/" p then
    match t.locate p with
    | .error .notDirectory => .error .notDirectory
    | _ => .error .isDirectory
  else
    match t.locateNew p with
    | .error e => .error e
    | .ok l => if t.isDirectoryAt l then .error .isDirectory else .ok (t.put l (.file contents))

/-- Makes one directory; its parent has to be there. -/
def makeDirectory (t : FileTree) (p : String) : Except OsError FileTree :=
  match Path.parent? p, Path.fileName? p with
  | some parent, some name =>
    match t.locate (if parent == "" then "." else parent) with
    | .error e => .error e
    | .ok l =>
      if isTooLong p then .error .nameTooLong
      else if !t.isDirectoryAt l then .error .notDirectory
      else if name.utf8ByteSize > maxNameLength then .error .nameTooLong
      else if (t.entryAt? (l ++ [.text name])).isSome then .error .alreadyExists
      else .ok (t.put (l ++ [.text name]) .directory)
  | _, _ =>
    match t.locate p with
    | .ok _ => .error .alreadyExists
    | .error e => .error e

/-- Makes one directory, unless it is there. -/
def ensureDirectory (t : FileTree) (p : String) : Except OsError Unit × FileTree :=
  match t.makeDirectory p with
  | .ok t' => (.ok (), t')
  | .error e => (if t.isDirectory p then .ok () else .error e, t)

/-- Makes a directory and those above it that are missing.  `depth` bounds the number of
directories on the path. -/
def makeDirectoriesWithin (t : FileTree) : Nat → String → Except OsError Unit × FileTree
  | 0, _ => (.error .noEntry, t)
  | depth + 1, p =>
    if p == "" then (.ok (), t)
    else
      match t.makeDirectory p, Path.parent? p with
      | .error .noEntry, some parent =>
        match t.makeDirectoriesWithin depth parent with
        | (.ok (), t') => t'.ensureDirectory p
        | failed => failed
      | _, _ => t.ensureDirectory p

/-- Makes a directory and those above it that are missing.  What has been made stays when the rest
fails. -/
def makeDirectories (t : FileTree) (p : String) : Except OsError Unit × FileTree :=
  t.makeDirectoriesWithin (p.length + 1) p

end FileTree

end BuildAudit
