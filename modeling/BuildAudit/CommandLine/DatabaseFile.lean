import BuildAudit.FileTree

/-!
# Files of databases

Where the file of a database is.  A database follows its path by itself, name after name, and by
text where nothing is there: a name that is missing may be left again.  Paths are short, as the
files beside a database have longer names than its own.
-/

namespace BuildAudit.CommandLine.DatabaseFile

/-- The longest path that a database follows, in bytes. -/
def maxPathLength : Nat := 512

/-- How much longer the name of the journal beside a file is than that of the file, in bytes. -/
def journalSuffixLength : Nat := "-journal".utf8ByteSize

/-- The number of symbolic links that one path may pass through. -/
def maxLinks : Nat := 101

/-- Whether a name may be looked up: its path is not too long and it does not stand below a file. -/
def admits (t : FileTree) (here : Location) (name : OsString) : Bool :=
  here.size + name.size + 2 ≤ maxPathLength &&
    match t.entryAt? here with
    | none => true
    | some (.file _) => false
    | some _ => name.size ≤ FileTree.maxNameLength

/-- Follows segments from a location on; `follow` goes on after a symbolic link. -/
def walkWith (t : FileTree) (follow : Location → List OsString → Option Location) :
    Location → List OsString → Option Location
  | here, [] => some here
  | here, segment :: rest =>
    if segment.isIdle then walkWith t follow here rest
    else if segment == ".." then walkWith t follow here.dropLast rest
    else if !admits t here segment then none
    else
      match t.entryAt? (here ++ [segment]) with
      | some (.link target) =>
        follow (if target.isAbsolute then [] else here) (target.segments ++ rest)
      | _ => walkWith t follow (here ++ [segment]) rest

/-- Follows segments through at most `links` symbolic links. -/
def walk (t : FileTree) : Nat → Location → List OsString → Option Location
  | 0 => walkWith t fun _ _ => none
  | links + 1 => walkWith t (walk t links)

/-- Where the file of a database is or would be.  There has to be room for the name of its
journal, and the root is no file. -/
def location? (t : FileTree) (path : String) : Option Location :=
  let start := if Path.isAbsolute path then [] else t.workingDirectory
  (walk t maxLinks [] (start ++ (Path.segments path).map .text)).filter fun l =>
    l != [] && l.size + journalSuffixLength ≤ maxPathLength

/-- Whether the name of the journal of a file is too long for a name. -/
def lacksJournal (l : Location) : Bool :=
  (l.getLast?.getD "").size + journalSuffixLength > FileTree.maxNameLength

end BuildAudit.CommandLine.DatabaseFile
