import BuildAudit.Text

/-!
# Paths

A path is a text; this file says how it is read.  Splitting at slashes gives segments.  Empty
segments and `.` name nothing, except that a relative path may begin with `.`.  `join`, `parent?`
and `fileName?` work on the text and never look at a file system.
-/

namespace BuildAudit.Path

/-- The segments between the slashes of a path. -/
def segments (p : String) : List String :=
  (p.toList.splitOn '/').map String.ofList

def isAbsolute (p : String) : Bool := p.toList.head? == some '/'

/-- A segment that names nothing. -/
def isIdle (s : String) : Bool := s == "" || s == "."

/-- The segments with the idle ones at the end cut off.  The first segment of a relative path stays
unless it is empty. -/
def trimIdle (absolute : Bool) (segs : List String) : List String :=
  let cut (l : List String) := (l.reverse.dropWhile isIdle).reverse
  match absolute, segs with
  | true, segs => cut segs
  | false, [] => []
  | false, first :: rest =>
    match cut rest with
    | [] => if first == "" then [] else [first]
    | rest' => first :: rest'

/-- The segments after the leading slash, if there is one, without idle ones at the end. -/
def body (p : String) : List String :=
  if isAbsolute p then trimIdle true (segments p).tail else trimIdle false (segments p)

/-- The last component, unless the path ends in `..`, is empty, is `.` or is the root. -/
def fileName? (p : String) : Option String :=
  match (body p).getLast? with
  | none => none
  | some name => if name == ".." || name == "." then none else some name

/-- The path without its last component; the root and the empty path have none. -/
def parent? (p : String) : Option String :=
  let segs := body p
  if segs == [] then none
  else
    let rest := trimIdle (isAbsolute p) segs.dropLast
    some ((if isAbsolute p then "/" else "") ++ String.intercalate "/" rest)

/-- `b` seen from `a`: an absolute `b` stands for itself. -/
def join (a b : String) : String :=
  if isAbsolute b then b
  else if a == "" then b
  else if Text.endsIn "/" a then a ++ b
  else a ++ "/" ++ b

/-- A file name without its last extension; a dot at the front starts no extension. -/
def stemOf (name : String) : String :=
  let rev := name.toList.reverse
  match rev.dropWhile (· ≠ '.') with
  | _ :: before@(_ :: _) => String.ofList before.reverse
  | _ => name

/-- The file name of a path without its last extension. -/
def fileStem? (p : String) : Option String := (fileName? p).map stemOf

/-- The directories from `p` upwards, by text alone. -/
def ancestors (p : String) : List String :=
  go p.length p
where
  go : Nat → String → List String
    | 0, p => [p]
    | n + 1, p =>
      match parent? p with
      | none => [p]
      | some q => p :: go n q

end BuildAudit.Path
