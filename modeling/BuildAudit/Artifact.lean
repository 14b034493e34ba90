import BuildAudit.Path

/-!
# Artifacts

The files of a build and the invocations that were recorded: the kinds of file and how a file name
tells the kind, the rows for recorded commands and for artifacts.
-/

namespace BuildAudit

/-- The kind of file an artifact is. -/
inductive ArtifactType where
  | source
  | object
  | static
  | shared
  /-- A library of which it is not known yet whether it is static or shared. -/
  | library
  | executable
  deriving DecidableEq, Repr, Inhabited

namespace ArtifactType

/-- Every kind, in order of declaration. -/
def all : List ArtifactType := [source, object, static, shared, library, executable]

/-- The name of a kind, as stored and printed. -/
def name : ArtifactType → String
  | source => "source"
  | object => "object"
  | static => "static"
  | shared => "shared"
  | library => "library"
  | executable => "executable"

def ofName? (s : String) : Option ArtifactType := all.find? (·.name == s)

/-! ### Classification by file name -/

/-- Groups of a dot and one or more digits, reaching the end. -/
def isVersion (cs : List Char) : Bool :=
  match cs.splitOn '.' with
  | [] :: groups => groups.all fun g => g ≠ [] && g.all (Text.isDigitIn 10)
  | _ => false

/-- Whether some end of the name is `.so` followed by version groups. -/
def endsShared : List Char → Bool
  | [] => false
  | c :: cs =>
    (match c :: cs with
      | '.' :: 's' :: 'o' :: rest => isVersion rest
      | _ => false) || endsShared cs

/-- The kind that a file name tells, if it tells any. -/
def ofFileName? (name : String) : Option ArtifactType :=
  if Text.endsIn ".o" name then some object
  else if Text.endsIn ".a" name then some static
  else if endsShared name.toList then some shared
  else none

/-- The kind that the file name of a path tells. -/
def ofPath? (path : String) : Option ArtifactType := (Path.fileName? path).bind ofFileName?

/-- The kind of a file that a command writes: a program, unless the name says otherwise. -/
def ofOutput (path : String) : ArtifactType := (ofPath? path).getD executable

/-- The kind of a file that a command reads: a source, unless the name says otherwise. -/
def ofInput (path : String) : ArtifactType := (ofPath? path).getD source

/-! ### Properties -/

/-- Everything but a source carries a symbol table. -/
def hasSymbols (t : ArtifactType) : Bool := t ≠ source

def isLibrary (t : ArtifactType) : Bool := t == static || t == shared || t == library

/-- Only the placeholder `library` may be narrowed, and only to a kind of library. -/
def refinesTo (t u : ArtifactType) : Bool :=
  t == u || (t == library && (u == static || u == shared))

end ArtifactType

/-- Row numbers. -/
abbrev Id := Int

/-- A recorded invocation.  The arguments are one text, quoted so that they can be split again. -/
structure CommandRecord where
  id : Id
  directory : String
  executable : String
  args : String
  deriving DecidableEq, Repr, Inhabited

/-- The invocation as one line, without the directory. -/
def CommandRecord.commandLine (c : CommandRecord) : String :=
  if c.args == "" then c.executable else c.executable ++ " " ++ c.args

/-- A file of the build. -/
structure Artifact where
  id : Id
  name : String
  type : ArtifactType
  /-- The command that writes the file, if one is known. -/
  generator : Option Id
  deriving DecidableEq, Repr, Inhabited

end BuildAudit
