import BuildAudit.Proofs.FileIdentity
import BuildAudit.Proofs.Replay
import BuildAudit.Proofs.ResolutionOutcome

/-!
# Absolute names

Dependencies are recorded under canonical paths, which are absolute (`isAbsolute_of_canonicalize`).  An
output has the path of its directory, and where that cannot be made canonical, the path as it is written:
if a command names both its directory and its output relatively, the name of the artifact is relative
(`FileTree.Unanchored`).  In a graph that extractions alone have filled, these are all the relative names
(`relative_names_exact`).
-/

namespace BuildAudit

open BuildAudit.Graph

/-! ## Absolute paths -/

namespace Path

theorem isAbsolute_append {p : String} (nonempty : p ≠ "") (q : String) :
    isAbsolute (p ++ q) = isAbsolute p := by
  have some : p.toList ≠ [] := by simpa using nonempty
  rw [isAbsolute, String.toList_append, List.head?_append_of_ne_nil _ some, isAbsolute]

theorem isAbsolute_join (a b : String) : isAbsolute (join a b) = (isAbsolute a || isAbsolute b) := by
  unfold join
  split_ifs with absolute empty ends
  · rw [absolute, Bool.or_true]
  · obtain rfl := eq_of_beq empty
    rfl
  all_goals
    have nonempty : a ≠ "" := by simpa using empty
    rw [Bool.eq_false_iff.2 absolute, Bool.or_false]
  · exact isAbsolute_append nonempty b
  · rw [String.append_assoc, isAbsolute_append nonempty]

end Path

theorem Location.isAbsolute_path (l : Location) : Path.isAbsolute l.path := by
  rw [path, Path.isAbsolute_append (by decide)]
  rfl

theorem FileTree.isAbsolute_of_canonicalize {t : FileTree} {p : OsString} {canonical : String}
    (h : t.canonicalize p = .ok canonical) : Path.isAbsolute canonical := by
  obtain ⟨l, -, rfl⟩ := canonicalize_eq_ok_iff.1 h
  exact l.isAbsolute_path

/-! ## Outputs -/

/-- The canonical path of the directory in which a path names something, if it is there. -/
def FileTree.home? (files : FileTree) (p : String) : Option String :=
  match Path.parent? p, Path.fileName? p with
  | some parent, some _ => (files.canonicalize parent).toOption
  | _, _ => none

/-- Nothing makes the path of an output absolute: the output is relative, so is the directory from which
it is seen, and the directory in which it is to stand is not there. -/
structure FileTree.Unanchored (files : FileTree) (directory output : String) : Prop where
  relativeBase : Path.isAbsolute directory = false
  relativeOutput : Path.isAbsolute output = false
  homeless : files.home? (Path.join directory output) = none

variable {files : FileTree} {directory output : String}

/-- An output stands in a canonical directory, or its path is as it is written. -/
theorem absoluteOutput_cases (files : FileTree) (directory output : String) :
    (∃ parent name home, files.canonicalize parent = .ok home ∧
      files.home? (Path.join directory output) = some home ∧
      absoluteOutput files directory output = Path.join home name) ∨
    files.home? (Path.join directory output) = none ∧
      absoluteOutput files directory output = Path.join directory output := by
  rcases hparent : Path.parent? (Path.join directory output) with _ | parent
  · exact .inr (by simp [absoluteOutput, FileTree.home?, hparent])
  rcases hname : Path.fileName? (Path.join directory output) with _ | name
  · exact .inr (by simp [absoluteOutput, FileTree.home?, hname])
  rcases found : files.canonicalize parent with e | home
  · exact .inr (by simp [absoluteOutput, FileTree.home?, hparent, hname, found, Except.toOption])
  · refine .inl ⟨parent, name, home, found, ?_, ?_⟩
    · simp [FileTree.home?, hparent, hname, found, Except.toOption]
    · simp [absoluteOutput, hparent, hname, found]

theorem FileTree.Unanchored.absoluteOutput_eq (h : files.Unanchored directory output) :
    absoluteOutput files directory output = Path.join directory output := by
  rcases absoluteOutput_cases files directory output with ⟨-, -, home, -, found, -⟩ | ⟨-, same⟩
  · rw [h.homeless] at found
    cases found
  · exact same

/-- The path of an output is absolute unless nothing makes it so. -/
theorem isAbsolute_absoluteOutput_iff :
    Path.isAbsolute (absoluteOutput files directory output) ↔ ¬ files.Unanchored directory output := by
  constructor
  · intro absolute unanchored
    rw [unanchored.absoluteOutput_eq, Path.isAbsolute_join, unanchored.relativeBase,
      unanchored.relativeOutput] at absolute
    cases absolute
  · intro anchored
    rcases absoluteOutput_cases files directory output with
      ⟨parent, name, home, found, -, joined⟩ | ⟨homeless, same⟩
    · rw [joined, Path.isAbsolute_join, FileTree.isAbsolute_of_canonicalize found, Bool.true_or]
    · by_contra relative
      rw [same, Path.isAbsolute_join, Bool.or_eq_true, not_or] at relative
      exact anchored ⟨Bool.eq_false_iff.2 relative.1, Bool.eq_false_iff.2 relative.2, homeless⟩

/-! ## Names of artifacts -/

/-- The command writes a file whose path nothing makes absolute. -/
def Extractor.WritesUnanchored (x : Extractor) (row : CommandRecord) (name : String) : Prop :=
  ∃ c output, row.command = .ok c ∧ c.output? = some output ∧ x.files.Unanchored c.directory output ∧
    Path.join c.directory output = name

theorem isAbsolute_dependency {dirs : List OsString} {c : Command} {r : Resolution}
    (hr : resolve files dirs c = .ok r) {d : Dependency} (hd : d ∈ r.dependencies) :
    Path.isAbsolute d.path := by
  obtain ⟨p, found⟩ := exists_canonicalize_of_resolve hr hd
  exact FileTree.isAbsolute_of_canonicalize found

/-- The relative paths that a command writes or reads are those of unanchored outputs. -/
theorem relative_path_iff {x : Extractor} {row : CommandRecord} {name : String}
    (relative : Path.isAbsolute name = false) :
    (∃ r, x.Resolves row r ∧ (r.output = name ∨ ∃ d ∈ r.dependencies, d.path = name)) ↔
      x.WritesUnanchored row name := by
  constructor
  · rintro ⟨r, hr, written | ⟨d, hd, rfl⟩⟩
    · obtain ⟨c, hc, resolved⟩ := CommandRecord.resolve_eq_ok hr
      obtain ⟨-, output, -, houtput, absolute, -⟩ := resolve_eq_ok resolved
      have unanchored : x.files.Unanchored c.directory output := by
        by_contra anchored
        rw [← written, absolute, isAbsolute_absoluteOutput_iff.2 anchored] at relative
        cases relative
      exact ⟨c, output, hc, houtput, unanchored, by rw [← unanchored.absoluteOutput_eq, ← absolute, written]⟩
    · obtain ⟨c, -, resolved⟩ := CommandRecord.resolve_eq_ok hr
      rw [isAbsolute_dependency resolved hd] at relative
      cases relative
  · rintro ⟨c, output, hc, houtput, unanchored, rfl⟩
    obtain ⟨r, hr, absolute⟩ := Extractor.resolves_of_output hc houtput
    exact ⟨r, hr, .inl (absolute.trans unanchored.absoluteOutput_eq)⟩

/-- The dependencies of a command have absolute paths, and so has its output unless it is unanchored.  After
an extraction that has succeeded, was no rehearsal and did the dependency phase, the relative names are
those from before and those of the unanchored outputs. -/
theorem relative_names_exact {x : Extractor} {s : Store} (hx : x.ReadsAll) (hg : s.graph.Intact) :
    (∀ row r, x.Resolves row r → (∀ d ∈ r.dependencies, Path.isAbsolute d.path) ∧
      (Path.isAbsolute r.output ↔ ¬ x.WritesUnanchored row r.output)) ∧
    ∀ withSymbols now report, x.options.dryRun = false →
      (extract x withSymbols now s).report = .ok report → report.dependencies.upToDate = false →
      ∀ name, Path.isAbsolute name = false →
        (name ∈ (extract x withSymbols now s).store.graph.artifacts.map (·.name) ↔
          name ∈ s.graph.artifacts.map (·.name) ∨
            ∃ row ∈ s.graph.commands, x.WritesUnanchored row name) := by
  refine ⟨fun row r hr => ?_, fun withSymbols now report real ok ran name relative => ?_⟩
  · obtain ⟨c, -, resolved⟩ := CommandRecord.resolve_eq_ok hr
    refine ⟨fun d hd => isAbsolute_dependency resolved hd, fun absolute unanchored => ?_, fun anchored => ?_⟩
    · obtain ⟨c, output, -, -, unanchored, joined⟩ := unanchored
      rw [← joined, Path.isAbsolute_join, unanchored.relativeBase, unanchored.relativeOutput] at absolute
      cases absolute
    · by_contra relative
      exact anchored ((relative_path_iff (Bool.eq_false_iff.2 relative)).1 ⟨r, hr, .inl rfl⟩)
  · have extracted := (extract_dependencies_exact hx hg now).1 withSymbols report real ok ran
    rw [extracted.names]
    exact or_congr_right (exists_congr fun row => and_congr_right fun _ => relative_path_iff relative)

/-- A project in which an object from an earlier run lies beside its source. -/
def earlyExtractor : Extractor where
  files := ⟨[(["w"], .directory), (["w", "a.c"], .file .empty), (["w", "a.o"], .file .empty)], ["w"]⟩
  tools := fun _ _ => .error .noEntry
  searchDirectories := []

/-- A log whose directory is relative and not there yet, and a compilation database that gives none for one
command and a relative one for the other. -/
def earlyImported : Store :=
  let logged := ((Call.importLog "gcc -c -o b.o ../b.c\n".toUTF8 "build" {}).run earlyExtractor ⟨1, 0⟩ .empty).2
  ((Call.importDatabase
    "[[\"\", \"gcc -c -o a.o a.c\"], [\".\", \"gcc -o app a.o\"]]".toUTF8 {}).run
      earlyExtractor ⟨2, 0⟩ logged).2

/-- The three commands are accepted, and the extraction does all of them. -/
theorem extract_early :
    earlyImported.graph.artifacts = [] ∧
      (extract earlyExtractor false ⟨3, 0⟩ earlyImported).report = .ok ⟨{ processed := 3 }, .current⟩ ∧
      (extract earlyExtractor false ⟨3, 0⟩ earlyImported).store.graph.artifacts =
        [⟨1, "build/b.o", .object, some 1⟩, ⟨2, "a.o", .object, some 2⟩, ⟨3, "/w/a.c", .source, none⟩,
          ⟨4, "/w/app", .executable, some 3⟩, ⟨5, "/w/a.o", .object, none⟩] := by
  decide +kernel

/-- The object that is missing has a relative name, and the one that is there has two names: it is written
under a relative one and read under an absolute one. -/
theorem names_relative_early :
    earlyImported.Filled ∧ earlyExtractor.ReadsAll ∧
      (extract earlyExtractor false ⟨3, 0⟩ earlyImported).report = .ok ⟨{ processed := 3 }, .current⟩ ∧
      (extract earlyExtractor false ⟨3, 0⟩ earlyImported).store.graph.artifacts =
        [⟨1, "build/b.o", .object, some 1⟩, ⟨2, "a.o", .object, some 2⟩, ⟨3, "/w/a.c", .source, none⟩,
          ⟨4, "/w/app", .executable, some 3⟩, ⟨5, "/w/a.o", .object, none⟩] ∧
      ¬ ∀ a ∈ (extract earlyExtractor false ⟨3, 0⟩ earlyImported).store.graph.artifacts,
        Path.isAbsolute a.name := by
  obtain ⟨-, ok, artifacts⟩ := extract_early
  refine ⟨.call (.call .empty rfl _ _) rfl _ _, fun _ => rfl, ok, artifacts, ?_⟩
  rw [artifacts]
  decide

/-- The program stands in a directory that is there, so its name is not the one it is written under. -/
theorem relative_names_exact_early :
    (∃ row ∈ earlyImported.graph.commands, earlyExtractor.WritesUnanchored row "build/b.o") ∧
      ¬ ∃ row ∈ earlyImported.graph.commands, earlyExtractor.WritesUnanchored row "./app" := by
  have filled : earlyImported.Filled := .call (.call .empty rfl _ _) rfl _ _
  obtain ⟨none, ok, artifacts⟩ := extract_early
  have names := (relative_names_exact (x := earlyExtractor) (fun _ => rfl) filled.stocked.intact).2
    false ⟨3, 0⟩ _ rfl ok rfl
  simp only [none, artifacts, List.map_nil, List.not_mem_nil, false_or] at names
  exact ⟨(names _ (by decide)).1 (by decide), mt (names _ (by decide)).2 (by decide)⟩

end BuildAudit
