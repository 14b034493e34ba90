import Mathlib.Data.List.Basic
import Mathlib.Data.List.Forall2
import Mathlib.Data.List.TakeWhile
import BuildAudit.LoaderReport
import BuildAudit.Query.Linkage

/-!
# The graph beside the loader

What the comparison of useless libraries with the report of a loader says.  A report lists the lines behind
its first heading (`LoaderReport.IsSection`), and each of them that is not blank names a library, by its
canonical path if it is there and as it is printed otherwise (`LoaderReport.Reports`).  So libraries are
compared by the files that they are: however a line spells the name of a useless library, the two
reports agree about it (`crossCheck_exact`).
-/

namespace BuildAudit

namespace Text

theorem occursIn_iff {part cs : List Char} : occursIn part cs ↔ part <:+: cs := by
  induction cs with
  | nil => simp [occursIn]
  | cons c cs ih => rw [occursIn, Bool.or_eq_true, ih, List.isPrefixOf_iff_prefix, List.infix_cons_iff]

end Text

namespace LoaderReport

variable {files : FileTree} {lines listed : List String} {line library name : String}

/-! ## The lines that list libraries -/

/-- The line holds the heading, perhaps with more around it. -/
def IsHeading (line : String) : Prop := heading.toList <:+: line.toList

/-- The lines behind the first heading; without a heading there are none. -/
inductive IsSection (lines : List String) : List String → Prop
  | missing : (∀ line ∈ lines, ¬ IsHeading line) → IsSection lines []
  | behind {before listed : List String} {first : String} : lines = before ++ first :: listed →
      (∀ line ∈ before, ¬ IsHeading line) → IsHeading first → IsSection lines listed

/-- Whether a line is passed over on the way to the heading. -/
def isBefore (line : String) : Bool := !Text.occursIn heading.toList line.toList

theorem isBefore_iff : isBefore line ↔ ¬ IsHeading line := by
  rw [isBefore, Bool.not_eq_true', ← Bool.not_eq_true, Text.occursIn_iff, IsHeading]

theorem isSection_iff : IsSection lines listed ↔ listed = (lines.dropWhile isBefore).drop 1 := by
  constructor
  · rintro (none | ⟨rfl, before, first⟩)
    · rw [List.dropWhile_eq_nil_iff.2 fun line h => isBefore_iff.2 (none line h), List.drop_nil]
    · rw [List.dropWhile_append_of_pos fun line h => isBefore_iff.2 (before line h),
        List.dropWhile_cons_of_neg (by rwa [isBefore_iff, not_not])]
      rfl
  · rintro rfl
    have passed : ∀ line ∈ lines.takeWhile isBefore, ¬ IsHeading line :=
      fun line h => isBefore_iff.1 (List.mem_takeWhile_imp h)
    have whole := List.takeWhile_append_dropWhile (p := isBefore) (l := lines)
    rcases rest : lines.dropWhile isBefore with _ | ⟨first, listed⟩
    · rw [rest, List.append_nil] at whole
      exact .missing (whole ▸ passed)
    · have stops : isBefore first = false := by
        have := List.head?_dropWhile_not isBefore lines
        simpa [rest] using this
      rw [rest] at whole
      refine .behind whole.symm passed ?_
      rwa [← Bool.not_eq_true, isBefore_iff, not_not] at stops

/-- The libraries of a report, by its lines. -/
theorem librariesOf_eq {report : String} (h : IsSection (Text.lines report) listed) :
    librariesOf report = (listed.map Text.trim).filter (· ≠ "") := by
  have before : isBefore ∘ String.ofList = fun cs => !Text.occursIn heading.toList cs :=
    funext fun cs => by simp [isBefore]
  have trimmed : Text.trim ∘ String.ofList = String.ofList ∘ Text.trimChars :=
    funext fun cs => by simp [Text.trim]
  have nonempty : (fun s : String => decide (s ≠ "")) ∘ String.ofList = fun cs => decide (cs ≠ []) :=
    funext fun cs => by simp
  rw [isSection_iff.1 h, Text.lines, List.dropWhile_map, before, ← List.map_drop, List.map_map, trimmed,
    ← List.map_map, List.filter_map, nonempty]
  rfl

/-- The line names the library: by its canonical path if there is one, and else as it is printed. -/
inductive Reports (files : FileTree) (line : String) : String → Prop
  | canonical {path : String} : files.canonicalize (Text.trim line) = .ok path → Reports files line path
  | printed {cause : OsError} : files.canonicalize (Text.trim line) = .error cause →
      Reports files line (Text.trim line)

theorem reports_iff : Reports files line library ↔ library = canonicalLibrary files (Text.trim line) := by
  unfold canonicalLibrary
  constructor
  · rintro (found | missing)
    · rw [found]
    · rw [missing]
  · intro same
    rcases found : files.canonicalize (Text.trim line) with cause | path <;> rw [found] at same
    · rw [same]
      exact .printed found
    · rw [same]
      exact .canonical found

/-- The libraries that are reported, one for each line of the section that is not blank. -/
theorem forall₂_reports (files : FileTree) (listed : List String) :
    List.Forall₂ (Reports files) (listed.filter (Text.trim · ≠ ""))
      (((listed.map Text.trim).filter (· ≠ "")).map (canonicalLibrary files)) := by
  simp only [List.filter_map, List.map_map, List.forall₂_map_right_iff, Function.comp_def]
  refine List.forall₂_same.2 fun line _ => ?_
  rw [reports_iff]

/-- A canonical path is that of the file it leads to, if it leads to any. -/
def IsCanonicalName (files : FileTree) (name : String) : Prop :=
  ∀ path, files.canonicalize name = .ok path → path = name

/-- A library goes by its canonical name, however the line spells it. -/
theorem reports_canonical_iff (canonical : IsCanonicalName files name) : Reports files line name ↔
    Text.trim line = name ∨ files.canonicalize (Text.trim line) = .ok name := by
  constructor
  · intro h
    cases h with
    | canonical found => exact .inr found
    | printed _ => exact .inl rfl
  · rintro (same | found)
    · rcases found : files.canonicalize (Text.trim line) with cause | path
      · rw [← same]
        exact .printed found
      · rw [← canonical path (by rw [← same, found])]
        exact .canonical found
    · exact .canonical found

end LoaderReport

open LoaderReport

/-- The loader reports if it can be run and exits with 0 or 1. -/
theorem loaderUnused_eq_ok_iff {files : FileTree} {tools : Toolbox} {ldd path : String} {reported : List String} :
    loaderUnused files tools ldd path = .ok reported ↔
      ∃ out run, tools.run ldd ["-u", "-r", path] = .ok (out, run) ∧ (out.exitCode = 0 ∨ out.exitCode = 1) ∧
        reported = (librariesOf out.stdout).map (canonicalLibrary files) := by
  unfold loaderUnused
  rcases tools.run ldd ["-u", "-r", path] with failure | ⟨out, run⟩
  · simp
  · by_cases accepted : out.exitCode = 0 ∨ out.exitCode = 1
    · have inside : ¬ (out.exitCode > 1 || out.exitCode < 0) := by
        simp
        omega
      simp [inside, accepted, eq_comm]
    · have outside : out.exitCode > 1 || out.exitCode < 0 := by
        simp
        omega
      simp [outside, accepted]

/-! ## The comparison -/

section Comparison

variable {names reported : List String} {name : String}

theorem mem_agreed_iff : name ∈ (crossCheck names reported).agreed ↔ name ∈ names ∧ name ∈ reported := by
  simp [crossCheck]

theorem mem_onlyGraph_iff : name ∈ (crossCheck names reported).onlyGraph ↔ name ∈ names ∧ name ∉ reported := by
  simp [crossCheck]

theorem onlyLoader_eq : (crossCheck names reported).onlyLoader = reported.filter (· ∉ names) := by
  simp [crossCheck]

theorem mem_onlyLoader_iff :
    name ∈ (crossCheck names reported).onlyLoader ↔ name ∈ reported ∧ name ∉ names := by
  simp [crossCheck]

/-- The names fall apart into two lists, and each keeps their order. -/
theorem perm_crossCheck (names reported : List String) :
    ((crossCheck names reported).agreed ++ (crossCheck names reported).onlyGraph).Perm names ∧
      (crossCheck names reported).agreed.Sublist names ∧
      (crossCheck names reported).onlyGraph.Sublist names :=
  ⟨List.filter_append_perm _ names, List.filter_sublist, List.filter_sublist⟩

theorem disjoint_crossCheck (names reported : List String) :
    (crossCheck names reported).agreed.Disjoint (crossCheck names reported).onlyGraph ∧
      (crossCheck names reported).agreed.Disjoint (crossCheck names reported).onlyLoader ∧
      (crossCheck names reported).onlyGraph.Disjoint (crossCheck names reported).onlyLoader :=
  ⟨fun _ agreed graph => (mem_onlyGraph_iff.1 graph).2 (mem_agreed_iff.1 agreed).2,
    fun _ agreed loader => (mem_onlyLoader_iff.1 loader).2 (mem_agreed_iff.1 agreed).1,
    fun _ graph loader => (mem_onlyGraph_iff.1 graph).2 (mem_onlyLoader_iff.1 loader).1⟩

end Comparison

/-- The useless libraries of the graph beside a report of the loader that is accepted.  The names of the
useless libraries fall apart into those that the loader reports too and the others, in order.  A name is
reported if some line behind the first heading is that name or leads to it.  What else the loader reports
is listed in its own order, and no name stands in two lists. -/
theorem crossCheck_exact {files : FileTree} {tools : Toolbox} {ldd path : String} {out : ToolOutput} {run : ToolRun}
    (ran : tools.run ldd ["-u", "-r", path] = .ok (out, run)) (accepted : out.exitCode = 0 ∨ out.exitCode = 1)
    {usage : DependencyUsage} (canonical : ∀ a ∈ usage.useless, IsCanonicalName files a.name) :
    ∃ listed reported, (∀ other, IsSection (Text.lines out.stdout) other ↔ other = listed) ∧
      List.Forall₂ (Reports files) (listed.filter (Text.trim · ≠ "")) reported ∧
      loaderUnused files tools ldd path = .ok reported ∧
      let names := usage.useless.map (·.name)
      let check := crossCheck names reported
      ((check.agreed ++ check.onlyGraph).Perm names ∧ check.agreed.Sublist names ∧
        check.onlyGraph.Sublist names) ∧
      (∀ name ∈ names, name ∈ check.agreed ↔ ∃ line ∈ listed, Text.trim line ≠ "" ∧
        (Text.trim line = name ∨ files.canonicalize (Text.trim line) = .ok name)) ∧
      check.onlyLoader = reported.filter (· ∉ names) ∧
      check.agreed.Disjoint check.onlyGraph ∧ check.agreed.Disjoint check.onlyLoader ∧
        check.onlyGraph.Disjoint check.onlyLoader := by
  obtain ⟨listed, here⟩ : ∃ listed, IsSection (Text.lines out.stdout) listed := ⟨_, isSection_iff.2 rfl⟩
  have libraries := librariesOf_eq here
  have reports := forall₂_reports files listed
  rw [← libraries] at reports
  refine ⟨listed, _, fun other => ?_, reports, loaderUnused_eq_ok_iff.2 ⟨out, run, ran, accepted, rfl⟩,
    perm_crossCheck _ _, fun name hname => ?_, onlyLoader_eq, disjoint_crossCheck _ _⟩
  · rw [isSection_iff, ← isSection_iff.1 here]
  · obtain ⟨a, ha, rfl⟩ := List.mem_map.1 hname
    rw [mem_agreed_iff, and_iff_right hname, libraries]
    simp only [List.mem_map, List.mem_filter, decide_eq_true_eq]
    constructor
    · rintro ⟨_, ⟨⟨line, hline, rfl⟩, nonempty⟩, same⟩
      exact ⟨line, hline, nonempty, (reports_canonical_iff (canonical a ha)).1 (reports_iff.2 same.symm)⟩
    · rintro ⟨line, hline, nonempty, leads⟩
      exact ⟨_, ⟨⟨line, hline, rfl⟩, nonempty⟩,
        (reports_iff.1 ((reports_canonical_iff (canonical a ha)).2 leads)).symm⟩

/-- A library with a link to it. -/
def linkedLibrary : FileTree where
  entries := [(["lib"], .directory), (["lib", "libb.so.1"], .file ByteArray.empty),
    (["lib", "libb.so"], .link "libb.so.1")]

/-- A loader that prints the link, among blank lines, and a library that is not there. -/
def linkPrinted : ToolOutput where
  exitCode := 1
  stdout := "Unused direct dependencies:\n\t/lib/libb.so\n\n\tlibq.so\n"

/-- The library is reported by a link to it, and the reports agree. -/
theorem crossCheck_exact_linked :
    let tools : Toolbox := fun _ _ => .ok linkPrinted
    let useless : List Artifact := [⟨2, "/lib/libb.so.1", .shared, none⟩, ⟨3, "/gone/libc.so", .shared, none⟩]
    (tools.run "ldd" ["-u", "-r", "/app"] = .ok (linkPrinted, ⟨"ldd -u -r /app", 1, ""⟩) ∧
      (linkPrinted.exitCode = 0 ∨ linkPrinted.exitCode = 1) ∧
      ∀ a ∈ useless, IsCanonicalName linkedLibrary a.name) ∧
    ∃ reported, loaderUnused linkedLibrary tools "ldd" "/app" = .ok reported ∧
      "/lib/libb.so.1" ∈ (crossCheck (useless.map (·.name)) reported).agreed := by
  intro tools useless
  have ran : tools.run "ldd" ["-u", "-r", "/app"] = .ok (linkPrinted, ⟨"ldd -u -r /app", 1, ""⟩) := by decide
  have accepted : linkPrinted.exitCode = 0 ∨ linkPrinted.exitCode = 1 := .inr rfl
  have canonical : ∀ a ∈ useless, IsCanonicalName linkedLibrary a.name := by
    have there : linkedLibrary.canonicalize "/lib/libb.so.1" = .ok "/lib/libb.so.1" := by decide
    have gone : linkedLibrary.canonicalize "/gone/libc.so" = .error .noEntry := by decide
    simp [useless, IsCanonicalName, there, gone]
  obtain ⟨listed, reported, behind, -, report, -, agreed, -⟩ :=
    @crossCheck_exact linkedLibrary tools "ldd" "/app" _ _ ran accepted ⟨[], useless⟩ canonical
  have here : IsSection (Text.lines linkPrinted.stdout) ["\t/lib/libb.so", "", "\tlibq.so"] :=
    @IsSection.behind _ [] _ "Unused direct dependencies:" (by decide) (by simp) (by unfold IsHeading; decide)
  obtain rfl := (behind _).1 here
  exact ⟨⟨ran, accepted, canonical⟩, reported, report,
    (agreed _ (by decide)).2 ⟨"\t/lib/libb.so", by decide, by decide, .inr (by decide)⟩⟩

end BuildAudit
