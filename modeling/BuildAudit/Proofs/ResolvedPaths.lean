import Mathlib.Tactic.SplitIfs
import BuildAudit.Resolution

/-!
# Paths of a resolution

A scan of arguments adds dependencies in one place only, and there it leaves out the output and what
is listed already.  So whatever holds of the empty list and is kept by adding a new path holds of the
dependencies of every resolution (`resolve_dependencies`).
-/

namespace BuildAudit

/-- Adding a path that is neither the output nor listed keeps `P`. -/
def KeptByAdding (output : String) (P : List Dependency → Prop) : Prop :=
  ∀ deps d, P deps → d.path ≠ output → (∀ e ∈ deps, e.path ≠ d.path) → P (deps ++ [d])

namespace Scan

variable {ctx : ScanContext} {P : List Dependency → Prop} {s : Scan}

theorem dependencies_addDependency (hP : KeptByAdding ctx.output P) (h : P s.dependencies)
    (d : Dependency) : P (s.addDependency ctx d).dependencies := by
  unfold addDependency
  split_ifs with isOutput listed
  · exact h
  · exact h
  · refine hP _ d h (by simpa using isOutput) fun e he same => listed ?_
    exact List.any_eq_true.2 ⟨e, he, by simp [same]⟩

theorem dependencies_addInput (hP : KeptByAdding ctx.output P) (h : P s.dependencies)
    (token : String) (type? : Option ArtifactType) : P (s.addInput ctx token type?).dependencies := by
  unfold addInput
  split
  · exact dependencies_addDependency hP h _
  · exact h

theorem dependencies_addLibrary (hP : KeptByAdding ctx.output P) (h : P s.dependencies)
    (spec : String) : P (s.addLibrary ctx spec).dependencies := by
  unfold addLibrary
  split
  · exact h
  · split
    · exact dependencies_addDependency hP h _
    · exact h

theorem dependencies_addLibraryDirectory (h : P s.dependencies) (dir : String) :
    P (s.addLibraryDirectory ctx dir).dependencies := by
  unfold addLibraryDirectory
  split <;> exact h

theorem dependencies_driver (hP : KeptByAdding ctx.output P) (args : List String)
    (h : P s.dependencies) : P (driver ctx s args).dependencies := by
  fun_induction driver ctx s args
  -- the end of the arguments, and flags without their value
  case case1 | case2 | case4 | case6 | case8 => exact h
  -- flags that add nothing
  case case3 ih | case10 ih | case14 ih => exact ih h
  case case5 ih | case11 ih => exact ih h
  case case7 ih | case12 ih => exact ih (dependencies_addLibraryDirectory h _)
  case case9 ih | case13 ih => exact ih (dependencies_addLibrary hP h _)
  case case15 ih => exact ih (dependencies_addInput hP h _ _)

theorem dependencies_archiver (hP : KeptByAdding ctx.output P) (seenOutput : Bool)
    (args : List String) (h : P s.dependencies) :
    P (archiver ctx s seenOutput args).dependencies := by
  fun_induction archiver ctx s seenOutput args
  case case1 => exact h
  case case2 ih | case4 ih => exact ih (dependencies_addInput hP h _ _)
  case case3 ih | case5 ih => exact ih h

end Scan

theorem dependencies_scanArguments {ctx : ScanContext} {P : List Dependency → Prop}
    (hP : KeptByAdding ctx.output P) (h : P []) (family : ToolFamily) (type : ArtifactType)
    (args : List String) : P (scanArguments ctx family type args).dependencies := by
  cases family with
  | compileLink =>
    have scanned := Scan.dependencies_driver (s := {}) hP args h
    simp only [scanArguments]
    split_ifs
    · exact Scan.dependencies_addLibrary hP (Scan.dependencies_addLibrary hP scanned _) _
    · exact scanned
  | archive => exact Scan.dependencies_archiver (s := {}) hP false args h

/-- A command that resolves follows a known grammar and writes a file, and its arguments tell what it
depends on. -/
theorem resolve_eq_ok {files : FileTree} {dirs : List OsString} {c : Command} {r : Resolution}
    (hr : resolve files dirs c = .ok r) :
    ∃ family output, c.family? = some family ∧ c.output? = some output ∧
      r.output = absoluteOutput files c.directory output ∧ r.outputType = .ofOutput output ∧
      r.dependencies = (scanArguments ⟨files, c.directory, r.output, dirs⟩ family r.outputType
        c.arguments).dependencies := by
  unfold resolve at hr
  split at hr
  · cases hr
  · cases hr
  · rename_i family output hf ho
    obtain rfl := Except.ok.inj hr
    exact ⟨family, output, hf, ho, rfl, rfl, rfl⟩

/-- A stored command resolves as the command that its row reads back as. -/
theorem CommandRecord.resolve_eq_ok {files : FileTree} {dirs : List OsString} {row : CommandRecord}
    {r : Resolution} (hr : row.resolve files dirs = .ok r) :
    ∃ c, row.command = .ok c ∧ BuildAudit.resolve files dirs c = .ok r := by
  unfold CommandRecord.resolve at hr
  split at hr
  · rename_i c hc
    exact ⟨c, hc, hr⟩
  · cases hr

/-- What adding a new path keeps holds of the dependencies of a resolution. -/
theorem resolve_dependencies {files : FileTree} {dirs : List OsString} {c : Command}
    {r : Resolution} (hr : resolve files dirs c = .ok r) {P : List Dependency → Prop}
    (hP : KeptByAdding r.output P) (h : P []) : P r.dependencies := by
  obtain ⟨family, output, -, -, -, -, dependencies⟩ := resolve_eq_ok hr
  rw [dependencies]
  exact dependencies_scanArguments hP h family r.outputType c.arguments

/-- No command depends on its own output. -/
theorem path_ne_output_of_resolve {files : FileTree} {dirs : List OsString} {c : Command}
    {r : Resolution} (hr : resolve files dirs c = .ok r) : ∀ d ∈ r.dependencies, d.path ≠ r.output := by
  refine resolve_dependencies (P := fun deps => ∀ d ∈ deps, d.path ≠ r.output) hr ?_ nofun
  intro deps d h hd _ e he
  rcases List.mem_append.1 he with he | he
  · exact h e he
  · obtain rfl := List.mem_singleton.1 he
    exact hd

end BuildAudit
