import BuildAudit.Proofs.Lines
import BuildAudit.Proofs.ResolvedPaths

/-!
# Tokens that are read as inputs

A driver reads what is neither a flag nor the value of one (`driverInputs`), and an archiver its objects
and archives but the first archive, which it writes (`archiverInputs`).  A file that such a token leads
to is a dependency of the command, unless the command writes it (`mem_dependencies_of_input`).
-/

namespace BuildAudit

/-- The inputs among the arguments of a driver. -/
def driverInputs : List String → List String
  | [] => []
  | arg :: rest =>
    if takesValue arg then
      match rest with
      | [] => []
      | _ :: rest => driverInputs rest
    else if isFlag arg then driverInputs rest
    else arg :: driverInputs rest

/-- The inputs among the arguments of an archiver, which may have seen its output before. -/
def archiverInputs (seenOutput : Bool) : List String → List String
  | [] => []
  | arg :: rest =>
    match ArtifactType.ofOutput arg with
    | .static => if seenOutput then arg :: archiverInputs true rest else archiverInputs true rest
    | .object => arg :: archiverInputs seenOutput rest
    | _ => archiverInputs seenOutput rest

/-- The tokens that a command reads as inputs. -/
def Command.inputs (c : Command) : List String :=
  match c.family? with
  | some .compileLink => driverInputs c.arguments
  | some .archive => archiverInputs false c.arguments
  | none => []

/-! ## Flags -/

theorem takesValue_iff {arg : String} :
    takesValue arg ↔ (valueFlags.contains arg || arg == "-o") ∨
      ["-I", "-isystem", "-iquote", "-idirafter"].contains arg ∨ arg == "-L" ∨ arg == "-l" := by
  simp only [takesValue, List.contains_cons, List.contains_nil, Bool.or_eq_true, beq_iff_eq,
    Bool.false_eq_true, or_false]
  grind

section Arguments

variable {arg value : String} {rest : List String}

theorem not_takesValue (silent : ¬ (valueFlags.contains arg || arg == "-o"))
    (notInclude : ¬ ["-I", "-isystem", "-iquote", "-idirafter"].contains arg) (notLibraries : ¬ arg == "-L")
    (notLibrary : ¬ arg == "-l") : ¬ takesValue arg := fun takes =>
  (takesValue_iff.1 takes).elim silent fun used => used.elim notInclude fun used =>
    used.elim notLibraries notLibrary

theorem driverInputs_of_takesValue (takes : takesValue arg) :
    driverInputs (arg :: value :: rest) = driverInputs rest := by
  rw [driverInputs, if_pos takes]

theorem driverInputs_last (takes : takesValue arg) : driverInputs [arg] = [] := by
  rw [driverInputs, if_pos takes]

theorem driverInputs_of_isFlag (alone : ¬ takesValue arg) (flag : isFlag arg) :
    driverInputs (arg :: rest) = driverInputs rest := by
  rw [driverInputs.eq_def]
  simp only [if_neg alone, if_pos flag]

theorem driverInputs_of_input (alone : ¬ takesValue arg) (input : ¬ isFlag arg) :
    driverInputs (arg :: rest) = arg :: driverInputs rest := by
  rw [driverInputs.eq_def]
  simp only [if_neg alone, if_neg input]

end Arguments

theorem isFlag_of_after? {flag arg value : String} (flags : isFlag flag) (h : Text.after? flag arg = some value) :
    isFlag arg := by
  rw [Text.after?_eq_some h, isFlag, Text.beginsWith, String.toList_append, List.isPrefixOf_iff_prefix]
  rw [isFlag, Text.beginsWith, List.isPrefixOf_iff_prefix] at flags
  exact flags.trans (List.prefix_append _ _)

theorem isFlag_of_attachedInclude? {arg directory : String}
    (h : Scan.attachedInclude? arg = some directory) : isFlag arg := by
  obtain ⟨flag, hflag, h⟩ := List.exists_of_findSome?_eq_some h
  have flags : ∀ flag ∈ ["-isystem", "-iquote", "-idirafter", "-I"], isFlag flag := by decide
  exact isFlag_of_after? (flags flag hflag) h

/-! ## Scans -/

namespace Scan

variable {ctx : ScanContext} {s : Scan} {token path : String}

/-- The path is listed. -/
def Lists (path : String) (deps : List Dependency) : Prop := ∃ d ∈ deps, d.path = path

theorem keptByAdding_lists (output path : String) : KeptByAdding output (Lists path) := by
  rintro deps d ⟨e, he, same⟩ - -
  exact ⟨e, List.mem_append_left [d] he, same⟩

theorem lists_addInput (found : ctx.files.canonicalize (Path.join ctx.directory token) = .ok path)
    (other : path ≠ ctx.output) (type? : Option ArtifactType) :
    Lists path (s.addInput ctx token type?).dependencies := by
  unfold addInput
  rw [found]
  simp only [addDependency]
  rw [if_neg (by simpa using other)]
  split
  · rename_i listed
    obtain ⟨e, he, same⟩ := List.any_eq_true.1 listed
    exact ⟨e, he, by simpa using same⟩
  · exact ⟨_, List.mem_append_right _ (List.mem_singleton_self _), rfl⟩

theorem lists_driver (found : ctx.files.canonicalize (Path.join ctx.directory token) = .ok path)
    (other : path ≠ ctx.output) {args : List String} (h : token ∈ driverInputs args) :
    Lists path (driver ctx s args).dependencies := by
  fun_induction driver ctx s args
  case case1 => cases h
  -- flags without their value
  case case2 | case4 | case6 | case8 =>
    rw [driverInputs_last (by simp only [takesValue_iff, *, true_or, or_true])] at h
    cases h
  -- flags with their value
  case case3 ih | case5 ih | case7 ih | case9 ih =>
    rw [driverInputs_of_takesValue (by simp only [takesValue_iff, *, true_or, or_true])] at h
    exact ih h
  case case10 arg rest _ _ _ _ openMP ih =>
    have flag : isFlag arg := eq_of_beq openMP ▸ rfl
    rw [driverInputs_of_isFlag (not_takesValue ‹_› ‹_› ‹_› ‹_›) flag] at h
    exact ih h
  -- flags with their value attached, and flags without one
  case case11 attached ih =>
    rw [driverInputs_of_isFlag (not_takesValue ‹_› ‹_› ‹_› ‹_›)
      (isFlag_of_attachedInclude? attached)] at h
    exact ih h
  case case12 attached ih | case13 attached ih =>
    rw [driverInputs_of_isFlag (not_takesValue ‹_› ‹_› ‹_› ‹_›)
      (isFlag_of_after? rfl attached)] at h
    exact ih h
  case case14 flag ih =>
    rw [driverInputs_of_isFlag (not_takesValue ‹_› ‹_› ‹_› ‹_›) flag] at h
    exact ih h
  case case15 input ih =>
    rw [driverInputs_of_input (not_takesValue ‹_› ‹_› ‹_› ‹_›) input] at h
    rcases List.mem_cons.1 h with rfl | h
    · exact dependencies_driver (keptByAdding_lists _ _) _ (lists_addInput found other none)
    · exact ih h

theorem lists_archiver (found : ctx.files.canonicalize (Path.join ctx.directory token) = .ok path)
    (other : path ≠ ctx.output) {seenOutput : Bool} {args : List String}
    (h : token ∈ archiverInputs seenOutput args) :
    Lists path (archiver ctx s seenOutput args).dependencies := by
  fun_induction archiver ctx s seenOutput args
  case case1 => cases h
  case case2 told ih | case4 told ih =>
    simp only [archiverInputs, told, if_true] at h
    rcases List.mem_cons.1 h with rfl | h
    · exact dependencies_archiver (keptByAdding_lists _ _) _ _ (lists_addInput found other _)
    · exact ih h
  case case3 told first ih =>
    simp only [archiverInputs, told, if_neg first] at h
    exact ih h
  case case5 notArchive notObject ih =>
    unfold archiverInputs at h
    split at h
    · exact absurd ‹_› notArchive
    · exact absurd ‹_› notObject
    · exact ih h

end Scan

/-- What an input leads to is a dependency of the command, unless the command writes it. -/
theorem mem_dependencies_of_input {files : FileTree} {dirs : List OsString} {c : Command} {r : Resolution}
    (hr : resolve files dirs c = .ok r) {token path : String} (input : token ∈ c.inputs)
    (found : files.canonicalize (Path.join c.directory token) = .ok path) (other : path ≠ r.output) :
    ∃ d ∈ r.dependencies, d.path = path := by
  obtain ⟨family, output, hfamily, -, -, -, dependencies⟩ := resolve_eq_ok hr
  rw [dependencies]
  unfold Command.inputs at input
  rw [hfamily] at input
  cases family with
  | compileLink =>
    have kept := Scan.keptByAdding_lists r.output path
    have listed := @Scan.lists_driver ⟨files, c.directory, r.output, dirs⟩ {} token path found other
      c.arguments input
    simp only [scanArguments]
    split
    · exact Scan.dependencies_addLibrary kept (Scan.dependencies_addLibrary kept listed "gomp") "pthread"
    · exact listed
  | archive =>
    exact @Scan.lists_archiver ⟨files, c.directory, r.output, dirs⟩ {} token path found other false
      c.arguments input

end BuildAudit
