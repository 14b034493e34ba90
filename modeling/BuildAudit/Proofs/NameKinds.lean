import Mathlib.Data.List.Basic
import Mathlib.Tactic.SplitIfs
import BuildAudit.Artifact

/-!
# Kinds by file names

Which file names tell the kind of a file, as a grammar (`ArtifactType.Tells`): an object and a static
library by how the name ends, and a shared library by a version that may stand between `.so` and the end.
A name tells one kind at most (`ArtifactType.Tells.unique`), since its last two characters leave open
only one, so the order in which the endings are tried does not matter.
-/

namespace BuildAudit

namespace Text

theorem isDigitIn_ten_iff {c : Char} : isDigitIn 10 c ↔ c.isDigit := by
  have digit : c.isDigit ↔ '0' ≤ c ∧ c ≤ '9' := by
    simp only [Char.isDigit, Bool.and_eq_true, decide_eq_true_eq]
    exact Iff.rfl
  have nine : '9'.toNat = 57 := rfl
  rw [digit, isDigitIn, digitValue]
  split_ifs with h
  · have below : c.toNat ≤ '9'.toNat := UInt32.le_iff_toNat_le.1 h.2
    simp [h]
    omega
  -- letters are worth ten and more
  · simp [h]
  · simp [h]
  · simp [h]

theorem endsIn_iff {tail s : String} : endsIn tail s ↔ ∃ stem, s = stem ++ tail := by
  rw [endsIn, List.isSuffixOf_iff_suffix]
  constructor
  · rintro ⟨stem, h⟩
    exact ⟨String.ofList stem, by rw [← String.toList_inj, String.toList_append, String.toList_ofList, h]⟩
  · rintro ⟨stem, rfl⟩
    exact ⟨stem.toList, by rw [String.toList_append]⟩

end Text

namespace ArtifactType

variable {cs name : List Char} {fileName : String} {t u : ArtifactType}

/-! ## Versions -/

/-- The numbers of a version: one or more digits of ASCII each. -/
def AreNumbers (numbers : List (List Char)) : Prop :=
  ∀ digits ∈ numbers, digits ≠ [] ∧ ∀ c ∈ digits, c.isDigit

/-- A version: its numbers with a dot before each of them. -/
def versionOf (numbers : List (List Char)) : List Char := numbers.flatMap ('.' :: ·)

theorem intercalate_cons (first : List Char) (numbers : List (List Char)) :
    ['.'].intercalate (first :: numbers) = first ++ versionOf numbers := by
  induction numbers generalizing first with
  | nil => simp [versionOf]
  | cons digits numbers ih =>
    rw [List.intercalate_cons_cons, ih, versionOf, versionOf, List.flatMap_cons]
    simp

theorem splitOn_versionOf {numbers : List (List Char)} (digits : AreNumbers numbers) :
    (versionOf numbers).splitOn '.' = [] :: numbers := by
  rw [← List.nil_append (versionOf numbers), ← intercalate_cons, List.splitOn_intercalate]
  · intro piece hpiece dot
    rcases List.mem_cons.1 hpiece with rfl | hpiece
    · cases dot
    · exact absurd ((digits piece hpiece).2 _ dot) (by decide)
  · simp

theorem isVersion_iff : isVersion cs ↔ ∃ numbers, AreNumbers numbers ∧ cs = versionOf numbers := by
  have checked {numbers : List (List Char)} :
      (numbers.all fun g => g ≠ [] && g.all (Text.isDigitIn 10)) ↔ AreNumbers numbers := by
    simp [AreNumbers, Text.isDigitIn_ten_iff]
  unfold isVersion
  constructor
  · intro h
    split at h
    case h_1 numbers split =>
      have whole : ['.'].intercalate (cs.splitOn '.') = cs := List.intercalate_splitOn '.'
      rw [split, intercalate_cons, List.nil_append] at whole
      exact ⟨numbers, checked.1 h, whole.symm⟩
    case h_2 => cases h
  · rintro ⟨numbers, digits, rfl⟩
    rw [splitOn_versionOf digits]
    exact checked.2 digits

/-- Any `.so` in the name may be the one before the version. -/
theorem endsShared_iff :
    endsShared name ↔ ∃ stem version, name = stem ++ ['.', 's', 'o'] ++ version ∧ isVersion version := by
  induction name with
  | nil => simp [endsShared]
  | cons c cs ih =>
    rw [endsShared, Bool.or_eq_true, ih]
    constructor
    · rintro (here | ⟨stem, version, rfl, h⟩)
      · split at here
        case h_1 rest same => exact ⟨[], rest, same, here⟩
        case h_2 => cases here
      · exact ⟨c :: stem, version, rfl, h⟩
    · rintro ⟨stem, version, split, h⟩
      rcases stem with _ | ⟨d, stem⟩
      · rw [split]
        exact .inl h
      · exact .inr ⟨stem, version, (List.cons.inj split).2, h⟩

/-! ## The grammar of file names -/

/-- The kind that a file name tells. -/
inductive Tells : String → ArtifactType → Prop
  | object (stem : String) : Tells (stem ++ ".o") .object
  | static (stem : String) : Tells (stem ++ ".a") .static
  | shared (stem : String) {numbers : List (List Char)} : AreNumbers numbers →
      Tells (stem ++ ".so" ++ String.ofList (versionOf numbers)) .shared

theorem endsIn_iff_tells_object : Text.endsIn ".o" fileName ↔ Tells fileName .object := by
  rw [Text.endsIn_iff]
  constructor
  · rintro ⟨stem, rfl⟩
    exact .object stem
  · rintro ⟨stem⟩
    exact ⟨stem, rfl⟩

theorem endsIn_iff_tells_static : Text.endsIn ".a" fileName ↔ Tells fileName .static := by
  rw [Text.endsIn_iff]
  constructor
  · rintro ⟨stem, rfl⟩
    exact .static stem
  · rintro (_ | stem)
    exact ⟨stem, rfl⟩

theorem endsShared_iff_tells_shared : endsShared fileName.toList ↔ Tells fileName .shared := by
  rw [endsShared_iff]
  constructor
  · rintro ⟨stem, version, split, h⟩
    obtain ⟨numbers, digits, rfl⟩ := isVersion_iff.1 h
    obtain rfl : fileName = String.ofList stem ++ ".so" ++ String.ofList (versionOf numbers) := by
      rw [← String.toList_inj, split]
      simp
    exact .shared _ digits
  · rintro (_ | _ | ⟨stem, digits⟩)
    exact ⟨stem.toList, _, by simp, isVersion_iff.2 ⟨_, digits, rfl⟩⟩

/-- The one kind that the end of a name leaves open, by its characters from the last one on. -/
def leftOpen : List Char → ArtifactType
  | 'o' :: '.' :: _ => object
  | 'a' :: '.' :: _ => static
  | _ => shared

theorem Tells.eq_leftOpen (h : Tells fileName t) : t = leftOpen fileName.toList.reverse := by
  rcases h with _ | _ | ⟨stem, digits⟩
  case object | static => simp [leftOpen]
  case shared numbers =>
    -- the name ends in `so` or in a digit
    rcases numbers.eq_nil_or_concat with rfl | ⟨before, last, rfl⟩
    · simp [leftOpen, versionOf]
    · obtain ⟨some, digit⟩ := digits last (by simp)
      obtain ⟨init, c, rfl⟩ := last.eq_nil_or_concat.resolve_left some
      have final : c.isDigit := digit c (by simp)
      have notObject : c ≠ 'o' := by
        rintro rfl
        cases final
      have notStatic : c ≠ 'a' := by
        rintro rfl
        cases final
      simp [leftOpen, versionOf, notObject, notStatic]

theorem Tells.unique (h : Tells fileName t) (h' : Tells fileName u) : t = u :=
  h.eq_leftOpen.trans h'.eq_leftOpen.symm

/-! ## Classification -/

theorem ofFileName?_eq_some_iff : ofFileName? fileName = some t ↔ Tells fileName t := by
  unfold ofFileName?
  split_ifs with object static shared
  · have told := endsIn_iff_tells_object.1 object
    exact ⟨fun h => Option.some.inj h ▸ told, fun h => congrArg some (told.unique h)⟩
  · have told := endsIn_iff_tells_static.1 static
    exact ⟨fun h => Option.some.inj h ▸ told, fun h => congrArg some (told.unique h)⟩
  · have told := endsShared_iff_tells_shared.1 shared
    exact ⟨fun h => Option.some.inj h ▸ told, fun h => congrArg some (told.unique h)⟩
  · refine ⟨nofun, fun h => ?_⟩
    cases h with
    | object stem => exact absurd (endsIn_iff_tells_object.2 (.object stem)) object
    | static stem => exact absurd (endsIn_iff_tells_static.2 (.static stem)) static
    | shared stem digits => exact absurd (endsShared_iff_tells_shared.2 (.shared stem digits)) shared

theorem ofPath?_eq_some_iff {path : String} :
    ofPath? path = some t ↔ ∃ name, Path.fileName? path = some name ∧ Tells name t := by
  simp only [ofPath?, Option.bind_eq_some_iff, ofFileName?_eq_some_iff]

/-- A kind that is not the default comes from the name. -/
theorem getD_ofPath?_eq_iff_tells {path : String} {other : ArtifactType} (differs : other ≠ t) :
    (ofPath? path).getD other = t ↔ ∃ name, Path.fileName? path = some name ∧ Tells name t := by
  rw [Option.getD_eq_iff, ofPath?_eq_some_iff]
  simp [differs]

/-- A default that no name tells stands for the paths whose names tell nothing. -/
theorem getD_ofPath?_eq_iff {path : String} {other : ArtifactType} (untold : ∀ name, ¬ Tells name other) :
    (ofPath? path).getD other = other ↔ ∀ name t, Path.fileName? path = some name → ¬ Tells name t := by
  rcases told : ofPath? path with _ | t
  · refine iff_of_true rfl fun name t named h => ?_
    rw [ofPath?_eq_some_iff.2 ⟨name, named, h⟩] at told
    cases told
  · obtain ⟨name, named, h⟩ := ofPath?_eq_some_iff.1 told
    refine iff_of_false (fun same => ?_) fun none => none name t named h
    obtain rfl : t = other := same
    exact untold name h

/-- The file name alone decides: a path is an object, a static library or a shared library if and only if its
file name tells so, whether the file is written or read.  No name tells two kinds.  Where no name tells a
kind, and where there is no file name, what is written is a program and what is read is a source. -/
theorem classification_exact (path : String) :
    (∀ t ∈ [object, static, shared],
      (ofOutput path = t ↔ ∃ name, Path.fileName? path = some name ∧ Tells name t) ∧
      (ofInput path = t ↔ ∃ name, Path.fileName? path = some name ∧ Tells name t)) ∧
    (∀ name t u, Tells name t → Tells name u → t = u) ∧
    (ofOutput path = executable ↔ ∀ name t, Path.fileName? path = some name → ¬ Tells name t) ∧
    (ofInput path = source ↔ ∀ name t, Path.fileName? path = some name → ¬ Tells name t) := by
  refine ⟨fun t ht => ?_, fun name t u => Tells.unique, ?_, ?_⟩
  · have program : executable ≠ t := by
      rintro rfl
      simp at ht
    have text : source ≠ t := by
      rintro rfl
      simp at ht
    exact ⟨getD_ofPath?_eq_iff_tells program, getD_ofPath?_eq_iff_tells text⟩
  · exact getD_ofPath?_eq_iff nofun
  · exact getD_ofPath?_eq_iff nofun

/-- A name with `.so` in it twice, and a version behind the second one only. -/
theorem classification_exact_numbered :
    let path := "/lib/libz.so.old.so.1.20/."
    (shared ∈ [object, static, shared] ∧ Tells "libz.so.old.so.1.20" .shared) ∧
      ofOutput path = .shared ∧ ofInput path = .shared := by
  intro path
  have member : shared ∈ [object, static, shared] := by decide
  have told : Tells "libz.so.old.so.1.20" .shared :=
    @Tells.shared "libz.so.old" ["1".toList, "20".toList] (by simp [AreNumbers])
  have named : Path.fileName? path = some "libz.so.old.so.1.20" := by decide
  obtain ⟨written, read⟩ := (classification_exact path).1 shared member
  exact ⟨⟨member, told⟩, written.2 ⟨_, named, told⟩, read.2 ⟨_, named, told⟩⟩

end ArtifactType

end BuildAudit
