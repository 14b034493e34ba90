import BuildAudit.Proofs.DependencyOutcome
import BuildAudit.Proofs.ResolutionOutcome

/-!
# Mentions of files

A command mentions a file as what it writes, as an input, as a member of an archive, or as a library that
is found by its stem or by its exact name.  Each kind of mention looks at a name of the file in its own
way, and has a kind of file to fall back on if the name tells none (`Mention.type`).  Of all arguments that
lead to one file, the first one is the mention under which the file is read (`mem_dependencies_iff`), and
only what is written, an input, or a library of an exact name can be mentioned under a name that tells
nothing (`Extractor.Mentions.untold`).
-/

namespace BuildAudit

variable {files : FileTree} {x : Extractor} {g : Graph} {path : String}

/-! ## What names tell -/

/-- How a command mentions a file. -/
inductive Mention where
  /-- As what it writes, under a name. -/
  | written (name : String)
  /-- As an input, at a canonical path. -/
  | input (path : String)
  /-- As a member of an archive, under a name. -/
  | member (name : String)
  /-- As a library of a stem, found at a path. -/
  | linked (found : String)
  /-- As a library of an exact name, found at a path. -/
  | exact (found : String)

/-- The kind that the name of the file tells, as far as it is believed: no file becomes an object by being
linked as a library. -/
def Mention.told? : Mention → Option ArtifactType
  | written name | member name => ArtifactType.ofPath? name
  | input path => ArtifactType.ofPath? path
  | linked found => ArtifactType.ofPath? found
  | exact found => (ArtifactType.ofPath? found).filter (·.isLibrary)

/-- What a file is taken for if its name tells nothing. -/
def Mention.fallback : Mention → ArtifactType
  | written _ => .executable
  | exact _ => .library
  | input _ | member _ | linked _ => .source

/-- The kind that a command gives to the file. -/
def Mention.type (m : Mention) : ArtifactType := m.told?.getD m.fallback

theorem Mention.type_of_told {m : Mention} {t : ArtifactType} (told : m.told? = some t) :
    m.type = t := by
  rw [type, told, Option.getD_some]

theorem Mention.type_of_untold {m : Mention} (untold : m.told? = none) : m.type = m.fallback := by
  rw [type, untold, Option.getD_none]

theorem ArtifactType.mem_of_ofPath? {t : ArtifactType} (h : ofPath? path = some t) :
    t ∈ [object, static, shared] := by
  obtain ⟨name, -, told⟩ := Option.bind_eq_some_iff.1 h
  unfold ofFileName? at told
  split_ifs at told <;> obtain rfl := Option.some.inj told <;> decide

/-- Names tell objects and libraries of known kind. -/
theorem Mention.mem_of_told {m : Mention} {t : ArtifactType} (told : m.told? = some t) :
    t ∈ [ArtifactType.object, .static, .shared] := by
  cases m with
  | written | input | member | linked => exact ArtifactType.mem_of_ofPath? told
  | exact found => exact ArtifactType.mem_of_ofPath? (Option.filter_eq_some_iff.1 told).1

/-! ## File names -/

section FileNames

open BuildAudit.Path

/-- The last segment of a path has the same end as the path. -/
theorem splitOn_append_of_not_mem (lead : List Char) {tail : List Char} (h : '/' ∉ tail) :
    ∃ init stem, (lead ++ tail).splitOn '/' = init ++ [stem ++ tail] := by
  induction lead with
  | nil => exact ⟨[], [], List.splitOn_eq_singleton h⟩
  | cons c lead ih =>
    obtain ⟨init, stem, split⟩ := ih
    rw [List.cons_append, List.splitOn_cons_eq_if_modifyHead, split]
    split_ifs
    · exact ⟨[] :: init, stem, rfl⟩
    · rcases init with _ | ⟨first, init⟩
      · exact ⟨[], c :: stem, rfl⟩
      · exact ⟨(c :: first) :: init, stem, rfl⟩

/-- A path that ends in a text without slashes, not in a dot, has a file name that ends so. -/
theorem fileName?_append (lead tail : String) {c : Char} (slash : '/' ∉ tail.toList)
    (last : tail.toList.getLast? = some c) (dot : c ≠ '.') :
    ∃ stem, fileName? (lead ++ tail) = some (stem ++ tail) := by
  obtain ⟨init, stem, split⟩ := splitOn_append_of_not_mem lead.toList slash
  have ends : (String.ofList stem ++ tail).toList.getLast? = some c := by
    simp [List.getLast?_append, last]
  have differs {name : String} (hn : name.toList.getLast? ≠ some c) :
      String.ofList stem ++ tail ≠ name := by
    rintro rfl
    exact hn ends
  have empty : String.ofList stem ++ tail ≠ "" := differs (by simp)
  have here : String.ofList stem ++ tail ≠ "." := differs (by simpa using Ne.symm dot)
  have up : String.ofList stem ++ tail ≠ ".." := differs (by simpa using Ne.symm dot)
  have segs : segments (lead ++ tail) = init.map String.ofList ++ [String.ofList stem ++ tail] := by
    rw [segments, String.toList_append, split, List.map_append, List.map_singleton,
      String.ofList_append, String.ofList_toList]
  exact ⟨String.ofList stem, fileName?_of_segments segs (by simp [isIdle, empty, here]) up⟩

theorem endsShared_append (stem : List Char) : ArtifactType.endsShared (stem ++ ['.', 's', 'o']) := by
  induction stem with
  | nil => decide
  | cons c stem ih =>
    rw [List.cons_append, ArtifactType.endsShared, ih, Bool.or_true]

theorem ofFileName?_so (stem : String) : ArtifactType.ofFileName? (stem ++ ".so") = some .shared := by
  have shared := endsShared_append stem.toList
  simp [ArtifactType.ofFileName?, Text.endsIn, List.isSuffixOf, shared]

theorem ofFileName?_a (stem : String) : ArtifactType.ofFileName? (stem ++ ".a") = some .static := by
  simp [ArtifactType.ofFileName?, Text.endsIn, List.isSuffixOf]

/-- In whatever directory a file is, the end of its name can be read. -/
theorem ofPath?_join_append (dir : OsString) (name tail : String) {c : Char} (slash : '/' ∉ tail.toList)
    (last : tail.toList.getLast? = some c) (dot : c ≠ '.') :
    ∃ stem, ArtifactType.ofPath? (dir.join (name ++ tail : String)).lossy =
      ArtifactType.ofFileName? (stem ++ tail) := by
  obtain ⟨lead, joined⟩ := OsString.exists_lossy_join dir (name ++ tail)
  obtain ⟨stem, named⟩ := fileName?_append (lead ++ name) tail slash last dot
  refine ⟨stem, ?_⟩
  rw [joined, ← String.append_assoc, ArtifactType.ofPath?, named, Option.bind_some]

theorem ofPath?_join_so (dir : OsString) (name : String) :
    ArtifactType.ofPath? (dir.join (name ++ ".so" : String)).lossy = some .shared := by
  obtain ⟨stem, ends⟩ := ofPath?_join_append dir name ".so" (c := 'o') (by decide) (by decide) (by decide)
  exact ends.trans (ofFileName?_so stem)

theorem ofPath?_join_a (dir : OsString) (name : String) :
    ArtifactType.ofPath? (dir.join (name ++ ".a" : String)).lossy = some .static := by
  obtain ⟨stem, ends⟩ := ofPath?_join_append dir name ".a" (c := 'a') (by decide) (by decide) (by decide)
  exact ends.trans (ofFileName?_a stem)

/-- Where a library of a stem is found, the name tells its kind. -/
theorem ofPath?_join_of_libraryNames {spec name : String} (dir : OsString)
    (inexact : Text.after? ":" spec = none) (hn : name ∈ Scan.libraryNames spec) :
    ∃ t, ArtifactType.ofPath? (dir.join name).lossy = some t := by
  rw [Scan.libraryNames, inexact] at hn
  rcases List.mem_pair.1 hn with rfl | rfl
  · exact ⟨.shared, ofPath?_join_so dir ("lib" ++ spec)⟩
  · exact ⟨.static, ofPath?_join_a dir ("lib" ++ spec)⟩

end FileNames

/-! ## What arguments lead to -/

/-- The request leads to the file at a path, and mentions it so. -/
inductive Request.MentionsAs (ctx : ScanContext) (path : String) : Request → Mention → Prop where
  | input {token : String} (found : ctx.files.canonicalize (Path.join ctx.directory token) = .ok path) :
    MentionsAs ctx path (.input token none) (.input path)
  | member {token : String} {type : ArtifactType} (told : ArtifactType.ofPath? token = some type)
    (found : ctx.files.canonicalize (Path.join ctx.directory token) = .ok path) :
    MentionsAs ctx path (.input token (some type)) (.member token)
  | linked {directories : List OsString} {spec : String} {found : OsString}
    (inexact : Text.after? ":" spec = none)
    (located : Scan.findLibrary ctx.files directories (Scan.libraryNames spec) = some found)
    (canonical : ctx.files.canonicalize found = .ok path) :
    MentionsAs ctx path (.library directories spec) (.linked found.lossy)
  | exact {directories : List OsString} {spec name : String} {found : OsString}
    (named : Text.after? ":" spec = some name)
    (located : Scan.findLibrary ctx.files directories (Scan.libraryNames spec) = some found)
    (canonical : ctx.files.canonicalize found = .ok path) :
    MentionsAs ctx path (.library directories spec) (.exact found.lossy)

/-- Among findings, the first one that leads to the file mentions it so. -/
def FirstMention (ctx : ScanContext) (found : List Finding) (path : String) (m : Mention) : Prop :=
  ∃ before q after, found = before ++ .request q :: after ∧ q.MentionsAs ctx path m ∧
    ∀ f ∈ before, ∀ d, f.answer ctx = .ok d → d.path ≠ path

namespace Scan

theorem mem_of_findLibrary {dirs : List OsString} {names : List String} {found : OsString}
    (h : findLibrary files dirs names = some found) :
    ∃ name ∈ names, ∃ dir : OsString, found = dir.join name := by
  obtain ⟨name, hn, h⟩ := List.exists_of_findSome?_eq_some h
  obtain ⟨dir, -, joined⟩ := List.mem_map.1 (List.mem_of_find?_eq_some h)
  exact ⟨name, hn, dir, joined.symm⟩

theorem libraryType_of_exact {spec name found : String} (named : Text.after? ":" spec = some name) :
    libraryType spec found = (Mention.exact found).type := by
  show _ = ((ArtifactType.ofPath? found).filter (·.isLibrary)).getD .library
  unfold libraryType ArtifactType.ofInput
  rcases ArtifactType.ofPath? found with _ | t
  · simp [named, ArtifactType.isLibrary]
  · cases h : t.isLibrary <;> simp [named, h, Option.filter]

theorem libraryType_of_inexact {spec found : String} (inexact : Text.after? ":" spec = none) :
    libraryType spec found = (Mention.linked found).type := by
  simp [libraryType, inexact, Mention.type, Mention.told?, Mention.fallback, ArtifactType.ofInput]

end Scan

section Requests

variable {ctx : ScanContext} {q : Request} {d : Dependency}

/-- A file has the kind of its mention. -/
theorem Request.MentionsAs.answer {m : Mention} (h : q.MentionsAs ctx path m) :
    q.answer ctx = .ok ⟨path, m.type⟩ := by
  cases h with
  | input found =>
    simp only [Request.answer, found, Option.getD_none]
    rfl
  | @member token type told found =>
    have kind : (Mention.member token).type = type := Mention.type_of_told told
    simp only [Request.answer, found, Option.getD_some, kind]
  | linked inexact located canonical =>
    simp only [Request.answer, located, canonical, Scan.libraryType_of_inexact inexact]
  | exact named located canonical =>
    simp only [Request.answer, located, canonical, Scan.libraryType_of_exact named]

/-- What leads to a file mentions it, if a kind that is given is the one that the token tells. -/
theorem Request.exists_mentionsAs (answer : q.answer ctx = .ok d)
    (told : ∀ token type, q = .input token (some type) → ArtifactType.ofPath? token = some type) :
    ∃ m, q.MentionsAs ctx d.path m := by
  unfold Request.answer at answer
  split at answer
  · rename_i token type?
    split at answer <;> cases answer
    rename_i path found
    rcases type? with _ | type
    · exact ⟨_, .input found⟩
    · exact ⟨_, .member (told token type rfl) found⟩
  · rename_i directories spec
    split at answer
    · cases answer
    rename_i found located
    split at answer <;> cases answer
    rename_i path canonical
    rcases named : Text.after? ":" spec with _ | name
    · exact ⟨_, .linked named located canonical⟩
    · exact ⟨_, .exact named located canonical⟩

theorem ofPath?_of_ofOutput {t : ArtifactType} (h : ArtifactType.ofOutput path = t)
    (told : t ≠ .executable) : ArtifactType.ofPath? path = some t := by
  unfold ArtifactType.ofOutput at h
  rcases hp : ArtifactType.ofPath? path with _ | u <;> rw [hp] at h
  · exact absurd h.symm told
  · exact congrArg some h

/-- What an archiver reads is an archive or an object by its name. -/
theorem told_of_mem_archiverInputs {seenOutput : Bool} {token : String} {arguments : List String}
    (h : token ∈ archiverInputs seenOutput arguments) :
    ArtifactType.ofPath? token = some (.ofOutput token) := by
  fun_induction archiverInputs seenOutput arguments
  case case1 => cases h
  case case2 kind ih | case4 kind ih =>
    rcases List.mem_cons.1 h with rfl | h
    · exact ofPath?_of_ofOutput rfl (by rw [kind]; decide)
    · exact ih h
  case case3 ih | case5 ih => exact ih h

/-- The items of a driver ask for inputs whatever their kind. -/
theorem Item.finding?_ne {directories : List OsString} {item : Item} {token : String} {type : ArtifactType} :
    item.finding? ctx directories ≠ some (.request (.input token (some type))) := by
  intro h
  unfold finding? at h
  split at h
  · cases h
  · cases h
  · split at h <;> cases h
  · cases h
  · cases h
  · cases h

/-- A kind that is given with a request is the one that the token tells. -/
theorem told_of_mem_findings {family : ToolFamily} {outputType type : ArtifactType}
    {arguments : List String} {token : String}
    (h : .request (.input token (some type)) ∈ findings ctx family outputType arguments) :
    ArtifactType.ofPath? token = some type := by
  have untyped {added : List OsString} {items : List Item} :
      .request (.input token (some type)) ∉ findingsOf ctx added items := by
    induction items generalizing added with
    | nil => exact List.not_mem_nil
    | cons item items ih =>
      rw [findingsOf, List.mem_append, not_or, Option.mem_toList]
      exact ⟨Item.finding?_ne, ih⟩
  cases family with
  | compileLink => exact absurd h untyped
  | archive =>
    obtain ⟨_, hmem, ⟨⟩⟩ := List.mem_map.1 h
    exact told_of_mem_archiverInputs hmem

/-- A file that a command reads is listed with the kind of its first mention. -/
theorem mem_dependencies_iff {c : Command} {dirs : List OsString} {r : Resolution} {family : ToolFamily}
    (hr : resolve files dirs c = .ok r) (recognized : c.family? = some family) :
    let ctx : ScanContext := ⟨files, c.directory, r.output, dirs⟩
    d ∈ r.dependencies ↔ d.path ≠ r.output ∧
      ∃ m, FirstMention ctx (findings ctx family r.outputType c.arguments) d.path m ∧ m.type = d.type := by
  intro ctx
  obtain ⟨_, -, known, -, -, -, dependencies⟩ := resolve_eq_ok hr
  obtain rfl := Option.some.inj (recognized.symm.trans known)
  obtain ⟨listed, -⟩ := scanArguments_gathers ctx family r.outputType c.arguments
  rw [dependencies, listed, List.nil_append, mem_newFiles_iff]
  refine and_congr_right fun _ => ⟨?_, ?_⟩
  · rintro ⟨-, before, after, split, apart⟩
    obtain ⟨before, rest, found, rfl, here⟩ := List.map_eq_append_iff.1 split
    obtain ⟨f, after, rfl, answer, -⟩ := List.map_eq_cons_iff.1 here
    cases f with
    | problem p => cases answer
    | request q =>
      have member : .request q ∈ findings ctx family r.outputType c.arguments :=
        found ▸ List.mem_append_right before List.mem_cons_self
      obtain ⟨m, mentions⟩ := Request.exists_mentionsAs (q := q) answer fun token type same =>
        told_of_mem_findings (same ▸ member)
      have kind := congrArg Dependency.type (Except.ok.inj (mentions.answer.symm.trans answer))
      refine ⟨m, ⟨before, q, after, found, mentions, fun f hf e he => apart e ?_⟩, kind⟩
      exact List.mem_map.2 ⟨f, hf, he⟩
  · rintro ⟨m, ⟨before, q, after, found, mentions, apart⟩, kind⟩
    have answer : (Finding.request q).answer ctx = .ok d := by
      rw [Finding.answer, mentions.answer, kind]
    refine ⟨nofun, before.map (Finding.answer ctx), after.map (Finding.answer ctx), ?_, fun e he => ?_⟩
    · rw [found, List.map_append, List.map_cons, answer]
    · obtain ⟨f, hf, he⟩ := List.mem_map.1 he
      exact apart f hf e he

end Requests

/-! ## Mentions by stored commands -/

/-- A stored command that resolves mentions the file at a path: the one that it writes, under the name that
its arguments give, or one that it reads, under the first of its arguments that leads there. -/
inductive Extractor.Mentions (x : Extractor) (row : CommandRecord) (path : String) : Mention → Prop where
  | written {c : Command} {r : Resolution} {name : String} (command : row.command = .ok c)
      (resolves : x.Resolves row r) (named : c.output? = some name) (output : r.output = path) :
      Mentions x row path (.written name)
  | read {c : Command} {r : Resolution} {family : ToolFamily} {m : Mention} (command : row.command = .ok c)
      (resolves : x.Resolves row r) (recognized : c.family? = some family) (other : path ≠ r.output)
      (first : FirstMention ⟨x.files, c.directory, r.output, x.searchDirectories⟩
        (findings ⟨x.files, c.directory, r.output, x.searchDirectories⟩ family r.outputType c.arguments)
        path m) :
      Mentions x row path m

/-- Mentions have the kinds as which a command writes and reads files. -/
theorem exists_mention_iff {row : CommandRecord} {t : ArtifactType} :
    (∃ m, x.Mentions row path m ∧ m.type = t) ↔ ∃ r, x.Resolves row r ∧
      (r.output = path ∧ r.outputType = t ∨ ∃ d ∈ r.dependencies, d.path = path ∧ d.type = t) := by
  constructor
  · rintro ⟨m, mentions, rfl⟩
    cases mentions with
    | written command resolves named output =>
      obtain ⟨c, hc, hr⟩ := CommandRecord.resolve_eq_ok resolves
      obtain rfl := Except.ok.inj (command.symm.trans hc)
      obtain ⟨family, name, -, ho, -, type, -⟩ := resolve_eq_ok hr
      obtain rfl := Option.some.inj (named.symm.trans ho)
      exact ⟨_, resolves, .inl ⟨output, type⟩⟩
    | read command resolves recognized other first =>
      obtain ⟨c, hc, hr⟩ := CommandRecord.resolve_eq_ok resolves
      obtain rfl := Except.ok.inj (command.symm.trans hc)
      have listed := (mem_dependencies_iff (d := ⟨path, m.type⟩) hr recognized).2 ⟨other, m, first, rfl⟩
      exact ⟨_, resolves, .inr ⟨_, listed, rfl, rfl⟩⟩
  · rintro ⟨r, resolves, ⟨output, rfl⟩ | ⟨d, hd, rfl, rfl⟩⟩ <;>
      obtain ⟨c, hc, hr⟩ := CommandRecord.resolve_eq_ok resolves <;>
      obtain ⟨family, name, recognized, ho, -, type, -⟩ := resolve_eq_ok hr
    · exact ⟨.written name, .written hc resolves ho output, type.symm⟩
    · obtain ⟨other, m, first, kind⟩ := (mem_dependencies_iff hr recognized).1 hd
      exact ⟨m, .read hc resolves recognized other first, kind⟩

/-- A command writes under one name. -/
theorem Extractor.Mentions.name_eq {row : CommandRecord} {path path' name name' : String}
    (h : x.Mentions row path (.written name)) (h' : x.Mentions row path' (.written name')) :
    name = name' := by
  rcases h with ⟨command, -, named, -⟩ | ⟨-, -, -, -, -, -, -, -, ⟨⟩, -⟩
  rcases h' with ⟨command', -, named', -⟩ | ⟨-, -, -, -, -, -, -, -, ⟨⟩, -⟩
  obtain rfl := Except.ok.inj (command.symm.trans command')
  exact Option.some.inj (named.symm.trans named')

theorem Extractor.Mentions.writes {row : CommandRecord} {name : String}
    (h : x.Mentions row path (.written name)) : x.Writes row path := by
  rcases h with ⟨-, resolves, -, output⟩ | ⟨-, -, -, -, -, -, -, -, ⟨⟩, -⟩
  exact ⟨_, resolves, output⟩

/-- A name can only tell nothing where it is that of an output, of an input or of a library that is named
exactly. -/
theorem Extractor.Mentions.untold {row : CommandRecord} {m : Mention} (h : x.Mentions row path m)
    (untold : m.told? = none) :
    (∃ name, m = .written name) ∨ m = .input path ∨ ∃ found, m = .exact found := by
  cases h with
  | written => exact .inl ⟨_, rfl⟩
  | read _ _ _ _ first =>
    obtain ⟨_, _, _, -, mentions, -⟩ := first
    cases mentions with
    | input => exact .inr (.inl rfl)
    | member told => exact absurd (told.symm.trans untold) nofun
    | linked inexact located =>
      obtain ⟨name, hn, dir, rfl⟩ := Scan.mem_of_findLibrary located
      obtain ⟨t, told⟩ := ofPath?_join_of_libraryNames dir inexact hn
      exact absurd (told.symm.trans untold) nofun
    | exact => exact .inr (.inr ⟨_, rfl⟩)

end BuildAudit
