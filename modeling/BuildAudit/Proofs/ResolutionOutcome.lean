import BuildAudit.Proofs.ArgumentItems
import BuildAudit.Proofs.Walking

/-!
# What a command resolves to

The arguments of a command come to a list of findings: a file that is asked for, or something that is
wrong (`findings`).  Each finding has an answer, a file or a problem, and the resolution of the
command is made of the answers: the files in order, each path once and the output left out, and the
problems in order (`resolve_exact`).
-/

namespace BuildAudit

/-! ## Findings -/

/-- A file that a command asks for. -/
inductive Request where
  /-- An input.  Its kind may be told already. -/
  | input (token : String) (type? : Option ArtifactType)
  /-- A library that is looked for in directories. -/
  | library (directories : List OsString) (spec : String)
  deriving DecidableEq, Repr

/-- What an argument comes to, or a flag and its value. -/
inductive Finding where
  | request (q : Request)
  /-- A directory for libraries that cannot be used, or a flag without its value. -/
  | problem (p : Problem)
  deriving DecidableEq, Repr

/-- The file that is meant, or what is wrong. -/
def Request.answer (ctx : ScanContext) : Request → Except Problem Dependency
  | input token type? =>
    match ctx.files.canonicalize (Path.join ctx.directory token) with
    | .ok path => .ok ⟨path, type?.getD (.ofInput path)⟩
    | .error cause => .error (.unresolvedInput token cause)
  | library directories spec =>
    match Scan.findLibrary ctx.files directories (Scan.libraryNames spec) with
    | none => .error (.libraryNotFound spec)
    | some path =>
      match ctx.files.canonicalize path with
      | .ok canonical => .ok ⟨canonical, Scan.libraryType spec path.lossy⟩
      | .error cause => .error (.unresolvedLibrary path.lossy cause)

def Finding.answer (ctx : ScanContext) : Finding → Except Problem Dependency
  | request q => q.answer ctx
  | problem p => .error p

/-- The directory that an item adds to those in which libraries are looked for. -/
def Item.directory? (ctx : ScanContext) (item : Item) : Option OsString :=
  match item.demand? with
  | some (.libraryDirectory dir) =>
    (ctx.files.realPath (Path.join ctx.directory dir)).toOption.map Location.osPath
  | _ => none

/-- What an item comes to, if libraries are looked for in `directories`. -/
def Item.finding? (ctx : ScanContext) (directories : List OsString) (item : Item) : Option Finding :=
  match item.demand? with
  | some (.input token) => some (.request (.input token none))
  | some (.library spec) => some (.request (.library directories spec))
  | some (.libraryDirectory dir) =>
    match ctx.files.realPath (Path.join ctx.directory dir) with
    | .ok _ => none
    | .error cause => some (.problem (.invalidLibraryDirectory dir cause))
  | some (.missing p) => some (.problem p)
  | some (.includeDirectory _) | none => none

/-- What items come to, one after the other.  Libraries are looked for in the directories that the items
before have added, and then in those of the toolchain. -/
def findingsOf (ctx : ScanContext) (added : List OsString) : List Item → List Finding
  | [] => []
  | item :: items =>
    (item.finding? ctx (added ++ ctx.searchDirectories)).toList ++
      findingsOf ctx (added ++ (item.directory? ctx).toList) items

/-- The items of a driver, and those that it adds by itself. -/
def driverItems (outputType : ArtifactType) (arguments : List String) : List Item :=
  let items := itemsOf arguments
  if .switch "-fopenmp" ∈ items ∧ outputType = .shared then
    items ++ Scan.openMPLibraries.map (.pair "-l")
  else items

/-- What the arguments of a command come to. -/
def findings (ctx : ScanContext) (family : ToolFamily) (outputType : ArtifactType)
    (arguments : List String) : List Finding :=
  match family with
  | .compileLink => findingsOf ctx [] (driverItems outputType arguments)
  | .archive =>
    (archiverInputs false arguments).map fun token =>
      .request (.input token (some (.ofOutput token)))

/-! ## Answers that are gathered -/

/-- The files among answers that are neither the output nor known, each path once. -/
def newFiles (output : String) (known : List Dependency) (answers : List (Except Problem Dependency)) :
    List Dependency :=
  ((answers.filterMap Except.toOption).filter fun d =>
    d.path ≠ output ∧ ∀ e ∈ known, e.path ≠ d.path).eraseDupsBy fun d e => d.path == e.path

/-- The problem of an answer.  A command that asks for its own output has one. -/
def problemOf? (output : String) : Except Problem Dependency → Option Problem
  | .ok d => if d.path = output then some (.selfDependency d.path) else none
  | .error p => some p

section NewFiles

variable {output : String} {known : List Dependency} {answers : List (Except Problem Dependency)}
  {d : Dependency}

theorem newFiles_error (p : Problem) :
    newFiles output known (.error p :: answers) = newFiles output known answers := rfl

theorem newFiles_old (old : d.path = output ∨ ∃ e ∈ known, e.path = d.path) :
    newFiles output known (.ok d :: answers) = newFiles output known answers := by
  have out : ¬ (d.path ≠ output ∧ ∀ e ∈ known, e.path ≠ d.path) := by
    rintro ⟨other, new⟩
    rcases old with same | ⟨e, he, same⟩
    · exact other same
    · exact new e he same
  have files : (Except.ok d :: answers).filterMap Except.toOption = d :: answers.filterMap Except.toOption := rfl
  rw [newFiles, files, List.filter_cons_of_neg (by simpa using out), newFiles]

theorem newFiles_new (other : d.path ≠ output) (new : ∀ e ∈ known, e.path ≠ d.path) :
    newFiles output known (.ok d :: answers) = d :: newFiles output (known ++ [d]) answers := by
  have files : (Except.ok d :: answers).filterMap Except.toOption = d :: answers.filterMap Except.toOption := rfl
  rw [newFiles, files, List.filter_cons_of_pos (by simpa using ⟨other, new⟩), List.eraseDupsBy_cons,
    List.filter_filter, newFiles]
  congr 2
  refine List.filter_congr fun e _ => ?_
  rw [Bool.eq_iff_iff]
  simp only [Bool.and_eq_true, decide_eq_true_eq, List.forall_mem_append, List.forall_mem_singleton,
    beq_eq_false_iff_ne, ne_comm]
  tauto

end NewFiles

/-! ## Scans -/

/-- The second scan is the first one with the answers. -/
structure Scan.Gathers (ctx : ScanContext) (s : Scan) (answers : List (Except Problem Dependency))
    (s' : Scan) : Prop where
  dependencies : s'.dependencies = s.dependencies ++ newFiles ctx.output s.dependencies answers
  problems : s'.problems = s.problems ++ answers.filterMap (problemOf? ctx.output)

namespace Scan

variable {ctx : ScanContext} {s s' : Scan} {answers : List (Except Problem Dependency)}

/-- The scan with an answer. -/
def note (ctx : ScanContext) (s : Scan) : Except Problem Dependency → Scan
  | .ok d => s.addDependency ctx d
  | .error p => s.report p

theorem addInput_eq (token : String) (type? : Option ArtifactType) :
    s.addInput ctx token type? = s.note ctx ((Request.input token type?).answer ctx) := by
  rcases found : ctx.files.canonicalize (Path.join ctx.directory token) with cause | path <;>
    simp only [addInput, Request.answer, found] <;> rfl

theorem addLibrary_eq (spec : String) :
    s.addLibrary ctx spec =
      s.note ctx ((Request.library (s.libraryDirectories ++ ctx.searchDirectories) spec).answer ctx) := by
  rcases found : findLibrary ctx.files (s.libraryDirectories ++ ctx.searchDirectories) (libraryNames spec)
    with _ | path
  · simp only [addLibrary, Request.answer, found]
    rfl
  · rcases canonical : ctx.files.canonicalize path with cause | canonical <;>
      simp only [addLibrary, Request.answer, found, canonical] <;> rfl

theorem Gathers.nil (ctx : ScanContext) (s : Scan) : Gathers ctx s [] s where
  dependencies := (List.append_nil _).symm
  problems := (List.append_nil _).symm

theorem Gathers.cons {answer : Except Problem Dependency} (h : Gathers ctx (s.note ctx answer) answers s') :
    Gathers ctx s (answer :: answers) s' := by
  obtain ⟨dependencies, problems⟩ := h
  cases answer with
  | error p => exact ⟨dependencies, by simp [problems, note, report, problemOf?]⟩
  | ok d =>
    simp only [note, addDependency] at dependencies problems
    split_ifs at dependencies problems with isOutput listed
    · have own : d.path = ctx.output := eq_of_beq isOutput
      refine ⟨by rw [dependencies, newFiles_old (.inl own)]; rfl, ?_⟩
      simp [problems, report, problemOf?, own]
    · have other : d.path ≠ ctx.output := by simpa using isOutput
      have old : ∃ e ∈ s.dependencies, e.path = d.path := by simpa using listed
      refine ⟨by rw [dependencies, newFiles_old (.inr old)], ?_⟩
      simp [problems, problemOf?, other]
    · have other : d.path ≠ ctx.output := by simpa using isOutput
      have new : ∀ e ∈ s.dependencies, e.path ≠ d.path := by simpa using listed
      refine ⟨by rw [dependencies, newFiles_new other new]; simp, ?_⟩
      simp [problems, problemOf?, other]

theorem libraryDirectories_note (answer : Except Problem Dependency) :
    (s.note ctx answer).libraryDirectories = s.libraryDirectories := by
  cases answer with
  | error => rfl
  | ok d =>
    simp only [note, addDependency]
    split_ifs <;> rfl

/-- An item adds at most one answer, and at most one directory for libraries. -/
theorem take_spec (item : Item) :
    (s.take ctx item).libraryDirectories = s.libraryDirectories ++ (item.directory? ctx).toList ∧
    ∀ {answers s'}, Gathers ctx (s.take ctx item) answers s' →
      Gathers ctx s ((item.finding? ctx (s.libraryDirectories ++ ctx.searchDirectories)).toList.map
        (Finding.answer ctx) ++ answers) s' := by
  have noted (p : Problem) : s.report p = s.note ctx (.error p) := rfl
  unfold take Item.finding? Item.directory?
  rcases item.demand? with _ | demand
  · exact ⟨(List.append_nil _).symm, fun h => h⟩
  cases demand with
  | input token =>
    rw [Option.elim_some, meet, addInput_eq]
    exact ⟨(libraryDirectories_note _).trans (List.append_nil _).symm, Gathers.cons⟩
  | library spec =>
    rw [Option.elim_some, meet, addLibrary_eq]
    exact ⟨(libraryDirectories_note _).trans (List.append_nil _).symm, Gathers.cons⟩
  | missing p =>
    rw [Option.elim_some, meet, noted]
    exact ⟨(libraryDirectories_note _).trans (List.append_nil _).symm, Gathers.cons⟩
  | includeDirectory dir => exact ⟨(List.append_nil _).symm, fun h => ⟨h.dependencies, h.problems⟩⟩
  | libraryDirectory dir =>
    rw [Option.elim_some, meet, addLibraryDirectory]
    rcases found : ctx.files.realPath (Path.join ctx.directory dir) with cause | l <;>
      simp only [found, noted]
    · exact ⟨(libraryDirectories_note _).trans (List.append_nil _).symm, Gathers.cons⟩
    · exact ⟨rfl, fun h => ⟨h.dependencies, h.problems⟩⟩

/-- Items add the answers of what they come to. -/
theorem gathers_foldl (s : Scan) (items : List Item) :
    Gathers ctx s ((findingsOf ctx s.libraryDirectories items).map (Finding.answer ctx))
      (items.foldl (take ctx) s) := by
  induction items generalizing s with
  | nil => exact .nil ctx s
  | cons item items ih =>
    obtain ⟨directories, adds⟩ := @take_spec ctx s item
    rw [findingsOf, List.map_append, ← directories]
    exact adds (ih (s.take ctx item))

theorem gathers_driver (outputType : ArtifactType) (arguments : List String) :
    Gathers ctx {} ((findingsOf ctx [] (driverItems outputType arguments)).map (Finding.answer ctx))
      (scanArguments ctx .compileLink outputType arguments) := by
  have folded : scanArguments ctx .compileLink outputType arguments =
      (driverItems outputType arguments).foldl (take ctx) {} := by
    simp only [scanArguments, driverItems, Bool.and_eq_true, usesOpenMP_iff, beq_iff_eq, driver_eq_foldl]
    split_ifs
    · rw [List.foldl_append, List.foldl_map]
      rfl
    · rfl
  rw [folded]
  exact gathers_foldl {} _

theorem gathers_archiver (s : Scan) (seenOutput : Bool) (arguments : List String) :
    Gathers ctx s ((archiverInputs seenOutput arguments).map fun token =>
        (Request.input token (some (.ofOutput token))).answer ctx)
      (archiver ctx s seenOutput arguments) := by
  fun_induction archiver ctx s seenOutput arguments
  case case1 => exact .nil ctx _
  case case2 told ih =>
    simp only [archiverInputs, told, if_true, List.map_cons]
    rw [addInput_eq] at ih ⊢
    exact ih.cons
  case case3 told first ih =>
    simp only [archiverInputs, told, if_neg first]
    exact ih
  case case4 told ih =>
    simp only [archiverInputs, told, List.map_cons]
    rw [addInput_eq] at ih ⊢
    exact ih.cons
  case case5 notArchive notObject ih =>
    unfold archiverInputs
    split
    · exact absurd ‹_› notArchive
    · exact absurd ‹_› notObject
    · exact ih

end Scan

/-! ## Resolutions -/

/-- A problem of a request, and not of a flag. -/
def Problem.ofRequest : Problem → Bool
  | unresolvedInput _ _ | libraryNotFound _ | unresolvedLibrary _ _ | selfDependency _ => true
  | missingDirectory _ | missingLibraryName | invalidLibraryDirectory _ _ => false

theorem Request.canonicalize_of_answer {ctx : ScanContext} {q : Request} {d : Dependency}
    (h : q.answer ctx = .ok d) : ∃ p, ctx.files.canonicalize p = .ok d.path := by
  unfold answer at h
  split at h
  · split at h <;> cases h
    exact ⟨_, ‹_›⟩
  · split at h
    · cases h
    · split at h <;> cases h
      exact ⟨_, ‹_›⟩

theorem Request.ofRequest_of_answer {ctx : ScanContext} {q : Request} {p : Problem}
    (h : q.answer ctx = .error p) : p.ofRequest := by
  unfold answer at h
  split at h
  · split at h <;> cases h
    rfl
  · split at h
    · cases h
      rfl
    · split at h <;> cases h
      rfl

theorem Request.ofRequest_of_problem {ctx : ScanContext} {output : String} {q : Request} {p : Problem}
    (h : problemOf? output (q.answer ctx) = some p) : p.ofRequest := by
  rcases answer : q.answer ctx with p' | d <;> rw [answer] at h <;> simp only [problemOf?] at h
  · obtain rfl := Option.some.inj h
    exact ofRequest_of_answer answer
  · split_ifs at h
    obtain rfl := Option.some.inj h
    rfl

theorem Item.not_ofRequest_of_demand {item : Item} {p : Problem} (h : item.demand? = some (.missing p)) :
    p.ofRequest = false := by
  unfold demand? at h
  split at h
  · split_ifs at h <;> cases h
  · split_ifs at h <;> cases h <;> rfl
  · simp at h
  · cases h

theorem Item.not_ofRequest_of_finding {ctx : ScanContext} {directories : List OsString} {item : Item}
    {p : Problem} (h : item.finding? ctx directories = some (.problem p)) : p.ofRequest = false := by
  unfold finding? at h
  split at h
  · cases h
  · cases h
  · split at h <;> cases h
    rfl
  · cases h
    exact not_ofRequest_of_demand ‹_›
  · cases h
  · cases h

/-- What is wrong besides requests is wrong with flags. -/
theorem not_ofRequest_of_problem_mem {ctx : ScanContext} {family : ToolFamily} {outputType : ArtifactType}
    {arguments : List String} {p : Problem} (h : .problem p ∈ findings ctx family outputType arguments) :
    p.ofRequest = false := by
  have items {added : List OsString} {items : List Item} (h : .problem p ∈ findingsOf ctx added items) :
      p.ofRequest = false := by
    induction items generalizing added with
    | nil => cases h
    | cons item items ih =>
      rcases List.mem_append.1 h with h | h
      · exact Item.not_ofRequest_of_finding (Option.mem_toList.1 h)
      · exact ih h
  cases family with
  | compileLink => exact items h
  | archive => simp [findings] at h

theorem scanArguments_gathers (ctx : ScanContext) (family : ToolFamily) (outputType : ArtifactType)
    (arguments : List String) :
    Scan.Gathers ctx {} ((findings ctx family outputType arguments).map (Finding.answer ctx))
      (scanArguments ctx family outputType arguments) := by
  cases family with
  | compileLink => exact Scan.gathers_driver outputType arguments
  | archive =>
    rw [findings, List.map_map]
    exact Scan.gathers_archiver {} false arguments

/-- Every file that is no output is among the new ones or known. -/
theorem mem_newFiles {output : String} {d : Dependency} {answers : List (Except Problem Dependency)}
    (known : List Dependency) (h : .ok d ∈ answers) (other : d.path ≠ output) :
    d.path ∈ (known ++ newFiles output known answers).map (·.path) := by
  induction answers generalizing known with
  | nil => cases h
  | cons answer answers ih =>
    rcases answer with p | e
    · rw [newFiles_error]
      exact ih known (by simpa using h)
    · by_cases old : e.path = output ∨ ∃ f ∈ known, f.path = e.path
      · rw [newFiles_old old]
        rcases List.mem_cons.1 h with same | h
        · obtain rfl := Except.ok.inj same
          rw [List.map_append, List.mem_append]
          exact .inl (List.mem_map.2 (old.resolve_left other))
        · exact ih known h
      · obtain ⟨notOutput, new⟩ := not_or.1 old
        rw [newFiles_new notOutput fun f hf same => new ⟨f, hf, same⟩]
        rcases List.mem_cons.1 h with same | h
        · obtain rfl := Except.ok.inj same
          simp
        · simpa using ih (known ++ [e]) h

/-- Of the answers with its path, the file is the first one. -/
def IsFirstAnswer (answers : List (Except Problem Dependency)) (d : Dependency) : Prop :=
  ∃ before after, answers = before ++ .ok d :: after ∧ ∀ e, .ok e ∈ before → e.path ≠ d.path

theorem isFirstAnswer_cons_iff {answer : Except Problem Dependency}
    {answers : List (Except Problem Dependency)} {d : Dependency} :
    IsFirstAnswer (answer :: answers) d ↔
      answer = .ok d ∨ (∀ e, answer = .ok e → e.path ≠ d.path) ∧ IsFirstAnswer answers d := by
  constructor
  · rintro ⟨_ | ⟨_, before⟩, after, split, apart⟩ <;> obtain ⟨rfl, rfl⟩ := List.cons.inj split
    · exact .inl rfl
    · exact .inr ⟨fun e same => apart e (same ▸ List.mem_cons_self),
        before, after, rfl, fun e he => apart e (List.mem_cons_of_mem _ he)⟩
  · rintro (rfl | ⟨other, before, after, rfl, apart⟩)
    · exact ⟨[], answers, rfl, nofun⟩
    · refine ⟨answer :: before, after, rfl, fun e he => ?_⟩
      rcases List.mem_cons.1 he with same | he
      · exact other e same.symm
      · exact apart e he

/-- Of each path that is new, the first answer is listed. -/
theorem mem_newFiles_iff {output : String} {d : Dependency} {answers : List (Except Problem Dependency)}
    {known : List Dependency} :
    d ∈ newFiles output known answers ↔
      d.path ≠ output ∧ (∀ e ∈ known, e.path ≠ d.path) ∧ IsFirstAnswer answers d := by
  induction answers generalizing known with
  | nil =>
    refine ⟨nofun, ?_⟩
    rintro ⟨-, -, before, after, split, -⟩
    exact absurd split (by simp)
  | cons answer answers ih =>
    rw [isFirstAnswer_cons_iff]
    rcases answer with p | e
    · simp [newFiles_error, ih]
    by_cases old : e.path = output ∨ ∃ f ∈ known, f.path = e.path
    · -- a file that is listed has another path
      have apart (other : d.path ≠ output) (new : ∀ f ∈ known, f.path ≠ d.path) : e.path ≠ d.path := by
        rintro same
        rcases old with own | ⟨f, hf, path⟩
        · exact other (same.symm.trans own)
        · exact new f hf (path.trans same)
      rw [newFiles_old old, ih]
      refine and_congr_right fun other => and_congr_right fun new => ⟨fun first => .inr ⟨?_, first⟩, ?_⟩
      · rintro _ ⟨⟩
        exact apart other new
      · rintro (⟨⟨⟩⟩ | ⟨-, first⟩)
        · exact absurd rfl (apart other new)
        · exact first
    · obtain ⟨notOutput, new⟩ := not_or.1 old
      rw [newFiles_new notOutput fun f hf same => new ⟨f, hf, same⟩, List.mem_cons, ih]
      simp only [List.forall_mem_append, List.forall_mem_singleton]
      constructor
      · rintro (rfl | ⟨other, ⟨fresh, apart⟩, first⟩)
        · exact ⟨notOutput, fun f hf same => new ⟨f, hf, same⟩, .inl rfl⟩
        · exact ⟨other, fresh, .inr ⟨fun _ same => Except.ok.inj same ▸ apart, first⟩⟩
      · rintro ⟨other, fresh, ⟨⟨⟩⟩ | ⟨apart, first⟩⟩
        · exact .inl rfl
        · exact .inr ⟨other, ⟨fresh, apart e rfl⟩, first⟩

/-- An answer leaves no problem exactly if its file is listed. -/
theorem problemOf?_eq_none_iff {output : String} {answer : Except Problem Dependency}
    {answers : List (Except Problem Dependency)} (h : answer ∈ answers)
    (others : ∀ d ∈ newFiles output [] answers, d.path ≠ output) :
    problemOf? output answer = none ↔
      ∃ d, answer = .ok d ∧ d.path ∈ (newFiles output [] answers).map (·.path) := by
  rcases answer with p | d
  · exact ⟨nofun, nofun⟩
  simp only [problemOf?, Except.ok.injEq, exists_eq_left']
  split_ifs with own
  · refine ⟨nofun, fun listed => ?_⟩
    obtain ⟨e, he, same⟩ := List.mem_map.1 listed
    exact absurd (same.trans own) (others e he)
  · exact ⟨fun _ => mem_newFiles [] h own, fun _ => rfl⟩

/-- Every dependency is a path that was made canonical. -/
theorem exists_canonicalize_of_resolve {files : FileTree} {dirs : List OsString} {c : Command}
    {r : Resolution} (hr : resolve files dirs c = .ok r) {d : Dependency} (hd : d ∈ r.dependencies) :
    ∃ p, files.canonicalize p = .ok d.path := by
  obtain ⟨family, output, -, -, -, -, dependencies⟩ := resolve_eq_ok hr
  obtain ⟨listed, -⟩ :=
    scanArguments_gathers ⟨files, c.directory, r.output, dirs⟩ family r.outputType c.arguments
  rw [dependencies, listed, List.nil_append] at hd
  obtain ⟨-, -, before, after, split, -⟩ := mem_newFiles_iff.1 hd
  have answered : .ok d ∈ (findings _ family r.outputType c.arguments).map (Finding.answer _) :=
    split ▸ List.mem_append_right before List.mem_cons_self
  obtain ⟨f, hf, answer⟩ := List.mem_map.1 answered
  cases f with
  | problem p => cases answer
  | request q => exact q.canonicalize_of_answer answer

/-- A command with a known tool and an output resolves, to its findings and nothing else.  The
dependencies are the files that its inputs and libraries lead to, in the order of the arguments, each path
once and the output left out; each path is the text of the canonical path of something that is there.  The items of a driver take up its arguments one
after the other.  Each request is listed, or else leaves one problem, and all other problems are those of
flags. -/
theorem resolve_exact {files : FileTree} {dirs : List OsString} {c : Command} {family : ToolFamily}
    {output : String} (recognized : c.family? = some family) (written : c.output? = some output) :
    ∃ r, resolve files dirs c = .ok r ∧ r.output = absoluteOutput files c.directory output ∧
      r.outputType = .ofOutput output ∧
      (r.dependencies.map (·.path)).Nodup ∧ (∀ d ∈ r.dependencies, d.path ≠ r.output) ∧
      (files.Reached files.workingDirectory →
        ∀ d ∈ r.dependencies, ∃ p, files.IsCanonical p ∧ p.lossy = d.path) ∧
      (itemsOf c.arguments).flatMap Item.tokens = c.arguments ∧
      let ctx : ScanContext := ⟨files, c.directory, r.output, dirs⟩
      let found := findings ctx family r.outputType c.arguments
      r.dependencies = ((found.filterMap fun f => (f.answer ctx).toOption).filter
        (·.path ≠ r.output)).eraseDupsBy (fun d e => d.path == e.path) ∧
      r.problems = (found.filterMap fun f => problemOf? r.output (f.answer ctx)) ∧
      (∀ q, .request q ∈ found →
        (problemOf? r.output (q.answer ctx) = none ↔
          ∃ d, q.answer ctx = .ok d ∧ d.path ∈ r.dependencies.map (·.path)) ∧
        ∀ p, problemOf? r.output (q.answer ctx) = some p → p.ofRequest) ∧
      ∀ p, .problem p ∈ found → p.ofRequest = false := by
  let ctx : ScanContext := ⟨files, c.directory, absoluteOutput files c.directory output, dirs⟩
  let scan := scanArguments ctx family (.ofOutput output) c.arguments
  have hr : resolve files dirs c =
      .ok ⟨ctx.output, .ofOutput output, scan.dependencies, scan.includeDirectories, scan.problems⟩ := by
    unfold resolve
    rw [recognized, written]
  obtain ⟨listed, reported⟩ := scanArguments_gathers ctx family (.ofOutput output) c.arguments
  rw [List.nil_append] at listed reported
  have other := path_ne_output_of_resolve hr
  refine ⟨_, hr, rfl, rfl, ?_, other, ?_, flatMap_tokens_itemsOf _, ?_, ?_, ?_,
    fun p => not_ofRequest_of_problem_mem⟩
  · refine resolve_dependencies (P := fun deps => (deps.map (·.path)).Nodup) hr ?_ List.nodup_nil
    intro deps d once _ new
    rw [List.map_append, List.nodup_append]
    exact ⟨once, by simp, by simpa using new⟩
  · intro standing d hd
    obtain ⟨p, found⟩ := exists_canonicalize_of_resolve hr hd
    exact FileTree.isCanonical_of_canonicalize standing found
  · rw [listed, newFiles, List.filterMap_map]
    simp only [List.not_mem_nil, false_imp_iff, implies_true, and_true]
    rfl
  · exact reported.trans (List.filterMap_map ..)
  · intro q hq
    have mem : q.answer ctx ∈ (findings ctx family (.ofOutput output) c.arguments).map (Finding.answer ctx) :=
      List.mem_map.2 ⟨_, hq, rfl⟩
    have settled := problemOf?_eq_none_iff mem (listed ▸ other)
    rw [← listed] at settled
    exact ⟨settled, fun p => Request.ofRequest_of_problem⟩

/-- A project with a library behind a link, and the output of an earlier run. -/
def linkedFiles : FileTree :=
  ⟨[(["w"], .directory), (["w", "a.c"], .file .empty), (["w", "libp.so"], .file .empty),
    (["w", "lib"], .directory), (["w", "lib", "libz.so"], .link "libz.so.1"),
    (["w", "lib", "libz.so.1"], .file .empty), (["usr"], .directory),
    (["usr", "libgomp.so"], .file .empty)], ["w"]⟩

/-- A library before its directory, files under several names, the own output and a flag without its
value. -/
def repetitiveCommand : Command where
  directory := "/w"
  executable := "gcc"
  arguments := ["-shared", "-fopenmp", "-o", "libp.so", "a.c", "-lz", "-Llib", "./a.c", "-lz",
    "lib/libz.so.1", "/w/libp.so", "gone.c", "-l"]

theorem resolve_exact_repetitive :
    ∃ r, resolve linkedFiles ["/usr"] repetitiveCommand = .ok r ∧
      r.dependencies = [⟨"/w/a.c", .source⟩, ⟨"/w/lib/libz.so.1", .shared⟩, ⟨"/usr/libgomp.so", .shared⟩] ∧
      r.problems = [.libraryNotFound "z", .selfDependency "/w/libp.so", .unresolvedInput "gone.c" .noEntry,
        .missingLibraryName, .libraryNotFound "pthread"] ∧
      ∀ d ∈ r.dependencies, ∃ p, linkedFiles.IsCanonical p ∧ p.lossy = d.path := by
  have standing : linkedFiles.Reached linkedFiles.workingDirectory :=
    (FileTree.reached_root _).concat rfl rfl (by decide +kernel)
  have recognized : repetitiveCommand.family? = some .compileLink := by decide
  have written : repetitiveCommand.output? = some "libp.so" := by decide +kernel
  have own : absoluteOutput linkedFiles "/w" "libp.so" = "/w/libp.so" := by decide +kernel
  obtain ⟨r, hr, output, type, -, -, canonical, -, dependencies, problems, -⟩ :=
    @resolve_exact linkedFiles ["/usr"] _ _ _ recognized written
  rw [output.trans own, type] at dependencies problems
  exact ⟨r, hr, dependencies.trans (by decide +kernel), problems.trans (by decide +kernel), canonical standing⟩

/-- Links to two objects.  The names of the objects are no texts. -/
def oddlyNamedFiles : FileTree :=
  ⟨[(["w"], .directory), (["w", "link.o"], .link (.ofBytes [0xFF, 0x2E, 0x6F])),
    (["w", "other.o"], .link (.ofBytes [0xFE, 0x2E, 0x6F])),
    (["w", .ofBytes [0xFF, 0x2E, 0x6F]], .file .empty), (["w", .ofBytes [0xFE, 0x2E, 0x6F]], .file .empty)],
    ["w"]⟩

/-- Two objects may be listed as one, under a path at which there is nothing, and a driver may miss
libraries that none of its arguments names. -/
theorem resolve_beyond_arguments :
    (∃ r, resolve oddlyNamedFiles [] ⟨"/w", "gcc", ["-o", "app", "link.o", "other.o"]⟩ = .ok r ∧
      r.dependencies = [⟨"/w/\uFFFD.o", .object⟩] ∧ r.problems = [] ∧
      oddlyNamedFiles.pathExists "/w/\uFFFD.o" = false) ∧
    ∃ r, resolve oddlyNamedFiles [] ⟨"/w", "gcc", ["-shared", "-fopenmp", "-o", "libx.so", "link.o"]⟩ = .ok r ∧
      r.dependencies = [⟨"/w/\uFFFD.o", .object⟩] ∧
      r.problems = [.libraryNotFound "gomp", .libraryNotFound "pthread"] :=
  ⟨⟨⟨"/w/app", .executable, [⟨"/w/\uFFFD.o", .object⟩], [], []⟩, by decide +kernel, rfl, rfl, by decide +kernel⟩,
    ⟨"/w/libx.so", .shared, [⟨"/w/\uFFFD.o", .object⟩], [], [.libraryNotFound "gomp", .libraryNotFound "pthread"]⟩,
    by decide +kernel, rfl, rfl⟩

end BuildAudit
