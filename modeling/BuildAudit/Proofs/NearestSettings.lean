import BuildAudit.Config
import BuildAudit.Proofs.Paths

/-!
# The nearest settings

Settings are looked for on the way up from a directory, by text alone.  The parent of a path is a shorter
beginning of it (`Path.parent?_prefix`), so the way up ends, and the directories on it are those that
`Path.above?` counts (`Path.getElem?_ancestors`).  The first of them with a file of settings decides,
whether that file can be loaded or not (`Config.find_eq_iff`).
-/

namespace BuildAudit

namespace Path

variable {p q : String}

/-! ## Parents -/

/-- The characters of segments with slashes between them. -/
def charsOf (segs : List String) : List Char := ['/'].intercalate (segs.map String.toList)

theorem toList_intercalate (segs : List String) : ("/".intercalate segs).toList = charsOf segs :=
  String.toList_intercalate

theorem charsOf_append {front back : List String} (hfront : front ≠ []) (hback : back ≠ []) :
    charsOf (front ++ back) = charsOf front ++ '/' :: charsOf back := by
  induction front with
  | nil => exact absurd rfl hfront
  | cons first front ih =>
    rcases front with _ | ⟨next, front⟩
    · simp [charsOf, List.intercalate_cons_of_ne_nil, hback]
    · have rest := ih (List.cons_ne_nil next front)
      simp only [charsOf, List.cons_append, List.map_cons, List.intercalate_cons_cons] at rest ⊢
      rw [rest]
      simp

/-- Leaving out segments at the end makes the text shorter. -/
theorem charsOf_prefix {front back : List String} (hback : back ≠ []) (some : charsOf (front ++ back) ≠ []) :
    charsOf front <+: charsOf (front ++ back) ∧ charsOf front ≠ charsOf (front ++ back) := by
  rcases front with _ | ⟨first, front⟩
  · exact ⟨List.nil_prefix, some.symm⟩
  · rw [charsOf_append (List.cons_ne_nil first front) hback]
    exact ⟨List.prefix_append _ _, by simp⟩

/-- The text before the segments. -/
def rootOf (p : String) : String := if isAbsolute p then "/" else ""

/-- A path is its root and its segments, of which some at the end may be idle. -/
theorem exists_segments (p : String) :
    ∃ segs, body p = trimIdle (isAbsolute p) segs ∧ p.toList = (rootOf p).toList ++ charsOf segs := by
  have whole : charsOf (segments p) = p.toList := by
    have pieces : (segments p).map String.toList = p.toList.splitOn '/' := by simp [segments]
    rw [charsOf, pieces]
    exact List.intercalate_splitOn '/'
  by_cases absolute : isAbsolute p
  · obtain ⟨next, rest, split⟩ := isAbsolute_iff.1 absolute
    refine ⟨next :: rest, by simp [body, absolute, split], ?_⟩
    rw [← whole, split, charsOf, List.map_cons, List.map_cons, List.intercalate_cons_cons, rootOf,
      if_pos absolute]
    rfl
  · rw [Bool.not_eq_true] at absolute
    exact ⟨segments p, by simp [body, absolute], by simp [rootOf, absolute, whole]⟩

theorem parent?_eq_some_iff : parent? p = some q ↔ body p ≠ [] ∧
    q = rootOf p ++ "/".intercalate (trimIdle (isAbsolute p) (body p).dropLast) := by
  unfold parent? rootOf
  by_cases none : body p = []
  · simp [none]
  · simpa [none] using eq_comm

/-- Without characters there is nothing but idle segments. -/
theorem trimIdle_of_charsOf_eq_nil (absolute : Bool) {segs : List String} (none : charsOf segs = []) :
    trimIdle absolute segs = [] := by
  rcases segs with _ | ⟨first, _ | ⟨next, rest⟩⟩
  · cases absolute <;> rfl
  · obtain rfl : first = "" := by simpa [charsOf] using none
    cases absolute <;> rfl
  · simp [charsOf] at none

/-- The parent of a path is a beginning of it, and not all of it. -/
theorem parent?_prefix (h : parent? p = some q) : q.toList <+: p.toList ∧ q ≠ p := by
  obtain ⟨some, rfl⟩ := parent?_eq_some_iff.1 h
  obtain ⟨segs, hbody, hp⟩ := exists_segments p
  rw [hbody] at some ⊢
  obtain ⟨idles, hsegs, -⟩ := exists_trimIdle (isAbsolute p) segs
  obtain ⟨init, last, hinit⟩ := (List.eq_nil_or_concat' _).resolve_left some
  obtain ⟨idles', hkept, -⟩ := exists_trimIdle (isAbsolute p) init
  have cut : segs = trimIdle (isAbsolute p) init ++ (idles' ++ last :: idles) := by
    rw [hinit] at hsegs
    rw [← List.append_assoc, ← hkept, hsegs, List.append_assoc, List.singleton_append]
  have chars : charsOf segs ≠ [] := fun none => some (trimIdle_of_charsOf_eq_nil _ none)
  obtain ⟨begins, shorter⟩ := charsOf_prefix (List.append_ne_nil_of_right_ne_nil _ (by simp)) (cut ▸ chars)
  rw [hinit, List.dropLast_concat, Ne, ← String.toList_inj, String.toList_append, toList_intercalate, hp, cut]
  exact ⟨(List.prefix_append_right_inj _).2 begins, fun same => shorter (List.append_cancel_left same)⟩

/-! ## The way up -/

/-- The path so many levels above another, by text alone. -/
def above? : Nat → String → Option String
  | 0, p => some p
  | level + 1, p => (parent? p).bind (above? level)

theorem length_lt_of_parent? (h : parent? p = some q) : q.length < p.length := by
  obtain ⟨begins, differs⟩ := parent?_prefix h
  refine Nat.lt_of_le_of_ne begins.length_le fun same => differs ?_
  exact String.toList_inj.1 (begins.eq_of_length same)

theorem getElem?_go {n : Nat} (fits : p.length ≤ n) (level : Nat) :
    (ancestors.go n p)[level]? = above? level p := by
  induction n generalizing p level with
  | zero =>
    have top : parent? p = none := Option.eq_none_iff_forall_ne_some.2 fun q h => by
      have := length_lt_of_parent? h
      omega
    cases level <;> simp [ancestors.go, above?, top]
  | succ n ih =>
    rcases h : parent? p with _ | q
    · cases level <;> simp [ancestors.go, above?, h]
    · have shorter := length_lt_of_parent? h
      cases level with
      | zero => simp [ancestors.go, above?, h]
      | succ level => simp [ancestors.go, above?, h, ih (p := q) (by omega)]

/-- The way up is followed to its end. -/
theorem getElem?_ancestors (p : String) (level : Nat) : (ancestors p)[level]? = above? level p :=
  getElem?_go (Nat.le_refl _) level

theorem length_go_le (n : Nat) (p : String) : (ancestors.go n p).length ≤ n + 1 := by
  induction n generalizing p with
  | zero => simp [ancestors.go]
  | succ n ih =>
    rcases h : parent? p with _ | q
    · simp [ancestors.go, h]
    · simpa [ancestors.go, h] using ih q

theorem length_ancestors_le (p : String) : (ancestors p).length ≤ p.length + 1 := length_go_le _ p

theorem isSome_above?_iff {level : Nat} : (above? level p).isSome ↔ level < (ancestors p).length := by
  rw [← getElem?_ancestors, isSome_getElem?]

theorem above?_succ {level : Nat} {start : String} (h : above? level start = some p) :
    above? (level + 1) start = parent? p := by
  induction level generalizing start with
  | zero =>
    obtain rfl : start = p := Option.some.inj h
    simp [above?]
  | succ level ih =>
    obtain ⟨next, up, h⟩ := Option.bind_eq_some_iff.1 h
    rw [above?, up, Option.bind_some, ih h]

end Path

namespace Config

variable {files : FileTree} {start directory : String} {level : Nat}
  {outcome : Except LoadError (Option (Config × String))}

/-! ## Settings in a directory -/

/-- The file of settings in the data directory of a directory. -/
def settingsFile (directory : String) : String := Path.join (Path.join directory dataDirectory) fileName

/-- What looking for settings gives if the file of a directory decides. -/
inductive Gives (files : FileTree) (directory : String) :
    Except LoadError (Option (Config × String)) → Prop
  | unreadable {cause : FileTree.TextError} : files.readText (settingsFile directory) = .error cause →
      Gives files directory (.error (.unreadable (settingsFile directory) cause))
  | malformed {text : String} : files.readText (settingsFile directory) = .ok text → ofText? text = none →
      Gives files directory (.error (.malformed (settingsFile directory)))
  | settings {text : String} {config : Config} : files.readText (settingsFile directory) = .ok text →
      ofText? text = some config →
      Gives files directory (.ok (some (config, Path.join directory dataDirectory)))

theorem gives_iff : Gives files directory outcome ↔ (load files (settingsFile directory)).map
    (fun config => some (config, Path.join directory dataDirectory)) = outcome := by
  unfold load
  constructor
  · rintro (read | ⟨read, parsed⟩ | ⟨read, parsed⟩) <;> simp [*, Except.map]
  · rintro rfl
    split
    · exact .unreadable ‹_›
    · split
      · exact .settings ‹_› ‹_›
      · exact .malformed ‹_› ‹_›

/-! ## The nearest directory -/

/-- The directory so many levels up has a file of settings, and no nearer one has. -/
structure IsNearest (files : FileTree) (start : String) (level : Nat) (directory : String) : Prop where
  above : Path.above? level start = some directory
  has : files.pathExists (settingsFile directory)
  first : ∀ nearer < level, ∀ d, Path.above? nearer start = some d →
    files.pathExists (settingsFile d) = false

/-- The first directory on the way up with a file of settings. -/
def nearest? (files : FileTree) (start : String) : Option String :=
  (Path.ancestors start).find? fun d => files.pathExists (settingsFile d)

theorem nearest?_eq_some_iff : nearest? files start = some directory ↔
    ∃ level, IsNearest files start level directory := by
  rw [nearest?, List.find?_eq_some_iff_getElem]
  constructor
  · rintro ⟨has, level, inside, rfl, first⟩
    refine ⟨level, ?_, has, fun nearer hnearer d hd => ?_⟩
    · rw [← Path.getElem?_ancestors, List.getElem?_eq_getElem inside]
    · rw [← Path.getElem?_ancestors, List.getElem?_eq_getElem (Nat.lt_trans hnearer inside)] at hd
      simpa [← Option.some.inj hd] using first nearer hnearer
  · rintro ⟨level, above, has, first⟩
    rw [← Path.getElem?_ancestors] at above
    obtain ⟨inside, here⟩ := List.getElem?_eq_some_iff.1 above
    refine ⟨has, level, inside, here, fun nearer hnearer => ?_⟩
    rw [Bool.not_eq_true']
    exact first nearer hnearer _ (by rw [← Path.getElem?_ancestors, List.getElem?_eq_getElem])

theorem nearest?_eq_none_iff : nearest? files start = none ↔
    ∀ level d, Path.above? level start = some d → files.pathExists (settingsFile d) = false := by
  rw [nearest?, List.find?_eq_none]
  constructor
  · intro h level d hd
    rw [← Path.getElem?_ancestors] at hd
    simpa using h d (List.mem_of_getElem? hd)
  · intro h d hd
    obtain ⟨level, hlevel⟩ := List.getElem?_of_mem hd
    simp [h level d (by rw [← Path.getElem?_ancestors, hlevel])]

theorem find_eq : find files start =
    match nearest? files start with
    | none => .ok none
    | some d => (load files (settingsFile d)).map fun config => some (config, Path.join d dataDirectory) := by
  have same : ((Path.ancestors start).map (Path.join · dataDirectory)).find?
      (fun d => files.pathExists (Path.join d fileName)) = (nearest? files start).map (Path.join · dataDirectory) :=
    List.find?_map
  simp only [find, same]
  cases nearest? files start <;> rfl

/-- Without a file of settings on the way up there are no settings.  Otherwise the nearest one decides. -/
theorem find_eq_iff : find files start = outcome ↔
    (∃ level directory, IsNearest files start level directory ∧ Gives files directory outcome) ∨
      (outcome = .ok none ∧
        ∀ level d, Path.above? level start = some d → files.pathExists (settingsFile d) = false) := by
  rw [find_eq]
  rcases h : nearest? files start with _ | d
  · have nowhere := nearest?_eq_none_iff.1 h
    refine ⟨fun same => .inr ⟨same.symm, nowhere⟩, ?_⟩
    rintro (⟨level, directory, nearest, -⟩ | ⟨rfl, -⟩)
    · have := nearest?_eq_some_iff.2 ⟨level, nearest⟩
      simp [h] at this
    · rfl
  · obtain ⟨level, nearest⟩ := nearest?_eq_some_iff.1 h
    refine ⟨fun same => .inl ⟨level, d, nearest, gives_iff.2 same⟩, ?_⟩
    rintro (⟨level', directory, nearest', gives⟩ | ⟨-, nowhere⟩)
    · have := nearest?_eq_some_iff.2 ⟨level', nearest'⟩
      obtain rfl : d = directory := Option.some.inj (h.symm.trans this)
      exact gives_iff.1 gives
    · have := nearest.has
      simp [nowhere level d nearest.above] at this

/-- The file trees agree on which directories up to some level have settings. -/
def AgreeUpTo (files files' : FileTree) (start : String) (level : Nat) : Prop :=
  ∀ nearer ≤ level, ∀ d, Path.above? nearer start = some d →
    files'.pathExists (settingsFile d) = files.pathExists (settingsFile d)

theorem IsNearest.of_agree {files' : FileTree} (nearest : IsNearest files start level directory)
    (agree : AgreeUpTo files files' start level) : IsNearest files' start level directory where
  above := nearest.above
  has := by rw [agree level (Nat.le_refl level) directory nearest.above, nearest.has]
  first := fun nearer h d hd => by
    rw [agree nearer (Nat.le_of_lt h) d hd, nearest.first nearer h d hd]

/-- What is farther away does not matter. -/
theorem find_congr {files' : FileTree} (nearest : IsNearest files start level directory)
    (agree : AgreeUpTo files files' start level)
    (same : files'.readText (settingsFile directory) = files.readText (settingsFile directory)) :
    find files' start = find files start := by
  have here := nearest?_eq_some_iff.2 ⟨level, nearest⟩
  have there := nearest?_eq_some_iff.2 ⟨level, nearest.of_agree agree⟩
  simp only [find_eq, here, there, load, same]

/-- Settings are looked for in a directory and then in those above it, each of which is a shorter beginning of
the one before, until there is none above.  The first directory with a file of settings decides alone:
its settings are found, or the file cannot be read or parsed, whatever there is farther up.  There are no
settings only if no directory on the way has the file. -/
theorem find_nearest (files : FileTree) (start : String) :
    (∃ count ≤ start.length + 1, ∀ level, (Path.above? level start).isSome ↔ level < count) ∧
    (∀ level p q, Path.above? level start = some p → Path.above? (level + 1) start = some q →
      Path.parent? p = some q ∧ q.toList <+: p.toList ∧ q ≠ p) ∧
    (∀ outcome, find files start = outcome ↔
      (∃ level directory, IsNearest files start level directory ∧ Gives files directory outcome) ∨
        (outcome = .ok none ∧
          ∀ level d, Path.above? level start = some d → files.pathExists (settingsFile d) = false)) ∧
    ∀ level directory files', IsNearest files start level directory → AgreeUpTo files files' start level →
      files'.readText (settingsFile directory) = files.readText (settingsFile directory) →
      find files' start = find files start := by
  refine ⟨⟨_, Path.length_ancestors_le start, fun level => Path.isSome_above?_iff⟩,
    fun level p q here up => ?_, fun outcome => find_eq_iff, fun _ _ _ => find_congr⟩
  have parent : Path.parent? p = some q := Path.above?_succ here ▸ up
  exact ⟨parent, Path.parent?_prefix parent⟩

/-- A project that has a directory in place of its file of settings. -/
def spoilt : FileTree where
  entries := [(["w"], .directory), (["w", "app"], .directory), (["w", "app", "src"], .directory),
    (["w", "app", ".linkmap"], .directory), (["w", "app", ".linkmap", "config.toml"], .directory)]

/-- The same within a project that has settings. -/
def spoiltWithin : FileTree where
  entries := (["w", ".linkmap"], .directory) ::
    (["w", ".linkmap", "config.toml"], .file ByteArray.empty) :: spoilt.entries

/-- The settings around a project do not stand in for its own. -/
theorem find_nearest_spoilt :
    (IsNearest spoiltWithin "/w/app/src/." 1 "/w/app" ∧ AgreeUpTo spoiltWithin spoilt "/w/app/src/." 1) ∧
      find spoiltWithin "/w/app/src/." =
        .error (.unreadable "/w/app/.linkmap/config.toml" (.file .isDirectory)) ∧
      find spoilt "/w/app/src/." = find spoiltWithin "/w/app/src/." := by
  have above : Path.above? 1 "/w/app/src/." = some "/w/app" := by decide
  have nearest : IsNearest spoiltWithin "/w/app/src/." 1 "/w/app" := ⟨above, by decide, by decide⟩
  have agree : AgreeUpTo spoiltWithin spoilt "/w/app/src/." 1 := by
    unfold AgreeUpTo
    decide
  have read : spoiltWithin.readText (settingsFile "/w/app") = .error (.file .isDirectory) := by decide
  obtain ⟨-, -, exact, farther⟩ := find_nearest spoiltWithin "/w/app/src/."
  refine ⟨⟨nearest, agree⟩, (exact _).2 (.inl ⟨1, _, nearest, .unreadable read⟩), ?_⟩
  exact farther 1 "/w/app" spoilt nearest agree (by decide)

end Config

end BuildAudit
