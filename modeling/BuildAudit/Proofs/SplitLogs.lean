import BuildAudit.Proofs.Lines
import BuildAudit.Proofs.Rehearsals

/-!
# Logs in several files

An import of several files writes each of them in a transaction of its own, and only the first one
replaces what was there before.  It leaves the same database as an import of one recording of all
entries (`importFiles_outcome`), because to import a recording in two parts is to import it as a whole
(`leaves_append`).  So it does not matter how the lines of a log are distributed over files
(`import_of_split_log`).
-/

namespace BuildAudit

open BuildAudit.Graph

/-- The entries of a log are those of its lines. -/
theorem logEntries_congr {text : String} {texts : List String} (directory : String)
    (joined : Text.lines text = texts.flatMap Text.lines) :
    logEntries text directory = (texts.map (logEntries · directory)).flatten := by
  have same : Text.linesOf text.toList = texts.flatMap fun t => Text.linesOf t.toList := by
    have parts := congrArg (List.map String.toList) joined
    simpa [Text.lines, List.map_flatMap, Function.comp_def] using parts
  simp only [logEntries, same, List.map_flatMap, List.filter_flatMap, ← List.flatMap_def]

namespace CommandLine

variable {w : Workspace} {m : ImportMode}

/-! ## Recordings in two parts -/

/-- What an import that is no rehearsal leaves of a graph. -/
theorem leaves_eq (m : ImportMode) (replace : Bool) (g : Graph) (entries : List RecordedEntry) :
    ImportMode.leaves { m with options := ⟨false, replace⟩ } g entries =
      { (g.base replace).absorb (verdictsOf entries) with
        stamps :=
          if ((g.base replace).tally (verdictsOf entries)).imported > 0 ∨ replace then
            g.stamps.set .importCommands (.ofInstant m.now)
          else g.stamps } := by
  rw [ImportMode.leaves, importEntries_eq, ← (g.sameRest_base replace).2.2.2]
  exact ImportOptions.finish_eq _ _ _ _

/-- Recording a time twice in a row, or not at all, is recording it once if either is due. -/
theorem stamps_append (stamps : Stamps) (now : Instant) (first second : Nat) (replace : Bool) :
    (let between := if first > 0 ∨ replace then stamps.set .importCommands (.ofInstant now) else stamps
      if second > 0 then between.set .importCommands (.ofInstant now) else between) =
    if first + second > 0 ∨ replace then stamps.set .importCommands (.ofInstant now) else stamps := by
  have again : (stamps.set .importCommands (.ofInstant now)).set .importCommands (.ofInstant now) =
      stamps.set .importCommands (.ofInstant now) := rfl
  by_cases due : first > 0 ∨ replace
  · have total : first + second > 0 ∨ replace := due.imp_left fun _ => by omega
    simp only [if_pos due, if_pos total, again, ite_self]
  · have none : first = 0 ∧ replace = false := by simpa using due
    simp [none]

/-- To import a recording in two parts is to import it as a whole. -/
theorem leaves_append (m : ImportMode) (replace : Bool) (g : Graph) (entries later : List RecordedEntry) :
    ImportMode.leaves { m with options := ⟨false, false⟩ }
        (ImportMode.leaves { m with options := ⟨false, replace⟩ } g entries) later =
      ImportMode.leaves { m with options := ⟨false, replace⟩ } g (entries ++ later) := by
  have verdicts : verdictsOf (entries ++ later) = verdictsOf entries ++ verdictsOf later :=
    List.map_append
  have counted := tally_congr (commands_leaves m replace g entries) (verdictsOf later)
  have stamps := stamps_append g.stamps m.now ((g.base replace).tally (verdictsOf entries)).imported
    (((g.base replace).absorb (verdictsOf entries)).tally (verdictsOf later)).imported replace
  rw [leaves_eq m false, base_false, counted, leaves_eq m replace g, leaves_eq m replace g, verdicts,
    tally_append, absorb_append, ImportReport.merge, ← stamps]
  simp only [Bool.false_eq_true, or_false]
  rfl

/-- To import nothing after what has been imported changes nothing. -/
theorem leaves_nil (m : ImportMode) (g : Graph) :
    ImportMode.leaves { m with options := ⟨false, false⟩ } g [] = g := by
  rw [leaves_eq]
  simp [verdictsOf, absorb, tally, newKeys, distinctFrom]

/-! ## Files one after the other -/

/-- An import in parts writes something if a part of it does. -/
theorem writes_merge (a b : ImportReport) (replace : Bool) :
    (a.merge b).writes ⟨false, replace⟩ = (a.writes ⟨false, replace⟩ || b.writes ⟨false, false⟩) := by
  rw [Bool.eq_iff_iff]
  by_cases due : replace = true
  · simp [ImportReport.writes, due]
  · simp [ImportReport.writes, ImportReport.merge, due]
    omega

section Files

variable {g : Graph} {place? : Option Workspace.Place} {files : FileTree} {paths : List String}
  {recordings : List (List RecordedEntry)}

/-- Saving to a database does not change how the files are read. -/
theorem Workspace.Holds.files_save (held : w.Holds ⟨{ graph := g }, place?⟩) (g' : Graph) :
    (w.save place? { graph := g' }).files = w.files :=
  (w.files_save place? _ _).trans (congrArg Workspace.files held.saved)

theorem Workspace.holds_save (w : Workspace) (place? : Option Workspace.Place) (g : Graph) :
    (w.save place? { graph := g }).Holds ⟨{ graph := g }, place?⟩ :=
  ⟨w.save_save place? _ _, rfl⟩

/-- An import of several files leaves what an import of all their entries as one recording leaves, and
reports the same. -/
theorem importFiles_outcome (m : ImportMode) (held : w.Holds ⟨{ graph := g }, place?⟩)
    (here : w.files = files)
    (reads : List.Forall₂ (fun path entries => m.recordingAt files path = .ok entries) paths recordings)
    (replace : Bool) (some : replace → paths ≠ []) (before : ImportReport)
    (allowed : place?.any (·.readOnly) → (g.total replace recordings).writes ⟨false, replace⟩ = false) :
    (importFiles { m with options := ⟨false, replace⟩ } before ⟨{ graph := g }, place?⟩ paths).outcome w =
      (.ok (before.merge (g.total replace recordings)), w.save place?
        { graph := ImportMode.leaves { m with options := ⟨false, replace⟩ } g recordings.flatten }) := by
  induction reads generalizing w g replace before with
  | nil =>
    obtain rfl : replace = false := by simpa using some
    rw [List.flatten_nil, leaves_nil, held.saved]
    rfl
  | @cons path entries paths recordings read reads ih =>
    have first := importFile_outcome { m with options := ⟨false, replace⟩ } path held
    have same : ImportMode.recordingAt { m with options := ⟨false, replace⟩ } w.files path = .ok entries :=
      here ▸ read
    have total : g.total replace (entries :: recordings) = _ :=
      total_cons (commands_leaves m replace g entries)
    rw [total, writes_merge, Bool.or_eq_false_iff] at allowed
    rw [same] at first
    dsimp only at first
    rw [if_neg (by simpa [Workspace.Handle.isReadOnly] using fun readOnly => (allowed readOnly).1)] at first
    have rest := ih (w.holds_save place? _) ((held.files_save _).trans here) false
      (absurd · Bool.false_ne_true) (before.merge ((g.base replace).tally (verdictsOf entries)))
      fun readOnly => (allowed readOnly).2
    rw [importFiles, Run.outcome_bind, first]
    refine rest.trans ?_
    rw [w.save_save, leaves_append, total, ImportReport.merge_assoc, List.flatten_cons]

/-- An import of several files into a database that can only be read fails at the first one with a
command, or that replaces. -/
theorem importFiles_refused (m : ImportMode) (held : w.Holds ⟨{ graph := g }, place?⟩)
    (here : w.files = files)
    (reads : List.Forall₂ (fun path entries => m.recordingAt files path = .ok entries) paths recordings)
    (replace : Bool) (some : replace → paths ≠ []) (before : ImportReport)
    (readOnly : place?.any (·.readOnly))
    (writes : (g.total replace recordings).writes ⟨false, replace⟩) :
    ∃ path ∈ paths,
      (importFiles { m with options := ⟨false, replace⟩ } before ⟨{ graph := g }, place?⟩ paths).outcome w =
        (.error (.failure (importFailure path (.store .readOnly))), w) := by
  induction reads generalizing w g replace before with
  | nil =>
    obtain rfl : replace = false := by simpa using some
    simp [total, verdictsOf, tally, newKeys, distinctFrom, ImportReport.writes] at writes
  | @cons path entries paths recordings read reads ih =>
    have first := importFile_outcome { m with options := ⟨false, replace⟩ } path held
    have same : ImportMode.recordingAt { m with options := ⟨false, replace⟩ } w.files path = .ok entries :=
      here ▸ read
    rw [same] at first
    dsimp only at first
    have total : g.total replace (entries :: recordings) = _ :=
      total_cons (commands_leaves m replace g entries)
    rw [total, writes_merge] at writes
    have unsaved (g' : Graph) : w.save place? { graph := g' } = w := by
      rcases place? with _ | place
      · rfl
      · exact if_pos readOnly
    rw [importFiles, Run.outcome_bind, first]
    by_cases due : ((g.base replace).tally (verdictsOf entries)).writes ⟨false, replace⟩
    · have refused : Workspace.Handle.isReadOnly ⟨{ graph := g }, place?⟩ := readOnly
      exact ⟨path, List.mem_cons_self, by rw [if_pos (by simp [refused, due])]⟩
    · simp only [due, Bool.and_false, Bool.false_eq_true, if_false]
      obtain ⟨path', member, refused⟩ := ih (w.holds_save place? _) ((held.files_save _).trans here) false
        (absurd · Bool.false_ne_true) (before.merge ((g.base replace).tally (verdictsOf entries)))
        (by simpa [due] using writes)
      exact ⟨path', List.mem_cons_of_mem _ member, by rw [refused, unsaved]⟩

end Files

/-- A file that is a text holds the recording of its lines. -/
theorem recordingAt_of_readText {files : FileTree} {path text : String} (m : ImportMode)
    (read : files.readText path = .ok text) :
    ImportMode.recordingAt { m with json := false } files path = .ok (logEntries text m.directory) := by
  unfold FileTree.readText at read
  rcases contents : files.read path with e | contents <;> rw [contents] at read
  · cases read
  have located : ∃ l, files.locate path = .ok l := by
    unfold FileTree.read at contents
    rcases hl : files.locate path with e | l <;> rw [hl] at contents
    · cases contents
    · exact ⟨l, rfl⟩
  obtain ⟨l, located⟩ := located
  simp only [ImportMode.recordingAt, located, contents, ImportMode.entriesOf, read]
  rfl

/-- An import of files, of which only the first one replaces, and one import of a log with all their
lines into the same database: the reports are the same, and so is all that is left, also the time of
the import, which both record if they replace or have imported something.  In a database that can only
be read, both write nothing. -/
theorem import_of_split_log (around : Surroundings) (s : Settings) (database : String) (replace : Bool)
    (directory? : Option String) {file : String} {files : List String} {w w' : Workspace}
    {h : Workspace.Handle} (opened : (openStore database true).outcome w = (.ok h, w'))
    {texts : List String}
    (reads : List.Forall₂ (fun path text => w'.files.readText path = .ok text) (file :: files) texts)
    {log : ByteArray} {text : String} (readable : FileTree.textOf log = .ok text)
    (joined : Text.lines text = texts.flatMap Text.lines) :
    let directory := directory?.getD w.files.workingDirectory.path
    let result := Run.outcome (perform around s database
      (.importFiles false ⟨false, replace⟩ directory? (file :: files))) w
    ∃ report left, importLog h.store log directory ⟨false, replace⟩ around.now = (.ok report, left) ∧
      left.graph.stamps = (if report.imported > 0 ∨ replace then
        h.store.graph.stamps.set .importCommands (.ofInstant around.now) else h.store.graph.stamps) ∧
      if h.isReadOnly ∧ report.writes ⟨false, replace⟩ then
        ∃ path ∈ file :: files, result = (.error (.failure (importFailure path (.store .readOnly))), w')
      else result = (.ok [importLine report], w'.save h.place? left) := by
  intro directory result
  let m : ImportMode := ⟨false, ⟨false, replace⟩, directory, around.now⟩
  have held := holds_openStore opened
  obtain ⟨g, place?, rfl⟩ : ∃ g place?, h = ⟨{ graph := g }, place?⟩ :=
    ⟨h.store.graph, h.place?, by rw [← Store.eq_of_closed held.closed]⟩
  have recordings : List.Forall₂ (fun path entries => m.recordingAt w'.files path = .ok entries)
      (file :: files) (texts.map (logEntries · directory)) := by
    rw [List.forall₂_map_right_iff]
    exact reads.imp fun _ _ read => recordingAt_of_readText m read
  have entries := logEntries_congr directory joined
  have single : importLog { graph := g } log directory ⟨false, replace⟩ around.now =
      (.ok (g.total replace (texts.map (logEntries · directory))),
        { graph := m.leaves g (texts.map (logEntries · directory)).flatten }) := by
    rw [importLog, readable, total, ← entries]
    simp only [ImportMode.leaves, importEntries_eq]
    rfl
  refine ⟨_, _, single, ?_, ?_⟩
  · rw [show m.leaves g _ = _ from leaves_eq m replace g _]
    rfl
  · have all : result = _ := (perform_importFiles around s database false ⟨false, replace⟩ directory?
      (file :: files) w).trans (importAll_outcome _ database file files around.input w)
    rw [opened] at all
    dsimp only at all
    have some : replace → file :: files ≠ [] := fun _ => List.cons_ne_nil file files
    split_ifs with refused
    · obtain ⟨path, member, failed⟩ := importFiles_refused m held rfl recordings replace some {}
        refused.1 refused.2
      refine ⟨path, member, all.trans ?_⟩
      rw [show Run.outcome (importFiles m {} _ _) w' = _ from failed]
    · have done := importFiles_outcome m held rfl recordings replace some {} fun readOnly =>
        Bool.eq_false_iff.2 fun writes => refused ⟨readOnly, writes⟩
      refine all.trans ?_
      rw [show Run.outcome (importFiles m {} _ _) w' = _ from done, ImportReport.empty_merge]

/-- A database with a command and its artifact, and two logs with a new command in common, the second of
which does not end its last line. -/
def divided : Workspace :=
  Workspace.put
    { files :=
        { entries := [(["w"], .directory),
            (["w", "a.log"], .file "# objects\ngcc -c -o b.o b.c\n".toUTF8),
            (["w", "b.log"], .file "make all\ngcc -c -o a.o a.c\ngcc -c -o b.o b.c".toUTF8)]
          workingPath := ["w"] } }
    ["w", "build.db"] true stocked

/-- The lines of the two logs. -/
def undivided : String :=
  "# objects\ngcc -c -o b.o b.c" ++ "\n" ++ "make all\ngcc -c -o a.o a.c\ngcc -c -o b.o b.c"

/-- What replacing its command by the two logs leaves. -/
def reunited : Graph where
  commands := [⟨1, "/w", "gcc", "-c -o b.o b.c"⟩, ⟨2, "/w", "gcc", "-c -o a.o a.c"⟩]
  artifacts := [⟨1, "/w/a.o", .object, none⟩]
  stamps := { importCommands := some (.at ⟨1, 0⟩) }

/-- The logs replace the old command, and the common one is stored once. -/
theorem import_of_split_log_divided :
    ∃ w' place, (openStore "build.db" true).outcome divided = (.ok ⟨stocked, some place⟩, w') ∧
      Run.outcome (perform bareSurroundings {} "build.db"
        (.importFiles false ⟨false, true⟩ none ["a.log", "b.log"])) divided =
        (.ok ["Imported 2 commands (1 already present, 1 skipped, 0 failed)"],
          w'.save (some place) { graph := reunited }) := by
  have handle : ((openStore "build.db" true).outcome divided).1 =
      .ok ⟨stocked, some { location := ["w", "build.db"] }⟩ := by
    decide +kernel
  have opened := Prod.ext handle (rfl : _ = ((openStore "build.db" true).outcome divided).2)
  have first : ((openStore "build.db" true).outcome divided).2.files.readText "a.log" =
      .ok ("# objects\ngcc -c -o b.o b.c" ++ "\n") := by
    decide +kernel
  have second : ((openStore "build.db" true).outcome divided).2.files.readText "b.log" =
      .ok "make all\ngcc -c -o a.o a.c\ngcc -c -o b.o b.c" := by
    decide +kernel
  have readable : FileTree.textOf undivided.toUTF8 = .ok undivided := by decide +kernel
  obtain ⟨report, left, single, -, result⟩ := import_of_split_log bareSurroundings {} "build.db" true none
    opened (.cons first (.cons second .nil)) readable ((Text.lines_append _ _).trans (by simp))
  have total : importLog stocked undivided.toUTF8 "/w" ⟨false, true⟩ ⟨1, 0⟩ =
      (.ok ⟨2, 1, 1, 0⟩, { graph := reunited }) := by
    decide +kernel
  cases single.symm.trans total
  rw [if_neg (by decide)] at result
  exact ⟨_, _, opened, result⟩

end CommandLine

end BuildAudit
