import Mathlib.Algebra.GroupWithZero.Nat
import BuildAudit.Proofs.ImportOutcome
import BuildAudit.Proofs.OpenDatabases

/-!
# Rehearsed imports

The program imports files one after the other, and a rehearsal undoes each of them before it reads the
next one.  So every file is judged against the database of before (`Graph.foretold`), whereas an import
that is kept judges it against what the files before it have left, which is the same as one recording of
all entries (`importFiles_lockstep`).  Both agree on a single file, and disagree as soon as two files have a
new command in common (`rehearsal_compared`).
-/

namespace BuildAudit

open BuildAudit.Graph

/-! ## Counting new commands -/

section Counting

variable {α : Type} [DecidableEq α]

/-- With more of them seen, fewer elements are left, and as many only if none of those is in the list. -/
theorem length_distinctFrom_mono {seen seen' : List α} (more : seen ⊆ seen') (xs : List α) :
    (distinctFrom seen' xs).length ≤ (distinctFrom seen xs).length ∧
      ((distinctFrom seen' xs).length = (distinctFrom seen xs).length ↔
        ∀ x ∈ xs, x ∈ seen' → x ∈ seen) := by
  have perm : (distinctFrom seen' xs).Perm ((distinctFrom seen xs).filter (· ∉ seen')) := by
    rw [List.perm_ext_iff_of_nodup (nodup_distinctFrom _ _) ((nodup_distinctFrom _ _).filter _)]
    intro x
    simp only [mem_distinctFrom, List.mem_filter, decide_eq_true_eq]
    exact ⟨fun h => ⟨⟨h.1, fun old => h.2 (more old)⟩, h.2⟩, fun h => ⟨h.1.1, h.2⟩⟩
  rw [perm.length_eq]
  refine ⟨List.length_filter_le _ _, ?_⟩
  rw [List.length_filter_eq_length_iff]
  simp only [mem_distinctFrom, decide_eq_true_eq]
  exact forall_congr' fun x => by tauto

/-- How many elements of each list are not in `seen`, added up. -/
def countEach (seen : List α) (lists : List (List α)) : Nat :=
  (lists.map fun xs => (distinctFrom seen xs).length).sum

/-- Counted list by list there are no fewer elements than counted together, and more if two lists have
one in common. -/
theorem length_distinctFrom_flatten (seen : List α) (lists : List (List α)) :
    (distinctFrom seen lists.flatten).length ≤ countEach seen lists ∧
      (countEach seen lists = (distinctFrom seen lists.flatten).length ↔
        lists.Pairwise fun xs ys => ∀ x ∈ xs, x ∈ ys → x ∈ seen) := by
  induction lists with
  | nil => simp [countEach, distinctFrom]
  | cons xs lists ih =>
    obtain ⟨fewer, same⟩ := length_distinctFrom_mono
      (List.subset_append_left seen (distinctFrom seen xs)) lists.flatten
    have disjoint : (∀ x ∈ lists.flatten, x ∈ seen ++ distinctFrom seen xs → x ∈ seen) ↔
        ∀ ys ∈ lists, ∀ x ∈ xs, x ∈ ys → x ∈ seen := by
      simp only [List.mem_flatten, List.mem_append, mem_distinctFrom]
      constructor
      · intro h ys hys x hx hy
        by_contra new
        exact new (h x ⟨ys, hys, hy⟩ (.inr ⟨hx, new⟩))
      · rintro h x ⟨ys, hys, hy⟩ (old | ⟨hx, -⟩)
        · exact old
        · exact h ys hys x hx hy
    have each : countEach seen (xs :: lists) = (distinctFrom seen xs).length + countEach seen lists :=
      rfl
    rw [List.flatten_cons, distinctFrom_append, List.length_append, List.pairwise_cons, ← disjoint,
      ← same, ← ih.2, each]
    have atMost := ih.1
    constructor
    · omega
    · omega

end Counting

/-! ## Reports -/

/-- What the accepted entries of a recording store. -/
def keysOf (entries : List RecordedEntry) : List CommandKey := acceptedKeys (verdictsOf entries)

theorem keysOf_flatten (recordings : List (List RecordedEntry)) :
    keysOf recordings.flatten = (recordings.map keysOf).flatten := by
  induction recordings with
  | nil => rfl
  | cons entries recordings ih =>
    rw [List.flatten_cons, keysOf, verdictsOf, List.map_append, acceptedKeys_append, List.map_cons,
      List.flatten_cons, ← ih]
    rfl

/-- The report on recordings that are imported one after the other, if each is undone before the next
one. -/
def Graph.foretold (g : Graph) (replace : Bool) : List (List RecordedEntry) → ImportReport
  | [] => {}
  | entries :: later =>
    ((g.base replace).tally (verdictsOf entries)).merge (g.foretold false later)

/-- The report on recordings that are imported one after the other. -/
def Graph.total (g : Graph) (replace : Bool) (recordings : List (List RecordedEntry)) : ImportReport :=
  (g.base replace).tally (verdictsOf recordings.flatten)

/-- How the report on recordings that are undone one by one relates to the report on those that are
kept. -/
structure Foretells (g : Graph) (replace : Bool) (recordings : List (List RecordedEntry))
    (foretold total : ImportReport) : Prop where
  skipped : foretold.skipped = total.skipped
  failed : foretold.failed = total.failed
  accepted : foretold.imported + foretold.existing = total.imported + total.existing
  /-- What is kept is counted once. -/
  stored : total.imported =
    (distinctFrom ((g.kept replace).map CommandRecord.key) (recordings.flatMap keysOf)).length
  /-- One recording is foretold. -/
  alone : recordings.length ≤ 1 → foretold = total
  /-- If none after the first has a command that is replaced, they are foretold if and only if no two
  of them have a new command in common. -/
  exact : (replace → ∀ entries ∈ recordings.tail, ∀ key ∈ keysOf entries,
      key ∉ g.commands.map CommandRecord.key) →
    (foretold = total ↔ recordings.Pairwise fun entries later => ∀ key ∈ keysOf entries,
      key ∈ keysOf later → key ∈ (g.kept replace).map CommandRecord.key)

namespace Graph

variable {g : Graph}

theorem imported_tally_base (g : Graph) (replace : Bool) (entries : List RecordedEntry) :
    ((g.base replace).tally (verdictsOf entries)).imported =
      (distinctFrom ((g.kept replace).map CommandRecord.key) (keysOf entries)).length := by
  rw [← commands_base]
  rfl

theorem imported_foretold (g : Graph) (recordings : List (List RecordedEntry)) :
    (g.foretold false recordings).imported =
      countEach (g.commands.map CommandRecord.key) (recordings.map keysOf) := by
  induction recordings with
  | nil => rfl
  | cons entries later ih =>
    rw [foretold, ImportReport.merge, imported_tally_base, ih]
    rfl

theorem counts_foretold (g : Graph) (replace : Bool) (recordings : List (List RecordedEntry)) :
    (g.foretold replace recordings).skipped = (verdictsOf recordings.flatten).count .skipped ∧
      (g.foretold replace recordings).failed = (verdictsOf recordings.flatten).count .failed ∧
      (g.foretold replace recordings).imported + (g.foretold replace recordings).existing =
        (keysOf recordings.flatten).length := by
  induction recordings generalizing replace with
  | nil => exact ⟨rfl, rfl, rfl⟩
  | cons entries later ih =>
    obtain ⟨skipped, failed, accepted⟩ := ih false
    have first := tally_accepted (g.base replace) (verdictsOf entries)
    have verdicts : verdictsOf (entries :: later).flatten =
        verdictsOf entries ++ verdictsOf later.flatten := List.map_append
    rw [keysOf, verdicts, List.count_append, List.count_append, acceptedKeys_append,
      List.length_append, ← skipped, ← failed, ← first]
    refine ⟨rfl, rfl, ?_⟩
    rw [← keysOf, ← accepted]
    exact Nat.add_add_add_comm _ _ _ _

/-- If none after the first has a command that is replaced, each file is judged against the commands
that are kept. -/
theorem imported_foretold_of_fresh {replace : Bool} {recordings : List (List RecordedEntry)}
    (fresh : replace → ∀ entries ∈ recordings.tail, ∀ key ∈ keysOf entries,
      key ∉ g.commands.map CommandRecord.key) :
    (g.foretold replace recordings).imported =
      countEach ((g.kept replace).map CommandRecord.key) (recordings.map keysOf) := by
  cases recordings with
  | nil => rfl
  | cons entries later =>
    have rest : countEach (g.commands.map CommandRecord.key) (later.map keysOf) =
        countEach ((g.kept replace).map CommandRecord.key) (later.map keysOf) := by
      cases replace
      · rfl
      · unfold countEach
        rw [List.map_map, List.map_map]
        congr 1
        refine List.map_congr_left fun entries hentries => ?_
        refine (length_distinctFrom_mono (List.nil_subset _) (keysOf entries)).2.2 fun key hkey old => ?_
        exact absurd old (fresh rfl entries hentries key hkey)
    rw [foretold, ImportReport.merge, imported_tally_base, imported_foretold, rest]
    rfl

end Graph

/-- Reports that agree but for what they call new are equal if they call as much new. -/
theorem ImportReport.eq_iff_imported {a b : ImportReport} (skipped : a.skipped = b.skipped)
    (failed : a.failed = b.failed) (accepted : a.imported + a.existing = b.imported + b.existing) :
    a = b ↔ a.imported = b.imported := by
  refine ⟨congrArg _, fun imported => ?_⟩
  have existing : a.existing = b.existing := by omega
  cases a
  cases b
  simp_all only

theorem foretells_total (g : Graph) (replace : Bool) (recordings : List (List RecordedEntry)) :
    Foretells g replace recordings (g.foretold replace recordings) (g.total replace recordings) := by
  obtain ⟨skipped, failed, accepted⟩ := counts_foretold g replace recordings
  have same : _ = (g.total replace recordings).imported + (g.total replace recordings).existing :=
    accepted.trans (tally_accepted (g.base replace) (verdictsOf recordings.flatten)).symm
  have stored : (g.total replace recordings).imported =
      (distinctFrom ((g.kept replace).map CommandRecord.key) (recordings.map keysOf).flatten).length := by
    rw [total, imported_tally_base, keysOf_flatten]
  have exact (fresh : replace → ∀ entries ∈ recordings.tail, ∀ key ∈ keysOf entries,
      key ∉ g.commands.map CommandRecord.key) :
      g.foretold replace recordings = g.total replace recordings ↔
        recordings.Pairwise fun entries later => ∀ key ∈ keysOf entries, key ∈ keysOf later →
          key ∈ (g.kept replace).map CommandRecord.key := by
    rw [ImportReport.eq_iff_imported skipped failed same, imported_foretold_of_fresh fresh, stored,
      (length_distinctFrom_flatten _ _).2, List.pairwise_map]
  refine ⟨skipped, failed, same, by rw [stored, List.flatMap_def], fun alone => ?_, exact⟩
  match recordings, alone with
  | [], _ => rfl
  | [_], _ => exact (exact nofun).2 (List.pairwise_singleton _ _)

/-! ## Files -/

namespace CommandLine

variable {w : Workspace} {h : Workspace.Handle}

/-- The entries of a recording. -/
def ImportMode.entriesOf (m : ImportMode) (contents : ByteArray) :
    Except ImportError (List RecordedEntry) :=
  if m.json then
    ((compileDatabase contents).map (·.map CompileEntry.recorded)).mapError (.malformed <| .json ·)
  else ((FileTree.textOf contents).map (logEntries · m.directory)).mapError .unreadable

theorem importContents_eq (m : ImportMode) (contents : ByteArray) (s : Store) :
    importContents m contents s =
      match m.entriesOf contents with
      | .error e => (.error e, s)
      | .ok entries =>
        ((importEntries s entries m.options m.now).1.mapError .store,
          (importEntries s entries m.options m.now).2) := by
  unfold importContents ImportMode.entriesOf
  cases m.json
  · rcases readable : FileTree.textOf contents with e | text <;>
      simp [importLog, readable, Except.map, Except.mapError]
  · rcases readable : compileDatabase contents with e | entries <;>
      simp [importDatabase, readable, Except.map, Except.mapError]

/-- A file that cannot be imported. -/
def importFailure (path : String) (e : ImportError) : Failure :=
  (Failure.ofImport e).within ("Failed to import " ++ path)

/-- The entries of the recording in a file. -/
def ImportMode.recordingAt (m : ImportMode) (files : FileTree) (path : String) :
    Except Failure (List RecordedEntry) :=
  match files.locate path with
  | .error e => .error ⟨"Failed to open " ++ path, [e.message]⟩
  | .ok _ =>
    match files.read path with
    | .error e => .error (importFailure path (unreadableRecording m.json e))
    | .ok contents => (m.entriesOf contents).mapError (importFailure path)

/-- What an import of entries leaves of a graph. -/
def ImportMode.leaves (m : ImportMode) (g : Graph) (entries : List RecordedEntry) : Graph :=
  (importEntries { graph := g } entries m.options m.now).2.graph

theorem importInto_of_contents {m : ImportMode} {contents : ByteArray}
    {result : Except ImportError ImportReport} {store : Store}
    (imported : importContents m contents h.store = (result, store)) (w : Workspace) :
    (importInto m contents h).run w =
      if h.isReadOnly && result.toOption.any (·.writes m.options) then
        ((.error (.store .readOnly), h), w)
      else ((result, { h with store }), w.save h.place? store) := by
  unfold importInto
  rw [imported]
  dsimp only
  split <;> rfl

/-- What importing a recording into an open database gives, and what it leaves. -/
theorem importInto_run (m : ImportMode) (contents : ByteArray) (held : w.Holds h) :
    (importInto m contents h).run w =
      match m.entriesOf contents with
      | .error e => ((.error e, h), w)
      | .ok entries =>
        let report := (h.store.graph.base m.options.replace).tally (verdictsOf entries)
        if h.isReadOnly && report.writes m.options then ((.error (.store .readOnly), h), w)
        else
          let left : Store := { graph := m.leaves h.store.graph entries }
          ((.ok report, { h with store := left }), w.save h.place? left) := by
  have imported := importContents_eq m contents h.store
  rcases read : m.entriesOf contents with e | entries <;> rw [read] at imported
  · rw [importInto_of_contents imported, held.saved, if_neg (by simp [Except.toOption])]
  · have written : importEntries h.store entries m.options m.now =
        (.ok ((h.store.graph.base m.options.replace).tally (verdictsOf entries)),
          { graph := m.leaves h.store.graph entries }) := by
      obtain ⟨g, hs⟩ : ∃ g, h.store = { graph := g } := ⟨_, Store.eq_of_closed held.closed⟩
      rw [hs, ImportMode.leaves, importEntries_eq]
    simp only [written] at imported
    rw [importInto_of_contents imported]
    rfl

/-- An import of a file that can be read is one of its contents. -/
theorem importFile_of_read (m : ImportMode) (h : Workspace.Handle) {path : String} {l : Location}
    {contents : ByteArray} (located : w.files.locate path = .ok l)
    (read : w.files.read path = .ok contents) :
    (importFile m path h).outcome w =
      match (importInto m contents h).run w with
      | ((.ok report, h), w) => (.ok (report, h), w)
      | ((.error e, _), w) => (.error (.failure (importFailure path e)), w) := by
  have lifted : Run.outcome (liftM (importInto m contents h)) w =
      (.ok ((importInto m contents h).run w).1, ((importInto m contents h).run w).2) := rfl
  rw [importFile, Run.outcome_bind, Run.outcome_get]
  dsimp only
  rw [located]
  dsimp only
  rw [read]
  dsimp only
  rw [Run.outcome_bind, lifted]
  rcases (importInto m contents h).run w with ⟨⟨e | report, h⟩, w⟩ <;> rfl

theorem importFile_outcome (m : ImportMode) (path : String) (held : w.Holds h) :
    (importFile m path h).outcome w =
      match m.recordingAt w.files path with
      | .error f => (.error (.failure f), w)
      | .ok entries =>
        let report := (h.store.graph.base m.options.replace).tally (verdictsOf entries)
        if h.isReadOnly && report.writes m.options then
          (.error (.failure (importFailure path (.store .readOnly))), w)
        else
          let left : Store := { graph := m.leaves h.store.graph entries }
          (.ok (report, { h with store := left }), w.save h.place? left) := by
  rw [ImportMode.recordingAt]
  rcases located : w.files.locate path with e | l
  · rw [importFile, Run.outcome_bind, Run.outcome_get]
    dsimp only
    rw [located]
    rfl
  rcases read : w.files.read path with e | contents
  · rw [importFile, Run.outcome_bind, Run.outcome_get]
    dsimp only
    rw [located]
    dsimp only
    rw [read]
    rfl
  rw [importFile_of_read m h located read, importInto_run m contents held]
  dsimp only
  rcases m.entriesOf contents with e | entries
  · rfl
  · by_cases refused : (h.isReadOnly &&
        ((h.store.graph.base m.options.replace).tally (verdictsOf entries)).writes m.options) = true
    · simp only [refused, if_true, Except.mapError]
    · simp only [refused, Bool.false_eq_true, if_false, Except.mapError]

/-! ## Rehearsals -/

theorem leaves_rehearsal (m : ImportMode) (replace : Bool) (g : Graph) (entries : List RecordedEntry) :
    ImportMode.leaves { m with options := ⟨true, replace⟩ } g entries = g := by
  rw [ImportMode.leaves, importEntries_eq]
  rfl

theorem commands_leaves (m : ImportMode) (replace : Bool) (g : Graph) (entries : List RecordedEntry) :
    (ImportMode.leaves { m with options := ⟨false, replace⟩ } g entries).commands =
      ((g.base replace).absorb (verdictsOf entries)).commands := by
  rw [ImportMode.leaves, importEntries_eq]
  exact commands_finish _ _ _ _

/-- Recordings after a first one are judged against what that has left. -/
theorem total_cons {replace : Bool} {g left : Graph} {entries : List RecordedEntry}
    {later : List (List RecordedEntry)}
    (commands : left.commands = ((g.base replace).absorb (verdictsOf entries)).commands) :
    g.total replace (entries :: later) =
      ((g.base replace).tally (verdictsOf entries)).merge (left.total false later) := by
  have verdicts : verdictsOf (entries :: later).flatten =
      verdictsOf entries ++ verdictsOf later.flatten := List.map_append
  rw [total, verdicts, tally_append, total, base_false, tally_congr commands]

/-- Whether an import writes commands does not depend on which of them are new. -/
theorem writes_congr {a b : ImportReport} (o : ImportOptions) (dryRun : Bool)
    (same : a.imported + a.existing = b.imported + b.existing) :
    a.writes o = b.writes { o with dryRun } := by
  have accepted : a.imported > 0 ∨ a.existing > 0 ↔ b.imported > 0 ∨ b.existing > 0 := by omega
  rw [Bool.eq_iff_iff]
  simp only [ImportReport.writes, Bool.or_eq_true, decide_eq_true_eq, or_assoc, accepted]

section Lockstep

variable (m : ImportMode) {place? : Option Workspace.Place} {g : Graph}
  (held : w.Holds ⟨{ graph := g }, place?⟩)

include held

/-- The rehearsal of one file and its import, where the database may have come to hold another graph:
both fail alike, or report what they find new, and the rehearsal changes nothing. -/
theorem importFile_lockstep (path : String) (replace : Bool) (g' : Graph) :
    let dry := (importFile { m with options := ⟨true, replace⟩ } path ⟨{ graph := g }, place?⟩).outcome w
    let real := (importFile { m with options := ⟨false, replace⟩ } path
      ⟨{ graph := g' }, place?⟩).outcome (w.save place? { graph := g' })
    (∃ f, dry = (.error (.failure f), w) ∧ real = (.error (.failure f), w.save place? { graph := g' }) ∧
        (m.recordingAt w.files path = .error f ∨ place?.any (·.readOnly))) ∨
      ∃ entries, m.recordingAt w.files path = .ok entries ∧
        dry = (.ok ((g.base replace).tally (verdictsOf entries), ⟨{ graph := g }, place?⟩), w) ∧
        ∃ left, left.commands = ((g'.base replace).absorb (verdictsOf entries)).commands ∧
          real = (.ok ((g'.base replace).tally (verdictsOf entries), ⟨{ graph := left }, place?⟩),
            w.save place? { graph := left }) := by
  have held' : (w.save place? { graph := g' }).Holds ⟨{ graph := g' }, place?⟩ :=
    ⟨w.save_save place? _ _, rfl⟩
  have files : (w.save place? { graph := g' }).files = w.files :=
    (w.files_save place? _ _).trans (congrArg Workspace.files held.saved)
  have same (o : ImportOptions) :
      ImportMode.recordingAt { m with options := o } w.files path = m.recordingAt w.files path := rfl
  intro dry real
  have hdry : dry = _ := importFile_outcome { m with options := ⟨true, replace⟩ } path held
  have hreal : real = _ := importFile_outcome { m with options := ⟨false, replace⟩ } path held'
  rw [same] at hdry
  rw [files, same] at hreal
  rcases read : m.recordingAt w.files path with f | entries <;> rw [read] at hdry hreal
  · exact .inl ⟨f, hdry, hreal, .inl rfl⟩
  have writes : ((g.base replace).tally (verdictsOf entries)).writes ⟨true, replace⟩ =
      ((g'.base replace).tally (verdictsOf entries)).writes ⟨false, replace⟩ :=
    writes_congr _ false ((tally_accepted _ _).trans (tally_accepted _ _).symm)
  have alike : Workspace.Handle.isReadOnly ⟨{ graph := g }, place?⟩ =
      Workspace.Handle.isReadOnly ⟨{ graph := g' }, place?⟩ := rfl
  dsimp only at hdry hreal
  rw [writes, alike] at hdry
  split at hreal
  · next refused =>
    rw [if_pos refused] at hdry
    exact .inl ⟨_, hdry, hreal, .inr (Bool.and_eq_true_iff.1 refused).1⟩
  · next refused =>
    rw [if_neg refused, leaves_rehearsal, held.saved] at hdry
    rw [w.save_save] at hreal
    exact .inr ⟨entries, rfl, hdry, _, commands_leaves m replace g' entries, hreal⟩

/-- A rehearsal and the import itself, file by file: the rehearsal leaves the workspace as it was, and
both fail alike, or report what is foretold and what there is in total. -/
theorem importFiles_lockstep (paths : List String) (replace : Bool) (g' : Graph)
    (before before' : ImportReport) :
    let dry := (importFiles { m with options := ⟨true, replace⟩ } before ⟨{ graph := g }, place?⟩
      paths).outcome w
    let real := (importFiles { m with options := ⟨false, replace⟩ } before' ⟨{ graph := g' }, place?⟩
      paths).outcome (w.save place? { graph := g' })
    dry.2 = w ∧ ((∃ f, dry.1 = .error (.failure f) ∧ real.1 = .error (.failure f) ∧
        (paths.mapM (m.recordingAt w.files) = .error f ∨ place?.any (·.readOnly))) ∨
      ∃ recordings, paths.mapM (m.recordingAt w.files) = .ok recordings ∧
        dry.1 = .ok (before.merge (g.foretold replace recordings)) ∧
        real.1 = .ok (before'.merge (g'.total replace recordings))) := by
  induction paths generalizing replace g' before before' with
  | nil => exact ⟨rfl, .inr ⟨[], rfl, rfl, rfl⟩⟩
  | cons path paths ih =>
    simp only [importFiles, Run.outcome_bind]
    rcases importFile_lockstep m held path replace g' with
      ⟨f, dry, real, cause⟩ | ⟨entries, read, dry, left, commands, real⟩
    · rw [dry, real]
      refine ⟨rfl, .inl ⟨f, rfl, rfl, cause.imp_left fun read => ?_⟩⟩
      rw [List.mapM_cons, read]
      rfl
    · rw [dry, real]
      obtain ⟨unchanged, ⟨f, dry, real, cause⟩ | ⟨recordings, reads, foretold, total⟩⟩ := ih false left
        (before.merge ((g.base replace).tally (verdictsOf entries)))
        (before'.merge ((g'.base replace).tally (verdictsOf entries)))
      · refine ⟨unchanged, .inl ⟨f, dry, real, cause.imp_left fun reads => ?_⟩⟩
        rw [List.mapM_cons, read, reads]
        rfl
      · refine ⟨unchanged, .inr ⟨entries :: recordings, ?_, ?_, ?_⟩⟩
        · rw [List.mapM_cons, read, reads]
          rfl
        · exact foretold.trans (congrArg _ (ImportReport.merge_assoc _ _ _))
        · refine total.trans (congrArg _ ?_)
          rw [ImportReport.merge_assoc, total_cons commands]

end Lockstep

theorem importAll_outcome (m : ImportMode) (database file : String) (files : List String)
    (input : ByteArray) (w : Workspace) :
    (importAll m database (file :: files) input).outcome w =
      match (openStore database true).outcome w with
      | (.error f, w) => (.error f, w)
      | (.ok h, w) =>
        match (importFiles m {} h (file :: files)).outcome w with
        | (.ok report, w) => (.ok [importLine report], w)
        | (.error f, w) => (.error f, w) := by
  unfold importAll
  simp only [Run.outcome_bind, List.isEmpty_cons, Bool.false_eq_true, if_false]
  rcases (openStore database true).outcome w with ⟨f | h, w'⟩
  · rfl
  dsimp only
  rcases (importFiles m {} h (file :: files)).outcome w' with ⟨f | report, w''⟩ <;> rfl

theorem perform_importFiles (around : Surroundings) (s : Settings) (database : String) (json : Bool)
    (options : ImportOptions) (directory? : Option String) (files : List String) (w : Workspace) :
    (perform around s database (.importFiles json options directory? files)).outcome w =
      (importAll ⟨json, options, directory?.getD w.files.workingDirectory.path, around.now⟩ database
        files around.input).outcome w := by
  have current : (get : Run Workspace).outcome w = (.ok w, w) := rfl
  unfold perform
  rw [Run.outcome_bind, current]

/-- A rehearsed import of files and the import itself, in the same workspace.  The rehearsal opens the
database and leaves everything as it is then, so that every database keeps its contents.  Both fail
alike, if the database or a file cannot be used, or print reports on all the files, of which the
rehearsal's judges each file by itself. -/
theorem rehearsal_compared (around : Surroundings) (s : Settings) (database : String)
    (json replace : Bool) (directory? : Option String) (file : String) (files : List String)
    (w : Workspace) :
    let result (dryRun : Bool) := Run.outcome (perform around s database
      (.importFiles json ⟨dryRun, replace⟩ directory? (file :: files))) w
    let opened := (openStore database true).outcome w
    let mode : ImportMode :=
      ⟨json, ⟨false, replace⟩, directory?.getD w.files.workingDirectory.path, around.now⟩
    (result true).2 = opened.2 ∧ w.Keeps (result true).2 ∧
      ((∃ f, (result true).1 = .error (.failure f) ∧ (result false).1 = .error (.failure f) ∧
          (opened.1 = .error (.failure f) ∨
            (file :: files).mapM (mode.recordingAt opened.2.files) = .error f ∨
            ∃ h, opened.1 = .ok h ∧ h.isReadOnly)) ∨
        ∃ h recordings, opened.1 = .ok h ∧
          (file :: files).mapM (mode.recordingAt opened.2.files) = .ok recordings ∧
          (result true).1 = .ok [importLine (h.store.graph.foretold replace recordings)] ∧
          (result false).1 = .ok [importLine (h.store.graph.total replace recordings)] ∧
          Foretells h.store.graph replace recordings (h.store.graph.foretold replace recordings)
            (h.store.graph.total replace recordings)) := by
  intro result opened mode
  have all (dryRun : Bool) := (perform_importFiles around s database json ⟨dryRun, replace⟩ directory?
    (file :: files) w).trans (importAll_outcome _ database file files around.input w)
  have kept := keeps_openStore database true w
  simp only [result, opened, all]
  rcases hopened : (openStore database true).outcome w with ⟨halt | ⟨⟨g, saved⟩, place?⟩, w'⟩ <;>
    rw [hopened] at kept
  · obtain ⟨f, rfl⟩ := failure_of_openStore hopened
    exact ⟨rfl, kept, .inl ⟨f, rfl, rfl, .inl rfl⟩⟩
  have held := holds_openStore hopened
  obtain rfl : saved = none := held.closed
  have steps := importFiles_lockstep mode held (file :: files) replace g {} {}
  rw [show w'.save place? { graph := g } = w' from held.saved] at steps
  dsimp only [mode] at steps ⊢
  generalize Run.outcome (importFiles ⟨json, ⟨true, replace⟩, _, _⟩ _ _ _) w' = dry at steps ⊢
  generalize Run.outcome (importFiles ⟨json, ⟨false, replace⟩, _, _⟩ _ _ _) w' = real at steps ⊢
  rcases dry with ⟨r, w₁⟩
  rcases real with ⟨r', w₂⟩
  obtain ⟨rfl, ⟨f, rfl, rfl, cause⟩ | ⟨recordings, reads, rfl, rfl⟩⟩ := steps
  · exact ⟨rfl, kept, .inl ⟨f, rfl, rfl, .inr (cause.imp_right fun readOnly => ⟨_, rfl, readOnly⟩)⟩⟩
  · refine ⟨rfl, kept, .inr ⟨_, recordings, rfl, reads, ?_, ?_, foretells_total g replace recordings⟩⟩
    · rw [ImportReport.empty_merge]
    · rw [ImportReport.empty_merge]

/-- Two logs of the same command. -/
def twinLogs : Workspace where
  files :=
    { entries := [(["w"], .directory), (["w", "a.log"], .file "gcc -c -o a.o a.c\n".toUTF8),
        (["w", "b.log"], .file "gcc -c -o a.o a.c\n".toUTF8)]
      workingPath := ["w"] }

def bareSurroundings : Surroundings where
  tools := fun _ _ => .error .noEntry
  now := ⟨1, 0⟩

/-- The rehearsal finds the command new twice. -/
theorem rehearsal_misses_twins :
    (run bareSurroundings ["import", "--dry-run", "a.log", "b.log"] twinLogs).1 =
      .success ["Imported 2 commands (0 already present, 0 skipped, 0 failed)"] ∧
    (run bareSurroundings ["import", "a.log", "b.log"] twinLogs).1 =
      .success ["Imported 1 commands (1 already present, 0 skipped, 0 failed)"] := by
  decide +kernel

end CommandLine

end BuildAudit
