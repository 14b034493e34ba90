import BuildAudit.Proofs.Imports
import BuildAudit.Proofs.Quoting
import BuildAudit.Proofs.Reruns

/-!
# Replaying stored commands

What an import stores can be used later.  The parts of a row read back as the command that was imported,
and this command has a resolution in every file tree (`CommandRecord.Replays`).  So the dependency phase
on a store that was filled by imports completes every command, unless commands contradict each other
(`imports_replay`).
-/

namespace BuildAudit

open Update BuildAudit.Graph

variable {x : Extractor} {g g' g'' : Graph} {s : Store}

/-! ## One command -/

/-- The row reads back as the command, which has a resolution whatever files there are. -/
structure CommandRecord.Replays (row : CommandRecord) (c : Command) : Prop where
  command : row.command = .ok c
  resolves : ∀ files searchDirectories, ∃ r, row.resolve files searchDirectories = .ok r

theorem resolve_of_recognized {c : Command} (family : c.isRecognized) (output : c.output?.isSome)
    (files : FileTree) (searchDirectories : List OsString) :
    ∃ r, resolve files searchDirectories c = .ok r := by
  obtain ⟨f, hf⟩ := Option.isSome_iff_exists.1 family
  obtain ⟨path, hp⟩ := Option.isSome_iff_exists.1 output
  unfold resolve
  rw [hf, hp]
  exact ⟨_, rfl⟩

/-- An accepted entry is a command of a known tool that writes a file, and its arguments can be written
down. -/
theorem command_of_accepted {entry : RecordedEntry} {directory executable args : String}
    (h : Verdict.of entry = .accepted directory executable args) :
    ∃ c, entry = .ok c ∧ c.isRecognized ∧ c.output?.isSome ∧ c.directory = directory ∧
      c.executable = executable ∧ c.args = .ok args := by
  rcases entry with e | c
  · cases h
  unfold Verdict.of at h
  by_cases family : c.isRecognized
  · by_cases output : c.output?.isSome
    · have written : c.output?.isNone = false := by simpa [Option.isSome_iff_ne_none] using output
      rcases hargs : c.args with e | text
      · simp [family, written, hargs] at h
      · simp only [family, written, hargs, Bool.not_true, Bool.false_eq_true, if_false,
          Verdict.accepted.injEq] at h
        obtain ⟨hd, he, rfl⟩ := h
        exact ⟨c, rfl, family, output, hd, he, hargs⟩
    · simp [family, Option.not_isSome_iff_eq_none.1 output] at h
  · simp [family] at h

theorem replays_of_accepted {entry : RecordedEntry} {row : CommandRecord}
    (h : Verdict.of entry = .accepted row.directory row.executable row.args) :
    ∃ c, entry = .ok c ∧ row.Replays c := by
  obtain ⟨c, rfl, family, output, hd, he, hargs⟩ := command_of_accepted h
  have command : row.command = .ok c := by
    rw [CommandRecord.command, ← hd, ← he]
    exact Command.ofParts_of_args hargs
  refine ⟨c, rfl, command, fun files searchDirectories => ?_⟩
  rw [CommandRecord.resolve, command]
  exact resolve_of_recognized family output files searchDirectories

/-! ## Imports -/

/-- Whether the entry is stored, as a new command or as one that was there. -/
def Verdict.isAccepted : Verdict → Bool
  | accepted .. => true
  | skipped | failed => false

theorem Verdict.eq_accepted {v : Verdict} (h : v.isAccepted) :
    ∃ directory executable args, v = .accepted directory executable args := by
  cases v with
  | accepted directory executable args => exact ⟨directory, executable, args, rfl⟩
  | skipped | failed => cases h

/-- What carrying out verdicts does to the table of commands: what is accepted has a row, and no other
row is new. -/
structure Graph.Collects (g : Graph) (verdicts : List Verdict) (g' : Graph) : Prop where
  kept : ∀ row ∈ g.commands, row ∈ g'.commands
  stored : ∀ directory executable args, .accepted directory executable args ∈ verdicts →
    ∃ row ∈ g'.commands, row.key = (directory, executable, args)
  accepted : ∀ row ∈ g'.commands,
    row ∈ g.commands ∨ .accepted row.directory row.executable row.args ∈ verdicts

/-- A row that was there stands for what is accepted. -/
theorem Graph.Collects.known {row : CommandRecord} (hrow : row ∈ g.commands) :
    g.Collects [.accepted row.directory row.executable row.args] g where
  kept := fun _ h => h
  stored := fun d e a h => ⟨row, hrow, by simpa [CommandRecord.key, eq_comm] using h⟩
  accepted := fun _ h => .inl h

theorem Graph.Collects.new (g : Graph) (row : CommandRecord) :
    g.Collects [.accepted row.directory row.executable row.args]
      { g with commands := g.commands ++ [row] } where
  kept := fun _ h => List.mem_append_left _ h
  stored := fun d e a h =>
    ⟨row, List.mem_append_right _ List.mem_cons_self, by simpa [CommandRecord.key, eq_comm] using h⟩
  accepted := fun r h => by
    rcases List.mem_append.1 h with h | h
    · exact .inl h
    · obtain rfl := List.mem_singleton.1 h
      exact .inr List.mem_cons_self

theorem Graph.Collects.nothing (g : Graph) {verdicts : List Verdict}
    (none : ∀ v ∈ verdicts, v.isAccepted = false) : g.Collects verdicts g where
  kept := fun _ h => h
  stored := fun d e a h => absurd (none _ h) (by simp [Verdict.isAccepted])
  accepted := fun _ h => .inl h

theorem Graph.Collects.cons {v : Verdict} {verdicts : List Verdict} (h : g.Collects [v] g')
    (h' : g'.Collects verdicts g'') : g.Collects (v :: verdicts) g'' where
  kept := fun row hrow => h'.kept row (h.kept row hrow)
  stored := fun d e a hv => by
    rcases List.mem_cons.1 hv with first | later
    · obtain ⟨row, hrow, key⟩ := h.stored d e a (List.mem_singleton.2 first)
      exact ⟨row, h'.kept row hrow, key⟩
    · exact h'.stored d e a later
  accepted := fun row hrow => by
    rcases h'.accepted row hrow with before | later
    · exact (h.accepted row before).imp_right fun first =>
        List.mem_cons.2 (.inl (List.mem_singleton.1 first))
    · exact .inr (List.mem_cons_of_mem v later)

theorem collects_importVerdict {report report' : ImportReport} {v : Verdict}
    (h : (importVerdict report v).exec g = (.ok report', g')) :
    g.Collects [v] g' ∧ report'.imported + report'.existing =
      report.imported + report.existing + if v.isAccepted then 1 else 0 := by
  cases v with
  | skipped | failed =>
    cases h
    exact ⟨.nothing g (by simp [Verdict.isAccepted]), rfl⟩
  | accepted directory executable args =>
    have hr := exec_insertCommand directory executable args g
    unfold importVerdict at h
    rcases known : g.commandOf? directory executable args with _ | row <;> rw [known] at hr <;>
      rw [exec_bind_of_ok hr] at h <;> cases h
    · exact ⟨.new g ⟨_, directory, executable, args⟩, by simp [Verdict.isAccepted]; omega⟩
    · have hrow := List.mem_of_find?_eq_some known
      have key := List.find?_some known
      simp only [Bool.and_eq_true, beq_iff_eq] at key
      obtain ⟨⟨rfl, rfl⟩, rfl⟩ := key
      exact ⟨.known hrow, rfl⟩

theorem collects_importVerdicts {verdicts : List Verdict} {report report' : ImportReport}
    (h : (verdicts.foldlM importVerdict report).exec g = (.ok report', g')) :
    g.Collects verdicts g' ∧ report'.imported + report'.existing =
      report.imported + report.existing + verdicts.countP Verdict.isAccepted := by
  induction verdicts generalizing g report with
  | nil =>
    cases h
    exact ⟨.nothing _ (by simp), rfl⟩
  | cons v verdicts ih =>
    rw [List.foldlM_cons, exec_bind] at h
    rcases hv : (importVerdict report v).exec g with ⟨e | report₁, g₁⟩ <;> rw [hv] at h
    · cases h
    · obtain ⟨collects, count⟩ := collects_importVerdict hv
      obtain ⟨collects', count'⟩ := ih h
      refine ⟨collects.cons collects', ?_⟩
      rw [count', count, List.countP_cons]
      omega

/-- An import that replaces begins without commands. -/
theorem collects_writeEntries {entries : List RecordedEntry} {replace : Bool} {report : ImportReport}
    (h : (writeEntries entries replace).exec g = (.ok report, g')) :
    (∃ g₀ : Graph, g₀.commands ⊆ g.commands ∧ g₀.Collects (entries.map Verdict.of) g') ∧
      report.imported + report.existing = (entries.map Verdict.of).countP Verdict.isAccepted := by
  unfold writeEntries at h
  cases replace
  · obtain ⟨collects, count⟩ := collects_importVerdicts h
    exact ⟨⟨g, fun _ h => h, collects⟩, by simpa using count⟩
  · have hr := (exec_bind_of_ok (exec_truncateCommands g)).symm.trans h
    obtain ⟨collects, count⟩ := collects_importVerdicts hr
    exact ⟨⟨_, List.nil_subset _, collects⟩, by simpa using count⟩

/-- The entries that an import reads, and how it stores them. -/
def Call.recording? : Call → Option (List RecordedEntry × ImportOptions)
  | importLog contents directory options =>
    (FileTree.textOf contents).toOption.map fun text => (logEntries text directory, options)
  | importDatabase contents options =>
    (compileDatabase contents).toOption.map fun entries =>
      (entries.map CompileEntry.recorded, options)
  | extractDependencies .. | extractSymbols .. => none

theorem run_of_recording {c : Call} {entries : List RecordedEntry} {o : ImportOptions}
    (h : c.recording? = some (entries, o)) (x : Extractor) (now : Instant) (s : Store) :
    c.run x now s =
      ((((importEntries s entries o now).1.mapError .store).map .imported).mapError .importing,
        (importEntries s entries o now).2) := by
  cases c with
  | importLog contents directory options =>
    rcases ht : FileTree.textOf contents with e | text <;> rw [Call.recording?, ht] at h <;> cases h
    simp only [Call.run, importLog, ht]
  | importDatabase contents options =>
    rcases ht : compileDatabase contents with e | entries <;> rw [Call.recording?, ht] at h <;> cases h
    simp only [Call.run, importDatabase, ht]
  | extractDependencies | extractSymbols => cases h

theorem run_of_no_recording {c : Call} (imports : c.isExtraction = false)
    (h : c.recording? = none) (x : Extractor) (now : Instant) (s : Store) :
    (c.run x now s).2 = s := by
  cases c with
  | importLog contents directory options =>
    rcases ht : FileTree.textOf contents with e | text <;> rw [Call.recording?, ht] at h <;> cases h
    simp only [Call.run, importLog, ht]
  | importDatabase contents options =>
    rcases ht : compileDatabase contents with e | entries <;> rw [Call.recording?, ht] at h <;> cases h
    simp only [Call.run, importDatabase, ht]
  | extractDependencies | extractSymbols => cases imports

/-- An import that succeeds has written its entries, and keeps what it has written unless it is a
rehearsal. -/
theorem importEntries_of_ok {entries : List RecordedEntry} {o : ImportOptions} {now : Instant}
    {report : ImportReport} (h : (importEntries s entries o now).1 = .ok report) :
    ∃ g, (writeEntries entries o.replace).exec s.graph = (.ok report, g) ∧
      (importEntries s entries o now).2 =
        if o.dryRun then s else { graph := o.finish now report g } := by
  rcases closed : s.saved with _ | saved
  · rw [importEntries_of_closed closed] at h ⊢
    rcases hr : (writeEntries entries o.replace).exec s.graph with ⟨e | report', g⟩ <;>
      rw [hr] at h <;> cases h
    exact ⟨g, rfl, rfl⟩
  · rw [importEntries_of_open (closed ▸ Option.some_ne_none saved)] at h
    cases h

theorem Graph.commands_finish (o : ImportOptions) (now : Instant) (report : ImportReport) (g : Graph) :
    (o.finish now report g).commands = g.commands := by
  unfold ImportOptions.finish
  split <;> rfl

/-- The stores that imports alone have filled. -/
inductive Store.Filled : Store → Prop where
  | empty : Store.empty.Filled
  | call {s : Store} (filled : s.Filled) {c : Call} (imports : c.isExtraction = false)
      (x : Extractor) (now : Instant) : (c.run x now s).2.Filled

/-- Every command of the graph can be replayed. -/
def Graph.Replayable (g : Graph) : Prop := ∀ row ∈ g.commands, ∃ c, row.Replays c

/-- An entry that is accepted has a row, with which it can be replayed. -/
theorem Graph.Collects.exists_row {entries : List RecordedEntry}
    (h : g.Collects (entries.map Verdict.of) g') {entry : RecordedEntry} (hentry : entry ∈ entries)
    (accepted : (Verdict.of entry).isAccepted) :
    ∃ c, entry = .ok c ∧ ∃ row ∈ g'.commands,
      Verdict.of entry = .accepted row.directory row.executable row.args ∧ row.Replays c := by
  obtain ⟨directory, executable, args, verdict⟩ := Verdict.eq_accepted accepted
  obtain ⟨row, hrow, key⟩ :=
    h.stored directory executable args (List.mem_map.2 ⟨entry, hentry, verdict⟩)
  obtain ⟨rfl, rfl, rfl⟩ : row.directory = directory ∧ row.executable = executable ∧
      row.args = args := by
    simpa [CommandRecord.key] using key
  obtain ⟨c, rfl, replays⟩ := replays_of_accepted verdict
  exact ⟨c, rfl, row, hrow, verdict, replays⟩

/-- Carrying out the verdicts on a recording leaves no command that cannot be replayed. -/
theorem Graph.Collects.replayable {entries : List RecordedEntry}
    (h : g.Collects (entries.map Verdict.of) g') (before : g.Replayable) : g'.Replayable := by
  intro row hrow
  rcases h.accepted row hrow with old | accepted
  · exact before row old
  · obtain ⟨entry, -, verdict⟩ := List.mem_map.1 accepted
    obtain ⟨c, -, replays⟩ := replays_of_accepted verdict
    exact ⟨c, replays⟩

/-- What holds of a store that imports alone have filled. -/
structure Store.Stocked (s : Store) : Prop where
  closed : s.saved = none
  intact : s.graph.Intact
  replayable : s.graph.Replayable

theorem Store.stocked_empty : Store.empty.Stocked := ⟨rfl, Graph.intact_empty, nofun⟩

theorem stocked_importEntries (h : s.Stocked) (entries : List RecordedEntry) (o : ImportOptions)
    (now : Instant) : (importEntries s entries o now).2.Stocked := by
  obtain ⟨report, g, hr, intact, -⟩ := exec_writeEntries entries o.replace h.intact
  obtain ⟨⟨g₀, before, collects⟩, -⟩ := collects_writeEntries hr
  rw [importEntries_of_closed h.closed, hr]
  rcases dry : o.dryRun
  · refine ⟨rfl, ?_, ?_⟩
    · show (o.finish now report g).Intact
      unfold ImportOptions.finish
      split
      · exact intact.setPhaseTime _ _
      · exact intact
    · show (o.finish now report g).Replayable
      rw [Replayable, commands_finish]
      exact collects.replayable fun row hrow => h.replayable row (before hrow)
  · exact h

theorem Store.Filled.stocked (filled : s.Filled) : s.Stocked := by
  induction filled with
  | empty => exact Store.stocked_empty
  | @call s filled c imports x now ih =>
    rcases h : c.recording? with _ | ⟨entries, o⟩
    · rw [run_of_no_recording imports h]
      exact ih
    · rw [run_of_recording h]
      exact stocked_importEntries ih entries o now

/-! ## The dependency phase -/

theorem completed_of_applyCommand {row : CommandRecord} {c : Command} (replays : row.Replays c)
    {outcome : Outcome} (h : (applyCommand x row).exec g = (.ok outcome, g')) :
    ∃ warnings, outcome = .completed warnings := by
  obtain ⟨r, hr⟩ := replays.resolves x.files x.searchDirectories
  rw [applyCommand, hr, exec_bind] at h
  rcases hs : (storeResolution x row.id r).exec g with ⟨e | _, g₁⟩ <;> rw [hs] at h <;> cases h
  exact ⟨_, rfl⟩

/-- Units that all are completed are counted as processed. -/
theorem report_of_treatInOrder {U : Type} {apply : U → Update Outcome} {units : List U}
    (completes : ∀ u ∈ units, ∀ g outcome g', (apply u).exec g = (.ok outcome, g') →
      ∃ warnings, outcome = .completed warnings)
    {report report' : PhaseReport} (h : (treatInOrder apply report units).exec g = (.ok report', g')) :
    report' = { report with processed := report.processed + units.length } := by
  induction units generalizing report g with
  | nil =>
    cases h
    rfl
  | cons u units ih =>
    rw [treatInOrder, List.foldlM_cons, exec_bind, exec_map] at h
    rcases hu : (apply u).exec g with ⟨e | outcome, g₁⟩ <;> rw [hu] at h
    · cases h
    · obtain ⟨warnings, rfl⟩ := completes u List.mem_cons_self g outcome g₁ hu
      rw [ih (fun v hv => completes v (List.mem_cons_of_mem u hv)) h, PhaseReport.record,
        List.length_cons, Nat.add_right_comm, Nat.add_assoc]

theorem report_of_dependencyUpdate (replayable : g.Replayable) {report : PhaseReport}
    (h : (dependencyUpdate x).exec g = (.ok report, g')) :
    report = { processed := g.commands.length } := by
  have perm := x.finishOrder_perm g.commands
  have completes : ∀ row ∈ x.finishOrder g.commands, ∀ g outcome g',
      (applyCommand x row).exec g = (.ok outcome, g') →
      ∃ warnings, outcome = .completed warnings := fun row hrow _ _ _ hr => by
    obtain ⟨c, replays⟩ := replayable row (perm.mem_iff.1 hrow)
    exact completed_of_applyCommand replays hr
  rw [report_of_treatInOrder completes h, perm.length_eq, Nat.zero_add]

theorem report_of_dependencyPhase (replayable : g.Replayable) {report : PhaseReport}
    (h : (ExceptT.run (dependencyPhase x) { graph := g }).1 = .ok report) :
    report = { processed := g.commands.length } := by
  rw [(dependencyPhase_mirrors x { graph := g }).1] at h
  rcases hr : (dependencyUpdate x).exec g with ⟨e | report', g'⟩ <;> rw [hr] at h <;> cases h
  exact report_of_dependencyUpdate replayable hr

theorem isConflict_of_dependencyPhase (hx : x.ReadsAll) (hg : g.Intact) {e : StoreError}
    (h : (ExceptT.run (dependencyPhase x) { graph := g }).1 = .error e) : e.IsConflict := by
  rw [(dependencyPhase_mirrors x { graph := g }).1] at h
  rcases records_dependencyUpdate hx hg with ⟨report, g', hr, -⟩ | ⟨e', g', hr, conflict, -⟩ <;>
    rw [hr] at h <;> cases h
  exact conflict

/-- What an import stores can be replayed.  For each entry that it counts as imported or as existing,
there is a row whose parts read back as the command of the entry, and which has a resolution whatever
files there are.  So on a store that imports alone have filled, a dependency phase that succeeds has
processed every command, and only conflicts make it fail. -/
theorem imports_replay (x : Extractor) (s : Store) :
    (∀ call now entries options report, Call.recording? call = some (entries, options) →
      options.dryRun = false → (call.run x now s).1 = .ok (.imported report) →
      report.imported + report.existing = (entries.map Verdict.of).countP Verdict.isAccepted ∧
      ∀ entry ∈ entries, (Verdict.of entry).isAccepted →
        ∃ c, entry = .ok c ∧ ∃ row ∈ (call.run x now s).2.graph.commands,
          Verdict.of entry = .accepted row.directory row.executable row.args ∧ row.Replays c) ∧
    (s.Filled →
      (∀ report, (ExceptT.run (dependencyPhase x) { graph := s.graph }).1 = .ok report →
        report = { processed := s.graph.commands.length }) ∧
      (x.ReadsAll → ∀ e, (ExceptT.run (dependencyPhase x) { graph := s.graph }).1 = .error e →
        e.IsConflict)) := by
  refine ⟨fun call now entries options report recording real answer => ?_, fun filled => ?_⟩
  · rw [run_of_recording recording] at answer ⊢
    obtain ⟨_, answer, same⟩ := Call.ok_of_mapError_map answer
    obtain rfl := Answer.imported.inj same
    rcases result : (importEntries s entries options now).1 with e | _ <;> rw [result] at answer <;>
      cases answer
    obtain ⟨g, hr, kept⟩ := importEntries_of_ok result
    obtain ⟨⟨g₀, -, collects⟩, count⟩ := collects_writeEntries hr
    rw [kept, real, if_neg Bool.false_ne_true, commands_finish]
    exact ⟨count, fun entry => collects.exists_row⟩
  · have stocked := filled.stocked
    exact ⟨fun report => report_of_dependencyPhase stocked.replayable,
      fun hx e => isConflict_of_dependencyPhase hx stocked.intact⟩

/-- A log with a command that needs quoting, once more the same command, an archive and a tool that is
not known. -/
def quotedLog : Call :=
  .importLog ("gcc -c -o 'my m.o' \"it's.c\"\ngcc -c -o my\\ m.o it\\'s.c\n" ++
    "ar rcs libz.a m.o\nmake all\n").toUTF8 "/w" {}

def quotedEntries : List RecordedEntry :=
  let object : Command := ⟨"/w", "gcc", ["-c", "-o", "my m.o", "it's.c"]⟩
  [.ok object, .ok object, .ok ⟨"/w", "ar", ["rcs", "libz.a", "m.o"]⟩, .ok ⟨"/w", "make", ["all"]⟩]

theorem quotedLog_recording : quotedLog.recording? = some (quotedEntries, {}) := by
  decide +kernel

/-- Both spellings of the command are one row. -/
def quotedImported : Store where
  graph := {
    commands := [⟨1, "/w", "gcc", "-c -o 'my m.o' \"it's.c\""⟩, ⟨2, "/w", "ar", "rcs libz.a m.o"⟩]
    stamps := { importCommands := some (.at ⟨1, 0⟩) } }

theorem run_quotedLog :
    quotedLog.run objectExtractor ⟨1, 0⟩ .empty =
      (.ok (.imported { imported := 2, existing := 1, skipped := 1 }), quotedImported) := by
  decide +kernel

/-- A log of two commands that write the same file. -/
def rivalLog : Call := .importLog "gcc -c -o a.o a.c\ngcc -c -o a.o b.c\n".toUTF8 "/w" {}

/-- The row reads back as the command, and the phase processes it and the archive.  Commands that write
the same file are in conflict. -/
theorem imports_replay_quoted :
    (∃ row ∈ quotedImported.graph.commands,
      row.Replays ⟨"/w", "gcc", ["-c", "-o", "my m.o", "it's.c"]⟩) ∧
    (ExceptT.run (dependencyPhase objectExtractor) { graph := quotedImported.graph }).1 =
      .ok { processed := 2 } ∧
    ∃ e, (ExceptT.run (dependencyPhase objectExtractor)
      { graph := (rivalLog.run objectExtractor ⟨1, 0⟩ .empty).2.graph }).1 = .error e ∧
        e.IsConflict := by
  have ok : (ExceptT.run (dependencyPhase objectExtractor)
      { graph := quotedImported.graph }).1.isOk := by
    decide +kernel
  have failed : (ExceptT.run (dependencyPhase objectExtractor)
      { graph := (rivalLog.run objectExtractor ⟨1, 0⟩ .empty).2.graph }).1.isOk = false := by
    decide +kernel
  have filled : quotedImported.Filled := by
    have imported := Store.Filled.call .empty (c := quotedLog) rfl objectExtractor ⟨1, 0⟩
    rwa [run_quotedLog] at imported
  refine ⟨?_, ?_, ?_⟩
  · obtain ⟨-, rows⟩ := (imports_replay objectExtractor .empty).1 quotedLog ⟨1, 0⟩ _ _ _
      quotedLog_recording rfl (congrArg Prod.fst run_quotedLog)
    obtain ⟨_, same, row, hrow, -, replays⟩ := rows _ List.mem_cons_self (by decide +kernel)
    obtain rfl := Except.ok.inj same
    rw [run_quotedLog] at hrow
    exact ⟨row, hrow, replays⟩
  · obtain ⟨processed, -⟩ := (imports_replay objectExtractor quotedImported).2 filled
    rcases result : (ExceptT.run (dependencyPhase objectExtractor)
        { graph := quotedImported.graph }).1 with e | report
    · rw [result] at ok
      cases ok
    · rw [processed report result]
      rfl
  · obtain ⟨-, conflict⟩ := (imports_replay objectExtractor _).2
      (.call .empty (c := rivalLog) rfl objectExtractor ⟨1, 0⟩)
    rcases result : (ExceptT.run (dependencyPhase objectExtractor)
        { graph := (rivalLog.run objectExtractor ⟨1, 0⟩ .empty).2.graph }).1 with e | report
    · exact ⟨e, rfl, conflict (fun _ => rfl) e result⟩
    · rw [result] at failed
      cases failed

end BuildAudit
