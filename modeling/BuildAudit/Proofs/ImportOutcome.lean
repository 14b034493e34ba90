import BuildAudit.Proofs.Imports
import BuildAudit.Proofs.Replay

/-!
# What an import does

An import adds a command for each accepted entry whose parts no command has yet, and counts the others
(`exec_writeEntries_eq`).  To carry out verdicts is to carry out a first part of them and then the rest
(`absorb_append`, `tally_append`), and verdicts that have been carried out find their commands in place
(`absorb_again`).  The main result says the same of recordings as bytes (`import_exact`).
-/

namespace BuildAudit

open Update BuildAudit.Graph

variable {g g' : Graph} {s : Store}

/-! ## New rows -/

/-- What tells commands apart: the directory, the executable and the quoted arguments. -/
abbrev CommandKey := String × String × String

/-- Rows for new commands, numbered from `first` upwards. -/
def numbered (first : Id) : List CommandKey → List CommandRecord
  | [] => []
  | (directory, executable, args) :: keys =>
    ⟨first, directory, executable, args⟩ :: numbered (first + 1) keys

theorem numbered_append (first : Id) (keys keys' : List CommandKey) :
    numbered first (keys ++ keys') = numbered first keys ++ numbered (first + keys.length) keys' := by
  induction keys generalizing first with
  | nil => simp [numbered]
  | cons key keys ih =>
    rw [List.cons_append, numbered, numbered, ih, List.cons_append, List.length_cons, Int.natCast_succ,
      Int.add_assoc, Int.add_comm 1]

theorem map_key_numbered (first : Id) (keys : List CommandKey) :
    (numbered first keys).map CommandRecord.key = keys := by
  induction keys generalizing first with
  | nil => rfl
  | cons key keys ih => rw [numbered, List.map_cons, ih, CommandRecord.key]

theorem length_numbered (first : Id) (keys : List CommandKey) :
    (numbered first keys).length = keys.length := by
  rw [← List.length_map (f := CommandRecord.key), map_key_numbered]

/-- The id after those of new rows. -/
theorem nextId_append_numbered (ids : List Id) (keys : List CommandKey) :
    nextId (ids ++ (numbered (nextId ids) keys).map (·.id)) = nextId ids + keys.length := by
  induction keys generalizing ids with
  | nil => simp [numbered]
  | cons key keys ih =>
    have next : nextId (ids ++ [nextId ids]) = nextId ids + 1 := by
      simp only [nextId, List.foldl_append, List.foldl_cons, List.foldl_nil]
      rw [max_eq_right (Int.le_add_one (Int.le_refl _))]
    have rest := ih (ids ++ [nextId ids])
    rw [next, List.append_assoc] at rest
    rw [numbered, List.map_cons, ← List.singleton_append, rest, List.length_cons, Int.natCast_succ,
      Int.add_assoc, Int.add_comm 1]

namespace Graph

/-- The graph with a row for each key, after those that are there. -/
def withCommands (g : Graph) (keys : List CommandKey) : Graph :=
  { g with commands := g.commands ++ numbered (nextId (g.commands.map (·.id))) keys }

/-- The keys that no command has, the first of equal ones each. -/
def newKeys (g : Graph) (keys : List CommandKey) : List CommandKey :=
  distinctFrom (g.commands.map CommandRecord.key) keys

@[simp]
theorem withCommands_nil (g : Graph) : g.withCommands [] = g := by
  simp [withCommands, numbered]

theorem map_key_withCommands (g : Graph) (keys : List CommandKey) :
    (g.withCommands keys).commands.map CommandRecord.key =
      g.commands.map CommandRecord.key ++ keys := by
  rw [withCommands, List.map_append, map_key_numbered]

theorem withCommands_append (g : Graph) (keys keys' : List CommandKey) :
    g.withCommands (keys ++ keys') = (g.withCommands keys).withCommands keys' := by
  simp only [withCommands, List.map_append, nextId_append_numbered, numbered_append, List.append_assoc]

theorem newKeys_append (g : Graph) (keys keys' : List CommandKey) :
    g.newKeys (keys ++ keys') =
      g.newKeys keys ++ (g.withCommands (g.newKeys keys)).newKeys keys' := by
  rw [newKeys, distinctFrom_append, newKeys, newKeys, map_key_withCommands]

theorem newKeys_eq_nil_iff {keys : List CommandKey} :
    g.newKeys keys = [] ↔ ∀ key ∈ keys, key ∈ g.commands.map CommandRecord.key := by
  rw [List.eq_nil_iff_forall_not_mem]
  simp only [newKeys, mem_distinctFrom]
  exact forall_congr' fun key => by tauto

end Graph

/-! ## Verdicts -/

/-- What an accepted entry stores. -/
def Verdict.key? : Verdict → Option CommandKey
  | accepted directory executable args => some (directory, executable, args)
  | skipped | failed => none

/-- What the accepted entries store, in their order. -/
def acceptedKeys (verdicts : List Verdict) : List CommandKey := verdicts.filterMap Verdict.key?

@[simp]
theorem acceptedKeys_nil : acceptedKeys [] = [] := rfl

@[simp]
theorem acceptedKeys_accepted (directory executable args : String) (verdicts : List Verdict) :
    acceptedKeys (.accepted directory executable args :: verdicts) =
      (directory, executable, args) :: acceptedKeys verdicts := rfl

@[simp]
theorem acceptedKeys_skipped (verdicts : List Verdict) :
    acceptedKeys (.skipped :: verdicts) = acceptedKeys verdicts := rfl

@[simp]
theorem acceptedKeys_failed (verdicts : List Verdict) :
    acceptedKeys (.failed :: verdicts) = acceptedKeys verdicts := rfl

@[simp]
theorem acceptedKeys_append (verdicts verdicts' : List Verdict) :
    acceptedKeys (verdicts ++ verdicts') = acceptedKeys verdicts ++ acceptedKeys verdicts' :=
  List.filterMap_append

/-- Every entry meets one of the fates. -/
theorem length_verdicts (verdicts : List Verdict) :
    verdicts.length =
      (acceptedKeys verdicts).length + verdicts.count .skipped + verdicts.count .failed := by
  induction verdicts with
  | nil => rfl
  | cons v verdicts ih =>
    rw [List.length_cons, ih]
    cases v <;> simp <;> omega

namespace Graph

/-- The graph once the verdicts are carried out. -/
def absorb (g : Graph) (verdicts : List Verdict) : Graph :=
  g.withCommands (g.newKeys (acceptedKeys verdicts))

/-- How many of the verdicts store a command, find it in place, or do neither. -/
def tally (g : Graph) (verdicts : List Verdict) : ImportReport where
  imported := (g.newKeys (acceptedKeys verdicts)).length
  existing := (acceptedKeys verdicts).length - (g.newKeys (acceptedKeys verdicts)).length
  skipped := verdicts.count .skipped
  failed := verdicts.count .failed

theorem absorb_append (g : Graph) (verdicts verdicts' : List Verdict) :
    g.absorb (verdicts ++ verdicts') = (g.absorb verdicts).absorb verdicts' := by
  rw [absorb, acceptedKeys_append, newKeys_append, withCommands_append]
  rfl

/-- Only the commands of the graph matter. -/
theorem tally_congr (same : g'.commands = g.commands) (verdicts : List Verdict) :
    g'.tally verdicts = g.tally verdicts := by
  simp only [tally, newKeys, same]

/-- Every accepted entry is counted, as new or as there. -/
theorem tally_accepted (g : Graph) (verdicts : List Verdict) :
    (g.tally verdicts).imported + (g.tally verdicts).existing = (acceptedKeys verdicts).length :=
  Nat.add_sub_of_le (length_distinctFrom_le _ _)

theorem tally_append (g : Graph) (verdicts verdicts' : List Verdict) :
    g.tally (verdicts ++ verdicts') =
      (g.tally verdicts).merge ((g.absorb verdicts).tally verdicts') := by
  have first := tally_accepted g verdicts
  have second := tally_accepted (g.absorb verdicts) verdicts'
  have new := newKeys_append g (acceptedKeys verdicts) (acceptedKeys verdicts')
  simp only [tally, absorb] at first second
  simp only [tally, absorb, ImportReport.merge, acceptedKeys_append, new, List.length_append,
    List.count_append, ImportReport.mk.injEq, true_and, and_true]
  omega

end Graph

theorem ImportReport.merge_assoc (a b c : ImportReport) :
    (a.merge b).merge c = a.merge (b.merge c) := by
  simp only [merge, Nat.add_assoc]

@[simp]
theorem ImportReport.empty_merge (a : ImportReport) : ({} : ImportReport).merge a = a := by
  simp [merge]

theorem exec_importVerdict_eq (report : ImportReport) (v : Verdict) (g : Graph) :
    (importVerdict report v).exec g = (.ok (report.merge (g.tally [v])), g.absorb [v]) := by
  cases v with
  | skipped | failed =>
    simp [importVerdict, absorb, tally, newKeys, distinctFrom, ImportReport.merge]
  | accepted directory executable args =>
    have hr := exec_insertCommand directory executable args g
    unfold importVerdict
    by_cases known : (directory, executable, args) ∈ g.commands.map CommandRecord.key
    · obtain ⟨row, found⟩ := Option.ne_none_iff_exists'.1 (mt commandOf?_eq_none_iff.1 (not_not.2 known))
      rw [found] at hr
      rw [exec_bind_of_ok hr]
      simp [absorb, tally, newKeys, distinctFrom, known, ImportReport.merge]
    · rw [commandOf?_eq_none_iff.2 known] at hr
      rw [exec_bind_of_ok hr]
      simp [absorb, tally, newKeys, distinctFrom, known, ImportReport.merge, withCommands, numbered]

theorem exec_importVerdicts_eq (verdicts : List Verdict) (report : ImportReport) (g : Graph) :
    (verdicts.foldlM importVerdict report).exec g =
      (.ok (report.merge (g.tally verdicts)), g.absorb verdicts) := by
  induction verdicts generalizing report g with
  | nil => simp [absorb, tally, newKeys, distinctFrom, ImportReport.merge]
  | cons v verdicts ih =>
    rw [List.foldlM_cons, exec_bind_of_ok (exec_importVerdict_eq report v g), ih,
      ImportReport.merge_assoc, ← tally_append, ← absorb_append, List.singleton_append]

/-! ## Recordings -/

/-- The verdicts on the entries of a recording. -/
def verdictsOf (entries : List RecordedEntry) : List Verdict := entries.map Verdict.of

namespace Graph

/-- The commands that an import leaves in place. -/
def kept (replace : Bool) (g : Graph) : List CommandRecord := if replace then [] else g.commands

/-- The graph that an import adds to: without the commands of before, if it replaces them. -/
def base (replace : Bool) (g : Graph) : Graph := if replace then (truncateCommands.exec g).2 else g

@[simp]
theorem base_false (g : Graph) : g.base false = g := rfl

theorem commands_base (replace : Bool) (g : Graph) :
    (g.base replace).commands = g.kept replace := by
  cases replace
  · rfl
  · rw [base, if_pos rfl, kept, if_pos rfl, exec_truncateCommands]

/-- Every generator is a command, so none is left without commands. -/
theorem artifacts_base (hg : g.Intact) (replace : Bool) :
    (g.base replace).artifacts =
      if replace then g.artifacts.map ({ · with generator := none }) else g.artifacts := by
  cases replace
  · rfl
  · rw [base, if_pos rfl, if_pos rfl, exec_truncateCommands]
    refine List.map_congr_left fun a ha => ?_
    rcases hc : a.generator with _ | command
    · rfl
    · simp [hg.generators a ha command hc]

/-- Verdicts that are carried out already change nothing more. -/
theorem newKeys_again {verdicts : List Verdict}
    (known : g'.commands = (g.absorb verdicts).commands) : g'.newKeys (acceptedKeys verdicts) = [] := by
  rw [newKeys_eq_nil_iff, known, absorb, map_key_withCommands]
  intro key hkey
  by_cases old : key ∈ g.commands.map CommandRecord.key
  · exact List.mem_append_left _ old
  · exact List.mem_append_right _ (mem_distinctFrom.2 ⟨hkey, old⟩)

end Graph

theorem exec_writeEntries_eq (entries : List RecordedEntry) (replace : Bool) (g : Graph) :
    (writeEntries entries replace).exec g =
      (.ok ((g.base replace).tally (verdictsOf entries)),
        (g.base replace).absorb (verdictsOf entries)) := by
  unfold writeEntries
  cases replace
  · refine (exec_importVerdicts_eq _ _ g).trans ?_
    rw [ImportReport.empty_merge]
    rfl
  · refine (exec_bind_of_ok (exec_truncateCommands g)).trans ((exec_importVerdicts_eq _ _ _).trans ?_)
    rw [ImportReport.empty_merge, base, if_pos rfl, exec_truncateCommands]
    rfl

theorem importEntries_eq (g : Graph) (entries : List RecordedEntry) (o : ImportOptions)
    (now : Instant) :
    importEntries { graph := g } entries o now =
      (.ok ((g.base o.replace).tally (verdictsOf entries)),
        { graph := if o.dryRun then g else
            o.finish now ((g.base o.replace).tally (verdictsOf entries))
              ((g.base o.replace).absorb (verdictsOf entries)) }) := by
  rw [importEntries_of_closed rfl, exec_writeEntries_eq, Store.concluded]
  cases o.dryRun <;> rfl

/-- The report on a recording that is imported once more. -/
def ImportReport.again (r : ImportReport) : ImportReport where
  existing := r.imported + r.existing
  skipped := r.skipped
  failed := r.failed

/-- What importing entries does to a graph, and what is reported about it. -/
structure Graph.Imported (g : Graph) (entries : List RecordedEntry) (replace : Bool) (now : Instant)
    (report : ImportReport) (g' : Graph) : Prop where
  /-- New commands stand after those of before, in the order of their first occurrence and with the ids
  that follow. -/
  commands : g'.commands = g.kept replace ++ numbered (nextId ((g.kept replace).map (·.id)))
    (distinctFrom ((g.kept replace).map CommandRecord.key) (acceptedKeys (verdictsOf entries)))
  imported : g'.commands.length = (g.kept replace).length + report.imported
  accepted : report.imported + report.existing = (acceptedKeys (verdictsOf entries)).length
  skipped : report.skipped = (verdictsOf entries).count .skipped
  failed : report.failed = (verdictsOf entries).count .failed
  total : report.imported + report.existing + report.skipped + report.failed = entries.length
  stamps : g'.stamps =
    if report.imported > 0 ∨ replace then g.stamps.set .importCommands (.ofInstant now) else g.stamps
  artifacts : g'.artifacts =
    if replace then g.artifacts.map ({ · with generator := none }) else g.artifacts
  edges : g'.edges = g.edges
  symbols : g'.symbols = g.symbols
  references : g'.references = g.references

/-- An import of these entries, by how they are stored and when, does to a store what its report says,
and nothing if it is done again. -/
def ImportsExactly {ε : Type} (s : Store) (entries : List RecordedEntry)
    (import_ : Store → ImportOptions → Instant → Except ε ImportReport × Store) : Prop :=
  ∀ replace now, ∃ report g',
    import_ s { replace } now = (.ok report, { graph := g' }) ∧
    s.graph.Imported entries replace now report g' ∧
    ∀ dryRun now', import_ { graph := g' } { dryRun } now' = (.ok report.again, { graph := g' })

theorem Graph.sameRest_base (g : Graph) (replace : Bool) :
    (g.base replace).edges = g.edges ∧ (g.base replace).symbols = g.symbols ∧
      (g.base replace).references = g.references ∧ (g.base replace).stamps = g.stamps := by
  cases replace
  · exact ⟨rfl, rfl, rfl, rfl⟩
  · rw [base, if_pos rfl, exec_truncateCommands]
    exact ⟨rfl, rfl, rfl, rfl⟩

theorem ImportOptions.finish_eq (o : ImportOptions) (now : Instant) (report : ImportReport)
    (g : Graph) :
    o.finish now report g = { g with
      stamps := if report.imported > 0 ∨ o.replace then g.stamps.set .importCommands (.ofInstant now)
        else g.stamps } := by
  unfold ImportOptions.finish
  by_cases changes : report.imported > 0 ∨ o.replace
  · rw [if_pos (by simpa using changes), if_pos changes]
    rfl
  · rw [if_neg (by simpa using changes), if_neg changes]

theorem Graph.imported_finish (hg : g.Intact) (entries : List RecordedEntry) (o : ImportOptions)
    (now : Instant) :
    g.Imported entries o.replace now ((g.base o.replace).tally (verdictsOf entries))
      (o.finish now ((g.base o.replace).tally (verdictsOf entries))
        ((g.base o.replace).absorb (verdictsOf entries))) := by
  obtain ⟨edges, symbols, references, stamps⟩ := g.sameRest_base o.replace
  have accepted := tally_accepted (g.base o.replace) (verdictsOf entries)
  rw [ImportOptions.finish_eq]
  exact {
    commands := by rw [← commands_base]; rfl
    imported := by
      rw [← commands_base]
      exact List.length_append.trans (congrArg _ (length_numbered _ _))
    accepted
    skipped := rfl
    failed := rfl
    total := by
      rw [accepted]
      exact (length_verdicts _).symm.trans (List.length_map _)
    stamps := by rw [← stamps]; rfl
    artifacts := artifacts_base hg o.replace
    edges
    symbols
    references }

/-- Entries that have been imported are found in place. -/
theorem importEntries_again (entries : List RecordedEntry) (dryRun : Bool) (now : Instant)
    (known : g'.commands = (g.absorb (verdictsOf entries)).commands) :
    importEntries { graph := g' } entries { dryRun } now =
      (.ok (g.tally (verdictsOf entries)).again, { graph := g' }) := by
  have none := newKeys_again known
  have again : g'.tally (verdictsOf entries) = (g.tally (verdictsOf entries)).again := by
    rw [ImportReport.again, tally_accepted, tally, none]
    rfl
  have unchanged : g'.absorb (verdictsOf entries) = g' := by rw [absorb, none, withCommands_nil]
  rw [importEntries_eq]
  show (_, _) = _
  simp only [base, Bool.false_eq_true, if_false, again, unchanged, ImportOptions.finish_eq]
  simp [ImportReport.again]

theorem importsExactly_importEntries (closed : s.saved = none) (hg : s.graph.Intact)
    (entries : List RecordedEntry) :
    ImportsExactly s entries fun s o now => importEntries s entries o now := by
  intro replace now
  refine ⟨_, _, ?_, imported_finish hg entries { replace } now, fun dryRun now' => ?_⟩
  · rw [Store.eq_of_closed closed]
    exact importEntries_eq s.graph entries { replace } now
  · exact importEntries_again entries dryRun now' (commands_finish _ _ _ _)

/-- An error of the store may be put into other words, as there is none. -/
theorem ImportsExactly.mapError {ε ε' : Type} {entries : List RecordedEntry}
    {op : Store → ImportOptions → Instant → Except ε ImportReport × Store}
    (h : ImportsExactly s entries op) (f : ε → ε') :
    ImportsExactly s entries fun s o now => ((op s o now).1.mapError f, (op s o now).2) := by
  intro replace now
  obtain ⟨report, g', run, imported, again⟩ := h replace now
  refine ⟨report, g', ?_, imported, fun dryRun now' => ?_⟩
  · simp only [run]
    rfl
  · simp only [again]
    rfl

/-- A log has an entry for each line that is not blank and does not begin with `#`, once the blanks
around it are removed. -/
theorem length_logEntries (text directory : String) :
    (logEntries text directory).length =
      (Text.linesOf text.toList).countP fun line =>
        Text.trimChars line ≠ [] ∧ (Text.trimChars line).head? ≠ some '#' := by
  rw [logEntries, List.length_map, ← List.countP_eq_length_filter, List.countP_map]
  refine List.countP_congr fun line _ => ?_
  simp [isLogComment]

/-- On a store without an open transaction, a log that is text and a compilation database that can be
read are imported exactly, entry by entry, and anything else leaves the store as it was. -/
theorem import_exact (closed : s.saved = none) (hg : s.graph.Intact) :
    (∀ contents directory,
      (∀ text, FileTree.textOf contents = .ok text →
        (logEntries text directory).length = ((Text.linesOf text.toList).countP fun line =>
          Text.trimChars line ≠ [] ∧ (Text.trimChars line).head? ≠ some '#') ∧
        ImportsExactly s (logEntries text directory) fun s o now =>
          importLog s contents directory o now) ∧
      ∀ e, FileTree.textOf contents = .error e → ∀ o now,
        importLog s contents directory o now = (.error (.unreadable e), s)) ∧
    ∀ contents,
      (∀ entries, compileDatabase contents = .ok entries →
        ImportsExactly s (entries.map CompileEntry.recorded) fun s o now =>
          importDatabase s contents o now) ∧
      ∀ e, compileDatabase contents = .error e → ∀ o now,
        importDatabase s contents o now = (.error (.malformed (.json e)), s) := by
  have exact (entries : List RecordedEntry) :=
    (importsExactly_importEntries closed hg entries).mapError ImportError.store
  refine ⟨fun contents directory => ⟨fun text readable => ⟨length_logEntries text directory, ?_⟩,
    fun e unreadable o now => ?_⟩, fun contents => ⟨fun entries readable => ?_,
    fun e malformed o now => ?_⟩⟩
  · simp only [importLog, readable]
    exact exact (logEntries text directory)
  · rw [importLog, unreadable]
  · simp only [importDatabase, readable]
    exact exact (entries.map CompileEntry.recorded)
  · rw [importDatabase, malformed]

/-- A log of a known command, a new one, the new one once more, an unknown tool and an open quote. -/
def mixedLog : ByteArray :=
  ("# objects\ngcc -c -o a.o a.c\n\n  gcc -c -o b.o b.c\ngcc -c -o b.o b.c\nmake all\n" ++
    "gcc -c 'c.c\n").toUTF8

def mixedEntries : List RecordedEntry :=
  let object : Command := ⟨"/w", "gcc", ["-c", "-o", "b.o", "b.c"]⟩
  [.ok ⟨"/w", "gcc", ["-c", "-o", "a.o", "a.c"]⟩, .ok object, .ok object, .ok ⟨"/w", "make", ["all"]⟩,
    .error (.unbalanced "gcc -c 'c.c")]

/-- A store with one command and its artifact. -/
def stocked : Store where
  graph := {
    commands := [⟨4, "/w", "gcc", "-c -o a.o a.c"⟩]
    artifacts := [⟨1, "/w/a.o", .object, some 4⟩]
    stamps := { importCommands := some (.at ⟨1, 0⟩) } }

/-- What the log adds to it. -/
def restocked : Graph where
  commands := [⟨4, "/w", "gcc", "-c -o a.o a.c"⟩, ⟨5, "/w", "gcc", "-c -o b.o b.c"⟩]
  artifacts := [⟨1, "/w/a.o", .object, some 4⟩]
  stamps := { importCommands := some (.at ⟨2, 0⟩) }

/-- What it leaves if it replaces. -/
def replenished : Graph where
  commands := [⟨1, "/w", "gcc", "-c -o a.o a.c"⟩, ⟨2, "/w", "gcc", "-c -o b.o b.c"⟩]
  artifacts := [⟨1, "/w/a.o", .object, none⟩]
  stamps := { importCommands := some (.at ⟨2, 0⟩) }

/-- One command of the log is new, and both are if those of before are replaced. -/
theorem import_exact_mixed :
    stocked.graph.Imported mixedEntries false ⟨2, 0⟩ ⟨1, 2, 1, 1⟩ restocked ∧
    importLog { graph := restocked } mixedLog "/w" {} ⟨3, 0⟩ =
      (.ok ⟨0, 3, 1, 1⟩, { graph := restocked }) ∧
    stocked.graph.Imported mixedEntries true ⟨2, 0⟩ ⟨2, 1, 1, 1⟩ replenished := by
  obtain ⟨text, readable, entries⟩ :
      ∃ text, FileTree.textOf mixedLog = .ok text ∧ logEntries text "/w" = mixedEntries :=
    ⟨_, rfl, by decide +kernel⟩
  have added : importLog stocked mixedLog "/w" {} ⟨2, 0⟩ =
      (.ok ⟨1, 2, 1, 1⟩, { graph := restocked }) := by
    decide +kernel
  have replaced : importLog stocked mixedLog "/w" { replace := true } ⟨2, 0⟩ =
      (.ok ⟨2, 1, 1, 1⟩, { graph := replenished }) := by
    decide +kernel
  obtain ⟨-, exact⟩ :=
    ((import_exact (s := stocked) rfl (by decide +kernel)).1 mixedLog "/w").1 text readable
  rw [entries] at exact
  obtain ⟨report, g', run, effect, again⟩ := exact false ⟨2, 0⟩
  cases run.symm.trans added
  obtain ⟨report', g'', run', effect', -⟩ := exact true ⟨2, 0⟩
  cases run'.symm.trans replaced
  exact ⟨effect, again false ⟨3, 0⟩, effect'⟩

end BuildAudit
