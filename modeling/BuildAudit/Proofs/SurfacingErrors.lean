import BuildAudit.Damage
import BuildAudit.Proofs.CleanSymbols
import BuildAudit.Proofs.CountedReferences
import BuildAudit.Proofs.DependencyOutcome
import BuildAudit.Proofs.ImportOutcome
import BuildAudit.Proofs.LinkAudits
import BuildAudit.Proofs.Replay

/-!
# Errors that surface

Most errors of a store say that something is wrong with the store itself: a row that refers to nothing,
an artifact that depends on itself, a text that is no time.  None of them surfaces from a store that
imports and extractions have made.  Its stamps are times (`stamps_run`), so that an extraction fails on
conflicts alone (`isConflict_of_extract`), and its rows can be read, so that no audit fails on them
(`only_conflicts_surface`).  What can stop an audit are sizes that overflow when they are added up
(`duplicates_stopped_tables`).
-/

namespace BuildAudit

open Update BuildAudit.Graph

variable {x : Extractor} {g g' : Graph} {s : Store}

/-! ## Stamps -/

/-- Every stamp is a time. -/
def Graph.Dated (g : Graph) : Prop :=
  ∀ phase stamp, g.stamps.get phase = some stamp → ∃ t, stamp = .at t

/-- A stamp of the new graph is one of the old graph, or says `now`. -/
def Graph.StampsFrom (g : Graph) (now : Instant) (g' : Graph) : Prop :=
  ∀ phase stamp, g'.stamps.get phase = some stamp →
    stamp = .ofInstant now ∨ g.stamps.get phase = some stamp

theorem Graph.StampsFrom.of_eq {now : Instant} (same : g'.stamps = g.stamps) : g.StampsFrom now g' :=
  fun _ _ h => .inr (same ▸ h)

theorem Graph.StampsFrom.dated {now : Instant} (h : g.StampsFrom now g') (writable : now.Writable)
    (dated : g.Dated) : g'.Dated := by
  intro phase stamp hs
  rcases h phase stamp hs with rfl | old
  · exact ⟨now, Stamp.ofInstant_of_writable writable⟩
  · exact dated phase stamp old

theorem stampsFrom_concluded {α : Type} {now : Instant} {finish : α → Graph → Graph}
    {r : Except StoreError α × Graph}
    (after : ∀ a g, r = (.ok a, g) → s.graph.StampsFrom now (finish a g)) (rehearsal : Bool) :
    s.graph.StampsFrom now (s.concluded rehearsal finish r).graph := by
  rcases r with ⟨e | a, g⟩
  · exact .of_eq rfl
  · rw [Store.concluded]
    split
    · exact .of_eq rfl
    · exact after a g rfl

theorem stampsFrom_importEntries (closed : s.saved = none) (entries : List RecordedEntry)
    (o : ImportOptions) (now : Instant) :
    s.graph.StampsFrom now (importEntries s entries o now).2.graph := by
  rw [importEntries_of_closed closed]
  refine stampsFrom_concluded (fun report g hr => ?_) o.dryRun
  have stamps : g.stamps = s.graph.stamps := by
    rw [exec_writeEntries_eq] at hr
    cases hr
    exact (s.graph.sameRest_base o.replace).2.2.2
  rw [ImportOptions.finish]
  split
  · intro phase stamp hs
    rw [setPhaseTime, Stamps.get_set, stamps] at hs
    split at hs
    · exact .inl (Option.some.inj hs).symm
    · exact .inr hs
  · exact .of_eq stamps

theorem stampsFrom_extract (hx : x.ReadsAll) (closed : s.saved = none) (hg : s.graph.Intact)
    (withSymbols : Bool) (now : Instant) :
    s.graph.StampsFrom now (extract x withSymbols now s).store.graph := by
  rcases h : stale s.graph x.options.force withSymbols with e | todo
  · rw [extract_of_error h]
    exact .of_eq rfl
  · rw [(extract_of_stale closed h now).2]
    refine stampsFrom_concluded (fun report g hr => ?_) x.options.dryRun
    obtain ⟨g₁, first, second⟩ := phasesUpdate_eq_ok hr
    obtain ⟨intact, rest⟩ := sameRest_ifStale hx hg first
    obtain ⟨listing, registers⟩ := registers_ifStale hx intact second
    intro phase stamp hs
    rw [get_stampPhases, registers.stamps, rest.stamps] at hs
    split at hs
    · exact .inl (Option.some.inj hs).symm
    · exact .inr hs

/-- A call stamps its own time or nothing. -/
theorem stampsFrom_run (hx : x.ReadsAll) (closed : s.saved = none) (hg : s.graph.Intact)
    (now : Instant) (c : Call) : s.graph.StampsFrom now (c.run x now s).2.graph := by
  cases c with
  | importLog contents directory options =>
    simp only [Call.run, importLog]
    rcases FileTree.textOf contents with e | text
    · exact .of_eq rfl
    · exact stampsFrom_importEntries closed _ _ now
  | importDatabase contents options =>
    simp only [Call.run, importDatabase]
    rcases compileDatabase contents with e | entries
    · exact .of_eq rfl
    · exact stampsFrom_importEntries closed _ _ now
  | extractDependencies options order =>
    exact stampsFrom_extract (x := { x with options, order }) hx closed hg false now
  | extractSymbols options order =>
    exact stampsFrom_extract (x := { x with options, order }) hx closed hg true now

/-- The stores that imports and extractions lead to from an empty one, whatever files and tools there
are each time.  The clock shows years of four digits. -/
inductive Store.Recorded : Store → Prop where
  | empty : Store.empty.Recorded
  | call {s : Store} (recorded : s.Recorded) {x : Extractor} (hx : x.ReadsAll) (c : Call)
      {now : Instant} (writable : now.Writable) : (c.run x now s).2.Recorded

theorem Store.Recorded.attained (recorded : s.Recorded) : s.Attained Extractor.ReadsAll := by
  induction recorded with
  | empty => exact .empty
  | call _ hx c _ ih => exact ih.call hx c _

theorem Store.Recorded.dated (recorded : s.Recorded) : s.graph.Dated := by
  induction recorded with
  | empty => exact fun phase stamp h => by cases phase <;> cases h
  | call recorded hx c writable ih =>
    obtain ⟨closed, listed⟩ := recorded.attained.kept keptByCalls_cleanlyListed
    exact (stampsFrom_run hx closed listed.intact _ c).dated writable ih

/-! ## Extractions -/

theorem Graph.Dated.phaseTime_eq_ok (dated : g.Dated) (phase : Phase) :
    ∃ time?, g.phaseTime phase = .ok time? := by
  unfold phaseTime
  rcases h : g.stamps.get phase with _ | stamp
  · exact ⟨none, rfl⟩
  · obtain ⟨t, rfl⟩ := dated phase stamp h
    exact ⟨some t, rfl⟩

/-- Where stamps are times, it can be told what is stale. -/
theorem Graph.Dated.stale_eq_ok (dated : g.Dated) (force withSymbols : Bool) :
    ∃ todo, stale g force withSymbols = .ok todo := by
  have current (phase needed : Phase) : ∃ b, g.isCurrentPhase phase needed = .ok b := by
    obtain ⟨done, hdone⟩ := dated.phaseTime_eq_ok phase
    obtain ⟨there, hthere⟩ := dated.phaseTime_eq_ok needed
    exact ⟨isCurrent done there, by rw [isCurrentPhase, hdone, hthere]; rfl⟩
  cases force
  · rw [stale_unforced]
    obtain ⟨dependencies, hd⟩ := current .extractDependencies .importCommands
    obtain ⟨symbols, hs⟩ := current .extractSymbols .extractDependencies
    rw [hd, hs]
    cases dependencies
    · exact ⟨_, rfl⟩
    · cases withSymbols
      · exact ⟨_, rfl⟩
      · exact ⟨_, rfl⟩
  · exact ⟨_, stale_force g withSymbols⟩

theorem isConflict_of_extract (hx : x.ReadsAll) (closed : s.saved = none) (hg : s.graph.Intact)
    (dated : s.graph.Dated) {withSymbols : Bool} {now : Instant} {e : StoreError}
    (failed : (extract x withSymbols now s).report = .error e) : e.IsConflict := by
  obtain ⟨todo, h⟩ := dated.stale_eq_ok x.options.force withSymbols
  by_cases due : todo.dependencies
  · exact (extract_fails_iff_clashes hx hg closed h due now).2 e failed
  · -- without the dependency phase nothing can fail
    rw [(extract_of_stale closed h now).1] at failed
    have first : ifStale todo.dependencies (dependencyUpdate x) = pure .current := if_neg due
    obtain ⟨report, g, hr⟩ := exec_ifStale_symbols hx hg todo.symbols
    rw [phasesUpdate, first, exec_bind_of_ok (exec_pure _ _), exec_bind_of_ok hr] at failed
    cases failed

/-! ## Audits -/

/-- A loop of rounds that succeed succeeds. -/
theorem mapM_of_ok {α β ε : Type} {f : α → Except ε β} {h : α → β} {as : List α}
    (each : ∀ a ∈ as, f a = .ok (h a)) : as.mapM f = .ok (as.map h) := by
  induction as with
  | nil => rfl
  | cons a as ih =>
    obtain ⟨first, rest⟩ := List.forall_mem_cons.1 each
    rw [List.mapM_cons, first, ih rest]
    rfl

namespace Database

/-- A database that nobody has changed. -/
def sound (s : Store) : Database := { store := s }

theorem readArtifacts_sound (s : Store) (column : Nat) (rows : List Artifact) :
    (sound s).readArtifacts column rows = .ok rows := by
  have all : rows.forM ((sound s).check column) = .ok () := by
    induction rows with
    | nil => rfl
    | cons row rows ih => exact ih
  rw [readArtifacts, all]
  rfl

theorem undefinedSymbols_sound (s : Store) (a : Id) :
    (sound s).undefinedSymbols a = BuildAudit.undefinedSymbols s.graph a := by
  have each : (fun id => do
      let u ← unresolved (sound s).graph id
      let _ ← (sound s).readArtifacts 2 u.candidates
      return u) = unresolved s.graph := by
    funext id
    show (do
      let u ← unresolved s.graph id
      let _ ← (sound s).readArtifacts 2 u.candidates
      return u) = _
    rcases unresolved s.graph id with e | u
    · rfl
    · show (do let _ ← (sound s).readArtifacts 2 u.candidates; return u) = _
      rw [readArtifacts_sound]
      rfl
  rw [undefinedSymbols, readArtifacts_sound]
  show (do return (← (openSymbols s.graph a).mapM _).mergeSort UnresolvedSymbol.le : Except _ _) = _
  rw [each, BuildAudit.undefinedSymbols]
  rcases (openSymbols s.graph a).mapM (unresolved s.graph) with e | found <;> rfl

theorem dependencyUsage_sound (s : Store) (a : Id) :
    (sound s).dependencyUsage a = .ok (BuildAudit.dependencyUsage s.graph a) := by
  rw [dependencyUsage, readArtifacts_sound]
  rfl

theorem closure_sound (s : Store) (a : Id) (direction : Direction) (types : List ArtifactType) :
    (sound s).closure a direction types = .ok (BuildAudit.closure s.graph a direction types) := by
  rw [closure, readArtifacts_sound]
  rfl

/-- Where every category is one, the references with a size are read as they are. -/
theorem sizedReferences_sound {s : Store}
    (unstrayed : ∀ r ∈ s.graph.references, r.strayCategory = none) :
    (sound s).sizedReferences = .ok s.graph.sizedReferences := by
  have flat : (s.graph.references.map fun row => (s.graph.sized? row.reference).toList).flatten =
      s.graph.sizedReferences := by
    rw [sizedReferences_eq unstrayed, List.filterMap_eq_flatMap_toList, List.flatMap_def]
  rw [Database.sizedReferences, mapM_of_ok (h := fun row => (s.graph.sized? row.reference).toList),
    ← flat]
  · rfl
  · intro row hrow
    have same : (sound s).graph.sized? row.reference = s.graph.sized? row.reference := rfl
    rw [unstrayed row hrow, same]
    rcases s.graph.sized? row.reference with _ | r <;> rfl

/-- The report of duplicates fails on nothing but sizes that overflow. -/
theorem duplicates_sound {s : Store} (intact : s.graph.Intact)
    (unstrayed : ∀ r ∈ s.graph.references, r.strayCategory = none) (f : DuplicateFilter) :
    (sound s).duplicates f =
      if ∀ symbol ∈ s.graph.symbols, s.graph.countedSize f symbol.id ≤ Number.maxInt64
      then .ok (BuildAudit.duplicates s.graph f) else .error .overflow := by
  have rows : Duplicate.ofRows? (s.graph.sizedReferences.filter f.accepts) = duplicates? s.graph f := rfl
  rw [duplicates, sizedReferences_sound unstrayed]
  dsimp only
  rw [rows, duplicates?_eq_counted intact unstrayed]
  split_ifs <;> rfl

theorem extract_sound (s : Store) (x : Extractor) (withSymbols : Bool) (now : Instant) :
    ((sound s).extract x withSymbols now).1.1 =
      (BuildAudit.extract { x with check := (sound s).check 2 } withSymbols now s).report := by
  unfold extract
  split <;> rfl

end Database

theorem Graph.CleanlyListed.unstrayed (h : g.CleanlyListed) {r : ReferenceRow} (hr : r ∈ g.references) :
    r.strayCategory = none := by
  obtain ⟨listing, -, lists⟩ := h.listed r.reference.artifact
  exact lists.unstrayed h.intact _ (ReferenceRow.content_mem_referencesAt hr)

/-- Whatever has been imported and extracted, no transaction is open, the rows fit together, an
extraction fails on conflicts alone, and no audit fails.  Only the report of duplicates may be stopped: it
is made unless the sizes of the references to one symbol that count have a sum that does not fit 64 bits
with a sign. -/
theorem only_conflicts_surface (recorded : s.Recorded) :
    s.saved = none ∧ s.graph.Intact ∧
    (∀ x withSymbols now e, ((Database.sound s).extract x withSymbols now).1.1 = .error e →
      e.IsConflict) ∧
    (∀ a, ∃ found, (Database.sound s).undefinedSymbols a = .ok found) ∧
    (∀ a, (Database.sound s).dependencyUsage a = .ok (dependencyUsage s.graph a)) ∧
    (∀ f, (Database.sound s).duplicates f =
      if ∀ symbol ∈ s.graph.symbols, s.graph.countedSize f symbol.id ≤ Number.maxInt64
      then .ok (duplicates s.graph f) else .error .overflow) ∧
    ∀ a direction types,
      (Database.sound s).closure a direction types = .ok (closure s.graph a direction types) := by
  obtain ⟨closed, listed⟩ := recorded.attained.kept keptByCalls_cleanlyListed
  refine ⟨closed, listed.intact, fun x withSymbols now e failed => ?_, fun a => ?_,
    Database.dependencyUsage_sound s,
    Database.duplicates_sound listed.intact fun r hr => listed.unstrayed hr, Database.closure_sound s⟩
  · rw [Database.extract_sound] at failed
    exact isConflict_of_extract (fun _ => rfl) closed listed.intact recorded.dated failed
  · exact ⟨_, (Database.undefinedSymbols_sound s a).trans (undefinedSymbols_eq listed.intact a)⟩

/-- Two commands that write the same file are in conflict, and that is what surfaces.  A symbol that
nobody defines is an answer of the audit, not a failure. -/
theorem only_conflicts_surface_rivals :
    (∃ e, ((Database.sound (rivalLog.run objectExtractor ⟨1, 0⟩ .empty).2).extract objectExtractor true
      ⟨2, 0⟩).1.1 = .error e ∧ e.IsConflict) ∧
    ∃ found, (Database.sound untidyExtracted).undefinedSymbols 1 = .ok found := by
  have written (n : Nat) (h : n ∈ [1, 2]) : Instant.Writable ⟨n, 0⟩ := by
    simp only [List.mem_cons, List.not_mem_nil, or_false] at h
    rcases h with rfl | rfl <;> exact ⟨by decide, by decide⟩
  have rivals : (rivalLog.run objectExtractor ⟨1, 0⟩ .empty).2.Recorded :=
    .call .empty (fun _ => rfl) rivalLog (written 1 (by decide))
  have untidy : untidyExtracted.Recorded :=
    .call (.call .empty (fun _ => rfl) _ (written 1 (by decide))) (fun _ => rfl) _
      (written 2 (by decide))
  have failed : ((Database.sound (rivalLog.run objectExtractor ⟨1, 0⟩ .empty).2).extract objectExtractor
      true ⟨2, 0⟩).1.1.isOk = false := by
    decide +kernel
  refine ⟨?_, (only_conflicts_surface untidy).2.2.2.1 1⟩
  rcases result : ((Database.sound (rivalLog.run objectExtractor ⟨1, 0⟩ .empty).2).extract
      objectExtractor true ⟨2, 0⟩).1.1 with e | report
  · exact ⟨e, rfl, (only_conflicts_surface rivals).2.2.1 _ _ _ e result⟩
  · rw [result] at failed
    cases failed

/-- Two objects that each have a table of this size, as the symbol dumper prints it. -/
def tableExtractor (size : String) : Extractor where
  files := ⟨[(["w"], .directory), (["w", "a.c"], .file .empty), (["w", "b.c"], .file .empty),
    (["w", "a.o"], .file ⟨#[0x7f, 0x45, 0x4c, 0x46]⟩), (["w", "b.o"], .file ⟨#[0x7f, 0x45, 0x4c, 0x46]⟩)], []⟩
  tools := fun _ args => .ok { stdout := if args.head? = some "-S" then "0 " ++ size ++ " B table\n" else "" }
  searchDirectories := []

def tablesExtracted (size : String) : Store :=
  ((Call.extractSymbols {} .fifo).run (tableExtractor size) ⟨2, 0⟩
    ((Call.importLog "gcc -c -o a.o a.c\ngcc -c -o b.o b.c".toUTF8 "/w" {}).run (tableExtractor size)
      ⟨1, 0⟩ .empty).2).2

/-- Two tables of 2 ^ 62 bytes stop the report of duplicates. -/
theorem duplicates_stopped_tables :
    (tablesExtracted "4000000000000000").Recorded ∧
      (Database.sound (tablesExtracted "4000000000000000")).duplicates {} = .error .overflow := by
  have first : Instant.Writable ⟨1, 0⟩ := ⟨by decide, by decide⟩
  have second : Instant.Writable ⟨2, 0⟩ := ⟨by decide, by decide⟩
  exact ⟨.call (.call .empty (fun _ => rfl) _ first) (fun _ => rfl) _ second, by decide +kernel⟩

end BuildAudit
