import BuildAudit.Proofs.Calls
import BuildAudit.Proofs.Imports
import BuildAudit.Proofs.Stamps

/-!
# Staleness

While a store has one owner, and each call ends later than those before, the stamps of phases say what
the graph holds: if dependencies are current, every command has been applied, and if symbols are
current, every artifact is listed (`Extractor.Settled`).  Phases that run do what they are stamped for
(`did_phases`), an import leaves dependencies stale unless it changes nothing
(`settled_importEntries`), and so every call keeps a store settled (`settled_run`).
-/

namespace BuildAudit

open Update BuildAudit.Graph

variable {x : Extractor} {g g' g'' : Graph}

/-! ## What results depend on -/

theorem Graph.Holds.congr {obs : List Observation} {links : List (String × String)}
    (h : g.Holds obs links) (artifacts : g'.artifacts = g.artifacts) (edges : g'.edges = g.edges) :
    g'.Holds obs links where
  known := fun o ho => by
    rw [Graph.known, artifactNamed?, artifacts]
    exact h.known o ho
  linked := fun link hl => by
    have same : g'.namedEdges = g.namedEdges := by
      simp only [namedEdges, artifact?, artifacts, edges]
    rw [same]
    exact h.linked link hl

theorem Extractor.Applied.congr (h : x.Applied g) (commands : g'.commands = g.commands)
    (artifacts : g'.artifacts = g.artifacts) (edges : g'.edges = g.edges) : x.Applied g' := by
  intro c hc
  exact (h c (commands ▸ hc)).congr artifacts edges

theorem Graph.Lists.congr {a : Id} {listing : Listing} (h : g.Lists a listing)
    (references : g'.references = g.references) (symbols : g'.symbols = g.symbols) :
    g'.Lists a listing := by
  have entries : g'.entryReference? a = g.entryReference? a := by
    funext entry
    rw [entryReference?, entryReference?, symbolNamed?, symbolNamed?, symbols]
  rw [Lists, referencesAt_congr references, entries]
  exact h

theorem listing_congr {row row' : Artifact} (name : row.name = row'.name)
    (type : row.type = row'.type) : x.listing row = x.listing row' := by
  rw [Extractor.listing, Extractor.listing, name, type]

/-! ## Imports -/

theorem Graph.SameButCommands.tidy (h : g.SameButCommands g') (tidy : x.Tidy g) : x.Tidy g' := by
  intro row hrow cannot
  obtain ⟨old, hold, ids, names, types⟩ := h.artifact hrow
  rw [referencesAt_congr h.references, ← ids]
  refine tidy old hold fun symbols => ?_
  rw [names]
  exact cannot (types ▸ symbols)

theorem Graph.SameButCommands.listed (h : g.SameButCommands g') (listed : x.Listed g) :
    x.Listed g' := by
  intro row hrow
  obtain ⟨old, hold, ids, names, types⟩ := h.artifact hrow
  rw [← ids, ← listing_congr names types]
  exact (listed old hold).congr h.references h.symbols

/-! ## Phases -/

theorem hasSymbols_of_refinesTo {t u : ArtifactType} (h : t.refinesTo u) :
    t.hasSymbols = u.hasSymbols := by
  revert h
  cases t <;> cases u <;> decide

theorem Graph.known_of_mem (hg : g.Intact) {row : Artifact} (hrow : row ∈ g.artifacts) :
    g.known row.name = some row.knowledge :=
  (known_eq_some_iff hg).2 ⟨row, hrow, rfl, rfl⟩

/-- What is known of an artifact is no more than what the evidence asks for. -/
theorem Graph.Absorbs.isLUB {obs : List Observation} {links : List (String × String)}
    (h : g.Absorbs obs links g') {row : Artifact} (hrow : row ∈ g'.artifacts) :
    IsLUB (g.evidence obs row.name) row.knowledge := by
  have after := known_of_mem h.intact hrow
  rw [IsLUB, ← h.known, evidence_nil_of_some after, upperBounds_singleton]
  exact isLeast_Ici

/-- An artifact was there before, and what is known of it has only grown, or its id is new. -/
theorem Graph.Absorbs.old_or_new {obs : List Observation} {links : List (String × String)}
    (h : g.Absorbs obs links g') (hg : g.Intact) {row : Artifact} (hrow : row ∈ g'.artifacts) :
    (∃ old ∈ g.artifacts, old.id = row.id ∧ old.name = row.name ∧ old.knowledge ≤ row.knowledge) ∨
      ¬ g.hasArtifact row.id := by
  by_cases there : g.hasArtifact row.id
  · obtain ⟨old, hold, ids, names⟩ := h.keepsIds.name_eq h.intact hrow there
    have before : g.known row.name = some old.knowledge := names ▸ known_of_mem hg hold
    exact .inl ⟨old, hold, ids, names, (h.isLUB hrow).1 (.inl before)⟩
  · exact .inr there

/-- Taking in observations keeps a graph tidy: kinds are narrowed among those with symbols. -/
theorem Graph.Absorbs.tidy {obs : List Observation} {links : List (String × String)}
    (h : g.Absorbs obs links g') (hg : g.Intact) (tidy : x.Tidy g) : x.Tidy g' := by
  intro row hrow cannot
  rw [referencesAt_congr h.rest.references]
  rcases h.old_or_new hg hrow with ⟨old, hold, ids, names, le⟩ | new
  · have types := hasSymbols_of_refinesTo le.1
    rw [← ids]
    refine tidy old hold fun symbols => ?_
    rw [names]
    exact cannot (types ▸ symbols)
  · exact referencesAt_eq_nil hg new

/-- What the phases that were stale have done to a tidy graph. -/
structure Extractor.Did (x : Extractor) (todo : Stale) (g g' : Graph) : Prop where
  intact : g'.Intact
  tidy : x.Tidy g'
  stamps : g'.stamps = g.stamps
  applied : todo.dependencies ∨ x.Applied g → x.Applied g'
  listed : todo.symbols → x.Listed g'
  nothing : todo.dependencies = false → todo.symbols = false → g' = g

theorem Extractor.did_nothing (hg : g.Intact) (tidy : x.Tidy g) : x.Did ⟨false, false⟩ g g :=
  ⟨hg, tidy, rfl, fun h => h.resolve_left nofun, nofun, fun _ _ => rfl⟩

theorem did_dependencies (hx : x.ReadsAll) (hg : g.Intact) (tidy : x.Tidy g) {stale : Bool}
    {report : PhaseReport} (h : (ifStale stale (dependencyUpdate x)).exec g = (.ok report, g')) :
    x.Did ⟨stale, false⟩ g g' ∧ report.upToDate = !stale := by
  cases stale
  · cases h
    exact ⟨Extractor.did_nothing hg tidy, rfl⟩
  · have hr : (dependencyUpdate x).exec g = (.ok report, g') := h
    have absorbs := absorbs_of_dependencyUpdate hx hg hr
    have applied := applied_of_dependencyUpdate hx hg hr
    exact ⟨⟨absorbs.intact, absorbs.tidy hg tidy, absorbs.rest.stamps, fun _ => applied, nofun, nofun⟩,
      (counts_treatInOrder hr).1⟩

theorem did_symbols (hx : x.ReadsAll) (starts : x.Starts) (hg : g.Intact) (tidy : x.Tidy g)
    {stale : Bool} {report : PhaseReport}
    (h : (ifStale stale (symbolUpdate x)).exec g = (.ok report, g')) :
    x.Did ⟨false, stale⟩ g g' ∧ report.upToDate = !stale := by
  cases stale
  · cases h
    exact ⟨Extractor.did_nothing hg tidy, rfl⟩
  · obtain ⟨report', g'', hr, upToDate, registers, listed⟩ :=
      exec_symbolUpdate hx starts hg fun _ => tidy
    obtain ⟨same, rfl⟩ := Prod.mk.inj (hr.symm.trans h)
    obtain rfl := Except.ok.inj same
    refine ⟨⟨registers.intact, listed.tidy, registers.stamps, fun applied => ?_, fun _ => listed,
      nofun⟩, upToDate⟩
    exact (applied.resolve_left nofun).congr registers.commands registers.artifacts registers.edges

/-- Dependencies first, then symbols. -/
theorem Extractor.Did.comp {dependencies symbols : Bool} (h : x.Did ⟨dependencies, false⟩ g g')
    (h' : x.Did ⟨false, symbols⟩ g' g'') : x.Did ⟨dependencies, symbols⟩ g g'' where
  intact := h'.intact
  tidy := h'.tidy
  stamps := h'.stamps.trans h.stamps
  applied := fun applied => h'.applied (.inr (h.applied applied))
  listed := h'.listed
  nothing := fun none none' => (h'.nothing rfl none').trans (h.nothing none rfl)

/-- What a run of the phases that succeeds has done, and that it reports the other phases as up to
date. -/
theorem did_phases (hx : x.ReadsAll) (starts : x.Starts) (hg : g.Intact) (tidy : x.Tidy g)
    {todo : Stale} {report : ExtractionReport}
    (h : (phasesUpdate x todo).exec g = (.ok report, g')) :
    x.Did todo g g' ∧ report.dependencies.upToDate = !todo.dependencies ∧
      report.symbols.upToDate = !todo.symbols := by
  obtain ⟨g₁, hd, hs⟩ := phasesUpdate_eq_ok h
  obtain ⟨did, upToDate⟩ := did_dependencies hx hg tidy hd
  obtain ⟨did', upToDate'⟩ := did_symbols hx starts did.intact did.tidy hs
  exact ⟨did.comp did', upToDate, upToDate'⟩

/-! ## Settled stores -/

/-- All stamps are times at which calls ended, and the stamps of phases say what the graph holds. -/
structure Extractor.Settled (x : Extractor) (times : List Instant) (s : Store) : Prop where
  closed : s.saved = none
  intact : s.graph.Intact
  tidy : x.Tidy s.graph
  stamped : ∀ phase stamp, s.graph.stamps.get phase = some stamp →
    ∃ t ∈ times, stamp = .ofInstant t
  applied : s.graph.isCurrentPhase .extractDependencies .importCommands = .ok true →
    x.Applied s.graph
  listed : s.graph.isCurrentPhase .extractSymbols .extractDependencies = .ok true →
    x.Listed s.graph

theorem Extractor.settled_empty (x : Extractor) : x.Settled [] Store.empty where
  closed := rfl
  intact := intact_empty
  tidy := nofun
  stamped := fun phase _ h => by cases phase <;> cases h
  applied := nofun
  listed := nofun

variable {times : List Instant} {now : Instant} {s : Store}

theorem Extractor.Settled.later (h : x.Settled times s) (now : Instant) :
    x.Settled (now :: times) s :=
  { h with
    stamped := fun phase stamp hs => by
      obtain ⟨t, ht, e⟩ := h.stamped phase stamp hs
      exact ⟨t, List.mem_cons_of_mem now ht, e⟩ }

/-- A stamp that is a time is earlier than the next call. -/
theorem Extractor.Settled.before (h : x.Settled times s) (later : ∀ t ∈ times, t.Before now)
    {phase : Phase} {t : Instant} (ht : s.graph.stamps.get phase = some (.at t)) :
    t.Before now := by
  obtain ⟨u, hu, e⟩ := h.stamped phase _ ht
  rw [← Stamp.eq_of_ofInstant e.symm]
  exact later u hu

/-- Changed commands are stamped, so that dependencies are stale. -/
theorem Extractor.Settled.imported (h : x.Settled times s) (later : ∀ t ∈ times, t.Before now)
    (hg : g.Intact) (same : s.graph.SameButCommands g) :
    x.Settled (now :: times) { graph := g.setPhaseTime .importCommands now } := by
  have stamps (phase : Phase) : (g.setPhaseTime .importCommands now).stamps.get phase =
      if phase = .importCommands then some (.ofInstant now) else s.graph.stamps.get phase := by
    rw [setPhaseTime, Stamps.get_set, same.stamps]
  exact
    { closed := rfl
      intact := hg.setPhaseTime _ _
      tidy := same.tidy h.tidy
      stamped := fun phase stamp hs => by
        rw [stamps] at hs
        split at hs
        · exact ⟨now, List.mem_cons_self, (Option.some.inj hs).symm⟩
        · exact (h.later now).stamped phase stamp hs
      applied := fun current => absurd current <| not_isCurrentPhase (stamps _) fun t ht => by
        rw [stamps, if_neg (by decide)] at ht
        exact h.before later ht
      listed := fun current => by
        rw [isCurrentPhase_congr (stamps _) (stamps _)] at current
        exact same.listed (h.listed current) }

theorem settled_importEntries (h : x.Settled times s) (later : ∀ t ∈ times, t.Before now)
    (entries : List RecordedEntry) (o : ImportOptions) :
    x.Settled (now :: times) (importEntries s entries o now).2 := by
  rw [importEntries_of_closed h.closed]
  obtain ⟨report, g, hr, hg, same, unchanged⟩ := exec_writeEntries entries o.replace h.intact
  rw [hr]
  rcases dry : o.dryRun
  · by_cases changes : report.imported > 0 || o.replace
    · simpa [Store.concluded, ImportOptions.finish, changes] using h.imported later hg same
    · have nothing : report.imported = 0 ∧ o.replace = false := by simpa using changes
      have settled := h.later now
      rw [Store.eq_of_closed h.closed, ← unchanged nothing.1 nothing.2] at settled
      simpa [Store.concluded, ImportOptions.finish, changes] using settled
  · exact h.later now

/-- Phases that were done are stamped, and symbols are stale if dependencies alone were done. -/
theorem Extractor.Settled.extracted (h : x.Settled times s) (later : ∀ t ∈ times, t.Before now)
    {todo : Stale} (did : x.Did todo s.graph g) :
    x.Settled (now :: times) { graph := stampPhases todo now g } := by
  have stamps := get_stampPhases todo now g
  rw [did.stamps] at stamps
  have old {phase : Phase} (none : ¬ (phase = .extractDependencies ∧ todo.dependencies ∨
      phase = .extractSymbols ∧ todo.symbols)) :
      (stampPhases todo now g).stamps.get phase = s.graph.stamps.get phase := by
    rw [stamps, if_neg none]
  rw [stampPhases_eq]
  refine ⟨rfl, { did.intact with }, did.tidy, fun phase stamp hs => ?_, fun current => ?_,
    fun current => ?_⟩
  · change (stampPhases todo now g).stamps.get phase = some stamp at hs
    rw [stamps] at hs
    split at hs
    · exact ⟨now, List.mem_cons_self, (Option.some.inj hs).symm⟩
    · exact (h.later now).stamped phase stamp hs
  · refine (did.applied ?_).congr rfl rfl rfl
    rcases done : todo.dependencies
    · refine .inr (h.applied ?_)
      rw [← current]
      exact (isCurrentPhase_congr (old (by simp [done])) (old (by simp))).symm
    · exact .inl rfl
  · rcases doneSymbols : todo.symbols
    · rcases done : todo.dependencies
      · have nothing := did.nothing done doneSymbols
        have current' : s.graph.isCurrentPhase .extractSymbols .extractDependencies = .ok true := by
          rw [← current]
          exact (isCurrentPhase_congr (old (by simp [doneSymbols])) (old (by simp [done]))).symm
        rw [nothing]
        exact h.listed current'
      · have stamped : (stampPhases todo now g).stamps.get .extractDependencies =
            some (.ofInstant now) := by
          rw [stamps, if_pos (.inl ⟨rfl, done⟩)]
        refine absurd current (not_isCurrentPhase stamped fun t ht => ?_)
        exact h.before later ((old (by simp [doneSymbols])).symm.trans ht)
    · exact did.listed doneSymbols

/-- An extraction fails and leaves the store as it was, or it does what is stale and stamps it. -/
theorem extract_cases (hx : x.ReadsAll) (starts : x.Starts) (h : x.Settled times s)
    (options : ExtractionOptions) (order : FinishOrder) (withSymbols : Bool) (now : Instant) :
    (∃ e, (extract { x with options, order } withSymbols now s).report = .error e ∧
      (extract { x with options, order } withSymbols now s).store = s) ∨
    ∃ todo report g, stale s.graph options.force withSymbols = .ok todo ∧
      (extract { x with options, order } withSymbols now s).report = .ok report ∧
      x.Did todo s.graph g ∧
      report.dependencies.upToDate = !todo.dependencies ∧ report.symbols.upToDate = !todo.symbols ∧
      (extract { x with options, order } withSymbols now s).store =
        if options.dryRun then s else { graph := stampPhases todo now g } := by
  rcases stale_eq : stale s.graph options.force withSymbols with e | todo
  · rw [extract_of_error stale_eq]
    exact .inl ⟨e, rfl, rfl⟩
  · obtain ⟨hreport, hstore⟩ :=
      extract_of_stale (x := { x with options, order }) h.closed stale_eq now
    rcases hr : (phasesUpdate { x with options, order } todo).exec s.graph with ⟨e | report, g⟩ <;>
      rw [hr] at hreport hstore
    · exact .inl ⟨e, hreport, hstore⟩
    · -- what has been done does not depend on options or on who finishes first
      obtain ⟨did, upToDate⟩ :=
        did_phases (x := { x with options, order }) hx starts h.intact h.tidy hr
      exact .inr ⟨todo, report, g, rfl, hreport,
        ⟨did.intact, did.tidy, did.stamps, did.applied, did.listed, did.nothing⟩, upToDate.1,
        upToDate.2, hstore⟩

theorem settled_extract (hx : x.ReadsAll) (starts : x.Starts) (h : x.Settled times s)
    (later : ∀ t ∈ times, t.Before now) (options : ExtractionOptions) (order : FinishOrder)
    (withSymbols : Bool) :
    x.Settled (now :: times) (extract { x with options, order } withSymbols now s).store := by
  rcases extract_cases hx starts h options order withSymbols now with
    ⟨e, -, hstore⟩ | ⟨todo, report, g, -, -, did, -, -, hstore⟩ <;> rw [hstore]
  · exact h.later now
  · split
    · exact h.later now
    · exact h.extracted later did

theorem settled_run (hx : x.ReadsAll) (starts : x.Starts) (h : x.Settled times s)
    (later : ∀ t ∈ times, t.Before now) (c : Call) : x.Settled (now :: times) (c.run x now s).2 := by
  cases c with
  | importLog contents directory options =>
    simp only [Call.run, importLog]
    rcases FileTree.textOf contents with e | text
    · exact h.later now
    · exact settled_importEntries h later _ _
  | importDatabase contents options =>
    simp only [Call.run, importDatabase]
    rcases compileDatabase contents with e | entries
    · exact h.later now
    · exact settled_importEntries h later _ _
  | extractDependencies options order => exact settled_extract hx starts h later options order false
  | extractSymbols options order => exact settled_extract hx starts h later options order true

end BuildAudit
