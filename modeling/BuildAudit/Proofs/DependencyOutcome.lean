import BuildAudit.Proofs.Calls
import BuildAudit.Proofs.Stamps

/-!
# What a dependency phase comes to

When the phase fails, and what it leaves when it does not, said of the graph before it and of what its
commands resolve to.  The phase fails exactly if two commands write one file, or a file has a generator
and is written by another command, or the kinds that are known and observed of a file cannot become the
same (`extract_fails_iff_clashes`).  If it succeeds, it adds the artifacts and the edges of its commands
and nothing else (`extract_dependencies_exact`).
-/

namespace BuildAudit

open Update BuildAudit.Graph

variable {x : Extractor} {g g' : Graph} {s : Store} {path : String} {withSymbols : Bool}
  {now : Instant}

/-! ## What is known and observed of a file -/

/-- The command resolves to `r`. -/
def Extractor.Resolves (x : Extractor) (c : CommandRecord) (r : Resolution) : Prop :=
  c.resolve x.files x.searchDirectories = .ok r

/-- The command resolves, and writes the file at a path. -/
def Extractor.Writes (x : Extractor) (c : CommandRecord) (path : String) : Prop :=
  ∃ r, x.Resolves c r ∧ r.output = path

/-- The kinds of the file at a path: that of its artifact, and those as which commands write or read
it. -/
def Extractor.kindsAt (x : Extractor) (g : Graph) (path : String) : Set ArtifactType :=
  {t | (∃ a ∈ g.artifacts, a.name = path ∧ a.type = t) ∨
    ∃ c ∈ g.commands, ∃ r, x.Resolves c r ∧
      (r.output = path ∧ r.outputType = t ∨ ∃ d ∈ r.dependencies, d.path = path ∧ d.type = t)}

/-- The graph and its commands do not agree about the file at a path. -/
inductive Extractor.Clashes (x : Extractor) (g : Graph) (path : String) : Prop where
  /-- Two commands write it. -/
  | writers {c d : CommandRecord} (hc : c ∈ g.commands) (hd : d ∈ g.commands) (differ : c ≠ d)
      (writes : x.Writes c path) (writes' : x.Writes d path)
  /-- Its artifact has a generator already, and another command writes it. -/
  | generator {a : Artifact} {id : Id} {c : CommandRecord} (ha : a ∈ g.artifacts)
      (name : a.name = path) (generated : a.generator = some id) (hc : c ∈ g.commands)
      (writes : x.Writes c path) (differ : id ≠ c.id)
  /-- It has two kinds, neither of which is that of an unknown library. -/
  | kinds {t u : ArtifactType} (ht : t ∈ x.kindsAt g path) (hu : u ∈ x.kindsAt g path)
      (differ : t ≠ u) (definite : t ≠ .library) (definite' : u ≠ .library)
  /-- It is an unknown library, and also something that is no library at all. -/
  | library {t : ArtifactType} (unknown : .library ∈ x.kindsAt g path) (ht : t ∈ x.kindsAt g path)
      (other : t ∉ [.library, .static, .shared])

theorem mem_observations {c : CommandRecord} {o : Observation} :
    o ∈ x.observations c ↔ ∃ r, x.Resolves c r ∧ o ∈ r.observations c.id := by
  unfold Extractor.observations Extractor.Resolves
  rcases c.resolve x.files x.searchDirectories with e | r <;> simp

theorem mem_links {c : CommandRecord} {a b : String} :
    (a, b) ∈ x.links c ↔ ∃ r, x.Resolves c r ∧ r.output = a ∧ ∃ d ∈ r.dependencies, d.path = b := by
  unfold Extractor.links Extractor.Resolves Resolution.links
  rcases c.resolve x.files x.searchDirectories with e | r
  · simp
  · simp only [List.mem_map, Prod.mk.injEq, Except.ok.injEq, exists_eq_left']
    constructor
    · rintro ⟨d, hd, rfl, rfl⟩
      exact ⟨rfl, d, hd, rfl⟩
    · rintro ⟨rfl, d, hd, rfl⟩
      exact ⟨d, hd, rfl, rfl⟩

/-- What the commands of a graph observe, in the order in which the workers finish. -/
def Extractor.allObservations (x : Extractor) (g : Graph) : List Observation :=
  (x.finishOrder g.commands).flatMap x.observations

/-- The evidence on a path: the row of its artifact, and what each command observes of it. -/
theorem mem_evidence (hg : g.Intact) {κ : Knowledge} :
    κ ∈ g.evidence (x.allObservations g) path ↔
      (∃ a ∈ g.artifacts, a.name = path ∧ a.knowledge = κ) ∨
      ∃ c ∈ g.commands, ∃ r, x.Resolves c r ∧
        (r.output = path ∧ ⟨r.outputType, some c.id⟩ = κ ∨
          ∃ d ∈ r.dependencies, d.path = path ∧ ⟨d.type, none⟩ = κ) := by
  rw [evidence, Set.mem_ofPred_eq, known_eq_some_iff hg]
  refine or_congr_right ?_
  simp only [Extractor.allObservations, List.mem_flatMap, (x.finishOrder_perm _).mem_iff,
    mem_observations, Resolution.observations, List.mem_cons, List.mem_map, Observation.mk.injEq,
    @eq_comm _ path, @eq_comm _ κ]

theorem kinds_evidence (hg : g.Intact) :
    Knowledge.type '' g.evidence (x.allObservations g) path = x.kindsAt g path := by
  ext t
  simp only [Set.mem_image, mem_evidence hg, Extractor.kindsAt, Set.mem_ofPred_eq]
  constructor
  · rintro ⟨κ, ⟨a, ha, name, rfl⟩ | ⟨c, hc, r, hr, ⟨out, rfl⟩ | ⟨d, hd, at', rfl⟩⟩, rfl⟩
    · exact .inl ⟨a, ha, name, rfl⟩
    · exact .inr ⟨c, hc, r, hr, .inl ⟨out, rfl⟩⟩
    · exact .inr ⟨c, hc, r, hr, .inr ⟨d, hd, at', rfl⟩⟩
  · rintro (⟨a, ha, name, rfl⟩ | ⟨c, hc, r, hr, ⟨out, rfl⟩ | ⟨d, hd, at', rfl⟩⟩)
    · exact ⟨_, .inl ⟨a, ha, name, rfl⟩, rfl⟩
    · exact ⟨_, .inr ⟨c, hc, r, hr, .inl ⟨out, rfl⟩⟩, rfl⟩
    · exact ⟨_, .inr ⟨c, hc, r, hr, .inr ⟨d, hd, at', rfl⟩⟩, rfl⟩

theorem generator_evidence (hg : g.Intact) {id : Id} :
    (∃ κ ∈ g.evidence (x.allObservations g) path, id ∈ κ.generator) ↔
      (∃ a ∈ g.artifacts, a.name = path ∧ a.generator = some id) ∨
      ∃ c ∈ g.commands, x.Writes c path ∧ c.id = id := by
  simp only [mem_evidence hg]
  constructor
  · rintro ⟨κ, ⟨a, ha, name, rfl⟩ | ⟨c, hc, r, hr, ⟨out, rfl⟩ | ⟨d, hd, at', rfl⟩⟩, hid⟩
    · exact .inl ⟨a, ha, name, hid⟩
    · exact .inr ⟨c, hc, ⟨r, hr, out⟩, Option.some.inj hid⟩
    · cases hid
  · rintro (⟨a, ha, name, generated⟩ | ⟨c, hc, ⟨r, hr, out⟩, rfl⟩)
    · exact ⟨_, .inl ⟨a, ha, name, rfl⟩, generated⟩
    · exact ⟨_, .inr ⟨c, hc, r, hr, .inl ⟨out, rfl⟩⟩, rfl⟩

/-! ## When the phase fails -/

theorem ArtifactType.isLibrary_iff {t : ArtifactType} :
    t.isLibrary ↔ t ∈ [ArtifactType.library, .static, .shared] := by
  cases t <;> decide

/-- The evidence on a path fits together unless graph and commands clash. -/
theorem bddAbove_evidence_iff (hg : g.Intact) :
    BddAbove (g.evidence (x.allObservations g) path) ↔ ¬ x.Clashes g path := by
  rw [Knowledge.bddAbove_iff, kinds_evidence hg, ArtifactType.bddAbove_iff]
  have generators (id : Id) :
      (∃ κ ∈ g.evidence (x.allObservations g) path, id ∈ κ.generator) ↔ _ := generator_evidence hg
  constructor
  · rintro ⟨⟨same, libraries⟩, once⟩ clash
    cases clash with
    | writers hc hd differ writes writes' =>
      have ids := once ((generators _).2 (.inr ⟨_, hc, writes, rfl⟩))
        ((generators _).2 (.inr ⟨_, hd, writes', rfl⟩))
      exact differ (List.inj_on_of_nodup_map (nodup_of_pairwise_lt hg.commandIds) hc hd ids)
    | generator ha name generated hc writes differ =>
      exact differ (once ((generators _).2 (.inl ⟨_, ha, name, generated⟩))
        ((generators _).2 (.inr ⟨_, hc, writes, rfl⟩)))
    | kinds ht hu differ definite definite' => exact differ (same _ ht _ hu definite definite')
    | library unknown ht other => exact other (ArtifactType.isLibrary_iff.1 (libraries unknown _ ht))
  · intro none
    refine ⟨⟨fun t ht u hu definite definite' => ?_, fun unknown t ht => ?_⟩, fun i hi j hj => ?_⟩
    · exact by_contra fun differ => none (.kinds ht hu differ definite definite')
    · exact by_contra fun other => none (.library unknown ht (mt ArtifactType.isLibrary_iff.2 other))
    · by_contra differ
      rcases (generators i).1 hi with ⟨a, ha, name, generated⟩ | ⟨c, hc, writes, rfl⟩ <;>
        rcases (generators j).1 hj with ⟨b, hb, name', generated'⟩ | ⟨d, hd, writes', rfl⟩
      · -- the artifact of the path has one generator
        obtain rfl := List.inj_on_of_nodup_map hg.artifactNames ha hb (name.trans name'.symm)
        exact differ (Option.some.inj (generated.symm.trans generated'))
      · exact none (.generator ha name generated hd writes' differ)
      · exact none (.generator hb name' generated' hc writes (Ne.symm differ))
      · exact none (.writers hc hd (fun same => differ (congrArg _ same)) writes writes')

theorem contradicts_iff (hg : g.Intact) :
    g.Contradicts (x.allObservations g) ↔ ∃ path, x.Clashes g path :=
  exists_congr fun _ => by rw [bddAbove_evidence_iff hg, not_not]

/-- The symbol phase never fails. -/
theorem exec_ifStale_symbols (hx : x.ReadsAll) (hg : g.Intact) (stale : Bool) :
    ∃ report g', (ifStale stale (symbolUpdate x)).exec g = (.ok report, g') := by
  cases stale
  · exact ⟨_, g, rfl⟩
  · obtain ⟨report, g', hr, -⟩ := exec_symbolUpdate_replaces hx hg
    exact ⟨report, g', hr⟩

/-- If its dependency phase is due and no transaction is open, an extraction fails exactly if graph and
commands clash over a path, and then the error says that there is a conflict of kinds or of
generators. -/
theorem extract_fails_iff_clashes (hx : x.ReadsAll) (hg : s.graph.Intact) (closed : s.saved = none)
    {todo : Stale} (h : stale s.graph x.options.force withSymbols = .ok todo)
    (due : todo.dependencies) (now : Instant) :
    ((∃ e, (extract x withSymbols now s).report = .error e) ↔ ∃ path, x.Clashes s.graph path) ∧
      ∀ e, (extract x withSymbols now s).report = .error e → e.IsConflict := by
  rw [(extract_of_stale closed h now).1, ← contradicts_iff hg]
  have first : ifStale todo.dependencies (dependencyUpdate x) = dependencyUpdate x := if_pos due
  unfold phasesUpdate
  rw [first]
  rcases records_dependencyUpdate hx hg with
    ⟨report, g, hr, absorbs, -⟩ | ⟨e, g, hr, conflict, contradicts⟩
  · obtain ⟨report', g', hr'⟩ := exec_ifStale_symbols hx absorbs.intact todo.symbols
    rw [exec_bind_of_ok hr, exec_bind_of_ok hr']
    exact ⟨⟨nofun, fun contradicts => absurd contradicts absorbs.not_contradicts⟩, nofun⟩
  · rw [exec_bind_of_error hr]
    refine ⟨⟨fun _ => contradicts, fun _ => ⟨e, rfl⟩⟩, fun e' same => ?_⟩
    obtain rfl := Except.error.inj same
    exact conflict

theorem rivals_intact : rivals.graph.Intact := by
  decide

/-- Two commands write one file, so the extraction fails. -/
theorem extract_fails_rivals : ∃ e : StoreError, e.IsConflict ∧
    (extract pluginExtractor true ⟨0, 0⟩ rivals).report = .error e := by
  have writes : pluginExtractor.Writes ⟨1, "/w", "gcc", "-c -o a.o a.c"⟩ "/w/a.o" :=
    ⟨⟨"/w/a.o", .object, [], [], [.unresolvedInput "a.c" .noEntry]⟩,
      by unfold Extractor.Resolves; decide +kernel, rfl⟩
  have writes' : pluginExtractor.Writes ⟨2, "/w", "gcc", "-c -o a.o b.c"⟩ "/w/a.o" :=
    ⟨⟨"/w/a.o", .object, [], [], [.unresolvedInput "b.c" .noEntry]⟩,
      by unfold Extractor.Resolves; decide +kernel, rfl⟩
  have reads : pluginExtractor.ReadsAll := fun _ => rfl
  have todo : stale rivals.graph pluginExtractor.options.force true = .ok ⟨true, true⟩ := rfl
  have fails := extract_fails_iff_clashes reads rivals_intact rfl todo rfl ⟨0, 0⟩
  obtain ⟨e, he⟩ := fails.1.2
    ⟨"/w/a.o", .writers (by decide) (by decide) (by decide) writes writes'⟩
  exact ⟨e, fails.2 e he, he⟩

/-! ## What the phase leaves -/

/-- `g'` is `g` with the files of its commands: what the phase adds, and what it leaves alone. -/
structure Extractor.Extracted (x : Extractor) (g g' : Graph) : Prop where
  edges : ∀ a b, (a, b) ∈ g'.namedEdges ↔ (a, b) ∈ g.namedEdges ∨
    ∃ c ∈ g.commands, ∃ r, x.Resolves c r ∧ r.output = a ∧ ∃ d ∈ r.dependencies, d.path = b
  names : ∀ name, name ∈ g'.artifacts.map (·.name) ↔ name ∈ g.artifacts.map (·.name) ∨
    ∃ c ∈ g.commands, ∃ r, x.Resolves c r ∧
      (r.output = name ∨ ∃ d ∈ r.dependencies, d.path = name)
  generators : ∀ c ∈ g.commands, ∀ r, x.Resolves c r →
    ∃ a, g'.artifactNamed? r.output = some a ∧ a.generator = some c.id
  ids : ∀ a ∈ g.artifacts, ∃ b ∈ g'.artifacts, b.id = a.id ∧ b.name = a.name
  commands : g'.commands = g.commands

theorem Extractor.Extracted.congr {g'' : Graph} (h : x.Extracted g g')
    (commands : g''.commands = g'.commands) (artifacts : g''.artifacts = g'.artifacts)
    (edges : g''.edges = g'.edges) : x.Extracted g g'' where
  edges := fun a b => by
    have same : g''.namedEdges = g'.namedEdges := by
      simp only [namedEdges, artifact?, artifacts, edges]
    rw [same, h.edges]
  names := fun name => by rw [artifacts, h.names]
  generators := fun c hc r hr => by
    rw [artifactNamed?, artifacts]
    exact h.generators c hc r hr
  ids := artifacts ▸ h.ids
  commands := commands.trans h.commands

/-- The names of a graph that has taken in observations are those for which there is evidence. -/
theorem Graph.Absorbs.mem_names_iff {obs : List Observation} {links : List (String × String)}
    (h : g.Absorbs obs links g') (name : String) :
    name ∈ g'.artifacts.map (·.name) ↔ (g.evidence obs name).Nonempty := by
  have named : name ∈ g'.artifacts.map (·.name) ↔ ∃ κ, g'.known name = some κ := by
    simp only [known_eq_some_iff h.intact, List.mem_map]
    exact ⟨fun ⟨a, ha, e⟩ => ⟨_, a, ha, e, rfl⟩, fun ⟨_, a, ha, e, _⟩ => ⟨a, ha, e⟩⟩
  have bounds := h.known name
  rw [named]
  rcases hk : g'.known name with _ | κ
  · -- without evidence, anything is an upper bound, and something is not above a given piece
    rw [evidence_nil_of_none hk, upperBounds_empty] at bounds
    refine ⟨nofun, fun ⟨κ, hκ⟩ => ?_⟩
    obtain ⟨b, hb⟩ := κ.exists_not_le
    exact absurd ((bounds ▸ Set.mem_univ b : b ∈ upperBounds (g.evidence obs name)) hκ) hb
  · rw [evidence_nil_of_some hk, upperBounds_singleton] at bounds
    refine ⟨fun _ => ?_, fun _ => ⟨κ, rfl⟩⟩
    by_contra none
    rw [Set.not_nonempty_iff_eq_empty.1 none, upperBounds_empty] at bounds
    obtain ⟨b, hb⟩ := κ.exists_not_le
    exact hb (bounds.symm ▸ Set.mem_univ b : b ∈ Set.Ici κ)

theorem extracted_of_dependencyUpdate (hx : x.ReadsAll) (hg : g.Intact) {report : PhaseReport}
    (h : (dependencyUpdate x).exec g = (.ok report, g')) : x.Extracted g g' := by
  have absorbs := absorbs_of_dependencyUpdate hx hg h
  have commands {c : CommandRecord} : c ∈ x.finishOrder g.commands ↔ c ∈ g.commands :=
    (x.finishOrder_perm g.commands).mem_iff
  refine ⟨fun a b => ?_, fun name => ?_, fun c hc r hr => ?_, absorbs.keepsIds,
    absorbs.rest.commands⟩
  · rw [absorbs.linked, List.mem_flatMap]
    simp only [commands, mem_links]
  · have evidence : (g.evidence (x.allObservations g) name).Nonempty ↔ _ :=
      exists_congr fun κ => mem_evidence hg
    rw [absorbs.mem_names_iff, ← Extractor.allObservations, evidence, List.mem_map]
    constructor
    · rintro ⟨κ, ⟨a, ha, name, -⟩ | ⟨c, hc, r, hr, ⟨out, -⟩ | ⟨d, hd, at', -⟩⟩⟩
      · exact .inl ⟨a, ha, name⟩
      · exact .inr ⟨c, hc, r, hr, .inl out⟩
      · exact .inr ⟨c, hc, r, hr, .inr ⟨d, hd, at'⟩⟩
    · rintro (⟨a, ha, name⟩ | ⟨c, hc, r, hr, out | ⟨d, hd, at'⟩⟩)
      · exact ⟨_, .inl ⟨a, ha, name, rfl⟩⟩
      · exact ⟨_, .inr ⟨c, hc, r, hr, .inl ⟨out, rfl⟩⟩⟩
      · exact ⟨_, .inr ⟨c, hc, r, hr, .inr ⟨d, hd, at', rfl⟩⟩⟩
  · -- what was observed is known, and a generator cannot be refined
    have observed : ⟨r.output, ⟨r.outputType, some c.id⟩⟩ ∈
        (x.finishOrder g.commands).flatMap x.observations :=
      List.mem_flatMap.2 ⟨c, commands.2 hc, mem_observations.2 ⟨r, hr, List.mem_cons_self⟩⟩
    obtain ⟨κ, hκ, le⟩ := absorbs.holds.known _ observed
    obtain ⟨a, found, rfl⟩ := Option.map_eq_some_iff.1 hκ
    exact ⟨a, found, (le.2.resolve_left nofun).symm⟩

/-- An extraction without symbols stales no symbols. -/
theorem symbols_of_stale {force : Bool} {todo : Stale} (h : stale g force false = .ok todo) :
    todo.symbols = false := by
  cases force
  · rw [stale_unforced] at h
    split at h <;> cases h <;> rfl
  · rw [stale_force] at h
    cases h
    rfl

theorem extract_without_symbols (hx : x.ReadsAll) (hg : s.graph.Intact) (now : Instant) :
    (extract x false now s).store.graph.symbols = s.graph.symbols ∧
      (extract x false now s).store.graph.references = s.graph.references := by
  by_cases closed : s.saved = none
  · rcases h : stale s.graph x.options.force false with e | todo
    · rw [extract_of_error h]
      exact ⟨rfl, rfl⟩
    · rw [(extract_of_stale closed h now).2]
      rcases hr : (phasesUpdate x todo).exec s.graph with ⟨e | report, g⟩
      · exact ⟨rfl, rfl⟩
      · obtain ⟨g₁, first, second⟩ := phasesUpdate_eq_ok hr
        rw [symbols_of_stale h] at second
        obtain ⟨-, rfl⟩ := Prod.mk.inj second
        have rest := (sameRest_ifStale hx hg first).2
        rw [Store.concluded, stampPhases_eq]
        split
        · exact ⟨rfl, rfl⟩
        · exact ⟨rest.symbols, rest.references⟩
  · rw [(extract_of_open closed x false now).1]
    exact ⟨rfl, rfl⟩

/-- An extraction that has succeeded, was no rehearsal and did the dependency phase has added the
artifacts and edges of every command that resolves, each output with its command as generator, and no
others; artifacts keep their ids and commands stay.  An extraction without symbols leaves symbols and
references as they were, however it ends. -/
theorem extract_dependencies_exact (hx : x.ReadsAll) (hg : s.graph.Intact) (now : Instant) :
    (∀ withSymbols report, x.options.dryRun = false →
      (extract x withSymbols now s).report = .ok report → report.dependencies.upToDate = false →
      x.Extracted s.graph (extract x withSymbols now s).store.graph) ∧
    (extract x false now s).store.graph.symbols = s.graph.symbols ∧
    (extract x false now s).store.graph.references = s.graph.references := by
  refine ⟨fun withSymbols report real ok ran => ?_, extract_without_symbols hx hg now⟩
  have did : report ≠ {} := by
    rintro rfl
    cases ran
  obtain ⟨todo, g, -, hr, kept⟩ := extract_committed real ok did
  obtain ⟨g₁, first, second⟩ := phasesUpdate_eq_ok hr
  obtain ⟨-, first⟩ := exec_of_ifStale first ran
  have absorbs := absorbs_of_dependencyUpdate hx hg first
  obtain ⟨listing, registers⟩ := registers_ifStale hx absorbs.intact second
  rw [kept, stampPhases_eq]
  exact (extracted_of_dependencyUpdate hx hg first).congr registers.commands registers.artifacts
    registers.edges

/-- A library and a program that were known before their commands, and a command that writes
nothing. -/
def foreseenGraph : Graph where
  commands := pluginGraph.commands ++ [⟨3, "/w", "ar", "--version"⟩]
  artifacts := [⟨5, "/w/libz.so", .library, none⟩, ⟨8, "/w/app", .executable, none⟩]
  edges := [⟨8, 5⟩]

theorem foreseenGraph_intact : foreseenGraph.Intact := by
  decide

/-- The library keeps its id, and gains its kind and its generator. -/
theorem extract_dependencies_foreseen :
    let after := (extract pluginExtractor false ⟨0, 0⟩ { graph := foreseenGraph }).store.graph
    pluginExtractor.Extracted foreseenGraph after ∧ after.symbols = [] ∧ after.references = [] ∧
      after.artifact? 5 = some ⟨5, "/w/libz.so", .shared, some 1⟩ := by
  have exact := extract_dependencies_exact (s := { graph := foreseenGraph }) (x := pluginExtractor)
    (fun _ => rfl) foreseenGraph_intact ⟨0, 0⟩
  have ok : (extract pluginExtractor false ⟨0, 0⟩ { graph := foreseenGraph }).report =
      .ok ⟨{ processed := 2, skipped := 1 }, .current⟩ := by decide +kernel
  exact ⟨exact.1 false _ rfl ok rfl, exact.2.1, exact.2.2, by decide +kernel⟩

end BuildAudit
