import BuildAudit.Proofs.Rows
import BuildAudit.Proofs.Running
import BuildAudit.Store

/-!
# Integrity of stores

`Graph.Intact` says what keys and references between tables promise: ids ascend, so none is used
twice, no two rows agree where they must differ, and what a row refers to is there.  Every statement
keeps it, whether it succeeds or fails (`keeps_insertCommand`, …), and so does every operation of a
store, where the graph that is kept for a rollback has to be intact as well (`intact_apply`).  The
main result is `intact_applyAll_empty`: whatever is done to an empty store, in whatever order, leaves
it intact.
-/

namespace BuildAudit

/-- The values that no two commands share. -/
def CommandRecord.key (c : CommandRecord) : String × String × String :=
  (c.directory, c.executable, c.args)

/-- The rows of a graph fit together. -/
structure Graph.Intact (g : Graph) : Prop where
  commandIds : (g.commands.map (·.id)).Pairwise (· < ·)
  commandKeys : (g.commands.map CommandRecord.key).Nodup
  artifactIds : (g.artifacts.map (·.id)).Pairwise (· < ·)
  artifactNames : (g.artifacts.map (·.name)).Nodup
  generators : ∀ a ∈ g.artifacts, ∀ c ∈ a.generator, g.hasCommand c
  edgesOnce : g.edges.Nodup
  noLoops : ∀ e ∈ g.edges, e.dependee ≠ e.dependency
  edgeEnds : ∀ e ∈ g.edges, g.hasArtifact e.dependee ∧ g.hasArtifact e.dependency
  symbolIds : (g.symbols.map (·.id)).Pairwise (· < ·)
  symbolNames : (g.symbols.map (·.name)).Nodup
  referenceIds : (g.references.map (·.id)).Pairwise (· < ·)
  referenceEnds : ∀ r ∈ g.references,
    g.hasArtifact r.reference.artifact ∧ g.hasSymbol r.reference.symbol

instance (g : Graph) : Decidable g.Intact :=
  decidable_of_iff
    ((g.commands.map (·.id)).Pairwise (· < ·) ∧ (g.commands.map CommandRecord.key).Nodup ∧
      (g.artifacts.map (·.id)).Pairwise (· < ·) ∧ (g.artifacts.map (·.name)).Nodup ∧
      (∀ a ∈ g.artifacts, ∀ c ∈ a.generator, g.hasCommand c) ∧
      g.edges.Nodup ∧ (∀ e ∈ g.edges, e.dependee ≠ e.dependency) ∧
      (∀ e ∈ g.edges, g.hasArtifact e.dependee ∧ g.hasArtifact e.dependency) ∧
      (g.symbols.map (·.id)).Pairwise (· < ·) ∧ (g.symbols.map (·.name)).Nodup ∧
      (g.references.map (·.id)).Pairwise (· < ·) ∧
      ∀ r ∈ g.references, g.hasArtifact r.reference.artifact ∧ g.hasSymbol r.reference.symbol)
    ⟨fun ⟨h₁, h₂, h₃, h₄, h₅, h₆, h₇, h₈, h₉, h₁₀, h₁₁, h₁₂⟩ =>
        ⟨h₁, h₂, h₃, h₄, h₅, h₆, h₇, h₈, h₉, h₁₀, h₁₁, h₁₂⟩,
      fun h => ⟨h.commandIds, h.commandKeys, h.artifactIds, h.artifactNames, h.generators,
        h.edgesOnce, h.noLoops, h.edgeEnds, h.symbolIds, h.symbolNames, h.referenceIds,
        h.referenceEnds⟩⟩

/-- A store whose graph is intact, and the graph that a rollback returns to. -/
structure Store.Intact (s : Store) : Prop where
  graph : s.graph.Intact
  saved : ∀ g ∈ s.saved, g.Intact

namespace Graph

open Update

theorem intact_empty : empty.Intact where
  commandIds := .nil
  commandKeys := .nil
  artifactIds := .nil
  artifactNames := .nil
  generators := nofun
  edgesOnce := .nil
  noLoops := nofun
  edgeEnds := nofun
  symbolIds := .nil
  symbolNames := .nil
  referenceIds := .nil
  referenceEnds := nofun

variable {g : Graph}

theorem Intact.artifactIds_nodup (h : g.Intact) : (g.artifacts.map (·.id)).Nodup :=
  nodup_of_pairwise_lt h.artifactIds

theorem Intact.symbolIds_nodup (h : g.Intact) : (g.symbols.map (·.id)).Nodup :=
  nodup_of_pairwise_lt h.symbolIds

/-- A row with a new key can be added to a table without repeated keys. -/
theorem nodup_append_key {α κ : Type} {key : α → κ} {rows : List α} {row : α}
    (h : (rows.map key).Nodup) (new : key row ∉ rows.map key) : ((rows ++ [row]).map key).Nodup := by
  rw [List.map_append, List.map_singleton, List.nodup_append]
  refine ⟨h, List.nodup_singleton _, fun k hk l hl => ?_⟩
  obtain rfl := List.mem_singleton.1 hl
  exact fun e => new (e ▸ hk)

/-! ## Commands -/

theorem commandOf?_eq_none_iff {directory executable args : String} :
    g.commandOf? directory executable args = none ↔
      (directory, executable, args) ∉ g.commands.map CommandRecord.key := by
  simp [commandOf?, List.find?_eq_none, CommandRecord.key]

theorem keeps_insertCommand (directory executable args : String) :
    Keeps Intact (insertCommand directory executable args) := by
  intro g hg
  rw [exec_insertCommand]
  rcases found : g.commandOf? directory executable args with _ | row
  · exact { hg with
      commandIds := by simpa using pairwise_append_nextId hg.commandIds
      commandKeys := nodup_append_key hg.commandKeys (commandOf?_eq_none_iff.1 found)
      generators := fun a ha c hc => by
        obtain ⟨row, hrow, e⟩ := hasCommand_iff.1 (hg.generators a ha c hc)
        exact hasCommand_iff.2 ⟨row, List.mem_append_left _ hrow, e⟩ }
  · exact hg

theorem keeps_truncateCommands : Keeps Intact truncateCommands := by
  intro g hg
  rw [exec_truncateCommands]
  have ids : ∀ i, Graph.hasArtifact { g with
      commands := []
      artifacts := g.artifacts.map fun a =>
        { a with generator := a.generator.filter (!g.hasCommand ·) } } i = g.hasArtifact i := by
    intro i
    simp [hasArtifact, Function.comp_def]
  exact { hg with
    commandIds := .nil
    commandKeys := .nil
    artifactIds := by simpa [Function.comp_def] using hg.artifactIds
    artifactNames := by simpa [Function.comp_def] using hg.artifactNames
    generators := fun a ha c hc => by
      -- a generator that is left would be a command that was not there
      obtain ⟨b, hb, rfl⟩ := List.mem_map.1 ha
      obtain ⟨hc, gone⟩ := Option.mem_filter_iff.1 hc
      simp [hg.generators b hb c hc] at gone
    edgeEnds := fun e he => by simpa only [ids] using hg.edgeEnds e he
    referenceEnds := fun r hr => by
      rw [ids]
      exact hg.referenceEnds r hr }

/-! ## Artifacts -/

theorem keeps_insertArtifact (name : String) (type : ArtifactType) (generator : Option Id) :
    ∀ g, g.Intact → g.artifactNamed? name = none →
      ((insertArtifact name type generator).exec g).2.Intact := by
  intro g hg new
  rw [exec_insertArtifact]
  split
  case isFalse => exact hg
  case isTrue there =>
    have grows : ∀ i, g.hasArtifact i → Graph.hasArtifact { g with
        artifacts := g.artifacts ++ [⟨nextId (g.artifacts.map (·.id)), name, type, generator⟩] } i := by
      intro i hi
      simp only [hasArtifact, List.any_append, Bool.or_eq_true]
      exact .inl hi
    exact { hg with
      artifactIds := by simpa using pairwise_append_nextId hg.artifactIds
      artifactNames := nodup_append_key hg.artifactNames (artifactNamed?_eq_none_iff.1 new)
      generators := fun a ha c hc => by
        rcases List.mem_append.1 ha with ha | ha
        · exact hg.generators a ha c hc
        · obtain rfl := List.mem_singleton.1 ha
          exact (Option.all_eq_true ..).1 there c hc
      edgeEnds := fun e he => (hg.edgeEnds e he).imp (grows _) (grows _)
      referenceEnds := fun r hr => (hg.referenceEnds r hr).imp_left (grows _) }

/-- Kind and generator of an artifact can be changed, if the new generator is there. -/
theorem Intact.modifyArtifact (hg : g.Intact) (id : Id) {f : Artifact → Artifact}
    (ids : ∀ a, (f a).id = a.id) (names : ∀ a, (f a).name = a.name)
    (generators : ∀ a ∈ g.artifacts, ∀ c ∈ (f a).generator, g.hasCommand c) :
    (g.modifyArtifact id f).Intact :=
  { hg with
    artifactIds := by rw [map_modifyArtifact _ ids]; exact hg.artifactIds
    artifactNames := by rw [map_modifyArtifact _ names]; exact hg.artifactNames
    generators := fun a ha c hc => by
      obtain ⟨b, hb, rfl⟩ := mem_modifyArtifact.1 ha
      split at hc
      · exact generators b hb c hc
      · exact hg.generators b hb c hc
    edgeEnds := fun e he => by
      simpa only [hasArtifact_modifyArtifact ids] using hg.edgeEnds e he
    referenceEnds := fun r hr => by
      rw [hasArtifact_modifyArtifact ids]
      exact hg.referenceEnds r hr }

theorem keeps_reconcileType (row : Artifact) (type : ArtifactType) :
    Keeps Intact (reconcileType row type) := by
  intro g hg
  rw [exec_reconcileType]
  split_ifs
  · exact hg
  · exact hg.modifyArtifact _ (fun _ => rfl) (fun _ => rfl) hg.generators
  · exact hg
  · exact hg

theorem keeps_reconcileGenerator (row : Artifact) (generator : Option Id) :
    Keeps Intact (reconcileGenerator row generator) := by
  intro g hg
  rw [exec_reconcileGenerator]
  split
  · exact hg
  · split_ifs with there
    · refine hg.modifyArtifact _ (fun _ => rfl) (fun _ => rfl) fun a _ c hc => ?_
      obtain rfl := Option.mem_some_iff.1 hc
      exact there
    · exact hg
  · exact hg

theorem keeps_upsertArtifact (name : String) (type : ArtifactType) (generator : Option Id) :
    Keeps Intact (upsertArtifact name type generator) := by
  intro g hg
  unfold upsertArtifact
  rw [exec_bind_of_ok (exec_get g)]
  rcases found : g.artifactNamed? name with _ | row
  · exact keeps_insertArtifact name type generator g hg found
  · exact ((keeps_reconcileType row type).bind fun _ =>
      (keeps_reconcileGenerator row generator).bind fun _ => keeps_pure _) g hg

/-! ## Edges -/

theorem keeps_addDependency (dependee dependency : Id) :
    Keeps Intact (addDependency dependee dependency) := by
  intro g hg
  rw [exec_addDependency]
  split_ifs with loop known ends
  · exact hg
  · exact hg
  · exact { hg with
      edgesOnce := by
        rw [List.nodup_append]
        refine ⟨hg.edgesOnce, List.nodup_singleton _, fun e he f hf => ?_⟩
        obtain rfl := List.mem_singleton.1 hf
        exact fun same => known (same ▸ he)
      noLoops := fun e he => by
        rcases List.mem_append.1 he with he | he
        · exact hg.noLoops e he
        · obtain rfl := List.mem_singleton.1 he
          exact loop
      edgeEnds := fun e he => by
        rcases List.mem_append.1 he with he | he
        · exact hg.edgeEnds e he
        · obtain rfl := List.mem_singleton.1 he
          exact ends }
  · exact hg

theorem keeps_removeDependency (dependee dependency : Id) :
    Keeps Intact (removeDependency dependee dependency) := by
  intro g hg
  rw [exec_removeDependency]
  exact { hg with
    edgesOnce := hg.edgesOnce.filter _
    noLoops := fun e he => hg.noLoops e (List.mem_of_mem_filter he)
    edgeEnds := fun e he => hg.edgeEnds e (List.mem_of_mem_filter he) }

/-! ## Symbols and references -/

theorem keeps_symbolId (name demangled : String) : Keeps Intact (symbolId name demangled) := by
  intro g hg
  rw [exec_symbolId]
  rcases found : g.symbolNamed? name with _ | row
  · exact { hg with
      symbolIds := by simpa using pairwise_append_nextId hg.symbolIds
      symbolNames := nodup_append_key hg.symbolNames (symbolNamed?_eq_none_iff.1 found)
      referenceEnds := fun r hr => (hg.referenceEnds r hr).imp_right fun h => by
        obtain ⟨row, hrow, e⟩ := hasSymbol_iff.1 h
        exact hasSymbol_iff.2 ⟨row, List.mem_append_left _ hrow, e⟩ }
  · exact hg

theorem keeps_addReference (r : Reference) : Keeps Intact (addReference r) := by
  intro g hg
  rw [exec_addReference]
  split_ifs with ends
  · exact { hg with
      referenceIds := by simpa using pairwise_append_nextId hg.referenceIds
      referenceEnds := fun row hrow => by
        rcases List.mem_append.1 hrow with hrow | hrow
        · exact hg.referenceEnds row hrow
        · obtain rfl := List.mem_singleton.1 hrow
          exact ends }
  · exact hg

/-- Removing references keeps a graph intact. -/
theorem Intact.filterReferences (hg : g.Intact) (p : ReferenceRow → Bool) :
    Intact { g with references := g.references.filter p } :=
  { hg with
    referenceIds := hg.referenceIds.sublist (List.filter_sublist.map _)
    referenceEnds := fun r hr => hg.referenceEnds r (List.mem_of_mem_filter hr) }

theorem keeps_deleteReferences (artifact : Id) : Keeps Intact (deleteReferences artifact) := by
  intro g hg
  rw [exec_deleteReferences]
  exact hg.filterReferences _

theorem keeps_clearReferences : Keeps Intact clearReferences := by
  intro g hg
  rw [exec_clearReferences]
  exact { hg with referenceIds := .nil, referenceEnds := nofun }

theorem Intact.setPhaseTime (hg : g.Intact) (p : Phase) (time : Instant) :
    (g.setPhaseTime p time).Intact := { hg with }

end Graph

/-! ## Operations of a store -/

namespace Store

/-- What the owner of a store can do to it, with any arguments.  Reading changes nothing. -/
inductive Operation where
  | begin
  | commit
  | rollback
  /-- The store is dropped and its database is opened again. -/
  | reopen
  | insertCommand (directory executable args : String)
  | truncateCommands
  | upsertArtifact (name : String) (type : ArtifactType) (generator : Option Id)
  | addDependency (dependee dependency : Id)
  | removeDependency (dependee dependency : Id)
  | symbolId (name demangled : String)
  | addReference (r : Reference)
  | deleteReferences (artifact : Id)
  | clearReferences
  | setPhaseTime (p : Phase) (time : Instant)

/-- The store after an operation, which may have failed half-way. -/
def apply (s : Store) : Operation → Store
  | .begin => s.begin.toOption.getD s
  | .commit => s.commit.toOption.getD s
  | .rollback => s.rollback.toOption.getD s
  | .reopen => s.reopened
  | .insertCommand directory executable args =>
    (s.run (Graph.insertCommand directory executable args)).2
  | .truncateCommands => (s.run Graph.truncateCommands).2
  | .upsertArtifact name type generator => (s.run (Graph.upsertArtifact name type generator)).2
  | .addDependency dependee dependency => (s.run (Graph.addDependency dependee dependency)).2
  | .removeDependency dependee dependency =>
    (s.run (Graph.removeDependency dependee dependency)).2
  | .symbolId name demangled => (s.run (Graph.symbolId name demangled)).2
  | .addReference r => (s.run (Graph.addReference r)).2
  | .deleteReferences artifact => (s.run (Graph.deleteReferences artifact)).2
  | .clearReferences => (s.run Graph.clearReferences).2
  | .setPhaseTime p time => s.mapGraph (Graph.setPhaseTime p time)

/-- The store after a sequence of operations. -/
def applyAll (s : Store) (ops : List Operation) : Store := ops.foldl apply s

theorem intact_empty : empty.Intact := ⟨Graph.intact_empty, nofun⟩

variable {s : Store}

theorem Intact.begin (h : s.Intact) : (s.begin.toOption.getD s).Intact := by
  unfold Store.begin
  rcases hs : s.saved with _ | g
  · refine ⟨h.graph, fun g hg => ?_⟩
    obtain rfl := Option.mem_some_iff.1 hg
    exact h.graph
  · exact h

theorem Intact.commit (h : s.Intact) : (s.commit.toOption.getD s).Intact := by
  unfold Store.commit
  rcases hs : s.saved with _ | g
  · exact h
  · exact ⟨h.graph, nofun⟩

theorem Intact.rollback (h : s.Intact) : (s.rollback.toOption.getD s).Intact := by
  unfold Store.rollback
  rcases hs : s.saved with _ | g
  · exact h
  · exact ⟨h.saved g hs, nofun⟩

theorem Intact.reopened (h : s.Intact) : s.reopened.Intact := by
  unfold Store.reopened
  rcases hs : s.saved with _ | g
  · exact ⟨h.graph, nofun⟩
  · exact ⟨h.saved g hs, nofun⟩

theorem Intact.run {α : Type} (h : s.Intact) {u : Update α} (hu : u.Keeps Graph.Intact) :
    (s.run u).2.Intact :=
  ⟨hu _ h.graph, h.saved⟩

/-- One operation keeps a store intact. -/
theorem intact_apply (h : s.Intact) (op : Operation) : (s.apply op).Intact := by
  cases op with
  | begin => exact h.begin
  | commit => exact h.commit
  | rollback => exact h.rollback
  | reopen => exact h.reopened
  | insertCommand directory executable args =>
    exact h.run (Graph.keeps_insertCommand directory executable args)
  | truncateCommands => exact h.run Graph.keeps_truncateCommands
  | upsertArtifact name type generator =>
    exact h.run (Graph.keeps_upsertArtifact name type generator)
  | addDependency dependee dependency =>
    exact h.run (Graph.keeps_addDependency dependee dependency)
  | removeDependency dependee dependency =>
    exact h.run (Graph.keeps_removeDependency dependee dependency)
  | symbolId name demangled => exact h.run (Graph.keeps_symbolId name demangled)
  | addReference r => exact h.run (Graph.keeps_addReference r)
  | deleteReferences artifact => exact h.run (Graph.keeps_deleteReferences artifact)
  | clearReferences => exact h.run Graph.keeps_clearReferences
  | setPhaseTime p time => exact ⟨h.graph.setPhaseTime p time, h.saved⟩

theorem intact_applyAll (h : s.Intact) (ops : List Operation) : (s.applyAll ops).Intact := by
  induction ops generalizing s with
  | nil => exact h
  | cons op ops ih => exact ih (intact_apply h op)

/-- Whatever is done to an empty store, its rows fit together, and so do those that a rollback
would bring back. -/
theorem intact_applyAll_empty (ops : List Operation) : (empty.applyAll ops).Intact :=
  intact_applyAll intact_empty ops

end Store

end BuildAudit
