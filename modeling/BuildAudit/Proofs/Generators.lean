import BuildAudit.Proofs.Attained
import BuildAudit.Proofs.DependencyOutcome

/-!
# Generators

Ids of commands are used again: after an import that replaces, or one that was undone.  Still, while
files stay the same, the generator of an artifact is a stored command that writes it
(`Graph.Truthful`).  An import keeps that, as removing commands takes the generators with them
(`truthful_writeEntries`), and so does a dependency phase, where generators come from commands that
have just been resolved (`truthful_dependencyUpdate`).  So it holds of every store that calls attain
(`generators_truthful`).
-/

namespace BuildAudit

open Update BuildAudit.Graph

variable {files : FileTree} {x : Extractor} {g g' : Graph} {s : Store}

/-! ## What a command writes -/

/-- Wherever libraries are searched, the command resolves, and writes a file of the kind at the path. -/
def CommandRecord.WritesAs (c : CommandRecord) (files : FileTree) (path : String)
    (type : ArtifactType) : Prop :=
  ∀ searchDirectories, ∃ r, c.resolve files searchDirectories = .ok r ∧ r.output = path ∧
    r.outputType = type

/-- What a command writes is not a matter of search directories. -/
theorem writesAs_of_resolve {c : CommandRecord} {dirs : List OsString} {r : Resolution}
    (hr : c.resolve files dirs = .ok r) : c.WritesAs files r.output r.outputType := by
  intro dirs'
  obtain ⟨command, hc, hr⟩ := CommandRecord.resolve_eq_ok hr
  obtain ⟨family, output, hf, ho, path, type, -⟩ := resolve_eq_ok hr
  obtain ⟨r', hr'⟩ := resolve_of_recognized (Option.isSome_iff_exists.2 ⟨family, hf⟩)
    (Option.isSome_iff_exists.2 ⟨output, ho⟩) files dirs'
  obtain ⟨family', output', -, ho', path', type', -⟩ := resolve_eq_ok hr'
  obtain rfl := Option.some.inj (ho.symm.trans ho')
  refine ⟨r', ?_, path'.trans path.symm, type'.trans type.symm⟩
  rw [CommandRecord.resolve, hc]
  exact hr'

theorem ArtifactType.ofOutput_ne_library (path : String) : ofOutput path ≠ .library := by
  unfold ofOutput ofPath?
  rcases Path.fileName? path with _ | name
  · decide
  · simp only [Option.bind_some, ofFileName?]
    split_ifs <;> decide

theorem outputType_ne_library {c : CommandRecord} {dirs : List OsString} {r : Resolution}
    (hr : c.resolve files dirs = .ok r) : r.outputType ≠ .library := by
  obtain ⟨command, -, hr⟩ := CommandRecord.resolve_eq_ok hr
  obtain ⟨family, output, -, -, -, type, -⟩ := resolve_eq_ok hr
  rw [type]
  exact ArtifactType.ofOutput_ne_library output

/-- The kind that a command gives to what it writes cannot be narrowed. -/
theorem CommandRecord.WritesAs.of_le {c : CommandRecord} {path : String} {t u : ArtifactType}
    (h : c.WritesAs files path t) (le : t ≤ u) : c.WritesAs files path u := by
  obtain ⟨r, hr, -, rfl⟩ := h []
  rcases ArtifactType.le_iff.1 le with rfl | ⟨unknown, -⟩
  · exact h
  · exact absurd unknown (outputType_ne_library hr)

/-! ## Truthful graphs -/

/-- The generator of an artifact is a stored command, and it writes the artifact. -/
structure Graph.Truthful (files : FileTree) (g : Graph) : Prop where
  intact : g.Intact
  generators : ∀ a ∈ g.artifacts, ∀ id, a.generator = some id →
    ∃ c ∈ g.commands, c.id = id ∧ c.WritesAs files a.name a.type

theorem truthful_empty (files : FileTree) : Graph.empty.Truthful files := ⟨intact_empty, nofun⟩

/-! ### Imports -/

theorem truthful_insertCommand (directory executable args : String) :
    (insertCommand directory executable args).Keeps (Graph.Truthful files) := by
  intro g h
  have intact := keeps_insertCommand directory executable args g h.intact
  rw [exec_insertCommand] at *
  split at intact
  · exact h
  · refine ⟨intact, fun a ha id generated => ?_⟩
    obtain ⟨c, hc, same, writes⟩ := h.generators a ha id generated
    exact ⟨c, List.mem_append_left _ hc, same, writes⟩

/-- Nothing is left that has a generator. -/
theorem truthful_truncateCommands : truncateCommands.Keeps (Graph.Truthful files) := by
  intro g h
  have intact := keeps_truncateCommands g h.intact
  rw [exec_truncateCommands] at *
  refine ⟨intact, fun a ha id generated => ?_⟩
  obtain ⟨b, hb, rfl⟩ := List.mem_map.1 ha
  obtain ⟨before, gone⟩ := Option.filter_eq_some_iff.1 generated
  rw [h.intact.generators b hb id before] at gone
  cases gone

theorem truthful_importVerdict (report : ImportReport) (v : Verdict) :
    (importVerdict report v).Keeps (Graph.Truthful files) := by
  cases v with
  | skipped => exact keeps_pure _
  | failed => exact keeps_pure _
  | accepted directory executable args =>
    refine (truthful_insertCommand directory executable args).bind fun p => ?_
    rcases p with ⟨id, _ | _⟩ <;> exact keeps_pure _

theorem truthful_writeEntries (entries : List RecordedEntry) (replace : Bool) :
    (writeEntries entries replace).Keeps (Graph.Truthful files) := by
  have verdicts := Keeps.foldlM (P := Graph.Truthful files) truthful_importVerdict
    (entries.map Verdict.of) {}
  unfold writeEntries
  cases replace
  · exact verdicts
  · exact truthful_truncateCommands.bind fun _ => verdicts

/-! ### Phases -/

/-- A generator was there before, or is that of a command that was resolved. -/
theorem truthful_dependencyUpdate (hx : x.ReadsAll) (h : g.Truthful x.files) {report : PhaseReport}
    (hr : (dependencyUpdate x).exec g = (.ok report, g')) : g'.Truthful x.files := by
  have absorbs := absorbs_of_dependencyUpdate hx h.intact hr
  refine ⟨absorbs.intact, fun a ha id generated => ?_⟩
  rw [absorbs.rest.commands]
  have lub := absorbs.isLUB ha
  obtain ⟨κ, hκ, same⟩ := Knowledge.exists_generator_of_isLUB lub generated
  have le : κ.type ≤ a.type := (lub.1 hκ).1
  rcases (mem_evidence h.intact).1 hκ with
    ⟨b, hb, name, rfl⟩ | ⟨c, hc, r, resolves, ⟨output, rfl⟩ | ⟨d, -, -, rfl⟩⟩
  · obtain ⟨c, hc, ids, writes⟩ := h.generators b hb id same
    exact ⟨c, hc, ids, name ▸ writes.of_le le⟩
  · refine ⟨c, hc, Option.some.inj same, ?_⟩
    rw [← output]
    exact (writesAs_of_resolve resolves).of_le le
  · cases same

theorem truthful_symbolUpdate (hx : x.ReadsAll) (h : g.Truthful files) {report : PhaseReport}
    (hr : (symbolUpdate x).exec g = (.ok report, g')) : g'.Truthful files := by
  have due : (ifStale true (symbolUpdate x)).exec g = (.ok report, g') := hr
  obtain ⟨listing, registers⟩ := registers_ifStale hx h.intact due
  refine ⟨registers.intact, ?_⟩
  rw [registers.artifacts, registers.commands]
  exact h.generators

/-! ## Calls -/

theorem keptByCalls_truthful (files : FileTree) :
    KeptByCalls (fun x => x.ReadsAll ∧ x.files = files) (Graph.Truthful files) where
  empty := truthful_empty files
  stamps := fun _ _ h => ⟨{ h.intact with }, h.generators⟩
  recording := truthful_writeEntries
  dependencies := fun x hx options order g report g' h hr => by
    obtain ⟨reads, rfl⟩ := hx
    exact truthful_dependencyUpdate (x := { x with options, order }) reads h hr
  symbols := fun x hx options order g report g' h hr =>
    truthful_symbolUpdate (x := { x with options, order }) hx.1 h hr

/-- While files stay the same, whatever is imported and extracted, in whatever order and whether it
succeeds or not: the generator of an artifact is a stored command, which resolves, writes the file of
the artifact and gives it its kind; and no command generates two artifacts. -/
theorem generators_truthful (attained : s.Attained fun x => x.ReadsAll ∧ x.files = files) :
    (∀ a ∈ s.graph.artifacts, ∀ id, a.generator = some id →
      ∃ c, s.graph.command? id = some c ∧ c.WritesAs files a.name a.type) ∧
    ∀ a ∈ s.graph.artifacts, ∀ b ∈ s.graph.artifacts, ∀ id,
      a.generator = some id → b.generator = some id → a = b := by
  have truthful := (attained.kept (keptByCalls_truthful files)).2
  have found : ∀ a ∈ s.graph.artifacts, ∀ id, a.generator = some id →
      ∃ c, s.graph.command? id = some c ∧ c.WritesAs files a.name a.type := fun a ha id generated => by
    obtain ⟨c, hc, ids, writes⟩ := truthful.generators a ha id generated
    have unique := nodup_of_pairwise_lt truthful.intact.commandIds
    exact ⟨c, (command?_eq_some_iff unique).2 ⟨hc, ids⟩, writes⟩
  refine ⟨found, fun a ha b hb id generated generated' => ?_⟩
  obtain ⟨c, hc, writes⟩ := found a ha id generated
  obtain ⟨d, hd, writes'⟩ := found b hb id generated'
  obtain rfl := Option.some.inj (hc.symm.trans hd)
  -- one command has one output, and one name has one row
  obtain ⟨r, hr, name, -⟩ := writes []
  obtain ⟨r', hr', name', -⟩ := writes' []
  obtain rfl := Except.ok.inj (hr.symm.trans hr')
  exact List.inj_on_of_nodup_map truthful.intact.artifactNames ha hb (name.symm.trans name')

/-- An object is extracted, then its command makes way for another one, which gets the same id. -/
def recompiled : Store :=
  let log (line : String) := Call.importLog line.toUTF8 "/w" { replace := true }
  let work := Call.extractDependencies {} .fifo
  let first := (work.run objectExtractor ⟨2, 0⟩
    ((log "gcc -c -o m.o m.c").run objectExtractor ⟨1, 0⟩ .empty).2).2
  (work.run objectExtractor ⟨4, 0⟩ ((log "gcc -c -o n.o n.c").run objectExtractor ⟨3, 0⟩ first).2).2

theorem recompiled_attained :
    recompiled.Attained fun x => x.ReadsAll ∧ x.files = objectExtractor.files := by
  have allowed : objectExtractor.ReadsAll ∧ objectExtractor.files = objectExtractor.files :=
    ⟨fun _ => rfl, rfl⟩
  exact .call (.call (.call (.call .empty allowed _ _) allowed _ _) allowed _ _) allowed _ _

/-- The first object has lost its generator, and the id stands for what writes the second one. -/
theorem generators_truthful_recompiled :
    recompiled.graph.artifacts =
        [⟨1, "/w/m.o", .object, none⟩, ⟨2, "/w/n.o", .object, some 1⟩] ∧
      ∃ c, recompiled.graph.command? 1 = some c ∧
        c.WritesAs objectExtractor.files "/w/n.o" .object := by
  have rows : recompiled.graph.artifacts =
      [⟨1, "/w/m.o", .object, none⟩, ⟨2, "/w/n.o", .object, some 1⟩] := by
    decide +kernel
  have truthful := (generators_truthful recompiled_attained).1 ⟨2, "/w/n.o", .object, some 1⟩
    (by rw [rows]; decide) 1 rfl
  exact ⟨rows, truthful⟩

end BuildAudit
