import BuildAudit.Proofs.DependencyPhase
import BuildAudit.Proofs.Listing

/-!
# The symbol phase

Treating an artifact replaces its references by those that its listing comes to, and leaves the
references of all others (`replaces_storeSymbols`, `replaces_applyArtifact`).  Artifacts can be treated
one after the other, if none comes up twice (`replaces_treatInOrder`), so the phase succeeds and replaces
the references of every artifact that can be dumped (`exec_symbolUpdate_replaces`).  If the dumper starts
and artifacts that cannot be listed have no references, every artifact is listed after it
(`exec_symbolUpdate`); and where every artifact is listed already, doing it again gives the same symbols
and the same references, perhaps in other rows (`sameUpToRows_of_listed`).
-/

namespace BuildAudit

open Update BuildAudit.Graph

variable {x : Extractor} {g g' g'' : Graph} {a b : Id} {listing listing' : Listing}
  {ps qs : List (Id × Listing)}

/-! ## Replacing references -/

/-- `g'` is `g` with the references of some artifacts replaced by those that their listings come
to. -/
structure Graph.Replaces (g : Graph) (ps : List (Id × Listing)) (g' : Graph) : Prop
    extends g.Registers (ps.flatMap (·.2)) g' where
  listed : ∀ p ∈ ps, g'.Lists p.1 p.2
  others : ∀ b ∉ ps.map (·.1), g'.referencesAt b = g.referencesAt b

theorem Graph.Replaces.nothing (hg : g.Intact) : g.Replaces [] g :=
  ⟨.refl hg, nofun, fun _ _ => rfl⟩

theorem Graph.Replaces.one (registers : g.Registers listing g') (lists : g'.Lists a listing)
    (others : ∀ b, b ≠ a → g'.referencesAt b = g.referencesAt b) : g.Replaces [(a, listing)] g' where
  toRegisters := by simpa using registers
  listed := List.forall_mem_singleton.2 lists
  others := fun b hb => others b (by simpa using hb)

/-- First some, then others. -/
theorem Graph.Replaces.append (h : g.Replaces ps g') (h' : g'.Replaces qs g'')
    (once : ∀ p ∈ ps, p.1 ∉ qs.map (·.1)) : g.Replaces (ps ++ qs) g'' where
  toRegisters := by
    rw [List.flatMap_append]
    exact h.toRegisters.trans h'.toRegisters
  listed := fun p hp => by
    rcases List.mem_append.1 hp with first | later
    · exact h'.lists (h.listed p first) (h'.others p.1 (once p first))
    · exact h'.listed p later
  others := fun b hb => by
    rw [List.map_append, List.mem_append, not_or] at hb
    rw [h'.others b hb.2, h.others b hb.1]

/-- Treating units one after the other replaces what each of them is to replace, if no artifact comes up
twice. -/
theorem replaces_treatInOrder {U : Type} {apply : U → Update Outcome}
    {plan : U → List (Id × Listing)} {units : List U} (hg : g.Intact)
    (once : ((units.flatMap plan).map (·.1)).Nodup)
    (treats : ∀ u ∈ units, ∀ g₁ : Graph, g₁.Intact → g₁.artifacts = g.artifacts →
      ∃ outcome g', (apply u).exec g₁ = (.ok outcome, g') ∧ g₁.Replaces (plan u) g')
    (report : PhaseReport) :
    ∃ report' g', (treatInOrder apply report units).exec g = (.ok report', g') ∧
      g.Replaces (units.flatMap plan) g' := by
  induction units generalizing g report with
  | nil => exact ⟨report, g, rfl, .nothing hg⟩
  | cons u units ih =>
    rw [List.forall_mem_cons] at treats
    rw [List.flatMap_cons, List.map_append, List.nodup_append] at once
    obtain ⟨outcome, g₁, hr, replaces⟩ := treats.1 g hg rfl
    obtain ⟨report', g', hr', replaces'⟩ := ih replaces.intact once.2.1
      (fun v hv g₂ hg₂ same => treats.2 v hv g₂ hg₂ (same.trans replaces.artifacts))
      (report.record outcome)
    refine ⟨report', g', ?_, replaces.append replaces' fun p hp later => ?_⟩
    · rw [treatInOrder, List.foldlM_cons, exec_bind_of_ok (by rw [exec_map, hr])]
      exact hr'
    · exact once.2.2 p.1 (List.mem_map_of_mem hp) p.1 later rfl

/-! ## One artifact -/

theorem replaces_storeSymbols (hg : g.Intact) (there : g.hasArtifact a) (s : ArtifactSymbols) :
    ∃ outcome g', (storeSymbols a s).exec g = (.ok outcome, g') ∧
      g.Replaces [(a, s.listing)] g' := by
  have intact := keeps_deleteReferences a g hg
  have hr := exec_deleteReferences a g
  rw [hr] at intact
  have none : Graph.referencesAt { g with
      references := g.references.filter (·.reference.artifact != a) } a = [] := by
    rw [referencesAt_filter]
    simp
  have others : ∀ b, b ≠ a → Graph.referencesAt { g with
      references := g.references.filter (·.reference.artifact != a) } b = g.referencesAt b := by
    intro b differ
    rw [referencesAt_filter, referencesAt]
    congr 1
    refine List.filter_congr fun r _ => ?_
    by_cases e : r.reference.artifact = b <;> simp [e, differ]
  unfold storeSymbols ArtifactSymbols.listing
  rw [exec_bind_of_ok hr]
  cases s.format with
  | linkerScript =>
    exact ⟨_, _, rfl,
      .one ⟨intact, rfl, rfl, rfl, rfl, [], by simp, by simp⟩ (lists_nil.2 none) others⟩
  | binary =>
    have one (category : Category) (g : Graph) (hg : g.Intact) (there : g.hasArtifact a) :
        ∃ g', ((s.entries category).forM (storeEntry a category)).exec g = (.ok (), g') ∧
          g.Enters a ((s.entries category).map (category, ·)) g' := by
      rw [List.map_eq_flatMap]
      exact enters_forM hg there (fun e g hg there => enters_storeEntry hg there category e) _
    obtain ⟨g', hr', enters⟩ := enters_forM (a := a) intact there one Category.all
    refine ⟨_, g', exec_bind_of_ok hr', .one { enters with } (enters.lists none) fun b differ => ?_⟩
    rw [enters.referencesAt_of_ne differ, others b differ]

/-- By which listing the references of an artifact are to be replaced: by none, if it cannot be
dumped. -/
def Extractor.plan (x : Extractor) (row : Artifact) : List (Id × Listing) :=
  match (dump x.files x.tools x.nm row.name row.type).1 with
  | .ok s => [(row.id, s.listing)]
  | .error _ => []

theorem mem_plan {row : Artifact} {p : Id × Listing} :
    p ∈ x.plan row ↔
      ∃ s, (dump x.files x.tools x.nm row.name row.type).1 = .ok s ∧ p = (row.id, s.listing) := by
  unfold Extractor.plan
  rcases (dump x.files x.tools x.nm row.name row.type).1 with e | s <;> simp

theorem replaces_applyArtifact (hg : g.Intact) {row : Artifact} (there : g.hasArtifact row.id) :
    ∃ outcome g', (applyArtifact x row).exec g = (.ok outcome, g') ∧ g.Replaces (x.plan row) g' := by
  unfold applyArtifact Extractor.plan
  rcases (dump x.files x.tools x.nm row.name row.type).1 with e | s
  · exact ⟨_, g, rfl, .nothing hg⟩
  · exact replaces_storeSymbols hg there s

/-! ## The phase -/

/-- Treats every artifact with a symbol table, if all rows can be read. -/
def treatBinaries (x : Extractor) : Update PhaseReport := do
  (← get).artifacts.forM fun row => ofExcept (x.check row)
  treatInOrder (applyArtifact x) {} (x.finishOrder (← get).binaries)

/-- The symbol phase without its events. -/
def symbolUpdate (x : Extractor) : Update PhaseReport :=
  if x.options.force then do
    let _ ← Graph.clearReferences
    treatBinaries x
  else treatBinaries x

theorem symbolPhase_mirrors (x : Extractor) : (symbolPhase x).Mirrors (symbolUpdate x) := by
  have read (rows : List Artifact) :
      (rows.forM fun row => (ofExcept (x.check row) : Work PUnit)).Mirrors
        (rows.forM fun row => ofExcept (x.check row)) :=
    Work.mirrors_forM (fun row => Work.mirrors_ofExcept (x.check row)) rows
  have treat (rows : List Artifact) := treatAll_mirrors ⟨.artifact, applyArtifact x⟩
    x.options.jobs x.order rows
  unfold symbolPhase symbolUpdate
  split
  · refine (Work.mirrors_update _).bind fun _ o => ?_
    exact (read o.graph.artifacts).bind (fun _ o => treat o.graph.binaries o) o
  · intro o
    exact (read o.graph.artifacts).bind (fun _ o => treat o.graph.binaries o) o

/-- What the phase is to replace, in the order in which the workers finish. -/
def Extractor.planAll (x : Extractor) (g : Graph) : List (Id × Listing) :=
  (x.finishOrder g.binaries).flatMap x.plan

/-- The graph from which the phase starts: a forced run forgets all references. -/
def Extractor.cleared (x : Extractor) (g : Graph) : Graph :=
  if x.options.force then { g with references := [] } else g

theorem mem_finishOrder_binaries {row : Artifact} :
    row ∈ x.finishOrder g.binaries ↔ row ∈ g.artifacts ∧ row.type.hasSymbols := by
  rw [(x.finishOrder_perm g.binaries).mem_iff, binaries, List.mem_filter]

theorem mem_planAll {p : Id × Listing} :
    p ∈ x.planAll g ↔ ∃ row ∈ g.artifacts, row.type.hasSymbols ∧
      ∃ s, (dump x.files x.tools x.nm row.name row.type).1 = .ok s ∧ p = (row.id, s.listing) := by
  simp only [Extractor.planAll, List.mem_flatMap, mem_finishOrder_binaries, mem_plan, and_assoc]

theorem nodup_planAll (hg : g.Intact) : ((x.planAll g).map (·.1)).Nodup := by
  have ids (rows : List Artifact) :
      ((rows.flatMap x.plan).map (·.1)).Sublist (rows.map (·.id)) := by
    induction rows with
    | nil => exact .slnil
    | cons row rows ih =>
      rw [List.flatMap_cons, List.map_append, List.map_cons, Extractor.plan]
      rcases (dump x.files x.tools x.nm row.name row.type).1 with e | s
      · exact ih.cons row.id
      · exact ih.cons_cons row.id
  refine List.Nodup.sublist (ids _) ?_
  rw [((x.finishOrder_perm g.binaries).map _).nodup_iff]
  exact hg.artifactIds_nodup.sublist (List.filter_sublist.map _)

/-- An artifact without symbols, or that cannot be dumped, is left alone. -/
theorem not_mem_planAll
    (alone : ∀ row ∈ g.artifacts, row.id = a → row.type.hasSymbols →
      ∀ s, (dump x.files x.tools x.nm row.name row.type).1 ≠ .ok s) :
    a ∉ (x.planAll g).map (·.1) := by
  intro h
  obtain ⟨p, hp, rfl⟩ := List.mem_map.1 h
  obtain ⟨row, hrow, symbols, s, hs, rfl⟩ := mem_planAll.1 hp
  exact alone row hrow rfl symbols s hs

theorem exec_treatBinaries (hx : x.ReadsAll) (hg : g.Intact) :
    ∃ report g', (treatBinaries x).exec g = (.ok report, g') ∧ report.upToDate = false ∧
      report.units = g.binaries.length ∧ g.Replaces (x.planAll g) g' := by
  have readable :
      (g.artifacts.forM fun row => (ofExcept (x.check row) : Update PUnit)).exec g = (.ok (), g) :=
    exec_forM_of_unchanged fun row _ => by rw [hx row]; rfl
  have treats : ∀ row ∈ x.finishOrder g.binaries, ∀ g₁ : Graph, g₁.Intact →
      g₁.artifacts = g.artifacts →
        ∃ outcome g', (applyArtifact x row).exec g₁ = (.ok outcome, g') ∧
          g₁.Replaces (x.plan row) g' := by
    intro row hrow g₁ hg₁ same
    have there : g₁.hasArtifact row.id := by
      rw [Graph.hasArtifact, same]
      exact hasArtifact_iff.2 ⟨row, (mem_finishOrder_binaries.1 hrow).1, rfl⟩
    exact replaces_applyArtifact hg₁ there
  obtain ⟨report, g', hr, replaces⟩ := replaces_treatInOrder hg (nodup_planAll hg) treats {}
  obtain ⟨upToDate, units⟩ := counts_treatInOrder hr
  refine ⟨report, g', (exec_bind_of_ok readable).trans hr, upToDate, ?_, replaces⟩
  rw [units, (x.finishOrder_perm g.binaries).length_eq]
  exact Nat.zero_add _

theorem intact_cleared (hg : g.Intact) : (x.cleared g).Intact := by
  unfold Extractor.cleared
  split
  · exact keeps_clearReferences g hg
  · exact hg

/-- The phase succeeds, and replaces the references of the artifacts with symbols that can be dumped. -/
theorem exec_symbolUpdate_replaces (hx : x.ReadsAll) (hg : g.Intact) :
    ∃ report g', (symbolUpdate x).exec g = (.ok report, g') ∧ report.upToDate = false ∧
      report.units = g.binaries.length ∧ (x.cleared g).Replaces (x.planAll g) g' := by
  have intact : (x.cleared g).Intact := intact_cleared hg
  unfold symbolUpdate Extractor.cleared at *
  split at intact
  · rename_i force
    rw [if_pos force, if_pos force, exec_bind_of_ok (exec_clearReferences g)]
    exact exec_treatBinaries hx intact
  · rename_i force
    rw [if_neg force, if_neg force]
    exact exec_treatBinaries hx intact

/-! ## Listing every artifact -/

/-- The artifact has no symbols, or its file cannot be read. -/
def Extractor.CannotList (x : Extractor) (row : Artifact) : Prop :=
  row.type.hasSymbols → ∃ failure, formatOf x.files row.name = .error failure

theorem listing_eq_nil {row : Artifact} (h : x.CannotList row) : x.listing row = [] := by
  unfold Extractor.listing
  split
  · rename_i symbols
    obtain ⟨failure, hf⟩ := h symbols
    rw [dump_eq_error hf]
  · rfl

/-- Artifacts that cannot be listed have no references. -/
def Extractor.Tidy (x : Extractor) (g : Graph) : Prop :=
  ∀ row ∈ g.artifacts, x.CannotList row → g.referencesAt row.id = []

/-- Every artifact has the references that its listing comes to. -/
def Extractor.Listed (x : Extractor) (g : Graph) : Prop :=
  ∀ row ∈ g.artifacts, g.Lists row.id (x.listing row)

theorem Extractor.Listed.tidy (h : x.Listed g) : x.Tidy g := by
  intro row hrow cannot
  have lists := h row hrow
  rw [listing_eq_nil cannot] at lists
  exact lists_nil.1 lists

theorem listing_eq {row : Artifact} (symbols : row.type.hasSymbols) {s : ArtifactSymbols}
    (hs : (dump x.files x.tools x.nm row.name row.type).1 = .ok s) : x.listing row = s.listing := by
  rw [Extractor.listing, if_pos symbols, hs]

theorem tidy_cleared (tidy : x.options.force = false → x.Tidy g) : x.Tidy (x.cleared g) := by
  unfold Extractor.cleared
  split
  · exact fun _ _ _ => rfl
  · rename_i force
    exact tidy (Bool.not_eq_true _ ▸ force)

theorem registers_cleared (hg : g.Intact) : g.Registers [] (x.cleared g) := by
  have intact : (x.cleared g).Intact := intact_cleared hg
  unfold Extractor.cleared at *
  split at intact
  · rename_i force
    rw [if_pos force]
    exact ⟨intact, rfl, rfl, rfl, rfl, [], by simp, nofun⟩
  · rename_i force
    rw [if_neg force]
    exact .refl intact

/-- The phase lists every artifact, on a tidy graph or when it forgets all references first. -/
theorem exec_symbolUpdate (hx : x.ReadsAll) (starts : x.Starts) (hg : g.Intact)
    (tidy : x.options.force = false → x.Tidy g) :
    ∃ report g', (symbolUpdate x).exec g = (.ok report, g') ∧ report.upToDate = false ∧
      g.Registers (g.artifacts.flatMap x.listing) g' ∧ x.Listed g' := by
  obtain ⟨report, g', hr, upToDate, -, replaces⟩ := exec_symbolUpdate_replaces hx hg
  have cleared : g.Registers [] (x.cleared g) := registers_cleared hg
  refine ⟨report, g', hr, upToDate, (cleared.trans replaces.toRegisters).mono fun e he => ?_,
    fun row hrow => ?_⟩
  · obtain ⟨p, hp, he⟩ := List.mem_flatMap.1 he
    obtain ⟨row, hrow, symbols, s, hs, rfl⟩ := mem_planAll.1 hp
    exact List.mem_flatMap.2 ⟨row, hrow, by rwa [listing_eq symbols hs]⟩
  · rw [replaces.artifacts, cleared.artifacts] at hrow
    by_cases cannot : x.CannotList row
    · -- such an artifact is not treated, and has no references
      have left := not_mem_planAll (x := x) (a := row.id) fun other ho same symbols s hs => by
        obtain rfl := List.inj_on_of_nodup_map hg.artifactIds_nodup ho hrow same
        obtain ⟨failure, hf⟩ := cannot symbols
        rw [dump_eq_error hf] at hs
        cases hs
      rw [listing_eq_nil cannot, lists_nil, replaces.others row.id left]
      exact tidy_cleared tidy row (cleared.artifacts ▸ hrow) cannot
    · obtain ⟨symbols, readable⟩ := Classical.not_imp.1 cannot
      rcases hf : formatOf x.files row.name with failure | format
      · exact absurd ⟨failure, hf⟩ readable
      · obtain ⟨s, hs⟩ := dump_eq_ok starts hf row.type
        rw [listing_eq symbols hs]
        exact replaces.listed _ (mem_planAll.2 ⟨row, hrow, symbols, s, hs, rfl⟩)

/-! ## Doing it again -/

/-- The same but for the ids of references and the times of phases. -/
structure Graph.SameUpToRows (g g' : Graph) : Prop where
  commands : g'.commands = g.commands
  artifacts : g'.artifacts = g.artifacts
  edges : g'.edges = g.edges
  symbols : g'.symbols = g.symbols
  references : (g'.references.map ReferenceRow.content).Perm (g.references.map ReferenceRow.content)

theorem referencesAt_eq_nil (hg : g.Intact) (none : ¬ g.hasArtifact a) : g.referencesAt a = [] := by
  rw [referencesAt, List.map_eq_nil_iff, List.filter_eq_nil_iff]
  intro r hr e
  exact none (beq_iff_eq.1 e ▸ (hg.referenceEnds r hr).1)

theorem references_perm (hg : g.Intact) (hg' : g'.Intact) (artifacts : g'.artifacts = g.artifacts)
    (same : ∀ row ∈ g.artifacts, g'.referencesAt row.id = g.referencesAt row.id) :
    (g'.references.map ReferenceRow.content).Perm (g.references.map ReferenceRow.content) := by
  refine perm_of_filter_key_eq (·.1.artifact) fun a => ?_
  rw [← referencesAt_eq, ← referencesAt_eq]
  by_cases there : g.hasArtifact a
  · obtain ⟨row, hrow, ids⟩ := hasArtifact_iff.1 there
    rw [← ids, same row hrow]
  · have there' : ¬ g'.hasArtifact a := by
      rwa [Graph.hasArtifact, artifacts]
    rw [referencesAt_eq_nil hg there, referencesAt_eq_nil hg' there']

/-- Where every artifact was listed before and is listed now, nothing but rows has changed. -/
theorem sameUpToRows_of_listed (hg : g.Intact) (listed : x.Listed g)
    (registers : g.Registers (g.artifacts.flatMap x.listing) g') (listed' : x.Listed g') :
    g.SameUpToRows g' := by
  have symbols : g'.symbols = g.symbols := registers.symbols_eq fun entry he => by
    obtain ⟨row, hrow, he⟩ := List.mem_flatMap.1 he
    exact (listed row hrow).symbol he
  refine ⟨registers.commands, registers.artifacts, registers.edges, symbols,
    references_perm hg registers.intact registers.artifacts fun row hrow => ?_⟩
  have now : g'.Lists row.id (x.listing row) := listed' row (registers.artifacts ▸ hrow)
  have entries : g'.entryReference? row.id = g.entryReference? row.id := by
    funext entry
    rw [entryReference?, entryReference?, Graph.symbolNamed?, symbols, Graph.symbolNamed?]
  unfold Graph.Lists at now
  rw [entries, ← listed row hrow] at now
  exact List.map_injective_iff.2 (Option.some_injective _) now

end BuildAudit
