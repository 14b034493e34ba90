import BuildAudit.Proofs.Calls
import BuildAudit.Proofs.Stamps

/-!
# What a symbol phase comes to

What an extraction leaves of the references, said of the graph before it and of what dumping each file
gives (`extract_symbols_exact`).  A binary has the entries of its tables and no others, a linker script
has none, and whatever could not be dumped or carries no symbols is as before, or has lost its
references to a forced run.
-/

namespace BuildAudit

open Update BuildAudit.Graph

variable {x : Extractor} {g g' : Graph} {s : Store}

/-- The references that are left at an artifact that the phase does not treat: a forced run forgets
them. -/
def Extractor.leftAt (x : Extractor) (g : Graph) (id : Id) : List (Reference × Option String) :=
  if x.options.force then [] else g.referencesAt id

/-- The references of `g'` are those of `g` after dumping its artifacts, all of them that are no
sources. -/
structure Extractor.Dumped (x : Extractor) (g g' : Graph) : Prop where
  /-- A binary has the entries of its tables, in order. -/
  binary : ∀ a ∈ g'.artifacts, a.type ≠ .source → ∀ d,
    (dump x.files x.tools x.nm a.name a.type).1 = .ok d → d.format = .binary →
      ∀ category, g'.entriesOf a.id category = (d.entries category).map some
  /-- Nothing else is left of a binary, be it in no category. -/
  unstrayed : ∀ a ∈ g'.artifacts, a.type ≠ .source → ∀ d,
    (dump x.files x.tools x.nm a.name a.type).1 = .ok d → ∀ r ∈ g'.referencesAt a.id, r.2 = none
  linkerScript : ∀ a ∈ g'.artifacts, a.type ≠ .source → ∀ d,
    (dump x.files x.tools x.nm a.name a.type).1 = .ok d → d.format = .linkerScript →
      g'.referencesAt a.id = []
  failed : ∀ a ∈ g'.artifacts, a.type ≠ .source → ∀ e,
    (dump x.files x.tools x.nm a.name a.type).1 = .error e → g'.referencesAt a.id = x.leftAt g a.id
  others : ∀ id, (∀ a ∈ g'.artifacts, a.id = id → a.type = .source) →
    g'.referencesAt id = x.leftAt g id

theorem hasSymbols_iff {t : ArtifactType} : t.hasSymbols ↔ t ≠ .source := by
  simp [ArtifactType.hasSymbols]

theorem referencesAt_cleared (id : Id) : (x.cleared g).referencesAt id = x.leftAt g id := by
  unfold Extractor.cleared Extractor.leftAt
  split <;> rfl

/-- The phase leaves what the dumps say. -/
theorem dumped_of_symbolUpdate (hx : x.ReadsAll) (hg : g.Intact) {report : PhaseReport}
    (h : (symbolUpdate x).exec g = (.ok report, g')) :
    report.units = g'.binaries.length ∧ x.Dumped g g' := by
  obtain ⟨report', g₁, hr, -, units, replaces⟩ := exec_symbolUpdate_replaces hx hg
  cases hr.symm.trans h
  have artifacts : g'.artifacts = g.artifacts :=
    replaces.artifacts.trans (registers_cleared hg).artifacts
  have lists : ∀ a ∈ g'.artifacts, a.type ≠ .source → ∀ d,
      (dump x.files x.tools x.nm a.name a.type).1 = .ok d → g'.Lists a.id d.listing := by
    intro a ha symbols d hd
    rw [artifacts] at ha
    exact replaces.listed _ (mem_planAll.2 ⟨a, ha, hasSymbols_iff.2 symbols, d, hd, rfl⟩)
  have left : ∀ id, (∀ a ∈ g'.artifacts, a.id = id → a.type ≠ .source →
      ∀ d, (dump x.files x.tools x.nm a.name a.type).1 ≠ .ok d) →
        g'.referencesAt id = x.leftAt g id := by
    intro id alone
    have outside : id ∉ (x.planAll g).map (·.1) := by
      apply not_mem_planAll
      intro a ha same symbols
      exact alone a (artifacts ▸ ha) same (hasSymbols_iff.1 symbols)
    rw [replaces.others id outside, referencesAt_cleared]
  refine ⟨by rw [units, binaries, binaries, artifacts], ?_, ?_, ?_, ?_, ?_⟩
  · intro a ha symbols d hd binary category
    rw [(lists a ha symbols d hd).entriesOf_eq replaces.intact, d.filter_listing binary,
      List.map_map]
    rfl
  · intro a ha symbols d hd
    exact (lists a ha symbols d hd).unstrayed replaces.intact
  · intro a ha symbols d hd script
    have none := lists a ha symbols d hd
    rw [ArtifactSymbols.listing, script] at none
    exact lists_nil.1 none
  · intro a ha symbols e he
    apply left
    intro b hb same _ d hd
    -- no other artifact has this id
    obtain rfl : b = a := List.inj_on_of_nodup_map replaces.intact.artifactIds_nodup hb ha same
    cases he.symm.trans hd
  · intro id sources
    exact left id fun a ha same symbols => absurd (sources a ha same) symbols

/-- An extraction that has succeeded, was no rehearsal and did the symbol phase leaves the references
that the dumps say, of all artifacts that there are after it, and reports on each that is no source. -/
theorem extract_symbols_exact (hx : x.ReadsAll) (hg : s.graph.Intact) {now : Instant}
    {report : ExtractionReport} (real : x.options.dryRun = false)
    (ok : (extract x true now s).report = .ok report) (ran : report.symbols.upToDate = false) :
    x.Dumped s.graph (extract x true now s).store.graph ∧
      report.symbols.processed + report.symbols.skipped + report.symbols.failed =
        ((extract x true now s).store.graph.artifacts.filter (·.type ≠ .source)).length := by
  have did : report ≠ {} := by
    rintro rfl
    cases ran
  obtain ⟨todo, g, -, hr, kept⟩ := extract_committed real ok did
  obtain ⟨g₁, first, second⟩ := phasesUpdate_eq_ok hr
  obtain ⟨-, second⟩ := exec_of_ifStale second ran
  obtain ⟨intact, rest⟩ := sameRest_ifStale hx hg first
  obtain ⟨units, dumped⟩ := dumped_of_symbolUpdate hx intact second
  have left (id : Id) : x.leftAt g₁ id = x.leftAt s.graph id := by
    rw [Extractor.leftAt, Extractor.leftAt, referencesAt_congr rest.references]
  rw [kept, stampPhases_eq]
  refine ⟨⟨dumped.binary, dumped.unstrayed, dumped.linkerScript, ?_, ?_⟩, units⟩
  · intro a ha symbols e he
    exact (dumped.failed a ha symbols e he).trans (left a.id)
  · intro id sources
    exact (dumped.others id sources).trans (left id)

/-- Two objects, a linker script in place of a library, and a file that is not there. -/
def mixedExtractor : Extractor where
  files := ⟨[(["w"], .directory), (["w", "m.o"], .file ⟨#[0x7f, 0x45, 0x4c, 0x46]⟩),
    (["w", "n.o"], .file ⟨#[0x7f, 0x45, 0x4c, 0x46]⟩), (["w", "libc.so"], .file ⟨#[0x2a]⟩)], []⟩
  tools := fun _ args => .ok { stdout := if args.contains "-S" then "0 8 T main" else "U puts" }
  searchDirectories := []

/-- Artifacts with references of an earlier run.  A command writes another artifact. -/
def mixedGraph : Graph where
  commands := [⟨1, "/w", "gcc", "-c -o n.o n.c"⟩]
  artifacts := [⟨1, "/w/m.o", .object, none⟩, ⟨2, "/w/libc.so", .shared, none⟩,
    ⟨3, "/w/gone.o", .object, none⟩, ⟨4, "/w/m.c", .source, none⟩]
  symbols := [⟨1, "old", ""⟩]
  references := [⟨1, ⟨1, 1, .external, 'T', none⟩, none⟩, ⟨2, ⟨2, 1, .undefined, 'U', none⟩, none⟩,
    ⟨3, ⟨3, 1, .external, 'T', none⟩, none⟩, ⟨4, ⟨1, 1, .internal, 't', none⟩, some "local"⟩]

theorem mixedGraph_intact : mixedGraph.Intact := by
  decide

/-- The objects are dumped, the new one too; the script loses its reference, the missing file keeps
it. -/
theorem extract_symbols_mixed :
    let after := (extract mixedExtractor true ⟨0, 0⟩ { graph := mixedGraph }).store.graph
    mixedExtractor.Dumped mixedGraph after ∧
      2 + 1 + 1 = (after.artifacts.filter (·.type ≠ .source)).length ∧
      after.entriesOf 5 .external = [some ⟨"main", 'T', some 8⟩] := by
  have ok : (extract mixedExtractor true ⟨0, 0⟩ { graph := mixedGraph }).report =
      .ok ⟨{ processed := 1 }, { processed := 2, skipped := 1, failed := 1 }⟩ := by decide +kernel
  have exact := extract_symbols_exact (fun _ => rfl) mixedGraph_intact rfl ok rfl
  exact ⟨exact.1, exact.2, by decide +kernel⟩

end BuildAudit
