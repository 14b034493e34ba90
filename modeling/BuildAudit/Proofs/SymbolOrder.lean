import BuildAudit.Proofs.Renaming
import BuildAudit.Proofs.SymbolPhase

/-!
# The order of dumps

Workers finish in any order, and the symbols that they find get their ids in that order.  Two graphs
that come of replacing the same references in different orders differ by these ids
(`renames_of_replaces`), and so every query about symbols answers the same on both
(`storeDumps_perm`, `symbolUpdate_sameSymbols`).
-/

namespace BuildAudit

open Update BuildAudit.Graph

variable {x : Extractor} {g g₁ g₂ : Graph} {ps qs : List (Id × Listing)}

/-! ## Counterparts -/

/-- The id in a graph `g'` of the symbol that has an id in `g`. -/
def Graph.counterpart (g g' : Graph) (id : Id) : Id :=
  (((g.symbol? id).bind fun s => g'.symbolNamed? s.name).map (·.id)).getD id

theorem counterpart_eq (hg₁ : g₁.Intact) (hg₂ : g₂.Intact) {s t : Symbol} (hs : s ∈ g₁.symbols)
    (ht : t ∈ g₂.symbols) (name : t.name = s.name) : g₁.counterpart g₂ s.id = t.id := by
  have found := (symbol?_eq_some_iff hg₁.symbolIds_nodup).2 ⟨hs, rfl⟩
  have named := (symbolNamed?_eq_some_iff hg₂.symbolNames).2 ⟨ht, name⟩
  simp [Graph.counterpart, found, named]

/-- A symbol that is there once some references are replaced is there, with the same names, once these
and perhaps others are. -/
theorem symbol_of_replaces (h₁ : g.Replaces ps g₁) (h₂ : g.Replaces qs g₂)
    (sub : ∀ p ∈ ps, p ∈ qs) {s : Symbol} (hs : s ∈ g₁.symbols) :
    ∃ t ∈ g₂.symbols, t.name = s.name ∧ t.demangled = s.demangled := by
  obtain ⟨new₁, grown₁, named₁⟩ := h₁.symbols
  obtain ⟨new₂, grown₂, named₂⟩ := h₂.symbols
  have hs' := hs
  rw [grown₁] at hs'
  rcases List.mem_append.1 hs' with old | new
  · refine ⟨s, ?_, rfl, rfl⟩
    rw [grown₂]
    exact List.mem_append_left _ old
  · obtain ⟨demangled, entry, he, name⟩ := named₁ s new
    obtain ⟨p, hp, he⟩ := List.mem_flatMap.1 he
    obtain ⟨t, found⟩ := (h₂.listed p (sub p hp)).symbol he
    obtain ⟨ht, name'⟩ := (symbolNamed?_eq_some_iff h₂.intact.symbolNames).1 found
    refine ⟨t, ht, name'.trans name, ?_⟩
    rw [grown₂] at ht
    rcases List.mem_append.1 ht with old | new'
    · -- a symbol that was there before is the only one with its name
      have ht : t ∈ g₁.symbols := by
        rw [grown₁]
        exact List.mem_append_left _ old
      rw [List.inj_on_of_nodup_map h₁.intact.symbolNames ht hs (name'.trans name)]
    · rw [demangled, (named₂ t new').1, name', name]

/-! ## Replacing in another order -/

theorem renumber_counterpart (hg₁ : g₁.Intact) (hg₂ : g₂.Intact) {s t : Symbol}
    (hs : s ∈ g₁.symbols) (ht : t ∈ g₂.symbols) (name : t.name = s.name)
    (demangled : t.demangled = s.demangled) : s.renumber (g₁.counterpart g₂) = t := by
  rw [Symbol.renumber, counterpart_eq hg₁ hg₂ hs ht name, ← name, ← demangled]

theorem symbols_perm_of_replaces (h₁ : g.Replaces ps g₁) (h₂ : g.Replaces qs g₂)
    (perm : ps.Perm qs) : g₂.symbols.Perm (g₁.symbols.map (·.renumber (g₁.counterpart g₂))) := by
  have renumbered {s : Symbol} (hs : s ∈ g₁.symbols) : s.renumber (g₁.counterpart g₂) ∈ g₂.symbols := by
    obtain ⟨t, ht, name, demangled⟩ :=
      symbol_of_replaces h₁ h₂ (fun p => perm.mem_iff.1) hs
    rwa [renumber_counterpart h₁.intact h₂.intact hs ht name demangled]
  have names : ((g₁.symbols.map (·.renumber (g₁.counterpart g₂))).map (·.name)).Nodup := by
    rw [List.map_map]
    exact h₁.intact.symbolNames
  rw [List.perm_ext_iff_of_nodup (.of_map _ h₂.intact.symbolNames) (.of_map _ names)]
  intro t
  constructor
  · intro ht
    obtain ⟨s, hs, name, demangled⟩ :=
      symbol_of_replaces h₂ h₁ (fun p => perm.mem_iff.2) ht
    exact List.mem_map.2 ⟨s, hs,
      renumber_counterpart h₁.intact h₂.intact hs ht name.symm demangled.symm⟩
  · intro ht
    obtain ⟨s, hs, rfl⟩ := List.mem_map.1 ht
    exact renumbered hs

/-- Listed twice, an artifact has the same references but for the ids of symbols. -/
theorem referencesAt_of_lists {a : Id} {listing : Listing} (hg₁ : g₁.Intact) (hg₂ : g₂.Intact)
    (lists₁ : g₁.Lists a listing) (lists₂ : g₂.Lists a listing) :
    g₂.referencesAt a =
      (g₁.referencesAt a).map fun r => (r.1.renumber (g₁.counterpart g₂), r.2) := by
  apply List.map_injective_iff.2 (Option.some_injective _)
  have entries : ∀ entry ∈ listing, g₂.entryReference? a entry =
      (g₁.entryReference? a entry).map fun r => (r.1.renumber (g₁.counterpart g₂), r.2) := by
    intro entry he
    obtain ⟨s, found⟩ := lists₁.symbol he
    obtain ⟨t, found'⟩ := lists₂.symbol he
    obtain ⟨hs, name⟩ := (symbolNamed?_eq_some_iff hg₁.symbolNames).1 found
    obtain ⟨ht, name'⟩ := (symbolNamed?_eq_some_iff hg₂.symbolNames).1 found'
    have same := counterpart_eq hg₁ hg₂ hs ht (name'.trans name.symm)
    simp [entryReference?, found, found', Reference.renumber, same]
  calc (g₂.referencesAt a).map some
      = listing.map (g₂.entryReference? a) := lists₂
    _ = (listing.map (g₁.entryReference? a)).map
          (Option.map fun r => (r.1.renumber (g₁.counterpart g₂), r.2)) := by
        rw [List.map_map]
        exact List.map_congr_left entries
    _ = ((g₁.referencesAt a).map fun r => (r.1.renumber (g₁.counterpart g₂), r.2)).map some := by
        rw [← show (g₁.referencesAt a).map some = _ from lists₁, List.map_map, List.map_map]
        rfl

/-- Replacing the same references in another order gives the same but for the ids of symbols. -/
theorem renames_of_replaces (hg : g.Intact) (h₁ : g.Replaces ps g₁) (h₂ : g.Replaces qs g₂)
    (perm : ps.Perm qs) : g₁.Renames (g₁.counterpart g₂) g₂ where
  intact := h₁.intact
  intact' := h₂.intact
  artifacts := h₂.artifacts.trans h₁.artifacts.symm
  edges := h₂.edges.trans h₁.edges.symm
  symbols := symbols_perm_of_replaces h₁ h₂ perm
  references := by
    intro a
    by_cases replaced : a ∈ ps.map (·.1)
    · obtain ⟨p, hp, rfl⟩ := List.mem_map.1 replaced
      exact referencesAt_of_lists h₁.intact h₂.intact (h₁.listed p hp)
        (h₂.listed p (perm.mem_iff.1 hp))
    · have kept : a ∉ qs.map (·.1) := mt (perm.map _).mem_iff.2 replaced
      rw [h₁.others a replaced, h₂.others a kept]
      refine (List.map_congr_left fun r hr => ?_).trans (List.map_id _) |>.symm
      -- the symbols of such references were there before, and keep their ids
      obtain ⟨row, hrow, rfl⟩ := List.mem_map.1 hr
      obtain ⟨s, hs, same⟩ := hasSymbol_iff.1 (hg.referenceEnds row (List.mem_of_mem_filter hrow)).2
      obtain ⟨new₁, grown₁, -⟩ := h₁.symbols
      obtain ⟨new₂, grown₂, -⟩ := h₂.symbols
      have hs₁ : s ∈ g₁.symbols := grown₁ ▸ List.mem_append_left _ hs
      have hs₂ : s ∈ g₂.symbols := grown₂ ▸ List.mem_append_left _ hs
      have fixed := counterpart_eq h₁.intact h₂.intact hs₁ hs₂ rfl
      rw [same] at fixed
      simp [ReferenceRow.content, Reference.renumber, fixed]

/-! ## Dumps in another order -/

/-- Writes what the dumps of artifacts give, in the order in which they end. -/
def storeDumps (dumps : List (Artifact × ArtifactSymbols)) : Update PhaseReport :=
  treatInOrder (fun p => storeSymbols p.1.id p.2) {} dumps

theorem replaces_storeDumps (hg : g.Intact) {dumps : List (Artifact × ArtifactSymbols)}
    (once : (dumps.map (·.1)).Nodup) (there : ∀ p ∈ dumps, p.1 ∈ g.artifacts) :
    ∃ report g', (storeDumps dumps).exec g = (.ok report, g') ∧
      g.Replaces (dumps.flatMap fun p => [(p.1.id, p.2.listing)]) g' := by
  have ids : (dumps.map (·.1.id)).Nodup := by
    have ids : ((dumps.map (·.1)).map (·.id)).Nodup := by
      refine List.Nodup.map_on (fun a ha b hb same => ?_) once
      obtain ⟨p, hp, rfl⟩ := List.mem_map.1 ha
      obtain ⟨q, hq, rfl⟩ := List.mem_map.1 hb
      exact List.inj_on_of_nodup_map hg.artifactIds_nodup (there p hp) (there q hq) same
    rwa [List.map_map] at ids
  have plan : ((dumps.flatMap fun p => [(p.1.id, p.2.listing)]).map (·.1)) = dumps.map (·.1.id) := by
    rw [← List.map_eq_flatMap, List.map_map]
    rfl
  refine replaces_treatInOrder hg (by rwa [plan]) ?_ {}
  intro p hp g₁ hg₁ same
  refine replaces_storeSymbols hg₁ ?_ p.2
  rw [hasArtifact, same]
  exact hasArtifact_iff.2 ⟨p.1, there p hp, rfl⟩

/-- Whatever the order in which the dumps of different artifacts are written, writing them succeeds, and
the graph tells the same about symbols. -/
theorem storeDumps_perm (hg : g.Intact) {dumps dumps' : List (Artifact × ArtifactSymbols)}
    (once : (dumps.map (·.1)).Nodup) (there : ∀ p ∈ dumps, p.1 ∈ g.artifacts)
    (perm : dumps.Perm dumps') :
    ∃ report g₁ report' g₂, (storeDumps dumps).exec g = (.ok report, g₁) ∧
      (storeDumps dumps').exec g = (.ok report', g₂) ∧ g₁.SameSymbols g₂ := by
  obtain ⟨report, g₁, hr, h₁⟩ := replaces_storeDumps hg once there
  have once' : (dumps'.map (·.1)).Nodup := (perm.map _).nodup_iff.1 once
  have there' : ∀ p ∈ dumps', p.1 ∈ g.artifacts := fun p hp => there p (perm.mem_iff.2 hp)
  obtain ⟨report', g₂, hr', h₂⟩ := replaces_storeDumps hg once' there'
  have renames := renames_of_replaces hg h₁ h₂ (perm.flatMap_right _)
  exact ⟨report, g₁, report', g₂, hr, hr', renames.sameSymbols⟩

/-- Two objects that need and define the same function, and a program with a reference of an earlier
run. -/
def sharingGraph : Graph where
  artifacts := [⟨1, "/w/a.o", .object, none⟩, ⟨2, "/w/b.o", .object, none⟩,
    ⟨3, "/w/app", .executable, none⟩]
  edges := [⟨3, 1⟩]
  symbols := [⟨1, "main", ""⟩]
  references := [⟨1, ⟨3, 1, .external, 'T', some 8⟩, none⟩, ⟨2, ⟨1, 1, .external, 'T', none⟩, none⟩]

theorem sharingGraph_intact : sharingGraph.Intact := by
  decide

def sharingDumps : List (Artifact × ArtifactSymbols) :=
  [(⟨1, "/w/a.o", .object, none⟩, { format := .binary, external := [⟨"f", 'T', some 4⟩] }),
    (⟨2, "/w/b.o", .object, none⟩,
      { format := .binary, undefined := [⟨"g", 'U', none⟩], internal := [⟨"f", 't', some 4⟩] })]

/-- In the other order the functions get other ids. -/
theorem storeDumps_sharing :
    (∃ report g₁ report' g₂, (storeDumps sharingDumps).exec sharingGraph = (.ok report, g₁) ∧
      (storeDumps sharingDumps.reverse).exec sharingGraph = (.ok report', g₂) ∧
      g₁.SameSymbols g₂) ∧
    ((storeDumps sharingDumps).exec sharingGraph).2.symbols ≠
      ((storeDumps sharingDumps.reverse).exec sharingGraph).2.symbols :=
  ⟨storeDumps_perm sharingGraph_intact (by decide) (by decide) sharingDumps.reverse_perm.symm,
    by decide +kernel⟩

/-- The number of workers and the order in which they finish make no difference to what a symbol phase
tells. -/
theorem symbolUpdate_sameSymbols (hx : x.ReadsAll) (hg : g.Intact) (jobs : Nat)
    (order : FinishOrder) :
    ∃ report g₁ report' g₂, (symbolUpdate x).exec g = (.ok report, g₁) ∧
      (symbolUpdate { x with options := { x.options with jobs }, order }).exec g = (.ok report', g₂) ∧
      g₁.SameSymbols g₂ := by
  obtain ⟨report, g₁, hr, -, -, h₁⟩ := exec_symbolUpdate_replaces hx hg
  obtain ⟨report', g₂, hr', -, -, h₂⟩ := exec_symbolUpdate_replaces
    (x := { x with options := { x.options with jobs }, order }) hx hg
  have plans : (x.planAll g).Perm
      (Extractor.planAll { x with options := { x.options with jobs }, order } g) :=
    ((x.finishOrder_perm g.binaries).trans (Extractor.finishOrder_perm
      { x with options := { x.options with jobs }, order } g.binaries).symm).flatMap_right x.plan
  have renames := renames_of_replaces (intact_cleared hg) h₁ h₂ plans
  exact ⟨report, g₁, report', g₂, hr, hr', renames.sameSymbols⟩

end BuildAudit
