import BuildAudit.Graph.Named
import BuildAudit.Proofs.Integrity
import BuildAudit.Proofs.Knowledge

/-!
# Recording observations

An extraction observes artifacts, each with a kind and perhaps a generator, and links between them.
`Graph.evidence` gathers what a graph knows and what is observed of one name, and `Graph.Absorbs` says
that a graph has taken in observations and links: what it knows of a name is the least upper bound
of the evidence.  Taking in more observations is taking in all of them (`Absorbs.trans`), which is
possible only if they have an upper bound (`Absorbs.not_contradicts`) and comes to the same in any
order (`Absorbs.sameUpToIds`).
-/

namespace BuildAudit

/-- A name and what is observed of the artifact that has it. -/
structure Observation where
  name : String
  knowledge : Knowledge

/-- Two kinds or two generators for one artifact. -/
def StoreError.IsConflict (e : StoreError) : Prop :=
  (∃ name t u, e = .typeConflict name t u) ∨ ∃ name c d, e = .generatorConflict name c d

namespace Graph

/-! ## Evidence -/

/-- What a graph knows of the artifact with a name. -/
def known (g : Graph) (name : String) : Option Knowledge :=
  (g.artifactNamed? name).map Artifact.knowledge

/-- All that is known or observed of the artifact with a name. -/
def evidence (g : Graph) (obs : List Observation) (name : String) : Set Knowledge :=
  {κ | g.known name = some κ ∨ ⟨name, κ⟩ ∈ obs}

/-- The observations do not fit what is known, or each other. -/
def Contradicts (g : Graph) (obs : List Observation) : Prop :=
  ∃ name, ¬ BddAbove (g.evidence obs name)

variable {g g' g'' : Graph} {obs obs' : List Observation} {name : String}

/-- What is known of a name is what the row of the name says. -/
theorem known_eq_some_iff (hg : g.Intact) {κ : Knowledge} :
    g.known name = some κ ↔ ∃ a ∈ g.artifacts, a.name = name ∧ a.knowledge = κ := by
  simp only [known, Option.map_eq_some_iff, artifactNamed?_eq_some_iff hg.artifactNames, and_assoc]

theorem evidence_append (g : Graph) (obs obs' : List Observation) (name : String) :
    g.evidence (obs ++ obs') name = g.evidence obs name ∪ {κ | ⟨name, κ⟩ ∈ obs'} := by
  ext κ
  simp [evidence, or_assoc]

theorem evidence_nil_of_some {κ : Knowledge} (h : g.known name = some κ) :
    g.evidence [] name = {κ} := by
  ext κ'
  simp [evidence, h, eq_comm]

theorem evidence_nil_of_none (h : g.known name = none) : g.evidence [] name = ∅ := by
  ext κ'
  simp [evidence, h]

theorem bddAbove_evidence_nil (g : Graph) (name : String) : BddAbove (g.evidence [] name) := by
  rcases h : g.known name with _ | κ
  · rw [evidence_nil_of_none h]
    exact ⟨⟨.source, none⟩, by simp⟩
  · rw [evidence_nil_of_some h]
    exact bddAbove_singleton

/-- Evidence does not depend on the order of observations. -/
theorem evidence_congr (h : ∀ o, o ∈ obs ↔ o ∈ obs') : g.evidence obs name = g.evidence obs' name := by
  ext κ
  simp [evidence, h]

theorem Contradicts.append (h : g.Contradicts obs) (obs' : List Observation) :
    g.Contradicts (obs ++ obs') := by
  obtain ⟨name, hn⟩ := h
  refine ⟨name, fun hb => hn ?_⟩
  rw [evidence_append] at hb
  exact hb.mono Set.subset_union_left

/-- What is known is determined by its upper bounds. -/
theorem known_eq_of_upperBounds_eq
    (h : upperBounds (g.evidence [] name) = upperBounds (g'.evidence [] name)) :
    g.known name = g'.known name := by
  rcases hk : g.known name with _ | κ <;> rcases hk' : g'.known name with _ | κ'
  · rfl
  · rw [evidence_nil_of_none hk, evidence_nil_of_some hk', upperBounds_empty,
      upperBounds_singleton] at h
    obtain ⟨b, hb⟩ := κ'.exists_not_le
    exact absurd (h ▸ Set.mem_univ b : b ∈ Set.Ici κ') hb
  · rw [evidence_nil_of_some hk, evidence_nil_of_none hk', upperBounds_empty,
      upperBounds_singleton] at h
    obtain ⟨b, hb⟩ := κ.exists_not_le
    exact absurd (h.symm ▸ Set.mem_univ b : b ∈ Set.Ici κ) hb
  · rw [evidence_nil_of_some hk, evidence_nil_of_some hk', upperBounds_singleton,
      upperBounds_singleton] at h
    rw [Set.Ici_injective h]

/-! ## Links -/

/-- The edges by name, read off the table of artifacts. -/
theorem mem_namedEdges (hg : g.Intact) {a b : String} :
    (a, b) ∈ g.namedEdges ↔ ∃ x ∈ g.artifacts, ∃ y ∈ g.artifacts,
      ⟨x.id, y.id⟩ ∈ g.edges ∧ x.name = a ∧ y.name = b := by
  have row {id : Id} {x : Artifact} : g.artifact? id = some x ↔ x ∈ g.artifacts ∧ x.id = id :=
    artifact?_eq_some_iff hg.artifactIds_nodup
  simp only [namedEdges, List.mem_filterMap, Option.bind_eq_bind, Option.bind_eq_some_iff, row,
    Option.pure_def, Option.some.injEq, Prod.mk.injEq]
  constructor
  · rintro ⟨⟨i, j⟩, he, x, ⟨hx, rfl⟩, y, ⟨hy, rfl⟩, hab⟩
    exact ⟨x, hx, y, hy, he, hab⟩
  · rintro ⟨x, hx, y, hy, he, hab⟩
    exact ⟨_, he, x, ⟨hx, rfl⟩, y, ⟨hy, rfl⟩, hab⟩

/-- Artifacts keep their ids and names, others may be added. -/
def KeepsIds (g g' : Graph) : Prop :=
  ∀ a ∈ g.artifacts, ∃ b ∈ g'.artifacts, b.id = a.id ∧ b.name = a.name

theorem KeepsIds.trans (h : g.KeepsIds g') (h' : g'.KeepsIds g'') : g.KeepsIds g'' := by
  intro a ha
  obtain ⟨b, hb, ids, names⟩ := h a ha
  obtain ⟨c, hc, ids', names'⟩ := h' b hb
  exact ⟨c, hc, ids'.trans ids, names'.trans names⟩

/-- The name of an end of an edge stays the same. -/
theorem KeepsIds.name_eq (h : g.KeepsIds g') (hg' : g'.Intact) {x : Artifact}
    (hx : x ∈ g'.artifacts) (old : g.hasArtifact x.id) :
    ∃ a ∈ g.artifacts, a.id = x.id ∧ a.name = x.name := by
  obtain ⟨a, ha, ids⟩ := hasArtifact_iff.1 old
  obtain ⟨b, hb, ids', names⟩ := h a ha
  obtain rfl := List.inj_on_of_nodup_map hg'.artifactIds_nodup hb hx (ids'.trans ids)
  exact ⟨a, ha, ids, names.symm⟩

theorem KeepsIds.mem_namedEdges_iff (h : g.KeepsIds g') (hg : g.Intact) (hg' : g'.Intact)
    (edges : g'.edges = g.edges) (link : String × String) :
    link ∈ g'.namedEdges ↔ link ∈ g.namedEdges := by
  obtain ⟨a, b⟩ := link
  rw [mem_namedEdges hg, mem_namedEdges hg', edges]
  constructor
  · rintro ⟨x, hx, y, hy, he, rfl, rfl⟩
    obtain ⟨hx', hy'⟩ := hg.edgeEnds _ he
    obtain ⟨u, hu, ids, names⟩ := h.name_eq hg' hx hx'
    obtain ⟨v, hv, ids', names'⟩ := h.name_eq hg' hy hy'
    exact ⟨u, hu, v, hv, by rw [ids, ids']; exact he, names, names'⟩
  · rintro ⟨x, hx, y, hy, he, rfl, rfl⟩
    obtain ⟨u, hu, ids, names⟩ := h x hx
    obtain ⟨v, hv, ids', names'⟩ := h y hy
    exact ⟨u, hu, v, hv, by rw [ids, ids']; exact he, names, names'⟩

/-! ## Taking in observations -/

/-- Nothing but artifacts and edges differs. -/
structure SameRest (g g' : Graph) : Prop where
  commands : g'.commands = g.commands
  symbols : g'.symbols = g.symbols
  references : g'.references = g.references
  stamps : g'.stamps = g.stamps

theorem SameRest.refl (g : Graph) : g.SameRest g := ⟨rfl, rfl, rfl, rfl⟩

theorem SameRest.trans (h : g.SameRest g') (h' : g'.SameRest g'') : g.SameRest g'' :=
  ⟨h'.commands.trans h.commands, h'.symbols.trans h.symbols, h'.references.trans h.references,
    h'.stamps.trans h.stamps⟩

theorem SameRest.hasCommand (h : g.SameRest g') (id : Id) : g'.hasCommand id = g.hasCommand id := by
  rw [Graph.hasCommand, Graph.hasCommand, h.commands]

/-- `g'` is `g` with the observations and the links taken in. -/
structure Absorbs (g : Graph) (obs : List Observation) (links : List (String × String))
    (g' : Graph) : Prop where
  intact : g'.Intact
  rest : g.SameRest g'
  keepsIds : g.KeepsIds g'
  known : ∀ name, upperBounds (g'.evidence [] name) = upperBounds (g.evidence obs name)
  linked : ∀ link, link ∈ g'.namedEdges ↔ link ∈ g.namedEdges ∨ link ∈ links

variable {links links' : List (String × String)}

theorem Absorbs.refl (hg : g.Intact) : g.Absorbs [] [] g where
  intact := hg
  rest := .refl g
  keepsIds := fun a ha => ⟨a, ha, rfl, rfl⟩
  known := fun _ => rfl
  linked := by simp

/-- The upper bounds of further evidence are those of the evidence as a whole. -/
theorem Absorbs.upperBounds_evidence (h : g.Absorbs obs links g') (obs' : List Observation)
    (name : String) :
    upperBounds (g'.evidence obs' name) = upperBounds (g.evidence (obs ++ obs') name) := by
  rw [← List.nil_append obs', evidence_append, upperBounds_union, h.known, List.nil_append,
    evidence_append, upperBounds_union]

theorem Absorbs.trans (h : g.Absorbs obs links g') (h' : g'.Absorbs obs' links' g'') :
    g.Absorbs (obs ++ obs') (links ++ links') g'' where
  intact := h'.intact
  rest := h.rest.trans h'.rest
  keepsIds := h.keepsIds.trans h'.keepsIds
  known := fun name => (h'.known name).trans (h.upperBounds_evidence obs' name)
  linked := fun link => by rw [h'.linked, h.linked, List.mem_append, or_assoc]

theorem Absorbs.contradicts (h : g.Absorbs obs links g') (h' : g'.Contradicts obs') :
    g.Contradicts (obs ++ obs') := by
  obtain ⟨name, hn⟩ := h'
  refine ⟨name, fun hb => hn ?_⟩
  rwa [BddAbove, h.upperBounds_evidence]

theorem Absorbs.not_contradicts (h : g.Absorbs obs links g') : ¬ g.Contradicts obs := by
  rintro ⟨name, hn⟩
  refine hn ?_
  rw [BddAbove, ← h.known]
  exact bddAbove_evidence_nil g' name

/-! ## Holding what was observed -/

/-- The graph knows what is observed, and the links are there. -/
structure Holds (g : Graph) (obs : List Observation) (links : List (String × String)) : Prop where
  known : ∀ o ∈ obs, ∃ κ, g.known o.name = some κ ∧ o.knowledge ≤ κ
  linked : ∀ link ∈ links, link ∈ g.namedEdges

/-- What has been taken in is held. -/
theorem Absorbs.holds (h : g.Absorbs obs links g') : g'.Holds obs links where
  linked := fun link hl => (h.linked link).2 (.inr hl)
  known := fun o ho => by
    have member : o.knowledge ∈ g.evidence obs o.name := .inr ho
    have below : ∀ κ ∈ upperBounds (g'.evidence [] o.name), o.knowledge ≤ κ := fun κ hκ => by
      rw [h.known] at hκ
      exact hκ member
    rcases hk : g'.known o.name with _ | κ
    · rw [evidence_nil_of_none hk, upperBounds_empty] at below
      obtain ⟨b, hb⟩ := o.knowledge.exists_not_le
      exact absurd (below b trivial) hb
    · rw [evidence_nil_of_some hk, upperBounds_singleton] at below
      exact ⟨κ, rfl, below κ Set.self_mem_Ici⟩

theorem Holds.mono (h : g.Holds obs links) (hobs : ∀ o ∈ obs', o ∈ obs)
    (hlinks : ∀ link ∈ links', link ∈ links) : g.Holds obs' links' :=
  ⟨fun o ho => h.known o (hobs o ho), fun link hl => h.linked link (hlinks link hl)⟩

/-! ## The order of observations -/

/-- The same but for the ids of artifacts: the same artifacts by name, kind and generator, the same
edges by name, and all else equal. -/
structure SameUpToIds (g g' : Graph) : Prop where
  artifacts : (g.artifacts.map fun a => (a.name, a.type, a.generator)).Perm
    (g'.artifacts.map fun a => (a.name, a.type, a.generator))
  edges : g.namedEdges.Perm g'.namedEdges
  rest : g.SameRest g'

theorem mem_described_iff (hg : g.Intact) {name : String} {type : ArtifactType}
    {generator : Option Id} :
    (name, type, generator) ∈ (g.artifacts.map fun a => (a.name, a.type, a.generator)) ↔
      g.known name = some ⟨type, generator⟩ := by
  simp only [known_eq_some_iff hg, List.mem_map, Artifact.knowledge, Prod.mk.injEq,
    Knowledge.mk.injEq]

theorem nodup_described (hg : g.Intact) :
    (g.artifacts.map fun a => (a.name, a.type, a.generator)).Nodup := by
  refine List.Nodup.of_map Prod.fst ?_
  rw [List.map_map]
  exact hg.artifactNames

theorem nodup_namedEdges (hg : g.Intact) : g.namedEdges.Nodup := by
  have row {id : Id} {x : Artifact} : g.artifact? id = some x ↔ x ∈ g.artifacts ∧ x.id = id :=
    artifact?_eq_some_iff hg.artifactIds_nodup
  refine hg.edgesOnce.filterMap fun ⟨i, j⟩ ⟨i', j'⟩ link he he' => ?_
  simp only [Option.bind_eq_bind, Option.pure_def, Option.mem_def, Option.bind_eq_some_iff, row,
    Option.some.injEq] at he he'
  obtain ⟨x, ⟨hx, rfl⟩, y, ⟨hy, rfl⟩, rfl⟩ := he
  obtain ⟨x', ⟨hx', rfl⟩, y', ⟨hy', rfl⟩, names⟩ := he'
  obtain ⟨namesX, namesY⟩ := Prod.mk.inj names
  rw [List.inj_on_of_nodup_map hg.artifactNames hx hx' namesX.symm,
    List.inj_on_of_nodup_map hg.artifactNames hy hy' namesY.symm]

/-- Two graphs that have taken in the same, in whatever order, are the same up to ids. -/
theorem Absorbs.sameUpToIds (h : g.Absorbs obs links g') (h' : g.Absorbs obs' links' g'')
    (sameObs : ∀ o, o ∈ obs ↔ o ∈ obs') (sameLinks : ∀ l, l ∈ links ↔ l ∈ links') :
    g'.SameUpToIds g'' where
  artifacts := by
    rw [List.perm_ext_iff_of_nodup (nodup_described h.intact) (nodup_described h'.intact)]
    rintro ⟨name, type, generator⟩
    have : g'.known name = g''.known name := known_eq_of_upperBounds_eq <| by
      rw [h.known, h'.known, evidence_congr sameObs]
    rw [mem_described_iff h.intact, mem_described_iff h'.intact, this]
  edges := by
    rw [List.perm_ext_iff_of_nodup (nodup_namedEdges h.intact) (nodup_namedEdges h'.intact)]
    intro link
    rw [h.linked, h'.linked, sameLinks]
  rest := ⟨h'.rest.commands.trans h.rest.commands.symm, h'.rest.symbols.trans h.rest.symbols.symm,
    h'.rest.references.trans h.rest.references.symm, h'.rest.stamps.trans h.rest.stamps.symm⟩

theorem Contradicts.congr (h : g.Contradicts obs) (same : ∀ o, o ∈ obs ↔ o ∈ obs') :
    g.Contradicts obs' := by
  obtain ⟨name, hn⟩ := h
  exact ⟨name, evidence_congr same ▸ hn⟩

end Graph

end BuildAudit
