import BuildAudit.Proofs.Observation

/-!
# Updates that record observations

`Update.Records` says that an update takes in observations and links, or fails because they
contradict each other or what is known.  Updates of this kind compose (`Records.bind`,
`Records.forM`), and the two statements that an extraction is made of are of this kind
(`records_upsertArtifact`, `records_addDependency`).  In a graph that knows everything already they
succeed and change nothing (`exec_upsertArtifact_of_le`, `exec_addDependency_of_linked`).
-/

namespace BuildAudit

variable {α β : Type} {g g' : Graph} {obs obs' : List Observation}
  {links links' : List (String × String)}

namespace Update

/-- The update takes in observations and links and establishes `post`, or fails because they
contradict each other or what is known. -/
def Records (u : Update α) (obs : List Observation) (links : List (String × String)) (g : Graph)
    (post : α → Graph → Prop) : Prop :=
  (∃ a g', u.exec g = (.ok a, g') ∧ g.Absorbs obs links g' ∧ post a g') ∨
    ∃ e g', u.exec g = (.error e, g') ∧ e.IsConflict ∧ g.Contradicts obs

variable {post : α → Graph → Prop} {post' : β → Graph → Prop}

theorem records_pure (hg : g.Intact) {a : α} (h : post a g) : Records (pure a) [] [] g post :=
  .inl ⟨a, g, exec_pure a g, .refl hg, h⟩

theorem Records.imp {post' : α → Graph → Prop} {u : Update α} (h : u.Records obs links g post)
    (imp : ∀ a g', g.Absorbs obs links g' → post a g' → post' a g') :
    u.Records obs links g post' := by
  rcases h with ⟨a, g', hr, absorbs, ha⟩ | fails
  · exact .inl ⟨a, g', hr, absorbs, imp a g' absorbs ha⟩
  · exact .inr fails

theorem Records.map {u : Update α} (f : α → β) (h : u.Records obs links g post)
    (imp : ∀ a g', post a g' → post' (f a) g') : (f <$> u).Records obs links g post' := by
  unfold Records
  rw [exec_map]
  rcases h with ⟨a, g', hr, absorbs, ha⟩ | ⟨e, g', hr, fails⟩ <;> rw [hr]
  · exact .inl ⟨f a, g', rfl, absorbs, imp a g' ha⟩
  · exact .inr ⟨e, g', rfl, fails⟩

theorem Records.bind {u : Update α} {f : α → Update β} (hu : u.Records obs links g post)
    (hf : ∀ a g', g.Absorbs obs links g' → post a g' → (f a).Records obs' links' g' post') :
    (u >>= f).Records (obs ++ obs') (links ++ links') g post' := by
  rcases hu with ⟨a, g', hr, absorbs, ha⟩ | ⟨e, g', hr, conflict, contradicts⟩
  · rcases hf a g' absorbs ha with ⟨b, g'', hr', absorbs', hb⟩ | ⟨e, g'', hr', conflict, contradicts⟩
    · exact .inl ⟨b, g'', by rw [exec_bind_of_ok hr, hr'], absorbs.trans absorbs', hb⟩
    · exact .inr ⟨e, g'', by rw [exec_bind_of_ok hr, hr'], conflict, absorbs.contradicts contradicts⟩
  · exact .inr ⟨e, g', exec_bind_of_error hr, conflict, contradicts.append obs'⟩

/-- A loop records what its rounds record, if each round finds the invariant `I`. -/
theorem Records.forM {I : Graph → Prop} {f : α → Update PUnit} {o : α → List Observation}
    {l : α → List (String × String)} {as : List α} (hg : g.Intact) (hI : I g)
    (hf : ∀ a ∈ as, ∀ g, g.Intact → I g → (f a).Records (o a) (l a) g fun _ => I) :
    (as.forM f).Records (as.flatMap o) (as.flatMap l) g fun _ => I := by
  induction as generalizing g with
  | nil => exact records_pure hg hI
  | cons a as ih =>
    rw [List.flatMap_cons, List.flatMap_cons]
    refine (hf a List.mem_cons_self g hg hI).bind fun _ g' absorbs hI' => ?_
    exact ih absorbs.intact hI' fun b hb => hf b (List.mem_cons_of_mem a hb)

theorem Records.foldlM {I : Graph → Prop} {f : β → α → Update β} {o : α → List Observation}
    {l : α → List (String × String)} {as : List α} (hg : g.Intact) (hI : I g) (b : β)
    (hf : ∀ a ∈ as, ∀ b g, g.Intact → I g → (f b a).Records (o a) (l a) g fun _ => I) :
    (as.foldlM f b).Records (as.flatMap o) (as.flatMap l) g fun _ => I := by
  induction as generalizing g b with
  | nil => exact records_pure hg hI
  | cons a as ih =>
    rw [List.flatMap_cons, List.flatMap_cons, List.foldlM_cons]
    refine (hf a List.mem_cons_self b g hg hI).bind fun b g' absorbs hI' => ?_
    exact ih absorbs.intact hI' b fun c hc => hf c (List.mem_cons_of_mem a hc)

/-- An update that records succeeds exactly if nothing is contradicted. -/
theorem Records.isOk_iff {u : Update α} (h : u.Records obs links g post) :
    (u.exec g).1.isOk ↔ ¬ g.Contradicts obs := by
  rcases h with ⟨a, g', hr, absorbs, -⟩ | ⟨e, g', hr, -, contradicts⟩
  · rw [hr]
    exact ⟨fun _ => absorbs.not_contradicts, fun _ => rfl⟩
  · rw [hr]
    exact ⟨fun h => (Bool.false_ne_true h).elim, fun h => absurd contradicts h⟩

theorem Records.absorbs {u : Update α} (h : u.Records obs links g post)
    (ok : (u.exec g).1.isOk) : g.Absorbs obs links (u.exec g).2 := by
  rcases h with ⟨a, g', hr, absorbs, -⟩ | ⟨e, g', hr, -⟩
  · rw [hr]
    exact absorbs
  · rw [hr] at ok
    exact (Bool.false_ne_true ok).elim

end Update

namespace Graph

open Update

/-! ## Artifacts -/

/-- Replaces what is known of the artifact with an id. -/
def learn (g : Graph) (id : Id) (κ : Knowledge) : Graph :=
  g.modifyArtifact id ({ · with type := κ.type, generator := κ.generator })

theorem exec_reconcileType_join {row : Artifact} (type : ArtifactType)
    (rows : ∀ a ∈ g.artifacts, a.id = row.id → a.type = row.type) :
    (reconcileType row type).exec g =
      match row.type.join? type with
      | some type => (.ok (), g.modifyArtifact row.id ({ · with type }))
      | none => (.error (.typeConflict row.name row.type type), g) := by
  have unchanged : g.modifyArtifact row.id ({ · with type := row.type }) = g :=
    modifyArtifact_eq_self fun a ha e => by rw [← rows a ha e]
  rw [exec_reconcileType]
  by_cases same : row.type = type
  · subst same
    simp [ArtifactType.join?, ArtifactType.refinesTo, unchanged]
  have wider_iff := ArtifactType.refinesTo_iff_of_ne (Ne.symm same)
  rw [if_neg same, ArtifactType.join?]
  by_cases narrower : row.type.refinesTo type
  · simp only [if_pos narrower]
  by_cases wider : type.refinesTo row.type
  · simp only [if_neg narrower, if_pos (wider_iff.1 wider), if_pos wider, unchanged]
  · simp only [if_neg narrower, if_neg (mt wider_iff.2 wider), if_neg wider]

theorem exec_reconcileGenerator_join {row : Artifact} {generator : Option Id}
    (there : ∀ c ∈ generator, g.hasCommand c)
    (rows : ∀ a ∈ g.artifacts, a.id = row.id → a.generator = row.generator) :
    (∃ c, joinGenerator? row.generator generator = some c ∧
      (reconcileGenerator row generator).exec g =
        (.ok (), g.modifyArtifact row.id ({ · with generator := c }))) ∨
    joinGenerator? row.generator generator = none ∧
      ∃ e, StoreError.IsConflict e ∧ (reconcileGenerator row generator).exec g = (.error e, g) := by
  have unchanged : g.modifyArtifact row.id ({ · with generator := row.generator }) = g :=
    modifyArtifact_eq_self fun a ha e => by rw [← rows a ha e]
  rw [exec_reconcileGenerator]
  rcases h : row.generator with _ | existing <;> rcases generator with _ | requested <;>
    rw [h] at unchanged
  · exact .inl ⟨none, rfl, by rw [unchanged]⟩
  · exact .inl ⟨some requested, rfl, by simp [there requested rfl]⟩
  · exact .inl ⟨some existing, rfl, by rw [unchanged]⟩
  · by_cases same : existing = requested
    · subst same
      exact .inl ⟨some existing, by simp [joinGenerator?], by simp [unchanged]⟩
    · exact .inr ⟨by simp [joinGenerator?, same], .generatorConflict row.name existing requested,
        .inr ⟨_, _, _, rfl⟩, by simp [same]⟩

/-- What reconciling a row comes to: the join of what is known and what is observed, if there is
one. -/
theorem exec_upsertArtifact_of_some {name : String} {row : Artifact} {o : Knowledge} (hg : g.Intact)
    (found : g.artifactNamed? name = some row) (there : ∀ c ∈ o.generator, g.hasCommand c) :
    (∃ κ, row.knowledge.join? o = some κ ∧
      (upsertArtifact name o.type o.generator).exec g = (.ok row.id, g.learn row.id κ)) ∨
    row.knowledge.join? o = none ∧ ∃ e g', StoreError.IsConflict e ∧
      (upsertArtifact name o.type o.generator).exec g = (.error e, g') := by
  have hrow : row ∈ g.artifacts := ((artifactNamed?_eq_some_iff hg.artifactNames).1 found).1
  have alone : ∀ a ∈ g.artifacts, a.id = row.id → a = row := fun a ha e =>
    List.inj_on_of_nodup_map hg.artifactIds_nodup ha hrow e
  have reconciled := exec_reconcileType_join (g := g) o.type fun a ha e => by rw [alone a ha e]
  unfold upsertArtifact
  rw [exec_bind_of_ok (exec_get g), found]
  rcases ht : row.type.join? o.type with _ | t <;> rw [ht] at reconciled
  · exact .inr ⟨by simp [Knowledge.join?, Artifact.knowledge, ht], _, g, .inl ⟨_, _, _, rfl⟩,
      exec_bind_of_error reconciled⟩
  -- the kind may have changed, but the generators are those of before
  have generators : ∀ a ∈ (g.modifyArtifact row.id ({ · with type := t })).artifacts,
      a.id = row.id → a.generator = row.generator := by
    intro a ha e
    obtain ⟨b, hb, rfl⟩ := mem_modifyArtifact.1 ha
    split at e <;> obtain rfl := alone b hb e <;> simp
  rcases exec_reconcileGenerator_join (g := g.modifyArtifact row.id ({ · with type := t })) there
    generators with ⟨c, hc, h⟩ | ⟨hc, e, conflict, h⟩
  · refine .inl ⟨⟨t, c⟩, by simp [Knowledge.join?, Artifact.knowledge, ht, hc], ?_⟩
    rw [exec_bind_of_ok reconciled, exec_bind_of_ok h, exec_pure]
    exact congrArg (Prod.mk (Except.ok row.id)) (modifyArtifact_modifyArtifact fun _ => rfl)
  · exact .inr ⟨by simp [Knowledge.join?, Artifact.knowledge, ht, hc], e, _, conflict,
      (exec_bind_of_ok reconciled).trans (exec_bind_of_error h)⟩

theorem exec_upsertArtifact_of_none {name : String} {o : Knowledge}
    (new : g.artifactNamed? name = none) (there : ∀ c ∈ o.generator, g.hasCommand c) :
    (upsertArtifact name o.type o.generator).exec g =
      (.ok (nextId (g.artifacts.map (·.id))), { g with artifacts := g.artifacts ++
        [⟨nextId (g.artifacts.map (·.id)), name, o.type, o.generator⟩] }) := by
  unfold upsertArtifact
  rw [exec_bind_of_ok (exec_get g), new, exec_insertArtifact,
    if_pos (Option.all_eq_true _ _ |>.2 there)]

theorem known_append (row : Artifact) (new : g.artifactNamed? row.name = none) (name : String) :
    Graph.known { g with artifacts := g.artifacts ++ [row] } name =
      if name = row.name then some row.knowledge else g.known name := by
  unfold known artifactNamed? at *
  rw [List.find?_append]
  by_cases e : name = row.name
  · subst e
    simp [new]
  · simp [e, Ne.symm e]

theorem known_learn {row : Artifact} (hg : g.Intact) (hrow : row ∈ g.artifacts) (κ : Knowledge)
    (name : String) :
    (g.learn row.id κ).known name = if name = row.name then some κ else g.known name := by
  have named : (g.learn row.id κ).artifactNamed? name = (g.artifactNamed? name).map fun a =>
      if a.id == row.id then { a with type := κ.type, generator := κ.generator } else a := by
    unfold learn modifyArtifact artifactNamed?
    rw [List.find?_map]
    congr 2
    funext a
    by_cases e : a.id = row.id <;> simp [e]
  unfold known
  rw [named]
  by_cases e : name = row.name
  · rw [(artifactNamed?_eq_some_iff hg.artifactNames).2 ⟨hrow, e.symm⟩, if_pos e]
    simp [Artifact.knowledge]
  · rw [if_neg e, Option.map_map]
    refine Option.map_congr fun a ha => ?_
    obtain ⟨ha, hn⟩ := (artifactNamed?_eq_some_iff hg.artifactNames).1 ha
    have other : a.id ≠ row.id := fun h => e <| by
      rw [← hn, List.inj_on_of_nodup_map hg.artifactIds_nodup ha hrow h]
    simp [other]

/-- Knowing the least upper bound of the evidence on one name is taking in the observation. -/
theorem upperBounds_evidence_of_known {name : String} {o κ : Knowledge}
    (lub : IsLUB (g.evidence [⟨name, o⟩] name) κ)
    (h : ∀ n, g'.known n = if n = name then some κ else g.known n) (n : String) :
    upperBounds (g'.evidence [] n) = upperBounds (g.evidence [⟨name, o⟩] n) := by
  by_cases e : n = name
  · subst e
    rw [lub.upperBounds_eq, evidence_nil_of_some (by simpa using h n), upperBounds_singleton]
  · have same : g'.known n = g.known n := by rw [h, if_neg e]
    congr 1
    ext κ'
    simp [evidence, same, e]

/-- The artifact that has an id and a name. -/
def IsRow (g : Graph) (id : Id) (name : String) : Prop :=
  ∃ row ∈ g.artifacts, row.id = id ∧ row.name = name

theorem KeepsIds.isRow (h : g.KeepsIds g') {id : Id} {name : String} (hrow : g.IsRow id name) :
    g'.IsRow id name := by
  obtain ⟨row, hrow, rfl, rfl⟩ := hrow
  exact h row hrow

/-- Creating or reconciling an artifact takes in one observation. -/
theorem records_upsertArtifact {name : String} {o : Knowledge} (hg : g.Intact)
    (there : ∀ c ∈ o.generator, g.hasCommand c) :
    (upsertArtifact name o.type o.generator).Records [⟨name, o⟩] [] g
      fun id g' => g'.IsRow id name := by
  have intact := keeps_upsertArtifact name o.type o.generator g hg
  rcases found : g.artifactNamed? name with _ | row
  · -- a new row: the observation is all the evidence
    have hr := exec_upsertArtifact_of_none (o := o) found there
    rw [hr] at intact
    have ev : g.evidence [⟨name, o⟩] name = {o} := by
      ext κ
      simp [evidence, known, found]
    have keeps : g.KeepsIds { g with artifacts := g.artifacts ++
        [⟨nextId (g.artifacts.map (·.id)), name, o.type, o.generator⟩] } := fun a ha =>
      ⟨a, List.mem_append_left _ ha, rfl, rfl⟩
    refine .inl ⟨_, _, hr, ⟨intact, ⟨rfl, rfl, rfl, rfl⟩, keeps, ?_, ?_⟩, ?_⟩
    · refine upperBounds_evidence_of_known (ev ▸ isLUB_singleton) fun n => ?_
      exact known_append ⟨_, name, o.type, o.generator⟩ found n
    · simpa using keeps.mem_namedEdges_iff hg intact rfl
    · exact ⟨_, List.mem_append_right _ (List.mem_singleton_self _), rfl, rfl⟩
  · obtain ⟨hrow, rfl⟩ := (artifactNamed?_eq_some_iff hg.artifactNames).1 found
    have ev : g.evidence [⟨row.name, o⟩] row.name = {row.knowledge, o} := by
      ext κ
      simp [evidence, known, found, eq_comm]
    rcases exec_upsertArtifact_of_some hg found there with
      ⟨κ, hκ, hr⟩ | ⟨hκ, e, g', conflict, hr⟩
    · rw [hr] at intact
      have keeps : g.KeepsIds (g.learn row.id κ) := fun a ha =>
        ⟨_, mem_modifyArtifact.2 ⟨a, ha, rfl⟩, by split <;> rfl, by split <;> rfl⟩
      refine .inl ⟨_, _, hr, ⟨intact, ⟨rfl, rfl, rfl, rfl⟩, keeps, ?_, ?_⟩, ?_⟩
      · refine upperBounds_evidence_of_known (ev ▸ Knowledge.join?_eq_some hκ) fun n => ?_
        exact known_learn hg hrow κ n
      · simpa using keeps.mem_namedEdges_iff hg intact rfl
      · exact keeps.isRow ⟨row, hrow, rfl, rfl⟩
    · exact .inr ⟨e, g', hr, conflict, row.name, ev ▸ Knowledge.join?_eq_none hκ⟩

/-- An observation that is known already changes nothing. -/
theorem exec_upsertArtifact_of_le {name : String} {row : Artifact} {o : Knowledge} (hg : g.Intact)
    (found : g.artifactNamed? name = some row) (known : o ≤ row.knowledge) :
    (upsertArtifact name o.type o.generator).exec g = (.ok row.id, g) := by
  obtain ⟨hrow, -⟩ := (artifactNamed?_eq_some_iff hg.artifactNames).1 found
  have there : ∀ c ∈ o.generator, g.hasCommand c := by
    intro c hc
    rcases known.2 with none | same
    · rw [none] at hc
      cases hc
    · rw [same] at hc
      exact hg.generators row hrow c hc
  have join := Knowledge.join?_eq_left known
  rcases exec_upsertArtifact_of_some hg found there with ⟨κ, hκ, hr⟩ | ⟨hκ, -⟩
  · obtain rfl := Option.some.inj (join.symm.trans hκ)
    rw [hr]
    congr 1
    refine modifyArtifact_eq_self fun a ha e => ?_
    rw [List.inj_on_of_nodup_map hg.artifactIds_nodup ha hrow e]
    rfl
  · rw [join] at hκ
    cases hκ

/-! ## Edges -/

/-- One more edge between rows is one more link between their names. -/
theorem mem_namedEdges_of_edges (hg : g.Intact) (hg' : g'.Intact)
    (artifacts : g'.artifacts = g.artifacts) {x y : Artifact} (hx : x ∈ g.artifacts)
    (hy : y ∈ g.artifacts) (edges : ∀ e, e ∈ g'.edges ↔ e ∈ g.edges ∨ e = ⟨x.id, y.id⟩)
    (link : String × String) :
    link ∈ g'.namedEdges ↔ link ∈ g.namedEdges ∨ link ∈ [(x.name, y.name)] := by
  obtain ⟨a, b⟩ := link
  rw [mem_namedEdges hg, mem_namedEdges hg', artifacts, List.mem_singleton]
  constructor
  · rintro ⟨u, hu, v, hv, he, rfl, rfl⟩
    rcases (edges _).1 he with he | he
    · exact .inl ⟨u, hu, v, hv, he, rfl, rfl⟩
    · obtain ⟨hux, hvy⟩ := Edge.mk.inj he
      rw [List.inj_on_of_nodup_map hg.artifactIds_nodup hu hx hux,
        List.inj_on_of_nodup_map hg.artifactIds_nodup hv hy hvy]
      exact .inr rfl
  · rintro (⟨u, hu, v, hv, he, rfl, rfl⟩ | h)
    · exact ⟨u, hu, v, hv, (edges _).2 (.inl he), rfl, rfl⟩
    · obtain ⟨rfl, rfl⟩ := Prod.mk.inj h
      exact ⟨x, hx, y, hy, (edges _).2 (.inr rfl), rfl, rfl⟩

/-- Adding an edge between artifacts of different names takes in one link. -/
theorem records_addDependency {i j : Id} {a b : String} (hg : g.Intact) (hi : g.IsRow i a)
    (hj : g.IsRow j b) (differ : a ≠ b) :
    (addDependency i j).Records [] [(a, b)] g fun _ _ => True := by
  obtain ⟨x, hx, rfl, rfl⟩ := hi
  obtain ⟨y, hy, rfl, rfl⟩ := hj
  have ids : x.id ≠ y.id := fun e => differ <| by
    rw [List.inj_on_of_nodup_map hg.artifactIds_nodup hx hy e]
  have intact := keeps_addDependency x.id y.id g hg
  have hr := exec_addDependency x.id y.id g
  rw [if_neg ids, if_pos (And.intro (hasArtifact_iff.2 ⟨x, hx, rfl⟩)
    (hasArtifact_iff.2 ⟨y, hy, rfl⟩))] at hr
  have keeps : ∀ edges, g.KeepsIds { g with edges } := fun _ a ha => ⟨a, ha, rfl, rfl⟩
  split_ifs at hr with known <;> rw [hr] at intact <;>
    refine .inl ⟨_, _, hr, ⟨intact, ⟨rfl, rfl, rfl, rfl⟩, keeps _, fun _ => rfl, ?_⟩, trivial⟩
  · exact mem_namedEdges_of_edges hg intact rfl hx hy (by simp [known])
  · exact mem_namedEdges_of_edges hg intact rfl hx hy (by simp)

/-- A link that is there already changes nothing. -/
theorem exec_addDependency_of_linked {i j : Id} {a b : String} (hg : g.Intact) (hi : g.IsRow i a)
    (hj : g.IsRow j b) (linked : (a, b) ∈ g.namedEdges) :
    (addDependency i j).exec g = (.ok (), g) := by
  obtain ⟨x, hx, rfl, rfl⟩ := hi
  obtain ⟨y, hy, rfl, rfl⟩ := hj
  obtain ⟨u, hu, v, hv, he, hux, hvy⟩ := (mem_namedEdges hg).1 linked
  rw [List.inj_on_of_nodup_map hg.artifactNames hu hx hux,
    List.inj_on_of_nodup_map hg.artifactNames hv hy hvy] at he
  rw [exec_addDependency, if_neg (hg.noLoops _ he), if_pos he]

end Graph

end BuildAudit
