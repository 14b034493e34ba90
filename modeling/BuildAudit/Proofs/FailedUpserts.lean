import BuildAudit.Proofs.Recording

/-!
# Upserts that fail

An upsert fails for one of three reasons (`Graph.Rejects`): the kinds disagree, another generator is known,
or the generator is no stored command.  The kind is reconciled before the generator is looked at.  So a
failed upsert has narrowed the kind of a library, if a definite kind was requested, and has changed
nothing otherwise (`failed_upsert_exact`).  What it has changed is undone where the transaction around it
is rolled back.
-/

namespace BuildAudit

open Update

variable {g g' : Graph} {name : String} {type : ArtifactType} {generator : Option Id} {e : StoreError}

/-! ## Reasons -/

/-- What is known of the generator of the artifact with this name stands against the requested one. -/
inductive Graph.Refuses (g : Graph) (name : String) : Option Id → Option Id → StoreError → Prop
  | rival {existing requested : Id} (differ : existing ≠ requested) :
      Refuses g name (some existing) (some requested) (.generatorConflict name existing requested)
  | unknown {requested : Id} (missing : ¬ g.hasCommand requested) :
      Refuses g name none (some requested) .foreignKey

/-- Why an upsert fails. -/
inductive Graph.Rejects (g : Graph) (name : String) (type : ArtifactType) (generator : Option Id) :
    StoreError → Prop
  /-- Neither of the kinds is a narrower one than the other. -/
  | kind {row : Artifact} (hrow : row ∈ g.artifacts) (named : row.name = name)
      (disagree : ¬ (row.type.refinesTo type ∨ type.refinesTo row.type)) :
      Rejects g name type generator (.typeConflict name row.type type)
  | generator {row : Artifact} {e : StoreError} (hrow : row ∈ g.artifacts) (named : row.name = name)
      (agree : row.type.refinesTo type ∨ type.refinesTo row.type)
      (refuses : g.Refuses name row.generator generator e) : Rejects g name type generator e
  /-- There is no artifact with this name, and it cannot be made with this generator. -/
  | new {e : StoreError} (new : name ∉ g.artifacts.map (·.name)) (refuses : g.Refuses name none generator e) :
      Rejects g name type generator e

namespace Graph

theorem not_refuses_none (known : Option Id) : ¬ g.Refuses name known none e := nofun

theorem refuses_unknown_iff {requested : Id} :
    g.Refuses name none (some requested) e ↔ ¬ g.hasCommand requested ∧ e = .foreignKey := by
  constructor
  · rintro ⟨⟩
    exact ⟨‹_›, rfl⟩
  · rintro ⟨missing, rfl⟩
    exact .unknown missing

theorem refuses_rival_iff {existing requested : Id} :
    g.Refuses name (some existing) (some requested) e ↔
      existing ≠ requested ∧ e = .generatorConflict name existing requested := by
  constructor
  · rintro ⟨⟩
    exact ⟨‹_›, rfl⟩
  · rintro ⟨differ, rfl⟩
    exact .rival differ

end Graph

/-! ## Narrowing -/

/-- The graph in which the artifact with this name has the requested kind, if that is a narrower one. -/
def Graph.narrow (g : Graph) (name : String) (type : ArtifactType) : Graph :=
  { g with artifacts := g.artifacts.map fun a =>
      if a.name = name ∧ a.type.refinesTo type then { a with type } else a }

namespace Graph

theorem narrow_eq_self (h : ∀ a ∈ g.artifacts, a.name = name → a.type.refinesTo type → a.type = type) :
    g.narrow name type = g := by
  have rows : (g.narrow name type).artifacts = g.artifacts := by
    refine (List.map_congr_left fun a ha => ?_).trans (List.map_id _)
    split_ifs with narrows
    · exact congrArg (fun type => { a with type }) (h a ha narrows.1 narrows.2).symm
    · rfl
  exact congrArg (fun artifacts => { g with artifacts }) rows

/-- Narrowing is a change exactly for a library of unknown kind. -/
theorem narrow_eq_self_iff :
    g.narrow name type = g ↔
      ¬ ∃ row ∈ g.artifacts, row.name = name ∧ row.type = .library ∧ (type = .static ∨ type = .shared) := by
  constructor
  · rintro same ⟨row, hrow, named, unknown, definite⟩
    have narrows : row.type.refinesTo type := by
      rcases definite with rfl | rfl <;> rw [unknown] <;> rfl
    have rows : (g.artifacts.map fun a =>
        if a.name = name ∧ a.type.refinesTo type then { a with type } else a) = g.artifacts.map id :=
      (congrArg Graph.artifacts same).trans (List.map_id _).symm
    have kinds := congrArg Artifact.type (List.map_inj_left.1 rows row hrow)
    rw [if_pos ⟨named, narrows⟩, id, unknown] at kinds
    rcases definite with rfl | rfl <;> cases kinds
  · intro known
    refine narrow_eq_self fun a ha named narrows => ?_
    simp only [ArtifactType.refinesTo, Bool.or_eq_true, Bool.and_eq_true, beq_iff_eq] at narrows
    exact narrows.resolve_right fun library => known ⟨a, ha, named, library⟩

/-! ## The two parts of an upsert -/

/-- There is only one artifact with a name. -/
theorem Intact.eq_of_name (hg : g.Intact) {a b : Artifact} (ha : a ∈ g.artifacts) (hb : b ∈ g.artifacts)
    (name : a.name = b.name) : a = b :=
  List.inj_on_of_nodup_map hg.artifactNames ha hb name

/-- Reconciling the kind narrows it, or leaves the graph as it is where the kinds disagree. -/
theorem exec_reconcileType_narrow (hg : g.Intact) {row : Artifact} (hrow : row ∈ g.artifacts)
    (type : ArtifactType) :
    (reconcileType row type).exec g =
      if row.type.refinesTo type ∨ type.refinesTo row.type then (.ok (), g.narrow row.name type)
      else (.error (.typeConflict row.name row.type type), g) := by
  rw [exec_reconcileType]
  by_cases same : row.type = type
  · have refines : row.type.refinesTo type := by simp [ArtifactType.refinesTo, same]
    rw [if_pos same, if_pos (.inl refines), narrow_eq_self]
    exact fun a ha named _ => hg.eq_of_name ha hrow named ▸ same
  have vaguer := ArtifactType.refinesTo_iff_of_ne (Ne.symm same)
  rw [if_neg same]
  by_cases narrower : row.type.refinesTo type
  · rw [if_pos narrower, if_pos (.inl narrower)]
    refine congrArg (Prod.mk (Except.ok ())) (congrArg (fun artifacts => { g with artifacts }) ?_)
    -- the row is looked for by its id and here by its name, which is the same for intact rows
    refine List.map_congr_left fun a ha => ?_
    by_cases own : a = row
    · simp [own, narrower]
    · have otherId : a.id ≠ row.id := fun id =>
        own (List.inj_on_of_nodup_map hg.artifactIds_nodup ha hrow id)
      have otherName : a.name ≠ row.name := fun named => own (hg.eq_of_name ha hrow named)
      simp [otherId, otherName]
  · rw [if_neg narrower]
    by_cases wider : type.refinesTo row.type
    · rw [if_pos (vaguer.1 wider), if_pos (.inr wider), narrow_eq_self]
      exact fun a ha named refines => absurd (hg.eq_of_name ha hrow named ▸ refines) narrower
    · rw [if_neg (mt vaguer.2 wider), if_neg (not_or.2 ⟨narrower, wider⟩)]

/-- An update that ends with a result fails where it fails without. -/
theorem exec_bind_pure_eq_error_iff {α β : Type} {u : Update α} {b : β} :
    (u >>= fun _ => pure b : Update β).exec g = (.error e, g') ↔ u.exec g = (.error e, g') := by
  rw [exec_bind]
  rcases u.exec g with ⟨_ | _, _⟩ <;> simp

/-- Reconciling the generator fails where it is refused, and then changes nothing. -/
theorem exec_reconcileGenerator_eq_error_iff {row : Artifact} :
    (reconcileGenerator row generator).exec g = (.error e, g') ↔
      g.Refuses row.name row.generator generator e ∧ g' = g := by
  rw [exec_reconcileGenerator]
  rcases row.generator with _ | existing <;> rcases generator with _ | requested
  · simp [not_refuses_none]
  · by_cases stored : g.hasCommand requested <;> simp [refuses_unknown_iff, stored, eq_comm]
  · simp [not_refuses_none]
  · by_cases same : existing = requested <;> simp [refuses_rival_iff, same, eq_comm]

/-- Making an artifact fails where its generator is no stored command, and then changes nothing. -/
theorem exec_insertArtifact_eq_error_iff :
    (insertArtifact name type generator).exec g = (.error e, g') ↔
      g.Refuses name none generator e ∧ g' = g := by
  rw [exec_insertArtifact]
  rcases generator with _ | requested
  · simp [not_refuses_none]
  · by_cases stored : g.hasCommand requested <;> simp [refuses_unknown_iff, stored, eq_comm]

/-- The second part of an upsert fails in the graph that the first part leaves. -/
theorem exec_upsertArtifact_row (hg : g.Intact) {row : Artifact} (hrow : row ∈ g.artifacts)
    (type : ArtifactType) (generator : Option Id) :
    (upsertArtifact row.name type generator).exec g =
      if row.type.refinesTo type ∨ type.refinesTo row.type then
        (reconcileGenerator row generator >>= fun _ => pure row.id : Update Id).exec (g.narrow row.name type)
      else (.error (.typeConflict row.name row.type type), g) := by
  have found : g.artifactNamed? row.name = some row :=
    (artifactNamed?_eq_some_iff hg.artifactNames).2 ⟨hrow, rfl⟩
  have first := exec_reconcileType_narrow hg hrow type
  unfold upsertArtifact
  rw [exec_bind_of_ok (exec_get g), found]
  split_ifs at first ⊢ with agree
  · exact exec_bind_of_ok first
  · exact exec_bind_of_error first

/-! ## Failures -/

theorem refuses_narrow_iff {known : Option Id} :
    (g.narrow name type).Refuses name known generator e ↔ g.Refuses name known generator e := by
  rcases generator with _ | requested
  · exact iff_of_false (not_refuses_none known) (not_refuses_none known)
  · rcases known with _ | existing
    · rw [refuses_unknown_iff, refuses_unknown_iff]
      rfl
    · rw [refuses_rival_iff, refuses_rival_iff]

theorem rejects_row_iff (hg : g.Intact) {row : Artifact} (hrow : row ∈ g.artifacts) :
    g.Rejects row.name type generator e ↔
      if row.type.refinesTo type ∨ type.refinesTo row.type then
        g.Refuses row.name row.generator generator e
      else e = .typeConflict row.name row.type type := by
  constructor
  · rintro (⟨ha, named, disagree⟩ | ⟨ha, named, agree, refuses⟩ | ⟨new, -⟩)
    · obtain rfl := hg.eq_of_name ha hrow named
      rw [if_neg disagree]
    · obtain rfl := hg.eq_of_name ha hrow named
      rwa [if_pos agree]
    · exact absurd (List.mem_map_of_mem hrow) new
  · split_ifs with agree
    · exact .generator hrow rfl agree
    · rintro rfl
      exact .kind hrow rfl agree

theorem rejects_new_iff (missing : name ∉ g.artifacts.map (·.name)) :
    g.Rejects name type generator e ↔ g.Refuses name none generator e := by
  constructor
  · rintro (⟨hrow, rfl, -⟩ | ⟨hrow, rfl, -, -⟩ | ⟨-, refuses⟩)
    · exact absurd (List.mem_map_of_mem hrow) missing
    · exact absurd (List.mem_map_of_mem hrow) missing
    · exact refuses
  · exact .new missing

/-- An upsert fails for one of the reasons, and what it has written until then is the narrowed kind. -/
theorem exec_upsertArtifact_eq_error_iff (hg : g.Intact) :
    (upsertArtifact name type generator).exec g = (.error e, g') ↔
      g.Rejects name type generator e ∧ g' = g.narrow name type := by
  by_cases there : ∃ row ∈ g.artifacts, row.name = name
  · obtain ⟨row, hrow, rfl⟩ := there
    rw [exec_upsertArtifact_row hg hrow, rejects_row_iff hg hrow]
    split_ifs with agree
    · rw [exec_bind_pure_eq_error_iff, exec_reconcileGenerator_eq_error_iff, refuses_narrow_iff]
    · have kept : g.narrow row.name type = g := narrow_eq_self fun a ha named narrows => by
        obtain rfl := hg.eq_of_name ha hrow named
        exact absurd (.inl narrows) agree
      rw [kept]
      simp [eq_comm]
  · have missing : name ∉ g.artifacts.map (·.name) := by simpa using there
    have kept : g.narrow name type = g := narrow_eq_self fun a ha named _ =>
      absurd ⟨a, ha, named⟩ there
    have new := artifactNamed?_eq_none_iff.2 missing
    have made : (upsertArtifact name type generator).exec g =
        (insertArtifact name type generator).exec g := by
      unfold upsertArtifact
      rw [exec_bind_of_ok (exec_get g), new]
    rw [made, exec_insertArtifact_eq_error_iff, kept, rejects_new_iff missing]

end Graph

namespace Store

open BuildAudit.Graph

/-- When an upsert fails, and what it leaves behind then, in a store whose rows fit together.  It fails
exactly for the reasons that `Rejects` names.  A failed upsert leaves the store with the kind of the
artifact narrowed and all else as before.  That is no change at all, unless the artifact is a library of
unknown kind and a definite kind was requested.  A rollback leads back to where it would have led. -/
theorem failed_upsert_exact {s : Store} (hs : s.Intact) (name : String) (type : ArtifactType)
    (generator : Option Id) :
    (∀ e, (∃ s', s.run (upsertArtifact name type generator) = (.error e, s')) ↔
      s.graph.Rejects name type generator e) ∧
    ∀ e s', s.run (upsertArtifact name type generator) = (.error e, s') →
      s' = { s with graph := s.graph.narrow name type } ∧
      (s' = s ↔ ¬ ∃ row ∈ s.graph.artifacts,
        row.name = name ∧ row.type = .library ∧ (type = .static ∨ type = .shared)) ∧
      s'.rollback = s.rollback := by
  have fails {e : StoreError} {s' : Store} :
      s.run (upsertArtifact name type generator) = (.error e, s') ↔
        s.graph.Rejects name type generator e ∧ s' = { s with graph := s.graph.narrow name type } := by
    have ran : s.run (upsertArtifact name type generator) =
        (((upsertArtifact name type generator).exec s.graph).1,
          { s with graph := ((upsertArtifact name type generator).exec s.graph).2 }) := rfl
    rw [ran, Prod.mk.injEq]
    constructor
    · rintro ⟨failed, rfl⟩
      obtain ⟨rejects, left⟩ := (exec_upsertArtifact_eq_error_iff hs.graph).1 (Prod.ext failed rfl)
      exact ⟨rejects, congrArg (fun graph => { s with graph }) left⟩
    · rintro ⟨rejects, rfl⟩
      rw [(exec_upsertArtifact_eq_error_iff hs.graph).2 ⟨rejects, rfl⟩]
      exact ⟨rfl, rfl⟩
  refine ⟨fun e => ?_, fun e s' failed => ?_⟩
  · constructor
    · rintro ⟨s', failed⟩
      exact (fails.1 failed).1
    · exact fun rejects => ⟨_, fails.2 ⟨rejects, rfl⟩⟩
  · obtain ⟨-, rfl⟩ := fails.1 failed
    refine ⟨rfl, ?_, rfl⟩
    rw [← narrow_eq_self_iff]
    exact ⟨congrArg Store.graph, fun same => by rw [same]⟩

/-- Two commands, and a library of unknown kind that the first one writes. -/
def disputed : List Operation :=
  [.insertCommand "/w" "gcc" "-o libz x.o", .insertCommand "/w" "gcc" "-o libz y.o",
    .upsertArtifact "/w/libz" .library (some 1)]

/-- The second command cannot be the generator of the library too.  Asked for a shared library, the failed
upsert has narrowed the kind; asked for a program, it has not changed anything. -/
theorem failed_upsert_exact_disputed :
    (empty.applyAll disputed).Intact ∧
    (∃ s', (empty.applyAll disputed).run (upsertArtifact "/w/libz" .shared (some 2)) =
        (.error (.generatorConflict "/w/libz" 1 2), s') ∧
      s'.graph.artifacts = [⟨1, "/w/libz", .shared, some 1⟩] ∧ s' ≠ empty.applyAll disputed) ∧
    ∃ s', (empty.applyAll disputed).run (upsertArtifact "/w/libz" .executable (some 2)) =
        (.error (.typeConflict "/w/libz" .library .executable), s') ∧ s' = empty.applyAll disputed := by
  have intact : (empty.applyAll disputed).Intact := intact_applyAll_empty disputed
  have library : ⟨1, "/w/libz", .library, some 1⟩ ∈ (empty.applyAll disputed).graph.artifacts := by decide
  refine ⟨intact, ?_, ?_⟩
  · have exact := failed_upsert_exact intact "/w/libz" .shared (some 2)
    obtain ⟨s', failed⟩ := (exact.1 (.generatorConflict "/w/libz" 1 2)).2
      (.generator library rfl (.inl rfl) (.rival (by decide)))
    obtain ⟨left, changed, -⟩ := exact.2 _ s' failed
    refine ⟨s', failed, by rw [left]; decide, fun same => ?_⟩
    exact changed.1 same ⟨_, library, rfl, rfl, .inr rfl⟩
  · have exact := failed_upsert_exact intact "/w/libz" .executable (some 2)
    obtain ⟨s', failed⟩ := (exact.1 (.typeConflict "/w/libz" .library .executable)).2
      (.kind library rfl (by decide))
    refine ⟨s', failed, (exact.2 _ s' failed).2.1.2 ?_⟩
    rintro ⟨-, -, -, -, definite⟩
    exact absurd definite (by decide)

/-- Failed upserts are not without effect: a library that has a generator has got another kind by the
upsert that was to give it another one. -/
theorem failed_upsert_changes :
    ¬ ∀ ops name type generator e s',
      (empty.applyAll ops).run (upsertArtifact name type generator) = (.error e, s') →
        s' = empty.applyAll ops := by
  intro unchanged
  have same := unchanged disputed "/w/libz" .shared (some 2) (.generatorConflict "/w/libz" 1 2) _ rfl
  exact absurd same (by decide)

end Store

end BuildAudit
