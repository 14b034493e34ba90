import Mathlib.Logic.Relation
import BuildAudit.Proofs.Integrity

/-!
# The history of rows

What an operation of a store can do to the rows of artifacts and of symbols, unless it takes back what a
transaction has written.  An artifact keeps its id and its name; its kind may be narrowed, and its
generator gained or lost, but never exchanged (`Operation.Turns`).  A symbol stays as it is.  The step is
`turnsRows_apply`, for failing operations too; that rows live on through all that follows is
`livesOn_of_advances`, and both together, for all stores that operations reach, are
`rows_of_operations`.
-/

namespace BuildAudit

open Update BuildAudit.Graph

/-- The rows of artifacts and symbols of `g` are there in `g'`, under the same ids and with the same
texts; kinds may have been narrowed. -/
structure Graph.LivesOn (g g' : Graph) : Prop where
  artifacts : ∀ a ∈ g.artifacts, ∃ b, g'.artifact? a.id = some b ∧ b.name = a.name ∧
    (b.type = a.type ∨ a.type = .library ∧ (b.type = .static ∨ b.type = .shared))
  symbols : g.symbols ⊆ g'.symbols

theorem Graph.LivesOn.refl {g : Graph} (hg : g.Intact) : g.LivesOn g where
  artifacts := fun a ha =>
    ⟨a, (artifact?_eq_some_iff hg.artifactIds_nodup).2 ⟨ha, rfl⟩, rfl, .inl rfl⟩
  symbols := List.Subset.refl _

theorem Graph.LivesOn.trans {g g' g'' : Graph} (h : g.LivesOn g') (h' : g'.LivesOn g'') :
    g.LivesOn g'' where
  artifacts := fun a ha => by
    obtain ⟨b, found, name, type⟩ := h.artifacts a ha
    have hb := List.mem_of_find?_eq_some found
    have id : b.id = a.id := by simpa using List.find?_some found
    obtain ⟨c, found', name', type'⟩ := h'.artifacts b hb
    refine ⟨c, id ▸ found', name'.trans name, ?_⟩
    -- a kind is narrowed once at most
    rcases type with same | ⟨unknown, narrowed⟩
    · rwa [same] at type'
    · rcases type' with same' | ⟨unknown', -⟩
      · exact .inr ⟨unknown, same' ▸ narrowed⟩
      · rw [unknown'] at narrowed
        exact absurd narrowed (by decide)
  symbols := List.Subset.trans h.symbols h'.symbols

namespace Store

/-! ## One operation -/

/-- Whether the operation takes back what the open transaction has written. -/
def Operation.Reverts (s : Store) : Operation → Prop
  | rollback => True
  | reopen => s.inTransaction
  | _ => False

/-- What an operation that leads to the graph `g` can make of the generator of an artifact. -/
inductive Operation.TurnsGenerator (g : Graph) : Operation → Option Id → Option Id → Prop
  | same (op : Operation) (c : Option Id) : TurnsGenerator g op c c
  /-- A stored command is gained, where there was none. -/
  | gained (name : String) (type : ArtifactType) {c : Id} (stored : g.hasCommand c) :
      TurnsGenerator g (.upsertArtifact name type (some c)) none (some c)
  | lost (c : Id) : TurnsGenerator g .truncateCommands (some c) none

/-- What an operation that leads to the graph `g` can make of the row of an artifact. -/
structure Operation.Turns (op : Operation) (g : Graph) (a b : Artifact) : Prop where
  id : b.id = a.id
  name : b.name = a.name
  type : b.type = a.type ∨ a.type = .library ∧ (b.type = .static ∨ b.type = .shared)
  generator : op.TurnsGenerator g a.generator b.generator

variable {s s' : Store} {g g' : Graph} {op : Operation}

theorem Operation.Turns.refl (op : Operation) (g : Graph) (a : Artifact) : op.Turns g a a :=
  ⟨rfl, rfl, .inl rfl, .same op a.generator⟩

/-- The rows of `g` after the operation, in the graph `g'` that it leads to. -/
structure Operation.TurnsRows (op : Operation) (g g' : Graph) : Prop where
  artifacts : ∀ a ∈ g.artifacts, ∃ b ∈ g'.artifacts, op.Turns g' a b
  symbols : g.symbols ⊆ g'.symbols

/-- Rows that are still there, as they were. -/
theorem Operation.TurnsRows.of_subset (artifacts : g.artifacts ⊆ g'.artifacts)
    (symbols : g.symbols ⊆ g'.symbols) : op.TurnsRows g g' where
  artifacts := fun a ha => ⟨a, artifacts ha, .refl op g' a⟩
  symbols := symbols

theorem Operation.TurnsRows.of_eq (artifacts : g'.artifacts = g.artifacts)
    (symbols : g'.symbols = g.symbols) : op.TurnsRows g g' :=
  .of_subset (by rw [artifacts]; exact fun _ h => h) (by rw [symbols]; exact fun _ h => h)

theorem turnsRows_truncateCommands (g : Graph) :
    Operation.truncateCommands.TurnsRows g (truncateCommands.exec g).2 := by
  rw [exec_truncateCommands]
  refine ⟨fun a ha => ⟨_, List.mem_map_of_mem ha, rfl, rfl, .inl rfl, ?_⟩, fun _ h => h⟩
  rcases a.generator with _ | c
  · exact .same _ none
  · rw [Option.filter_some]
    split
    · exact .same _ (some c)
    · exact .lost c

/-- Reconciling the kind of a row with an observed one may narrow it. -/
theorem turns_reconcileType (hg : g.Intact) {row : Artifact} (hrow : row ∈ g.artifacts)
    (type : ArtifactType) {a : Artifact} (ha : a ∈ g.artifacts) :
    ∃ b ∈ ((reconcileType row type).exec g).2.artifacts, b.id = a.id ∧ b.name = a.name ∧
      (b.type = a.type ∨ a.type = .library ∧ (b.type = .static ∨ b.type = .shared)) ∧
      b.generator = a.generator := by
  rw [exec_reconcileType]
  split_ifs with same narrower
  · exact ⟨a, ha, rfl, rfl, .inl rfl, rfl⟩
  · refine ⟨_, mem_modifyArtifact.2 ⟨a, ha, rfl⟩, ?_⟩
    by_cases own : a.id = row.id
    · obtain rfl := List.inj_on_of_nodup_map hg.artifactIds_nodup ha hrow own
      have unknown : a.type = .library ∧ (type = .static ∨ type = .shared) := by
        simpa [ArtifactType.refinesTo, same] using narrower
      rw [if_pos rfl]
      exact ⟨rfl, rfl, .inr unknown, rfl⟩
    · rw [if_neg own]
      exact ⟨rfl, rfl, .inl rfl, rfl⟩
  · exact ⟨a, ha, rfl, rfl, .inl rfl, rfl⟩
  · exact ⟨a, ha, rfl, rfl, .inl rfl, rfl⟩

/-- Reconciling the kind of a row leaves ids and generators alone. -/
theorem map_reconcileType (row : Artifact) (type : ArtifactType) (g : Graph) :
    (((reconcileType row type).exec g).2.artifacts.map fun a => (a.id, a.generator)) =
      g.artifacts.map fun a => (a.id, a.generator) := by
  rw [exec_reconcileType]
  split_ifs
  · rfl
  · exact map_modifyArtifact _ fun _ => rfl
  · rfl
  · rfl

/-- Reconciling the generator of a row with a requested one adds it, if there was none. -/
theorem turns_reconcileGenerator {row : Artifact}
    (hrow : ∀ a ∈ g.artifacts, a.id = row.id → a.generator = row.generator) (name : String)
    (type : ArtifactType) (generator : Option Id) {a : Artifact} (ha : a ∈ g.artifacts) :
    ∃ b ∈ ((reconcileGenerator row generator).exec g).2.artifacts, b.id = a.id ∧ b.name = a.name ∧
      b.type = a.type ∧ (Operation.upsertArtifact name type generator).TurnsGenerator
        ((reconcileGenerator row generator).exec g).2 a.generator b.generator := by
  rw [exec_reconcileGenerator]
  split
  · exact ⟨a, ha, rfl, rfl, rfl, .same _ _⟩
  · rename_i requested ungenerated
    split_ifs with there
    · refine ⟨_, mem_modifyArtifact.2 ⟨a, ha, rfl⟩, ?_⟩
      by_cases own : a.id = row.id
      · rw [if_pos own, hrow a ha own, ungenerated]
        exact ⟨rfl, rfl, rfl, .gained name type there⟩
      · rw [if_neg own]
        exact ⟨rfl, rfl, rfl, .same _ _⟩
    · exact ⟨a, ha, rfl, rfl, rfl, .same _ _⟩
  · exact ⟨a, ha, rfl, rfl, rfl, .same _ _⟩

theorem symbols_reconcileType (row : Artifact) (type : ArtifactType) (g : Graph) :
    ((reconcileType row type).exec g).2.symbols = g.symbols := by
  rw [exec_reconcileType]
  split_ifs <;> rfl

theorem symbols_reconcileGenerator (row : Artifact) (generator : Option Id) (g : Graph) :
    ((reconcileGenerator row generator).exec g).2.symbols = g.symbols := by
  rw [exec_reconcileGenerator]
  split
  · rfl
  · split_ifs <;> rfl
  · rfl

theorem turnsRows_upsertArtifact (hg : g.Intact) (name : String) (type : ArtifactType)
    (generator : Option Id) :
    (Operation.upsertArtifact name type generator).TurnsRows g
      ((upsertArtifact name type generator).exec g).2 := by
  unfold upsertArtifact
  rw [exec_bind_of_ok (exec_get g)]
  rcases found : g.artifactNamed? name with _ | row
  · show Operation.TurnsRows _ g ((insertArtifact name type generator).exec g).2
    rw [exec_insertArtifact]
    split
    · exact .of_subset (List.subset_append_left _ _) (List.Subset.refl _)
    · exact .of_subset (List.Subset.refl _) (List.Subset.refl _)
  · have hrow := ((artifactNamed?_eq_some_iff hg.artifactNames).1 found).1
    have kind {a : Artifact} := turns_reconcileType hg hrow type (a := a)
    have rest := map_reconcileType row type g
    have symbols := symbols_reconcileType row type g
    show Operation.TurnsRows _ g ((reconcileType row type >>= fun _ =>
      reconcileGenerator row generator >>= fun _ => pure row.id : Update Id).exec g).2
    -- the kind may be narrowed already when the generator turns out to be in conflict
    rcases first : (reconcileType row type).exec g with ⟨e | _, g₁⟩ <;>
      rw [first] at rest symbols <;> simp only [first] at kind
    · rw [exec_bind_of_error first]
      refine ⟨fun a ha => ?_, symbols ▸ List.Subset.refl _⟩
      obtain ⟨b, hb, id, name, type, generator⟩ := kind ha
      exact ⟨b, hb, id, name, type, generator ▸ .same _ _⟩
    · have own : ∀ b ∈ g₁.artifacts, b.id = row.id → b.generator = row.generator := by
        intro b hb id
        have member : (b.id, b.generator) ∈ g.artifacts.map fun a => (a.id, a.generator) :=
          rest ▸ List.mem_map_of_mem hb
        obtain ⟨a, ha, same⟩ := List.mem_map.1 member
        obtain ⟨ids, generators⟩ := Prod.mk.inj same
        obtain rfl := List.inj_on_of_nodup_map hg.artifactIds_nodup ha hrow (ids.trans id)
        exact generators.symm
      have second {b : Artifact} := turns_reconcileGenerator own name type generator (a := b)
      have last : ((reconcileGenerator row generator >>= fun _ => pure row.id : Update Id).exec g₁).2 =
          ((reconcileGenerator row generator).exec g₁).2 := by
        rw [exec_bind]
        rcases (reconcileGenerator row generator).exec g₁ with ⟨_ | _, _⟩ <;> rfl
      rw [exec_bind_of_ok first, last]
      refine ⟨fun a ha => ?_, ?_⟩
      · obtain ⟨b, hb, id, name, type, generator⟩ := kind ha
        obtain ⟨c, hc, id', name', type', turns⟩ := second hb
        exact ⟨c, hc, id'.trans id, name'.trans name, type' ▸ type, generator ▸ turns⟩
      · rw [symbols_reconcileGenerator, symbols]
        exact List.Subset.refl _

/-- An operation that takes nothing back turns the rows of an intact graph into those after it. -/
theorem turnsRows_apply (h : s.Intact) (forward : ¬ op.Reverts s) :
    op.TurnsRows s.graph (s.apply op).graph := by
  cases op with
  | begin =>
    refine .of_eq ?_ ?_ <;> simp only [apply, begin] <;> cases s.saved <;> rfl
  | commit =>
    refine .of_eq ?_ ?_ <;> simp only [apply, commit] <;> cases s.saved <;> rfl
  | rollback => exact absurd trivial forward
  | reopen =>
    have closed : s.saved = none := by
      simpa [Operation.Reverts, inTransaction] using forward
    refine .of_eq ?_ ?_ <;> simp only [apply, reopened, closed] <;> rfl
  | insertCommand directory executable args =>
    show Operation.TurnsRows _ s.graph ((Graph.insertCommand directory executable args).exec s.graph).2
    rw [exec_insertCommand]
    split <;> exact .of_eq rfl rfl
  | truncateCommands => exact turnsRows_truncateCommands s.graph
  | upsertArtifact name type generator => exact turnsRows_upsertArtifact h.graph name type generator
  | addDependency dependee dependency =>
    show Operation.TurnsRows _ s.graph ((Graph.addDependency dependee dependency).exec s.graph).2
    rw [exec_addDependency]
    split_ifs <;> exact .of_eq rfl rfl
  | removeDependency dependee dependency =>
    show Operation.TurnsRows _ s.graph ((Graph.removeDependency dependee dependency).exec s.graph).2
    rw [exec_removeDependency]
    exact .of_eq rfl rfl
  | symbolId name demangled =>
    show Operation.TurnsRows _ s.graph ((Graph.symbolId name demangled).exec s.graph).2
    rw [exec_symbolId]
    split
    · exact .of_eq rfl rfl
    · exact .of_subset (List.Subset.refl _) (List.subset_append_left _ _)
  | addReference r =>
    show Operation.TurnsRows _ s.graph ((Graph.addReference r).exec s.graph).2
    rw [exec_addReference]
    split_ifs <;> exact .of_eq rfl rfl
  | deleteReferences artifact =>
    show Operation.TurnsRows _ s.graph ((Graph.deleteReferences artifact).exec s.graph).2
    rw [exec_deleteReferences]
    exact .of_eq rfl rfl
  | clearReferences =>
    show Operation.TurnsRows _ s.graph (Graph.clearReferences.exec s.graph).2
    rw [exec_clearReferences]
    exact .of_eq rfl rfl
  | setPhaseTime p time => exact .of_eq rfl rfl

/-- After one operation that takes nothing back, the row of an artifact is found under its id. -/
theorem exists_row_of_apply (h : s.Intact) (forward : ¬ op.Reverts s) {a : Artifact}
    (ha : a ∈ s.graph.artifacts) :
    ∃ b, (s.apply op).graph.artifact? a.id = some b ∧ op.Turns (s.apply op).graph a b := by
  obtain ⟨b, hb, turns⟩ := (turnsRows_apply h forward).artifacts a ha
  have ids := (intact_apply h op).graph.artifactIds_nodup
  exact ⟨b, (artifact?_eq_some_iff ids).2 ⟨hb, turns.id⟩, turns⟩

/-! ## Many operations -/

/-- One operation that takes nothing back leads from the first store to the second. -/
def Advances (s s' : Store) : Prop := ∃ op : Operation, ¬ op.Reverts s ∧ s.apply op = s'

/-- Rows live on while nothing is taken back. -/
theorem livesOn_of_advances (h : s.Intact) (steps : Relation.ReflTransGen Advances s s') :
    s'.Intact ∧ s.graph.LivesOn s'.graph := by
  induction steps with
  | refl => exact ⟨h, .refl h.graph⟩
  | tail _ step ih =>
    obtain ⟨intact, before⟩ := ih
    obtain ⟨op, forward, rfl⟩ := step
    refine ⟨intact_apply intact op, before.trans ⟨fun a ha => ?_, ?_⟩⟩
    · obtain ⟨b, found, turns⟩ := exists_row_of_apply intact forward ha
      exact ⟨b, found, turns.name, turns.type⟩
    · exact (turnsRows_apply intact forward).symbols

/-- What operations do to rows, in a store that they have reached from an empty one.  After one operation
that takes nothing back, succeed or fail, every artifact has its row under its id, with its name; its
kind may have been narrowed from an unknown library, its generator gained by an upsert of a stored
command or lost when commands are removed, but not exchanged.  Every symbol has its row as before.  And
no row disappears however many operations follow. -/
theorem rows_of_operations (ops : List Operation) :
    (∀ op : Operation, ¬ op.Reverts (empty.applyAll ops) →
      (∀ a ∈ (empty.applyAll ops).graph.artifacts,
        ∃ b, ((empty.applyAll ops).apply op).graph.artifact? a.id = some b ∧
          op.Turns ((empty.applyAll ops).apply op).graph a b) ∧
      (empty.applyAll ops).graph.symbols ⊆ ((empty.applyAll ops).apply op).graph.symbols) ∧
    ∀ s, Relation.ReflTransGen Advances (empty.applyAll ops) s →
      (empty.applyAll ops).graph.LivesOn s.graph := by
  have intact : (empty.applyAll ops).Intact := intact_applyAll intact_empty ops
  refine ⟨fun op forward => ⟨fun a => exists_row_of_apply intact forward, ?_⟩, fun s steps => ?_⟩
  · exact (turnsRows_apply intact forward).symbols
  · exact (livesOn_of_advances intact steps).2

/-- Two commands, and a library that is known as the output of the first one. -/
def claimedLibrary : List Operation :=
  [.insertCommand "/w" "gcc" "-o libz x.o", .insertCommand "/w" "gcc" "-o libz y.o",
    .upsertArtifact "/w/libz" .library (some 1)]

/-- An upsert that fails because the library has another generator has narrowed its kind before. -/
theorem rows_of_failed_upsert :
    ∃ b, ((empty.applyAll claimedLibrary).apply
        (.upsertArtifact "/w/libz" .shared (some 2))).graph.artifact? 1 = some b ∧
      b.name = "/w/libz" ∧ b.type = .shared ∧ b.generator = some 1 := by
  obtain ⟨b, found, turns⟩ := ((rows_of_operations claimedLibrary).1
    (.upsertArtifact "/w/libz" .shared (some 2)) id).1 ⟨1, "/w/libz", .library, some 1⟩ (by decide)
  have row : ((empty.applyAll claimedLibrary).apply
      (.upsertArtifact "/w/libz" .shared (some 2))).graph.artifact? 1 =
        some ⟨1, "/w/libz", .shared, some 1⟩ := by decide
  obtain rfl := Option.some.inj (found.symm.trans row)
  exact ⟨_, row, turns.name, rfl, rfl⟩

end Store

end BuildAudit
