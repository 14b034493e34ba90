import BuildAudit.Graph.Update

/-!
# Running updates

`Update.exec u g` is the result of the update `u` on the graph `g` and the graph that it leaves.
This file computes it for the pieces that updates are made of, and then for the statements of
`BuildAudit.Graph.Update` (`exec_insertCommand`, …), so that later files never open the monad.
`Update.Keeps P u` says that `u` preserves `P`, whether it succeeds or fails.
-/

namespace BuildAudit

variable {α β γ : Type}

/-- Work that may fail goes on with the state that has been reached. -/
theorem run_bind_state {ε σ : Type} (u : ExceptT ε (StateM σ) α) (f : α → ExceptT ε (StateM σ) β)
    (s : σ) :
    ExceptT.run (u >>= f) s =
      match ExceptT.run u s with
      | (.ok a, s) => ExceptT.run (f a) s
      | (.error e, s) => (.error e, s) := by
  show (match u s with | _ => _ : _ × _) = _
  simp only [ExceptT.run, bind, ExceptT.bind, ExceptT.mk, StateT.bind]
  rcases u s with ⟨_ | _, _⟩ <;> rfl

/-- The result of an update and the graph that it leaves. -/
def Update.exec (u : Update α) (g : Graph) : Except StoreError α × Graph := ExceptT.run u g

/-- The update preserves `P`, also when it fails. -/
def Update.Keeps (P : Graph → Prop) (u : Update α) : Prop := ∀ g, P g → P (u.exec g).2

namespace Update

/-! ## The pieces of updates -/

@[simp]
theorem exec_pure (a : α) (g : Graph) : (pure a : Update α).exec g = (.ok a, g) := rfl

@[simp]
theorem exec_throw (e : StoreError) (g : Graph) : (throw e : Update α).exec g = (.error e, g) :=
  rfl

@[simp]
theorem exec_get (g : Graph) : (get : Update Graph).exec g = (.ok g, g) := rfl

@[simp]
theorem exec_modify (f : Graph → Graph) (g : Graph) :
    (modify f : Update Unit).exec g = (.ok (), f g) := rfl

@[simp]
theorem exec_bind (u : Update α) (f : α → Update β) (g : Graph) :
    (u >>= f).exec g =
      match u.exec g with
      | (.ok a, g) => (f a).exec g
      | (.error e, g) => (.error e, g) := by
  unfold exec
  rw [run_bind_state]
  rcases ExceptT.run u g with ⟨_ | _, _⟩ <;> rfl

@[simp]
theorem exec_map (f : α → β) (u : Update α) (g : Graph) :
    (f <$> u).exec g =
      match u.exec g with
      | (.ok a, g) => (.ok (f a), g)
      | (.error e, g) => (.error e, g) := by
  rw [← bind_pure_comp, exec_bind]
  rfl

@[simp]
theorem exec_ite (p : Prop) [Decidable p] (u v : Update α) (g : Graph) :
    (if p then u else v).exec g = if p then u.exec g else v.exec g := by
  split <;> rfl

@[simp]
theorem exec_ofExcept (r : Except StoreError α) (g : Graph) :
    (ofExcept r : Update α).exec g = (r, g) := by
  cases r <;> rfl

theorem exec_bind_of_ok {u : Update α} {f : α → Update β} {g g' : Graph} {a : α}
    (h : u.exec g = (.ok a, g')) : (u >>= f).exec g = (f a).exec g' := by
  rw [exec_bind, h]

theorem exec_bind_of_error {u : Update α} {f : α → Update β} {g g' : Graph} {e : StoreError}
    (h : u.exec g = (.error e, g')) : (u >>= f).exec g = (.error e, g') := by
  rw [exec_bind, h]

/-- An update in two parts succeeds if the first part does, and then the second one. -/
theorem exec_bind_eq_ok {u : Update α} {f : α → Update β} {g g' : Graph} {b : β}
    (h : (u >>= f).exec g = (.ok b, g')) :
    ∃ a g₁, u.exec g = (.ok a, g₁) ∧ (f a).exec g₁ = (.ok b, g') := by
  rw [exec_bind] at h
  rcases hr : u.exec g with ⟨e | a, g₁⟩ <;> rw [hr] at h
  · cases h
  · exact ⟨a, g₁, rfl, h⟩

/-- A loop of rounds that change nothing changes nothing. -/
theorem exec_forM_of_unchanged {f : α → Update PUnit} {g : Graph} {as : List α}
    (h : ∀ a ∈ as, (f a).exec g = (.ok (), g)) : (as.forM f).exec g = (.ok (), g) := by
  induction as with
  | nil => rfl
  | cons a as ih =>
    refine (exec_bind_of_ok (h a List.mem_cons_self)).trans ?_
    exact ih fun b hb => h b (List.mem_cons_of_mem a hb)

theorem exec_foldlM_of_unchanged {f : β → α → Update β} {g : Graph} {as : List α}
    (h : ∀ a ∈ as, ∀ b, ∃ b', (f b a).exec g = (.ok b', g)) (b : β) :
    ∃ b', (as.foldlM f b).exec g = (.ok b', g) := by
  induction as generalizing b with
  | nil => exact ⟨b, rfl⟩
  | cons a as ih =>
    obtain ⟨b', hr⟩ := h a List.mem_cons_self b
    obtain ⟨b'', hr'⟩ := ih (fun c hc => h c (List.mem_cons_of_mem a hc)) b'
    exact ⟨b'', by rw [List.foldlM_cons, exec_bind_of_ok hr, hr']⟩

/-! ## What updates keep -/

variable {P : Graph → Prop}

theorem keeps_pure (a : α) : Keeps P (pure a : Update α) := fun _ h => h

theorem Keeps.bind {u : Update α} {f : α → Update β} (hu : Keeps P u) (hf : ∀ a, Keeps P (f a)) :
    Keeps P (u >>= f) := by
  intro g hg
  have h := hu g hg
  rw [exec_bind]
  rcases hr : u.exec g with ⟨_ | a, g'⟩ <;> rw [hr] at h
  · exact h
  · exact hf a g' h

theorem Keeps.foldlM {f : β → α → Update β} (hf : ∀ b a, Keeps P (f b a)) (as : List α) (b : β) :
    Keeps P (as.foldlM f b) := by
  induction as generalizing b with
  | nil => exact keeps_pure b
  | cons a as ih =>
    rw [List.foldlM_cons]
    exact (hf b a).bind fun b => ih b

end Update

namespace Graph

open Update

/-! ## Statements -/

theorem exec_insertCommand (directory executable args : String) (g : Graph) :
    (insertCommand directory executable args).exec g =
      match g.commandOf? directory executable args with
      | some row => (.ok (row.id, false), g)
      | none =>
        let id := nextId (g.commands.map (·.id))
        (.ok (id, true), { g with commands := g.commands ++ [⟨id, directory, executable, args⟩] }) := by
  unfold insertCommand
  rw [exec_bind, exec_get]
  rcases h : g.commandOf? directory executable args <;> simp [h]

theorem exec_truncateCommands (g : Graph) :
    truncateCommands.exec g = (.ok g.commands.length, { g with
      commands := []
      artifacts := g.artifacts.map fun a =>
        { a with generator := a.generator.filter (!g.hasCommand ·) } }) := by
  simp [truncateCommands]

theorem exec_requireCommand (id : Id) (g : Graph) :
    (requireCommand id).exec g = (if g.hasCommand id then .ok () else .error .foreignKey, g) := by
  unfold requireCommand
  rcases h : g.hasCommand id <;> simp [h]

theorem exec_insertArtifact (name : String) (type : ArtifactType) (generator : Option Id)
    (g : Graph) :
    (insertArtifact name type generator).exec g =
      if generator.all g.hasCommand then
        let id := nextId (g.artifacts.map (·.id))
        (.ok id, { g with artifacts := g.artifacts ++ [⟨id, name, type, generator⟩] })
      else (.error .foreignKey, g) := by
  unfold insertArtifact
  rcases generator with _ | command
  · simp
  · rcases h : g.hasCommand command <;> simp [exec_requireCommand, h]

theorem exec_reconcileType (row : Artifact) (type : ArtifactType) (g : Graph) :
    (reconcileType row type).exec g =
      if row.type = type then (.ok (), g)
      else if row.type.refinesTo type then (.ok (), g.modifyArtifact row.id ({ · with type }))
      else if type = .library ∧ row.type.isLibrary then (.ok (), g)
      else (.error (.typeConflict row.name row.type type), g) := by
  unfold reconcileType
  by_cases same : row.type = type
  · simp [same]
  by_cases narrower : row.type.refinesTo type
  · simp [same, narrower]
  by_cases vaguer : type = .library ∧ row.type.isLibrary <;> simp [same, narrower, vaguer]

theorem exec_reconcileGenerator (row : Artifact) (generator : Option Id) (g : Graph) :
    (reconcileGenerator row generator).exec g =
      match row.generator, generator with
      | some existing, some requested =>
        (if existing = requested then .ok ()
          else .error (.generatorConflict row.name existing requested), g)
      | none, some requested =>
        if g.hasCommand requested then
          (.ok (), g.modifyArtifact row.id ({ · with generator := some requested }))
        else (.error .foreignKey, g)
      | _, none => (.ok (), g) := by
  unfold reconcileGenerator
  rcases row.generator with _ | existing <;> rcases generator with _ | requested
  · rfl
  · rcases h : g.hasCommand requested <;> simp [exec_requireCommand, h]
  · rfl
  · by_cases h : existing = requested <;> simp [h]

theorem exec_addDependency (dependee dependency : Id) (g : Graph) :
    (addDependency dependee dependency).exec g =
      if dependee = dependency then (.error (.selfDependency dependee), g)
      else if ⟨dependee, dependency⟩ ∈ g.edges then (.ok (), g)
      else if g.hasArtifact dependee ∧ g.hasArtifact dependency then
        (.ok (), { g with edges := g.edges ++ [⟨dependee, dependency⟩] })
      else (.error .foreignKey, g) := by
  unfold addDependency
  by_cases loop : dependee = dependency
  · simp [loop]
  by_cases known : ⟨dependee, dependency⟩ ∈ g.edges
  · simp [loop, known]
  by_cases ends : g.hasArtifact dependee ∧ g.hasArtifact dependency <;> simp [loop, known, ends]

theorem exec_removeDependency (dependee dependency : Id) (g : Graph) :
    (removeDependency dependee dependency).exec g = (.ok (g.edges.contains ⟨dependee, dependency⟩),
      { g with edges := g.edges.filter (· ≠ ⟨dependee, dependency⟩) }) := by
  simp [removeDependency]

theorem exec_symbolId (name demangled : String) (g : Graph) :
    (symbolId name demangled).exec g =
      match g.symbolNamed? name with
      | some row => (.ok row.id, g)
      | none =>
        let id := nextId (g.symbols.map (·.id))
        (.ok id, { g with symbols := g.symbols ++ [⟨id, name, demangled⟩] }) := by
  unfold symbolId
  rw [exec_bind, exec_get]
  rcases h : g.symbolNamed? name <;> simp [h]

theorem exec_addReference (r : Reference) (g : Graph) :
    (addReference r).exec g =
      if g.hasArtifact r.artifact ∧ g.hasSymbol r.symbol then
        (.ok (), { g with
          references := g.references ++ [⟨nextId (g.references.map (·.id)), r, none⟩] })
      else (.error .foreignKey, g) := by
  unfold addReference
  by_cases h : g.hasArtifact r.artifact ∧ g.hasSymbol r.symbol <;> simp [h]

theorem exec_deleteReferences (artifact : Id) (g : Graph) :
    (deleteReferences artifact).exec g =
      (.ok (g.references.countP (·.reference.artifact == artifact)),
        { g with references := g.references.filter (·.reference.artifact != artifact) }) := by
  simp [deleteReferences, List.partition_eq_filter_filter, List.countP_eq_length_filter,
    Function.comp_def, bne]

theorem exec_clearReferences (g : Graph) :
    clearReferences.exec g = (.ok g.references.length, { g with references := [] }) := by
  simp [clearReferences]

end Graph

end BuildAudit
