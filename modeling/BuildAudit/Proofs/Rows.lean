import Mathlib.Data.List.Nodup
import BuildAudit.Graph.Update

/-!
# Rows and their keys

Facts about tables as lists of rows: the id of the next row is new (`lt_nextId`), and in a table
without repeated keys a look-up finds exactly the row with that key (`find?_key_eq_some_iff`).  Then
the look-ups of a graph, and what `Graph.modifyArtifact` does to the table of artifacts.
-/

namespace BuildAudit

/-! ## Ids -/

theorem le_foldl_max (ids : List Id) (n : Id) :
    n ≤ ids.foldl max n ∧ ∀ i ∈ ids, i ≤ ids.foldl max n := by
  induction ids generalizing n with
  | nil => simp
  | cons j ids ih =>
    obtain ⟨h₁, h₂⟩ := ih (max n j)
    simp only [List.foldl_cons, List.mem_cons, forall_eq_or_imp]
    exact ⟨Int.le_trans (Int.le_max_left n j) h₁, Int.le_trans (Int.le_max_right n j) h₁, h₂⟩

theorem lt_nextId {ids : List Id} {i : Id} (h : i ∈ ids) : i < nextId ids :=
  Int.lt_add_one_of_le ((le_foldl_max ids 0).2 i h)

/-- A row with the next id keeps a table in the order of its ids. -/
theorem pairwise_append_nextId {ids : List Id} (h : ids.Pairwise (· < ·)) :
    (ids ++ [nextId ids]).Pairwise (· < ·) := by
  rw [List.pairwise_append]
  refine ⟨h, List.pairwise_singleton _ _, fun i hi j hj => ?_⟩
  obtain rfl := List.mem_singleton.1 hj
  exact lt_nextId hi

theorem nodup_of_pairwise_lt {ids : List Id} (h : ids.Pairwise (· < ·)) : ids.Nodup :=
  h.imp fun h => Int.ne_of_lt h

/-! ## Look-ups by key -/

section Keys

variable {α κ : Type} [DecidableEq κ] (key : α → κ)

theorem find?_key_eq_some_iff {rows : List α} (h : (rows.map key).Nodup) {k : κ} {row : α} :
    rows.find? (key · == k) = some row ↔ row ∈ rows ∧ key row = k := by
  induction rows with
  | nil => simp
  | cons first rows ih =>
    rw [List.map_cons, List.nodup_cons] at h
    rw [List.find?_cons, List.mem_cons]
    by_cases hk : key first = k
    · -- no later row has the key of the first one
      have alone : ∀ r ∈ rows, key r ≠ k := fun r hr e =>
        h.1 (List.mem_map.2 ⟨r, hr, e.trans hk.symm⟩)
      simp only [hk, beq_self_eq_true, Option.some.injEq]
      constructor
      · rintro rfl
        exact ⟨.inl rfl, hk⟩
      · rintro ⟨rfl | hr, e⟩
        · rfl
        · exact absurd e (alone row hr)
    · rw [beq_false_of_ne hk, ih h.2]
      constructor
      · rintro ⟨hr, e⟩
        exact ⟨.inr hr, e⟩
      · rintro ⟨rfl | hr, e⟩
        · exact absurd e hk
        · exact ⟨hr, e⟩

theorem find?_key_eq_none_iff {rows : List α} {k : κ} :
    rows.find? (key · == k) = none ↔ k ∉ rows.map key := by
  simp [List.find?_eq_none]

/-- Two tables that have the same rows under each key have the same rows. -/
theorem perm_of_filter_key_eq [DecidableEq α] {rows rows' : List α}
    (same : ∀ k, rows.filter (key · == k) = rows'.filter (key · == k)) : rows.Perm rows' := by
  rw [List.perm_iff_count]
  intro row
  have own : (key row == key row) = true := beq_self_eq_true (key row)
  have here (rows : List α) : (rows.filter (key · == key row)).count row = rows.count row :=
    List.count_filter own
  rw [← here rows, same, here rows']

end Keys

namespace Graph

variable {g : Graph}

theorem hasCommand_iff {id : Id} : g.hasCommand id ↔ ∃ c ∈ g.commands, c.id = id := by
  simp [hasCommand]

theorem hasArtifact_iff {id : Id} : g.hasArtifact id ↔ ∃ a ∈ g.artifacts, a.id = id := by
  simp [hasArtifact]

theorem hasSymbol_iff {id : Id} : g.hasSymbol id ↔ ∃ s ∈ g.symbols, s.id = id := by
  simp [hasSymbol]

theorem command?_eq_some_iff (h : (g.commands.map (·.id)).Nodup) {id : Id} {row : CommandRecord} :
    g.command? id = some row ↔ row ∈ g.commands ∧ row.id = id :=
  find?_key_eq_some_iff _ h

theorem artifactNamed?_eq_some_iff (h : (g.artifacts.map (·.name)).Nodup) {name : String}
    {row : Artifact} : g.artifactNamed? name = some row ↔ row ∈ g.artifacts ∧ row.name = name :=
  find?_key_eq_some_iff _ h

theorem artifactNamed?_eq_none_iff {name : String} :
    g.artifactNamed? name = none ↔ name ∉ g.artifacts.map (·.name) :=
  find?_key_eq_none_iff _

theorem artifact?_eq_some_iff (h : (g.artifacts.map (·.id)).Nodup) {id : Id} {row : Artifact} :
    g.artifact? id = some row ↔ row ∈ g.artifacts ∧ row.id = id :=
  find?_key_eq_some_iff _ h

theorem symbol?_eq_some_iff (h : (g.symbols.map (·.id)).Nodup) {id : Id} {row : Symbol} :
    g.symbol? id = some row ↔ row ∈ g.symbols ∧ row.id = id :=
  find?_key_eq_some_iff _ h

theorem symbolNamed?_eq_some_iff (h : (g.symbols.map (·.name)).Nodup) {name : String}
    {row : Symbol} : g.symbolNamed? name = some row ↔ row ∈ g.symbols ∧ row.name = name :=
  find?_key_eq_some_iff _ h

theorem symbolNamed?_eq_none_iff {name : String} :
    g.symbolNamed? name = none ↔ name ∉ g.symbols.map (·.name) :=
  find?_key_eq_none_iff _

/-! ## Changing one artifact -/

section ModifyArtifact

variable {id : Id} {f : Artifact → Artifact}

theorem mem_modifyArtifact {a : Artifact} :
    a ∈ (g.modifyArtifact id f).artifacts ↔
      ∃ b ∈ g.artifacts, a = if b.id = id then f b else b := by
  simp only [modifyArtifact, List.mem_map, beq_iff_eq]
  exact exists_congr fun b => and_congr_right fun _ => eq_comm

/-- A value that the change leaves alone is left alone in every row. -/
theorem map_modifyArtifact {β : Type} (key : Artifact → β) (h : ∀ a, key (f a) = key a) :
    (g.modifyArtifact id f).artifacts.map key = g.artifacts.map key := by
  simp only [modifyArtifact, List.map_map]
  refine List.map_congr_left fun a _ => ?_
  by_cases e : a.id = id <;> simp [e, h]

theorem hasArtifact_modifyArtifact (h : ∀ a, (f a).id = a.id) (i : Id) :
    (g.modifyArtifact id f).hasArtifact i = g.hasArtifact i := by
  have ids : (g.modifyArtifact id f).artifacts.map (·.id) = g.artifacts.map (·.id) :=
    map_modifyArtifact (·.id) h
  simpa [hasArtifact, List.any_map, Function.comp_def] using congrArg (·.any (· == i)) ids

/-- A change that every row with the id shows already is none. -/
theorem modifyArtifact_eq_self (h : ∀ a ∈ g.artifacts, a.id = id → f a = a) :
    g.modifyArtifact id f = g := by
  have rows : (g.artifacts.map fun a => if a.id == id then f a else a) = g.artifacts := by
    refine (List.map_congr_left fun a ha => ?_).trans (List.map_id _)
    by_cases e : a.id = id
    · simp [e, h a ha e]
    · simp [e]
  rw [modifyArtifact, rows]

theorem modifyArtifact_modifyArtifact {f' : Artifact → Artifact} (h : ∀ a, (f a).id = a.id) :
    (g.modifyArtifact id f).modifyArtifact id f' = g.modifyArtifact id fun a => f' (f a) := by
  simp only [modifyArtifact, List.map_map, Function.comp_def]
  congr 1
  refine List.map_congr_left fun a _ => ?_
  by_cases e : a.id = id <;> simp [e, h]

end ModifyArtifact

end Graph

end BuildAudit
