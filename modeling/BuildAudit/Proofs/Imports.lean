import BuildAudit.Import
import BuildAudit.Proofs.Integrity

/-!
# Writing recordings

An import writes commands and, if it replaces those of before, takes generators from artifacts
(`exec_writeEntries`).  Nothing else of the graph changes, and nothing at all if no command is new and
none is replaced.
-/

namespace BuildAudit

open Update BuildAudit.Graph

/-- Nothing but commands and the generators of artifacts differs. -/
structure Graph.SameButCommands (g g' : Graph) : Prop where
  artifacts : (g'.artifacts.map fun a => (a.id, a.name, a.type)) =
    g.artifacts.map fun a => (a.id, a.name, a.type)
  edges : g'.edges = g.edges
  symbols : g'.symbols = g.symbols
  references : g'.references = g.references
  stamps : g'.stamps = g.stamps

variable {g g' g'' : Graph}

theorem Graph.SameButCommands.refl (g : Graph) : g.SameButCommands g := ⟨rfl, rfl, rfl, rfl, rfl⟩

theorem Graph.SameButCommands.trans (h : g.SameButCommands g') (h' : g'.SameButCommands g'') :
    g.SameButCommands g'' :=
  ⟨h'.artifacts.trans h.artifacts, h'.edges.trans h.edges, h'.symbols.trans h.symbols,
    h'.references.trans h.references, h'.stamps.trans h.stamps⟩

/-- Every artifact was there, with the same name and kind. -/
theorem Graph.SameButCommands.artifact (h : g.SameButCommands g') {row : Artifact}
    (hrow : row ∈ g'.artifacts) :
    ∃ old ∈ g.artifacts, old.id = row.id ∧ old.name = row.name ∧ old.type = row.type := by
  have member : (row.id, row.name, row.type) ∈ g.artifacts.map fun a => (a.id, a.name, a.type) := by
    rw [← h.artifacts]
    exact List.mem_map.2 ⟨row, hrow, rfl⟩
  obtain ⟨old, hold, same⟩ := List.mem_map.1 member
  simp only [Prod.mk.injEq] at same
  exact ⟨old, hold, same⟩

theorem sameButCommands_truncateCommands (g : Graph) :
    g.SameButCommands (truncateCommands.exec g).2 := by
  rw [exec_truncateCommands]
  refine ⟨?_, rfl, rfl, rfl, rfl⟩
  rw [List.map_map]
  rfl

/-- What carrying out verdicts does to a graph, while the count of imported commands goes from `n` to
`n'`: only commands come in, and none if nothing is counted. -/
structure Graph.Imports (g g' : Graph) (n n' : Nat) : Prop where
  intact : g'.Intact
  same : g.SameButCommands g'
  grows : n ≤ n'
  unchanged : n' = n → g' = g

theorem Graph.Imports.refl (hg : g.Intact) (n : Nat) : g.Imports g n n :=
  ⟨hg, .refl g, Nat.le_refl n, fun _ => rfl⟩

theorem Graph.Imports.trans {n n' n'' : Nat} (h : g.Imports g' n n') (h' : g'.Imports g'' n' n'') :
    g.Imports g'' n n'' where
  intact := h'.intact
  same := h.same.trans h'.same
  grows := Nat.le_trans h.grows h'.grows
  unchanged := fun none => by
    -- if nothing was counted on the whole, nothing was at either step
    have grows := h.grows
    have grows' := h'.grows
    rw [h'.unchanged (by omega), h.unchanged (by omega)]

/-- A verdict is carried out without fail. -/
theorem exec_importVerdict (report : ImportReport) (v : Verdict) (hg : g.Intact) :
    ∃ report' g', (importVerdict report v).exec g = (.ok report', g') ∧
      g.Imports g' report.imported report'.imported := by
  cases v with
  | skipped => exact ⟨_, g, rfl, .refl hg _⟩
  | failed => exact ⟨_, g, rfl, .refl hg _⟩
  | accepted directory executable args =>
    have intact := keeps_insertCommand directory executable args g hg
    have hr := exec_insertCommand directory executable args g
    unfold importVerdict
    rcases known : g.commandOf? directory executable args with _ | row <;> rw [known] at hr <;>
      rw [hr] at intact <;> rw [exec_bind_of_ok hr]
    · refine ⟨_, _, rfl, intact, ⟨rfl, rfl, rfl, rfl, rfl⟩, Nat.le_succ _, fun same => ?_⟩
      exact absurd same (Nat.succ_ne_self _)
    · exact ⟨_, g, rfl, .refl hg _⟩

theorem exec_importVerdicts (verdicts : List Verdict) (report : ImportReport) (hg : g.Intact) :
    ∃ report' g', (verdicts.foldlM importVerdict report).exec g = (.ok report', g') ∧
      g.Imports g' report.imported report'.imported := by
  induction verdicts generalizing g report with
  | nil => exact ⟨report, g, rfl, .refl hg _⟩
  | cons v verdicts ih =>
    obtain ⟨report', g', hr, imports⟩ := exec_importVerdict report v hg
    obtain ⟨report'', g'', hr', imports'⟩ := ih report' imports.intact
    refine ⟨report'', g'', ?_, imports.trans imports'⟩
    rw [List.foldlM_cons, exec_bind_of_ok hr, hr']

/-- Writing a recording succeeds; what it changes are commands and generators, and nothing at all if
it neither replaces nor imports. -/
theorem exec_writeEntries (entries : List RecordedEntry) (replace : Bool) (hg : g.Intact) :
    ∃ report g', (writeEntries entries replace).exec g = (.ok report, g') ∧ g'.Intact ∧
      g.SameButCommands g' ∧ (report.imported = 0 → replace = false → g' = g) := by
  unfold writeEntries
  cases replace
  · obtain ⟨report, g', hr, imports⟩ := exec_importVerdicts (entries.map Verdict.of) {} hg
    exact ⟨report, g', hr, imports.intact, imports.same, fun none _ => imports.unchanged none⟩
  · obtain ⟨report, g', hr, imports⟩ :=
      exec_importVerdicts (entries.map Verdict.of) {} (keeps_truncateCommands g hg)
    refine ⟨report, g', (exec_bind_of_ok (exec_truncateCommands g)).trans hr, imports.intact, ?_, nofun⟩
    exact (sameButCommands_truncateCommands g).trans imports.same

end BuildAudit
