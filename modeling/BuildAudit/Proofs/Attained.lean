import BuildAudit.Proofs.Replay

/-!
# Stores that calls attain

Calls follow each other on a store that was empty at first.  They may fail or be rehearsals, end at any
times, and find other files and tools each time, as far as that is allowed (`Store.Attained`).  What
each part of a call keeps (`KeptByCalls`), a call keeps as a whole (`kept_run`), and so it holds of every
store that calls attain (`Store.Attained.kept`).
-/

namespace BuildAudit

open Update BuildAudit.Graph

variable {α : Type} {allowed : Extractor → Prop} {P : Graph → Prop} {s : Store} {x : Extractor}

/-- The stores that calls lead to from an empty one.  Each call finds files and tools that are
allowed. -/
inductive Store.Attained (allowed : Extractor → Prop) : Store → Prop where
  | empty : Store.empty.Attained allowed
  | call {s : Store} (attained : s.Attained allowed) {x : Extractor} (hx : allowed x) (c : Call)
      (now : Instant) : (c.run x now s).2.Attained allowed

/-- Every part of a call keeps `P`: writing a recording, a phase that succeeds, and stamping. -/
structure KeptByCalls (allowed : Extractor → Prop) (P : Graph → Prop) : Prop where
  empty : P .empty
  stamps : ∀ g stamps, P g → P { g with stamps }
  recording : ∀ entries replace, (writeEntries entries replace).Keeps P
  dependencies : ∀ x, allowed x → ∀ options order g report g', P g →
    (dependencyUpdate { x with options, order }).exec g = (.ok report, g') → P g'
  symbols : ∀ x, allowed x → ∀ options order g report g', P g →
    (symbolUpdate { x with options, order }).exec g = (.ok report, g') → P g'

/-- A transaction is kept or undone. -/
theorem kept_concluded (before : P s.graph) {finish : α → Graph → Graph}
    {r : Except StoreError α × Graph} (after : ∀ a g, r = (.ok a, g) → P (finish a g))
    (rehearsal : Bool) : P (s.concluded rehearsal finish r).graph := by
  rcases r with ⟨e | a, g⟩
  · exact before
  · rw [Store.concluded]
    split
    · exact before
    · exact after a g rfl

theorem kept_importEntries (h : KeptByCalls allowed P) (closed : s.saved = none)
    (before : P s.graph) (entries : List RecordedEntry) (o : ImportOptions) (now : Instant) :
    P (importEntries s entries o now).2.graph := by
  rw [importEntries_of_closed closed]
  refine kept_concluded before (fun report g hr => ?_) o.dryRun
  have written := h.recording entries o.replace s.graph before
  rw [hr] at written
  rw [ImportOptions.finish]
  split
  · exact h.stamps g _ written
  · exact written

/-- A phase that is not stale changes nothing. -/
theorem kept_ifStale {phase : Update PhaseReport} {g g' : Graph} {report : PhaseReport}
    (kept : phase.exec g = (.ok report, g') → P g') (before : P g) {stale : Bool}
    (hr : (ifStale stale phase).exec g = (.ok report, g')) : P g' := by
  cases stale
  · cases hr
    exact before
  · exact kept hr

theorem kept_extract (h : KeptByCalls allowed P) (hx : allowed x) (closed : s.saved = none)
    (before : P s.graph) (options : ExtractionOptions) (order : FinishOrder) (withSymbols : Bool)
    (now : Instant) :
    P (extract { x with options, order } withSymbols now s).store.graph := by
  rcases stale_eq : stale s.graph options.force withSymbols with e | todo
  · rw [extract_of_error stale_eq]
    exact before
  · rw [(extract_of_stale (x := { x with options, order }) closed stale_eq now).2]
    refine kept_concluded before (fun report g hr => ?_) options.dryRun
    obtain ⟨g₁, first, second⟩ := phasesUpdate_eq_ok hr
    have middle := kept_ifStale (h.dependencies x hx options order _ _ _ before) before first
    have last := kept_ifStale (h.symbols x hx options order _ _ _ middle) middle second
    rw [stampPhases_eq]
    exact h.stamps g _ last

theorem saved_run (closed : s.saved = none) (x : Extractor) (now : Instant) (c : Call) :
    (c.run x now s).2.saved = none := by
  have closes := (allOrNothing_run closed x c).closed c.dryRun now
  rwa [c.withDryRun_dryRun] at closes

/-- A call keeps what its parts keep. -/
theorem kept_run (h : KeptByCalls allowed P) (hx : allowed x) (closed : s.saved = none)
    (before : P s.graph) (now : Instant) (c : Call) : P (c.run x now s).2.graph := by
  cases c with
  | importLog contents directory options =>
    simp only [Call.run, importLog]
    rcases FileTree.textOf contents with e | text
    · exact before
    · exact kept_importEntries h closed before _ _ _
  | importDatabase contents options =>
    simp only [Call.run, importDatabase]
    rcases compileDatabase contents with e | entries
    · exact before
    · exact kept_importEntries h closed before _ _ _
  | extractDependencies options order => exact kept_extract h hx closed before options order false now
  | extractSymbols options order => exact kept_extract h hx closed before options order true now

/-- What every part of a call keeps holds of every store that calls attain. -/
theorem Store.Attained.kept (h : KeptByCalls allowed P) (attained : s.Attained allowed) :
    s.saved = none ∧ P s.graph := by
  induction attained with
  | empty => exact ⟨rfl, h.empty⟩
  | call _ hx c now ih =>
    obtain ⟨closed, before⟩ := ih
    exact ⟨saved_run closed _ now c, kept_run h hx closed before now c⟩

end BuildAudit
