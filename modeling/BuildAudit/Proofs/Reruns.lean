import BuildAudit.Proofs.Staleness

/-!
# Running again

On a settled store, the gate in front of the phases can be trusted.  What an unforced run reports as up
to date is up to date (`upToDate_of_report`), and then a forced run succeeds and changes nothing but
rows of references and times (`extract_forced`).  What a run has done is up to date after it
(`upToDate_of_extract`), and then an unforced run does nothing (`extract_idle`).  Together, for all stores
that an owner can reach: `upToDate_sound_and_effective`.
-/

namespace BuildAudit

open Update BuildAudit.Graph

variable {x : Extractor} {g g' : Graph} {s : Store} {times : List Instant} {now : Instant}
  {options : ExtractionOptions} {order : FinishOrder} {withSymbols : Bool}

/-! ## Forced runs -/

theorem Graph.SameUpToRows.refl (g : Graph) : g.SameUpToRows g := ⟨rfl, rfl, rfl, rfl, .refl _⟩

theorem Graph.SameUpToRows.stampPhases (h : g.SameUpToRows g') (todo : Stale) (now : Instant) :
    g.SameUpToRows (stampPhases todo now g') := by
  rw [stampPhases_eq]
  exact ⟨h.commands, h.artifacts, h.edges, h.symbols, h.references⟩

/-- Phases that are done where all is up to date change nothing but the rows of references. -/
theorem exec_phasesUpdate_again (hx : x.ReadsAll) (starts : x.Starts) (hg : g.Intact)
    (tidy : x.Tidy g) (applied : x.Applied g) (listed : withSymbols → x.Listed g) :
    ∃ report g', (phasesUpdate x ⟨true, withSymbols⟩).exec g = (.ok report, g') ∧
      g.SameUpToRows g' := by
  obtain ⟨d, hd⟩ := exec_dependencyUpdate_of_applied hx hg applied
  cases withSymbols
  · exact ⟨⟨d, .current⟩, g, exec_bind_of_ok hd, .refl g⟩
  · obtain ⟨d', g', hs, -, registers, listed'⟩ := exec_symbolUpdate hx starts hg fun _ => tidy
    exact ⟨⟨d, d'⟩, g', (exec_bind_of_ok hd).trans (exec_bind_of_ok hs),
      sameUpToRows_of_listed hg (listed rfl) registers listed'⟩

/-- A forced run where all is up to date succeeds and leaves the same graph. -/
theorem extract_forced (hx : x.ReadsAll) (starts : x.Starts) (h : x.Settled times s)
    (dependencies : s.graph.UpToDate .extractDependencies)
    (symbols : withSymbols → s.graph.UpToDate .extractSymbols) (forced : options.force) :
    (extract { x with options, order } withSymbols now s).report.isOk ∧
      s.graph.SameUpToRows (extract { x with options, order } withSymbols now s).store.graph := by
  have stale_eq : stale s.graph options.force withSymbols = .ok ⟨true, withSymbols⟩ := by
    rw [forced, stale_force]
  obtain ⟨report, g, hr, same⟩ := exec_phasesUpdate_again (x := { x with options, order }) hx starts
    h.intact h.tidy (h.applied dependencies) fun covered => h.listed (symbols covered).2
  obtain ⟨hreport, hstore⟩ := extract_of_stale (x := { x with options, order }) h.closed stale_eq now
  rw [hreport, hstore, hr]
  refine ⟨rfl, ?_⟩
  simp only [Store.concluded]
  split
  · exact .refl _
  · exact same.stampPhases _ _

/-! ## Unforced runs -/

theorem Graph.UpToDate.congr {phase : Phase} (h : g.UpToDate phase) (stamps : g'.stamps = g.stamps) :
    g'.UpToDate phase := by
  have same (p q : Phase) : g'.isCurrentPhase p q = g.isCurrentPhase p q :=
    isCurrentPhase_congr (by rw [stamps]) (by rw [stamps])
  cases phase with
  | importCommands => trivial
  | extractDependencies => exact (same _ _).trans h
  | extractSymbols => exact ⟨(same _ _).trans h.1, (same _ _).trans h.2⟩

/-- An unforced run where all is up to date does nothing. -/
theorem extract_idle (unforced : options.force = false)
    (dependencies : s.graph.UpToDate .extractDependencies)
    (symbols : withSymbols → s.graph.UpToDate .extractSymbols) :
    extract { x with options, order } withSymbols now s = ⟨.ok {}, s, []⟩ := by
  unfold extract
  rw [unforced, stale_of_upToDate dependencies symbols]

/-- What an unforced run reports as up to date is up to date, before it and after it. -/
theorem upToDate_of_report (hx : x.ReadsAll) (starts : x.Starts) (h : x.Settled times s)
    (unforced : options.force = false) {report : ExtractionReport}
    (hr : (extract { x with options, order } withSymbols now s).report = .ok report) :
    (report.dependencies.upToDate → s.graph.UpToDate .extractDependencies ∧
      (extract { x with options, order } withSymbols now s).store.graph.UpToDate
        .extractDependencies) ∧
    (withSymbols → report.symbols.upToDate → s.graph.UpToDate .extractSymbols ∧
      (extract { x with options, order } withSymbols now s).store = s) := by
  rcases extract_cases hx starts h options order withSymbols now with
    ⟨e, hr', -⟩ | ⟨todo, report', g, stale_eq, hr', did, dependencies, symbols, hstore⟩ <;>
    rw [hr'] at hr
  · cases hr
  obtain rfl := Except.ok.inj hr
  rw [unforced] at stale_eq
  obtain ⟨ofDependencies, ofSymbols⟩ := upToDate_of_stale stale_eq
  refine ⟨fun current => ?_, fun covered current => ?_⟩
  · have none : todo.dependencies = false := by simpa [dependencies] using current
    refine ⟨ofDependencies none, ?_⟩
    rw [hstore]
    split
    · exact ofDependencies none
    · -- symbols may have been stamped, but that is none of the dependencies' business
      refine (isCurrentPhase_congr ?_ ?_).trans (ofDependencies none) <;>
        simp [get_stampPhases, none, did.stamps]
  · have none : todo.symbols = false := by simpa [symbols] using current
    have upToDate := ofSymbols covered none
    refine ⟨upToDate, ?_⟩
    rw [extract_idle unforced upToDate.1 fun _ => upToDate]

/-- What a run has done is up to date after it, if the clock can be read back. -/
theorem upToDate_of_extract (hx : x.ReadsAll) (starts : x.Starts) (h : x.Settled times s)
    (later : ∀ t ∈ times, t.Before now) (writable : ∀ t ∈ now :: times, t.Writable)
    (real : options.dryRun = false)
    (ok : (extract { x with options, order } withSymbols now s).report.isOk) :
    (extract { x with options, order } withSymbols now s).store.graph.UpToDate
        .extractDependencies ∧
    (withSymbols → (extract { x with options, order } withSymbols now s).store.graph.UpToDate
        .extractSymbols) := by
  rcases extract_cases hx starts h options order withSymbols now with
    ⟨e, hr, -⟩ | ⟨todo, report, g, stale_eq, hr, did, dependencies, symbols, hstore⟩
  · rw [hr] at ok
    cases ok
  have past : g.StampedBy now := by
    intro phase stamp hs
    rw [did.stamps] at hs
    obtain ⟨t, ht, rfl⟩ := h.stamped phase stamp hs
    have hw := writable t (List.mem_cons_of_mem now ht)
    exact ⟨t, Stamp.ofInstant_of_writable hw, (later t ht).le⟩
  have hnow := writable now List.mem_cons_self
  rcases force : options.force <;> rw [force] at stale_eq
  · obtain ⟨ofDependencies, ofSymbols⟩ := upToDate_of_stale stale_eq
    have before (none : todo.dependencies = false) : g.UpToDate .extractDependencies :=
      (ofDependencies none).congr did.stamps
    rw [hstore, real]
    refine ⟨upToDate_stamped_dependencies hnow past before, fun covered => ?_⟩
    rcases done : todo.symbols
    · -- nothing was stale
      have upToDate := ofSymbols covered done
      have idle : stale s.graph false withSymbols = .ok ⟨false, false⟩ :=
        stale_of_upToDate upToDate.1 fun _ => upToDate
      obtain rfl := Except.ok.inj (idle.symm.trans stale_eq)
      exact upToDate.congr did.stamps
    · exact upToDate_stamped_symbols hnow past before done
  · rw [stale_force] at stale_eq
    obtain rfl := Except.ok.inj stale_eq
    rw [hstore, real]
    exact ⟨upToDate_stamped_dependencies hnow past nofun,
      fun covered => upToDate_stamped_symbols hnow past nofun covered⟩

/-! ## Calls -/

namespace Call

/-- Whether the call is an extraction. -/
def isExtraction : Call → Bool
  | importLog .. | importDatabase .. => false
  | extractDependencies .. | extractSymbols .. => true

/-- Whether the call works even if results are current. -/
def force : Call → Bool
  | importLog .. | importDatabase .. => false
  | extractDependencies options _ | extractSymbols options _ => options.force

/-- The same extraction, not forced. -/
def unforced : Call → Call
  | extractDependencies options order => extractDependencies { options with force := false } order
  | extractSymbols options order => extractSymbols { options with force := false } order
  | c => c

/-- The call is a forced run of the phase. -/
def Forces : Call → Phase → Prop
  | extractDependencies options _, .extractDependencies => options.force
  | extractSymbols options _, .extractSymbols => options.force
  | _, _ => False

/-- The call brings the results of the phase up to date. -/
def Covers : Call → Phase → Prop
  | extractDependencies .., phase => phase = .extractDependencies
  | extractSymbols .., phase => phase = .extractDependencies ∨ phase = .extractSymbols
  | _, _ => False

end Call

/-- What an answer reports of a phase. -/
def Answer.report? : Answer → Phase → Option PhaseReport
  | dependencies report, .extractDependencies => some report
  | symbols report, .extractDependencies => some report.dependencies
  | symbols report, .extractSymbols => some report.symbols
  | _, _ => none

/-- The stores that an owner reaches from an empty one by calls, each of which ends later than those
before; files and tools stay the same. -/
inductive Extractor.Reaches (x : Extractor) : List Instant → Store → Prop where
  | empty : x.Reaches [] Store.empty
  | call {times : List Instant} {now : Instant} {s : Store} (reaches : x.Reaches times s)
      (later : ∀ t ∈ times, t.Before now) (c : Call) : x.Reaches (now :: times) (c.run x now s).2

theorem Extractor.Reaches.settled (hx : x.ReadsAll) (starts : x.Starts)
    (reaches : x.Reaches times s) : x.Settled times s := by
  induction reaches with
  | empty => exact x.settled_empty
  | call _ later c ih => exact settled_run hx starts ih later c

theorem run_forces (hx : x.ReadsAll) (starts : x.Starts) (h : x.Settled times s) {phase : Phase}
    (upToDate : s.graph.UpToDate phase) {c : Call} (forces : c.Forces phase) (now : Instant) :
    (c.run x now s).1.isOk ∧ s.graph.SameUpToRows (c.run x now s).2.graph := by
  cases c with
  | importLog | importDatabase => exact forces.elim
  | extractDependencies options order =>
    cases phase with
    | importCommands | extractSymbols => exact forces.elim
    | extractDependencies =>
      simp only [Call.run, Call.isOk_mapError_map]
      exact extract_forced hx starts h upToDate (absurd · Bool.false_ne_true) forces
  | extractSymbols options order =>
    cases phase with
    | importCommands | extractDependencies => exact forces.elim
    | extractSymbols =>
      simp only [Call.run, Call.isOk_mapError_map]
      exact extract_forced hx starts h upToDate.1 (fun _ => upToDate) forces

/-- What an unforced call reports as up to date is up to date, before it and after it. -/
theorem upToDate_of_answer (hx : x.ReadsAll) (starts : x.Starts) (h : x.Settled times s) {c : Call}
    (unforced : c.force = false) {answer : Answer} (hr : (c.run x now s).1 = .ok answer)
    {phase : Phase} {report : PhaseReport} (found : answer.report? phase = some report)
    (current : report.upToDate) :
    s.graph.UpToDate phase ∧ (c.run x now s).2.graph.UpToDate phase := by
  cases c with
  | importLog | importDatabase =>
    obtain ⟨r, -, rfl⟩ := Call.ok_of_mapError_map hr
    cases phase <;> cases found
  | extractDependencies options order =>
    obtain ⟨r, hreport, rfl⟩ := Call.ok_of_mapError_map hr
    cases phase with
    | importCommands | extractSymbols => cases found
    | extractDependencies =>
      cases found
      exact (upToDate_of_report hx starts h unforced hreport).1 current
  | extractSymbols options order =>
    obtain ⟨r, hreport, rfl⟩ := Call.ok_of_mapError_map hr
    obtain ⟨dependencies, symbols⟩ := upToDate_of_report hx starts h unforced hreport
    cases phase with
    | importCommands => cases found
    | extractDependencies =>
      cases found
      exact dependencies current
    | extractSymbols =>
      cases found
      obtain ⟨upToDate, same⟩ := symbols rfl current
      refine ⟨upToDate, ?_⟩
      rw [show ((Call.extractSymbols options order).run x now s).2 = s from same]
      exact upToDate

/-- After an extraction that has succeeded and was no rehearsal, its phases are up to date. -/
theorem upToDate_of_run (hx : x.ReadsAll) (starts : x.Starts) (h : x.Settled times s)
    (later : ∀ t ∈ times, t.Before now) (writable : ∀ t ∈ now :: times, t.Writable) {c : Call}
    (real : c.dryRun = false) (ok : (c.run x now s).1.isOk) {phase : Phase}
    (covers : c.Covers phase) : (c.run x now s).2.graph.UpToDate phase := by
  cases c with
  | importLog | importDatabase => exact covers.elim
  | extractDependencies options order =>
    simp only [Call.run, Call.isOk_mapError_map] at ok
    obtain rfl := covers
    exact (upToDate_of_extract hx starts h later writable real ok).1
  | extractSymbols options order =>
    simp only [Call.run, Call.isOk_mapError_map] at ok
    obtain ⟨dependencies, symbols⟩ := upToDate_of_extract hx starts h later writable real ok
    rcases covers with rfl | rfl
    · exact dependencies
    · exact symbols rfl

theorem run_unforced {c : Call} (extraction : c.isExtraction)
    (upToDate : ∀ phase, c.Covers phase → s.graph.UpToDate phase) (now : Instant) :
    ∃ answer, c.unforced.run x now s = (.ok answer, s) ∧
      ∀ phase, c.Covers phase → ∃ report, answer.report? phase = some report ∧ report.upToDate := by
  cases c with
  | importLog | importDatabase => cases extraction
  | extractDependencies options order =>
    have idle : extract { x with options := { options with force := false }, order } false now s =
        ⟨.ok {}, s, []⟩ := extract_idle rfl (upToDate _ rfl) nofun
    refine ⟨.dependencies .current, ?_, fun phase covers => ?_⟩
    · simp only [Call.unforced, Call.run, idle]
      rfl
    · obtain rfl := covers
      exact ⟨_, rfl, rfl⟩
  | extractSymbols options order =>
    have idle : extract { x with options := { options with force := false }, order } true now s =
        ⟨.ok {}, s, []⟩ :=
      extract_idle rfl (upToDate _ (.inl rfl)) fun _ => upToDate _ (.inr rfl)
    refine ⟨.symbols {}, ?_, fun phase covers => ?_⟩
    · simp only [Call.unforced, Call.run, idle]
      rfl
    · rcases covers with rfl | rfl <;> exact ⟨_, rfl, rfl⟩

/-- The gate in front of phases is sound and effective.  When an unforced run reports a phase as up to
date, a forced run of the phase, then or after it, succeeds and leaves the same graph up to the rows of
references.  And after an extraction that has succeeded and was no rehearsal, the same call without
force reports all its phases as up to date and changes nothing. -/
theorem upToDate_sound_and_effective (hx : x.ReadsAll) (starts : x.Starts)
    (reaches : x.Reaches times s) (later : ∀ t ∈ times, t.Before now) (c : Call) :
    (∀ answer phase report, c.force = false → (c.run x now s).1 = .ok answer →
      answer.report? phase = some report → report.upToDate →
      ∀ s' ∈ [s, (c.run x now s).2], ∀ forced : Call, forced.Forces phase → ∀ time,
        (forced.run x time s').1.isOk ∧ s'.graph.SameUpToRows (forced.run x time s').2.graph) ∧
    ((∀ t ∈ now :: times, t.Writable) → c.isExtraction → c.dryRun = false →
      (c.run x now s).1.isOk → ∀ time, ∃ answer,
        c.unforced.run x time (c.run x now s).2 = (.ok answer, (c.run x now s).2) ∧
        ∀ phase, c.Covers phase → ∃ report, answer.report? phase = some report ∧ report.upToDate) := by
  have before := reaches.settled hx starts
  have after := settled_run hx starts before later c
  refine ⟨fun answer phase report unforced hr found current s' hs' forced forces time => ?_,
    fun writable extraction real ok time => ?_⟩
  · have upToDate := upToDate_of_answer hx starts before unforced hr found current
    rcases List.mem_pair.1 hs' with rfl | rfl
    · exact run_forces hx starts before upToDate.1 forces time
    · exact run_forces hx starts after upToDate.2 forces time
  · exact run_unforced extraction
      (fun _ covers => upToDate_of_run hx starts before later writable real ok covers) time

/-- One object that needs a symbol and defines another. -/
def objectExtractor : Extractor where
  files := ⟨[(["w"], .directory), (["w", "m.o"], .file ⟨#[0x7f, 0x45, 0x4c, 0x46]⟩)], []⟩
  tools := fun _ args => .ok { stdout := if args.contains "-S" then "0 T main" else "U puts" }
  searchDirectories := []

def objectImported : Store :=
  ((Call.importLog "gcc -c -o m.o m.c".toUTF8 "/w" {}).run objectExtractor ⟨1, 0⟩ .empty).2

def objectExtracted : Store :=
  ((Call.extractSymbols {} .fifo).run objectExtractor ⟨2, 0⟩ objectImported).2

theorem objectExtractor_reaches : objectExtractor.Reaches [⟨1, 0⟩] objectImported :=
  .call .empty nofun _

/-- After an import and an extraction all is up to date: extracting again does nothing, and a forced
extraction gives the same. -/
theorem rerun_object :
    (∃ answer, (Call.extractSymbols {} .fifo).run objectExtractor ⟨3, 0⟩ objectExtracted =
      (.ok answer, objectExtracted)) ∧
    ((Call.extractSymbols { force := true } .fifo).run objectExtractor ⟨3, 0⟩ objectExtracted).1.isOk ∧
    objectExtracted.graph.SameUpToRows
      ((Call.extractSymbols { force := true } .fifo).run objectExtractor ⟨3, 0⟩
        objectExtracted).2.graph := by
  have reads : objectExtractor.ReadsAll := fun _ => rfl
  have starts : objectExtractor.Starts := fun _ => ⟨_, rfl⟩
  have second : ∀ t ∈ [(⟨1, 0⟩ : Instant)], t.Before ⟨2, 0⟩ := by simp [Instant.Before]
  have third : ∀ t ∈ [(⟨2, 0⟩ : Instant), ⟨1, 0⟩], t.Before ⟨3, 0⟩ := by simp [Instant.Before]
  have effective := upToDate_sound_and_effective reads starts objectExtractor_reaches second
    (.extractSymbols {} .fifo)
  have sound := upToDate_sound_and_effective reads starts
    (.call objectExtractor_reaches second (.extractSymbols {} .fifo)) third (.extractSymbols {} .fifo)
  have done : ((Call.extractSymbols {} .fifo).run objectExtractor ⟨2, 0⟩ objectImported).1.isOk := by
    decide +kernel
  have current : ((Call.extractSymbols {} .fifo).run objectExtractor ⟨3, 0⟩ objectExtracted).1 =
      .ok (.symbols {}) := by
    decide +kernel
  obtain ⟨answer, idle, -⟩ := effective.2 (by simp [Instant.Writable]; decide) rfl rfl done ⟨3, 0⟩
  have forced := sound.1 _ .extractSymbols _ rfl current rfl rfl objectExtracted List.mem_cons_self
    (.extractSymbols { force := true } .fifo) rfl ⟨3, 0⟩
  exact ⟨⟨answer, idle⟩, forced⟩

end BuildAudit
