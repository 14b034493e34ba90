import BuildAudit.Proofs.Staleness

/-!
# Processes on one database

An import and an extraction of dependencies may work on the same database at the same time.  Each of
them is a `Program` in atomic steps: reading a stamp, a whole transaction, reading the clock, writing a
stamp.  A transaction waits for that of the other process, so it is one step.  A `Step` of a shared
database is one of either program, and `Runs` is any interleaving of them.  Without an interleaving, the
steps come to what `importEntries` and `extract` do (`runs_import`, `runs_extract`).
-/

namespace BuildAudit

/-! ## Programs -/

/-- What a process does at a time, with nobody in between. -/
inductive Action where
  | read
  | transact
  | tick
  | stamp
  deriving DecidableEq, Repr

/-- Time has passed whenever the clock is read, and `now` is what the clock has shown last. -/
def Action.Passes (a : Action) (clock now : Instant) : Prop :=
  if a = .tick then clock.Before now else now = clock

instance (a b : Instant) : Decidable (a.Before b) :=
  inferInstanceAs (Decidable (_ ∨ _))

instance (a : Action) (clock now : Instant) : Decidable (a.Passes clock now) :=
  inferInstanceAs (Decidable (if a = .tick then clock.Before now else now = clock))

/-- Where a process stands that changes a database in one transaction, and then stamps it with a time
that it reads after the transaction. -/
inductive Process (σ ρ : Type) where
  /-- The transaction is still to come. -/
  | before (stage : σ)
  | committed (report : ρ)
  | timed (report : ρ) (time : Instant)
  | stamped (report : ρ) (time : Instant)
  /-- Nothing has been changed, so there is nothing to stamp. -/
  | ended (result : Except StoreError ρ)

namespace Process

variable {σ ρ : Type}

/-- The process has changed the database. -/
def Changed : Process σ ρ → Prop
  | before _ | ended _ => False
  | committed _ | timed _ _ | stamped _ _ => True

/-- The time that the process has read. -/
def time? : Process σ ρ → Option Instant
  | before _ | committed _ | ended _ => none
  | timed _ time | stamped _ time => some time

/-- The stamp that the process has written. -/
def stamp? : Process σ ρ → Option Stamp
  | stamped _ time => some (.ofInstant time)
  | _ => none

/-- What the process has returned. -/
def result? : Process σ ρ → Option (Except StoreError ρ)
  | stamped report _ => some (.ok report)
  | ended result => some result
  | _ => none

theorem time?_of_not_changed {p : Process σ ρ} (unchanged : ¬ p.Changed) : p.time? = none := by
  cases p with
  | before | ended => rfl
  | committed | timed | stamped => exact absurd trivial unchanged

theorem stamp?_of_not_changed {p : Process σ ρ} (unchanged : ¬ p.Changed) : p.stamp? = none := by
  cases p with
  | before | ended => rfl
  | committed | timed | stamped => exact absurd trivial unchanged

/-- A process that has returned and changed something has written its stamp. -/
theorem stamped_of_changed {p : Process σ ρ} (returned : p.result?.isSome) (changed : p.Changed) :
    ∃ time, p.time? = some time ∧ p.stamp? = some (.ofInstant time) := by
  cases p with
  | before | ended => exact changed.elim
  | committed | timed => cases returned
  | stamped report time => exact ⟨time, rfl, rfl⟩

theorem changed_of_time? {p : Process σ ρ} {time : Instant} (h : p.time? = some time) : p.Changed := by
  cases p with
  | before | committed | ended => cases h
  | timed | stamped => trivial

end Process

/-- How a process works: the steps up to its transaction, and the phase that it stamps after it. -/
structure Program (σ ρ : Type) where
  /-- Whether the next step reads a stamp.  If not, it is the transaction. -/
  reads : σ → Bool
  act : σ → Store → Process σ ρ × Store
  phase : Phase

namespace Program

variable {σ ρ : Type}

/-- The next action, if the process has not returned. -/
def due (program : Program σ ρ) : Process σ ρ → Option Action
  | .before stage => some (if program.reads stage then .read else .transact)
  | .committed _ => some .tick
  | .timed _ _ => some .stamp
  | .stamped _ _ | .ended _ => none

/-- The next action, at the time `now`. -/
def next (program : Program σ ρ) (now : Instant) :
    Process σ ρ → Store → Process σ ρ × Store
  | .before stage, s => program.act stage s
  | .committed report, s => (.timed report now, s)
  | .timed report time, s => (.stamped report time, s.mapGraph (Graph.setPhaseTime program.phase time))
  | process, s => (process, s)

end Program

def importProgram (entries : List RecordedEntry) (o : ImportOptions) : Program Unit ImportReport where
  reads := fun _ => false
  act := fun _ s =>
    match s.transaction o.dryRun Except.isOk (ExceptT.run (writeEntries entries o.replace)) with
    | (.error e, s) => (.ended (.error e), s)
    | (.ok (.error e), s) => (.ended (.error e), s)
    | (.ok (.ok report), s) =>
      (if report.changes o then .committed report else .ended (.ok report), s)
  phase := .importCommands

/-- What an extraction knows of the stamps before its transaction. -/
inductive Gate where
  | unread
  | read (done : Option Instant)
  | stale
  deriving DecidableEq, Repr

def Gate.first (force : Bool) : Gate := if force then .stale else .unread

/-- The extraction of dependencies. -/
def extractProgram (x : Extractor) : Program Gate ExtractionReport where
  reads := (· != .stale)
  act
    | .unread, s =>
      match s.graph.phaseTime .extractDependencies with
      | .error e => (.ended (.error e), s)
      | .ok done => (.before (.read done), s)
    | .read done, s =>
      match s.graph.phaseTime .importCommands with
      | .error e => (.ended (.error e), s)
      | .ok needed => (if isCurrent done needed then .ended (.ok {}) else .before .stale, s)
    | .stale, s =>
      match s.transaction x.options.dryRun (·.1.isOk) (watchedPhases x ⟨true, false⟩) with
      | (.error e, s) => (.ended (.error e), s)
      | (.ok (.error e, _), s) => (.ended (.error e), s)
      | (.ok (.ok report, _), s) =>
        (if x.options.dryRun then .ended (.ok report) else .committed report, s)
  phase := .extractDependencies

/-! ## Interleavings -/

/-- A database with an import and an extraction at work, and what the clock has shown last. -/
structure Shared where
  store : Store
  clock : Instant
  importing : Process Unit ImportReport
  extracting : Process Gate ExtractionReport

inductive Party where
  | importer
  | extractor
  deriving DecidableEq, Repr

abbrev Move := Party × Action

namespace Shared

variable {x : Extractor} {entries : List RecordedEntry} {o : ImportOptions} {s s' s'' : Shared}
  {τ τ' : List Move} {now : Instant}

/-- Nothing has been done yet. -/
def opened (x : Extractor) (s : Store) (clock : Instant) : Shared :=
  ⟨s, clock, .before (), .before (.first x.options.force)⟩

def graph (s : Shared) : Graph := s.store.graph

/-- Both processes have returned. -/
def Returned (s : Shared) : Prop := s.importing.result?.isSome ∧ s.extracting.result?.isSome

/-- The next action of a party, if it has not returned. -/
def due (x : Extractor) (entries : List RecordedEntry) (o : ImportOptions) (s : Shared) :
    Party → Option Action
  | .importer => (importProgram entries o).due s.importing
  | .extractor => (extractProgram x).due s.extracting

/-- The next action of a party is done, at the time `now`. -/
def advance (x : Extractor) (entries : List RecordedEntry) (o : ImportOptions) (now : Instant)
    (s : Shared) : Party → Shared
  | .importer =>
    let advanced := (importProgram entries o).next now s.importing s.store
    { s with store := advanced.2, clock := now, importing := advanced.1 }
  | .extractor =>
    let advanced := (extractProgram x).next now s.extracting s.store
    { s with store := advanced.2, clock := now, extracting := advanced.1 }

/-- One of the parties takes the step that is due. -/
inductive Step (x : Extractor) (entries : List RecordedEntry) (o : ImportOptions) (s : Shared) :
    Move → Shared → Prop where
  | advance {party : Party} {a : Action} {now : Instant} (due : s.due x entries o party = some a)
      (passes : a.Passes s.clock now) : Step x entries o s (party, a) (s.advance x entries o now party)

/-- Steps one after the other, in any order. -/
inductive Runs (x : Extractor) (entries : List RecordedEntry) (o : ImportOptions) (s : Shared) :
    List Move → Shared → Prop where
  | start : Runs x entries o s [] s
  | step {τ : List Move} {move : Move} {s' s'' : Shared} (run : Runs x entries o s τ s')
      (step : Step x entries o s' move s'') : Runs x entries o s (τ ++ [move]) s''

theorem Runs.trans (run : Runs x entries o s τ s') (run' : Runs x entries o s' τ' s'') :
    Runs x entries o s (τ ++ τ') s'' := by
  induction run' with
  | start =>
    rw [List.append_nil]
    exact run
  | step _ step ih =>
    rw [← List.append_assoc]
    exact ih.step step

/-- What moves at given times lead to, if they can be made. -/
def play? (x : Extractor) (entries : List RecordedEntry) (o : ImportOptions) (s : Shared) :
    List (Move × Instant) → Option Shared
  | [] => some s
  | ((party, a), now) :: schedule =>
    if s.due x entries o party = some a ∧ a.Passes s.clock now then
      play? x entries o (s.advance x entries o now party) schedule
    else none

theorem runs_of_play? {schedule : List (Move × Instant)}
    (h : s.play? x entries o schedule = some s') : Runs x entries o s (schedule.map (·.1)) s' := by
  induction schedule generalizing s with
  | nil =>
    cases h
    exact .start
  | cons first schedule ih =>
    obtain ⟨⟨party, a⟩, now⟩ := first
    rw [play?] at h
    split at h
    · next legal => exact (Runs.start.step (.advance legal.1 legal.2)).trans (ih h)
    · cases h

/-! ## Without an interleaving -/

/-- After its transaction, the importer reads the clock and writes its stamp. -/
theorem runs_import_committed {report : ImportReport} (h : s.importing = .committed report)
    (later : s.clock.Before now) :
    Runs x entries o s [(.importer, .tick), (.importer, .stamp)]
      { s with
        store := s.store.mapGraph (Graph.setPhaseTime .importCommands now), clock := now
        importing := .stamped report now } := by
  obtain ⟨store, clock, importing, extracting⟩ := s
  obtain rfl : importing = _ := h
  have tick : Step x entries o ⟨store, clock, .committed report, extracting⟩ (.importer, .tick)
      ⟨store, now, .timed report now, extracting⟩ := .advance rfl later
  exact (Runs.start.step tick).step (.advance rfl rfl)

theorem runs_extract_committed {report : ExtractionReport} (h : s.extracting = .committed report)
    (later : s.clock.Before now) :
    Runs x entries o s [(.extractor, .tick), (.extractor, .stamp)]
      { s with
        store := s.store.mapGraph (Graph.setPhaseTime .extractDependencies now), clock := now
        extracting := .stamped report now } := by
  obtain ⟨store, clock, importing, extracting⟩ := s
  obtain rfl : extracting = _ := h
  have tick : Step x entries o ⟨store, clock, importing, .committed report⟩ (.extractor, .tick)
      ⟨store, now, importing, .timed report now⟩ := .advance rfl later
  exact (Runs.start.step tick).step (.advance rfl rfl)

/-- The steps of the importer, one after the other, are an import. -/
theorem runs_import (h : s.importing = .before ()) (later : s.clock.Before now) :
    ∃ τ s', Runs x entries o s τ s' ∧ s'.extracting = s.extracting ∧
      s'.importing.result? = some (importEntries s.store entries o now).1 ∧
      s'.store = (importEntries s.store entries o now).2 := by
  obtain ⟨store, clock, importing, extracting⟩ := s
  obtain rfl : importing = _ := h
  have first : Step x entries o ⟨store, clock, .before (), extracting⟩ (.importer, .transact)
    (advance x entries o clock ⟨store, clock, .before (), extracting⟩ .importer) := .advance rfl rfl
  unfold importEntries
  simp only [advance, Program.next, importProgram] at first
  rcases transaction : store.transaction o.dryRun Except.isOk
      (ExceptT.run (writeEntries entries o.replace)) with ⟨e | e | report, s₁⟩ <;>
    simp only [transaction] at first ⊢
  · exact ⟨_, _, Runs.start.step first, rfl, rfl, rfl⟩
  · exact ⟨_, _, Runs.start.step first, rfl, rfl, rfl⟩
  · by_cases changes : report.changes o
    · simp only [if_pos changes] at first ⊢
      exact ⟨_, _, (Runs.start.step first).trans (runs_import_committed rfl later), rfl, rfl, rfl⟩
    · simp only [if_neg changes] at first ⊢
      exact ⟨_, _, Runs.start.step first, rfl, rfl, rfl⟩

/-- What an extraction of dependencies does when it has found them stale. -/
theorem runs_extract_stale (h : s.extracting = .before .stale) (later : s.clock.Before now)
    {withSymbols : Bool} (stale_eq : stale s.graph x.options.force withSymbols = .ok ⟨true, false⟩) :
    ∃ τ s', Runs x entries o s τ s' ∧ s'.importing = s.importing ∧
      s'.extracting.result? = some (extract x withSymbols now s.store).report ∧
      s'.store = (extract x withSymbols now s.store).store := by
  obtain ⟨store, clock, importing, extracting⟩ := s
  obtain rfl : extracting = _ := h
  have first : Step x entries o ⟨store, clock, importing, .before .stale⟩ (.extractor, .transact)
    (advance x entries o clock ⟨store, clock, importing, .before .stale⟩ .extractor) := .advance rfl rfl
  unfold extract
  rw [show stale store.graph x.options.force withSymbols = _ from stale_eq]
  simp only [advance, Program.next, extractProgram] at first
  rcases transaction : store.transaction x.options.dryRun (·.1.isOk) (watchedPhases x ⟨true, false⟩)
    with ⟨e | ⟨e | report, events⟩, s₁⟩ <;> simp only [transaction] at first ⊢
  · exact ⟨_, _, Runs.start.step first, rfl, rfl, rfl⟩
  · exact ⟨_, _, Runs.start.step first, rfl, rfl, rfl⟩
  · by_cases rehearsal : x.options.dryRun
    · simp only [if_pos rehearsal] at first ⊢
      exact ⟨_, _, Runs.start.step first, rfl, rfl, rfl⟩
    · simp only [if_neg rehearsal] at first ⊢
      exact ⟨_, _, (Runs.start.step first).trans (runs_extract_committed rfl later), rfl, rfl, rfl⟩

/-- Unforced, dependencies are stale unless they have been stamped when the commands were there. -/
theorem stale_dependencies (g : Graph) {force : Bool} (unforced : force = false) :
    stale g force false = (do
      let done ← g.phaseTime .extractDependencies
      let needed ← g.phaseTime .importCommands
      return ⟨!isCurrent done needed, false⟩) := by
  rw [unforced, stale_unforced, Graph.isCurrentPhase]
  rcases g.phaseTime .extractDependencies with e | done
  · rfl
  rcases g.phaseTime .importCommands with e | needed
  · rfl
  simp only [bind, Except.bind, pure, Except.pure]
  rcases isCurrent done needed <;> rfl

/-- The steps of the extractor, one after the other, are an extraction of dependencies. -/
theorem runs_extract (h : s.extracting = .before (.first x.options.force))
    (later : s.clock.Before now) :
    ∃ τ s', Runs x entries o s τ s' ∧ s'.importing = s.importing ∧
      s'.extracting.result? = some (extract x false now s.store).report ∧
      s'.store = (extract x false now s.store).store := by
  rcases force : x.options.force <;> rw [force] at h
  · obtain ⟨store, clock, importing, extracting⟩ := s
    obtain rfl : extracting = _ := h
    have gate := stale_dependencies store.graph force
    have first : Step x entries o ⟨store, clock, importing, .before .unread⟩ (.extractor, .read)
      (advance x entries o clock ⟨store, clock, importing, .before .unread⟩ .extractor) :=
      .advance rfl rfl
    simp only [advance, Program.next, extractProgram] at first
    rcases done : store.graph.phaseTime .extractDependencies with e | done? <;>
      simp only [done] at first gate
    · rw [extract_of_error gate]
      exact ⟨_, _, Runs.start.step first, rfl, rfl, rfl⟩
    have second : Step x entries o ⟨store, clock, importing, .before (.read done?)⟩ (.extractor, .read)
      (advance x entries o clock ⟨store, clock, importing, .before (.read done?)⟩ .extractor) :=
      .advance rfl rfl
    simp only [advance, Program.next, extractProgram] at second
    rcases needed : store.graph.phaseTime .importCommands with e | needed? <;>
      simp only [needed] at second gate
    · rw [extract_of_error gate]
      exact ⟨_, _, (Runs.start.step first).step second, rfl, rfl, rfl⟩
    have gate : stale store.graph x.options.force false = .ok ⟨!isCurrent done? needed?, false⟩ := gate
    rcases current : isCurrent done? needed? <;> rw [current] at gate <;>
      simp only [current, if_true, if_false, Bool.false_eq_true] at second
    · obtain ⟨τ, s', rest, same⟩ :=
        runs_extract_stale (s := ⟨store, clock, importing, .before .stale⟩) rfl later gate
      exact ⟨_, s', ((Runs.start.step first).step second).trans rest, same⟩
    · refine ⟨_, _, (Runs.start.step first).step second, rfl, ?_⟩
      unfold extract
      rw [gate]
      exact ⟨rfl, rfl⟩
  · exact runs_extract_stale h later (by rw [force, stale_force])

end Shared

end BuildAudit
