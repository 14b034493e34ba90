import BuildAudit.Proofs.Processes
import BuildAudit.Proofs.Reruns

/-!
# Interleaved imports and extractions

Each process stamps a database after its transaction, with a time that it reads after its transaction.
So stamps need not be in the order of the transactions that they stand for.  `Advances` says what a step
of either process can do, `Standing` is what all steps keep, and `lost_only_if_overtaken` reads off which
interleavings make an extraction look newer than commands that it has not seen: those where the importer
commits and reads the clock between the transaction of the extractor and its look at the clock.
-/

namespace BuildAudit

open Update BuildAudit.Graph

variable {σ ρ : Type} {phase phase' : Phase} {P : Graph → Prop}

/-! ## Time -/

theorem Instant.le_trans {a b c : Instant} (h : a.le b) (h' : b.le c) : a.le c := by
  rw [Instant.le_iff] at *
  omega

theorem Instant.before_of_le_of_before {a b c : Instant} (h : a.le b) (h' : b.Before c) :
    a.Before c := by
  rw [Instant.le_iff] at h
  unfold Instant.Before at *
  omega

/-! ## What a step can do -/

/-- Before its transaction the process leaves a database alone, and what it commits has property `P`. -/
def Program.Commits (program : Program σ ρ) (P : Graph → Prop) : Prop :=
  ∀ stage s, s.saved = none → s.graph.Intact →
    (∃ p, program.act stage s = (p, s) ∧ ¬ p.Changed) ∨
    program.reads stage = false ∧ ∃ report g, program.act stage s = (.committed report, { graph := g }) ∧
      g.Intact ∧ g.stamps = s.graph.stamps ∧ P g

theorem commits_import (entries : List RecordedEntry) (o : ImportOptions) :
    (importProgram entries o).Commits fun _ => True := by
  intro _ s closed hg
  obtain ⟨report, g, hr, intact, same, unchanged⟩ := exec_writeEntries entries o.replace hg
  have transaction := Store.transaction_of_closed closed o.dryRun Except.isOk
    (ExceptT.run (writeEntries entries o.replace))
  rw [show StateT.run (ExceptT.run (writeEntries entries o.replace)) s.graph = _ from hr] at transaction
  by_cases changes : report.changes o
  · have real : o.dryRun = false := by simp_all [ImportReport.changes]
    rw [real] at transaction
    refine .inr ⟨rfl, report, g, ?_, intact, same.stamps, trivial⟩
    simp only [importProgram, real, transaction, if_pos changes]
    rfl
  · refine .inl ⟨.ended (.ok report), ?_, id⟩
    have idle : o.dryRun = false → ({ graph := g } : Store) = s := fun real => by
      have none : report.imported = 0 ∧ o.replace = false := by
        simpa [ImportReport.changes, real] using changes
      rw [unchanged none.1 none.2, ← Store.eq_of_closed closed]
    simp only [importProgram, transaction, if_neg changes]
    rcases real : o.dryRun
    · exact congrArg _ (idle real)
    · rfl

theorem commits_extract {x : Extractor} (hx : x.ReadsAll) :
    (extractProgram x).Commits x.Applied := by
  intro gate s closed hg
  cases gate with
  | unread =>
    refine .inl ?_
    rcases done : s.graph.phaseTime .extractDependencies with e | done?
    · exact ⟨.ended (.error e), by simp [extractProgram, done], id⟩
    · exact ⟨.before (.read done?), by simp [extractProgram, done], id⟩
  | read done? =>
    refine .inl ?_
    rcases needed : s.graph.phaseTime .importCommands with e | needed?
    · exact ⟨.ended (.error e), by simp [extractProgram, needed], id⟩
    rcases current : isCurrent done? needed?
    · exact ⟨.before .stale, by simp [extractProgram, needed, current], id⟩
    · exact ⟨.ended (.ok {}), by simp [extractProgram, needed, current], id⟩
  | stale =>
    have transaction := Store.transaction_of_closed closed x.options.dryRun (·.1.isOk)
      (watchedPhases x ⟨true, false⟩)
    obtain ⟨events, hw⟩ := run_watchedPhases x ⟨true, false⟩ s.graph
    rw [hw] at transaction
    rcases hr : (phasesUpdate x ⟨true, false⟩).exec s.graph with ⟨e | report, g⟩ <;>
      rw [hr] at transaction
    · refine .inl ⟨.ended (.error e), ?_, id⟩
      simp only [extractProgram, transaction]
      rfl
    · rcases rehearsal : x.options.dryRun <;> rw [rehearsal] at transaction
      · obtain ⟨g₁, first, second⟩ := phasesUpdate_eq_ok hr
        obtain rfl : g₁ = g := (Prod.mk.inj second).2
        have absorbs := absorbs_of_dependencyUpdate hx hg first
        refine .inr ⟨rfl, report, g₁, ?_, absorbs.intact, absorbs.rest.stamps,
          applied_of_dependencyUpdate hx hg first⟩
        simp only [extractProgram, rehearsal, transaction]
        rfl
      · refine .inl ⟨.ended (.ok report), ?_, id⟩
        simp only [extractProgram, rehearsal, transaction]
        rfl

/-- What a step does to its process, to an intact database and to the time that the clock has shown
last. -/
inductive Process.Advances (phase : Phase) (P : Graph → Prop) :
    Action → Process σ ρ → Store → Instant → Process σ ρ → Store → Instant → Prop where
  | idle {a : Action} {p p' : Process σ ρ} {s : Store} {c : Instant} (timeless : a ≠ .tick)
      (before : ¬ p.Changed) (after : ¬ p'.Changed) : Advances phase P a p s c p' s c
  | commit {stage : σ} {report : ρ} {s : Store} {g : Graph} {c : Instant} (intact : g.Intact)
      (stamps : g.stamps = s.graph.stamps) (after : P g) :
      Advances phase P .transact (.before stage) s c (.committed report) { graph := g } c
  | tick {report : ρ} {s : Store} {c now : Instant} (later : c.Before now) :
      Advances phase P .tick (.committed report) s c (.timed report now) s now
  | stamp {report : ρ} {time : Instant} {s : Store} {c : Instant} :
      Advances phase P .stamp (.timed report time) s c (.stamped report time)
        (s.mapGraph (setPhaseTime phase time)) c

theorem advances_next {program : Program σ ρ} (commits : program.Commits P) {s : Store}
    (closed : s.saved = none) (hg : s.graph.Intact) {p : Process σ ρ} {a : Action}
    (due : program.due p = some a) {c now : Instant} (passes : a.Passes c now) :
    p.Advances program.phase P a s c (program.next now p s).1 (program.next now p s).2 now := by
  cases p with
  | before stage =>
    obtain rfl := Option.some.inj due
    have timeless : (if program.reads stage then Action.read else .transact) ≠ .tick := by
      split <;> exact nofun
    obtain rfl : now = c := by simpa [Action.Passes, timeless] using passes
    rcases commits stage s closed hg with
      ⟨p, hp, unchanged⟩ | ⟨reads, report, g, hp, intact, stamps, after⟩
    · rw [Program.next, hp]
      exact .idle timeless id unchanged
    · rw [Program.next, hp, reads]
      exact .commit intact stamps after
  | committed report =>
    obtain rfl := Option.some.inj due
    exact .tick passes
  | timed report time =>
    obtain rfl := Option.some.inj due
    obtain rfl : now = c := passes
    exact .stamp
  | stamped | ended => cases due

/-! ## Stamps and times -/

variable {p p' : Process σ ρ} {a : Action} {t t' : Store} {c c' : Instant} {x : Extractor}
  {s s' start : Shared} {τ : List Move} {party party' : Party}

namespace Process

theorem Advances.le (h : p.Advances phase P a t c p' t' c') : c.le c' := by
  cases h with
  | idle | commit | stamp => exact c.le_refl
  | tick later => exact later.le

theorem Advances.closed (h : p.Advances phase P a t c p' t' c') (closed : t.saved = none) :
    t'.saved = none := by
  cases h with
  | idle | tick | stamp => exact closed
  | commit => rfl

theorem Advances.intact (h : p.Advances phase P a t c p' t' c') (hg : t.graph.Intact) :
    t'.graph.Intact := by
  cases h with
  | idle | tick => exact hg
  | commit intact => exact intact
  | stamp => exact hg.setPhaseTime _ _

/-- A process that has not changed a database has left it alone. -/
theorem Advances.unchanged (h : p.Advances phase P a t c p' t' c') (unchanged : ¬ p'.Changed) :
    ¬ p.Changed ∧ t' = t := by
  cases h with
  | idle _ before => exact ⟨before, rfl⟩
  | commit | tick | stamp => exact absurd trivial unchanged

theorem Advances.changed (h : p.Advances phase P a t c p' t' c') (changed : p'.Changed) :
    p.Changed ∨ a = .transact := by
  cases h with
  | idle _ _ after => exact absurd changed after
  | commit => exact .inr rfl
  | tick | stamp => exact .inl trivial

/-- A process writes no stamp but its own. -/
theorem Advances.stamps_of_ne (h : p.Advances phase P a t c p' t' c') (ne : phase' ≠ phase) :
    t'.graph.stamps.get phase' = t.graph.stamps.get phase' := by
  cases h with
  | idle | tick => rfl
  | commit intact stamps => rw [stamps]
  | stamp => exact (Stamps.get_set _ _ _ _).trans (if_neg ne)

/-- The stamp of a process says what it has read, its time was read after the start, and it knows a time
if it has looked at the clock. -/
structure Timely (party : Party) (phase : Phase) (start : Shared) (τ : List Move) (p : Process σ ρ)
    (g : Graph) (c : Instant) : Prop where
  stamp : g.stamps.get phase = p.stamp?.or (start.graph.stamps.get phase)
  time : ∀ now, p.time? = some now → start.clock.Before now ∧ now.le c
  ticked : (party, .tick) ∈ τ → ∃ now, p.time? = some now

theorem Timely.own (h : p.Timely party phase start τ t.graph c) (since : start.clock.le c)
    (advances : p.Advances phase P a t c p' t' c') :
    p'.Timely party phase start (τ ++ [(party, a)]) t'.graph c' := by
  cases advances with
  | idle timeless before after =>
    refine ⟨?_, fun now hnow => ?_, fun ticked => ?_⟩
    · rw [stamp?_of_not_changed after, ← stamp?_of_not_changed before]
      exact h.stamp
    · rw [time?_of_not_changed after] at hnow
      cases hnow
    · rcases List.mem_append.1 ticked with ticked | last
      · obtain ⟨now, hnow⟩ := h.ticked ticked
        exact absurd (changed_of_time? hnow) before
      · exact absurd (congrArg Prod.snd (List.mem_singleton.1 last)).symm timeless
  | commit intact stamps =>
    refine ⟨(congrArg (·.get phase) stamps).trans h.stamp, nofun, fun ticked => ?_⟩
    rcases List.mem_append.1 ticked with ticked | last
    · exact h.ticked ticked
    · cases List.mem_singleton.1 last
  | tick later =>
    refine ⟨h.stamp, fun now hnow => ?_, fun _ => ⟨_, rfl⟩⟩
    obtain rfl := Option.some.inj hnow
    exact ⟨Instant.before_of_le_of_before since later, Instant.le_refl _⟩
  | stamp => exact ⟨(Stamps.get_set _ _ _ _).trans (if_pos rfl), h.time, fun _ => ⟨_, rfl⟩⟩

theorem Timely.other {σ' ρ' : Type} {q q' : Process σ' ρ'} (h : p.Timely party phase start τ t.graph c)
    (advances : q.Advances phase' P a t c q' t' c') (ne : phase ≠ phase') (apart : party ≠ party') :
    p.Timely party phase start (τ ++ [(party', a)]) t'.graph c' where
  stamp := (advances.stamps_of_ne ne).trans h.stamp
  time := fun now hnow => ⟨(h.time now hnow).1, Instant.le_trans (h.time now hnow).2 advances.le⟩
  ticked := fun ticked => by
    rcases List.mem_append.1 ticked with ticked | last
    · exact h.ticked ticked
    · exact absurd (congrArg Prod.fst (List.mem_singleton.1 last)) apart

/-- A process that has returned and changed a database has stamped it with the time that it has read. -/
theorem Timely.stamped {g : Graph} (h : p.Timely party phase start τ g c) (returned : p.result?.isSome)
    (changed : p.Changed) :
    ∃ now, p.time? = some now ∧ g.stamps.get phase = some (.ofInstant now) := by
  obtain ⟨now, known, stamp⟩ := stamped_of_changed returned changed
  exact ⟨now, known, h.stamp.trans (by rw [stamp]; rfl)⟩

end Process

/-! ## Overtaking -/

/-- The importer commits and reads the clock after the transaction of the extractor, and the extractor
reads the clock after that. -/
def overtaking : List Move :=
  [(.extractor, .transact), (.importer, .transact), (.importer, .tick), (.extractor, .tick)]

theorem sublist_append_move {l : List Move} (h : List.Sublist l τ) (move : Move) :
    List.Sublist (l ++ [move]) (τ ++ [move]) :=
  h.append (.refl _)

theorem sublist_of_append_move {l : List Move} {last move : Move}
    (h : List.Sublist (l ++ [last]) (τ ++ [move])) :
    List.Sublist l τ ∧ (last ≠ move → List.Sublist (l ++ [last]) τ) := by
  have reversed : List.Sublist (last :: l.reverse) (move :: τ.reverse) := by
    simpa using List.reverse_sublist.2 h
  rcases List.cons_sublist_cons'.1 reversed with old | ⟨rfl, old⟩
  · have all : List.Sublist (l ++ [last]) τ := by
      simpa using List.reverse_sublist.2 old
    exact ⟨(List.sublist_append_left l [last]).trans all, fun _ => all⟩
  · exact ⟨List.reverse_sublist.1 old, fun ne => absurd rfl ne⟩

/-- How far an importer that has come after the extractor has got in overtaking it, by the times that
importer and extractor have read.  If the extractor is the first to look at the clock, its stamp will be
the older one. -/
def Outruns (τ : List Move) : Option Instant → Option Instant → Prop
  | none, none => List.Sublist (overtaking.take 2) τ
  | none, some _ => True
  | some _, none => List.Sublist (overtaking.take 3) τ
  | some needed, some done => done.Before needed ∨ List.Sublist overtaking τ

theorem Outruns.append {needed done : Option Instant} (h : Outruns τ needed done) (τ' : List Move) :
    Outruns (τ ++ τ') needed done := by
  have longer {l : List Move} (h : List.Sublist l τ) : List.Sublist l (τ ++ τ') :=
    h.trans (List.sublist_append_left τ τ')
  cases needed <;> cases done
  · exact longer h
  · exact h
  · exact longer h
  · exact h.imp_right longer

theorem Outruns.importer {done : Option Instant} (h : Outruns τ none done) {c now : Instant}
    (past : ∀ t, done = some t → t.le c) (later : c.Before now) :
    Outruns (τ ++ [(.importer, .tick)]) (some now) done := by
  cases done with
  | none => exact sublist_append_move h _
  | some t => exact .inl (Instant.before_of_le_of_before (past t rfl) later)

theorem Outruns.extractor {needed : Option Instant} (h : Outruns τ needed none) (now : Instant) :
    Outruns (τ ++ [(.extractor, .tick)]) needed (some now) := by
  cases needed with
  | none => trivial
  | some t => exact .inr (sublist_append_move h _)

namespace Shared

/-- What all steps since the start keep. -/
structure Standing (x : Extractor) (start : Shared) (τ : List Move) (s : Shared) : Prop where
  closed : s.store.saved = none
  intact : s.graph.Intact
  since : start.clock.le s.clock
  importer : s.importing.Timely .importer .importCommands start τ s.graph s.clock
  extractor : s.extracting.Timely .extractor .extractDependencies start τ s.graph s.clock
  untouched : ¬ s.importing.Changed → ¬ s.extracting.Changed → s.graph = start.graph
  extracted : s.extracting.Changed → (.extractor, .transact) ∈ τ
  /-- What the extractor has applied is all there is, unless the importer has come after it. -/
  applied : s.extracting.Changed → x.Applied s.graph ∨
    s.importing.Changed ∧ Outruns τ s.importing.time? s.extracting.time?
  ordered : List.Sublist overtaking τ → ∀ needed done, s.importing.time? = some needed →
    s.extracting.time? = some done → needed.Before done

variable {x : Extractor} {entries : List RecordedEntry} {o : ImportOptions}
  {importing : Process Unit ImportReport} {extracting : Process Gate ExtractionReport}

/-- What the extractor has applied stays, or the importer comes after it. -/
theorem Standing.importer_applied (h : Standing x start τ s)
    (advances : s.importing.Advances .importCommands P a s.store s.clock importing t c)
    (changed : s.extracting.Changed) :
    x.Applied t.graph ∨
      importing.Changed ∧ Outruns (τ ++ [(.importer, a)]) importing.time? s.extracting.time? := by
  have applied := h.applied changed
  have transacted := List.singleton_sublist.2 (h.extracted changed)
  have past := fun done known => (h.extractor.time done known).2
  obtain ⟨store, clock, importing, extracting⟩ := s
  cases advances with
  | idle timeless before after => exact .inl (applied.resolve_right fun outruns => before outruns.1)
  | commit intact stamps =>
    refine .inr ⟨trivial, ?_⟩
    show Outruns _ none extracting.time?
    rcases extracting.time? with _ | done
    · exact sublist_append_move transacted _
    · trivial
  | tick later => exact applied.imp_right fun outruns => ⟨trivial, outruns.2.importer past later⟩
  | stamp => exact applied.imp (·.congr rfl rfl rfl) fun outruns => ⟨trivial, outruns.2.append _⟩

theorem Standing.importer_ordered (h : Standing x start τ s)
    (advances : s.importing.Advances .importCommands P a s.store s.clock importing t c)
    (overtaken : List.Sublist overtaking (τ ++ [(.importer, a)])) {needed done : Instant}
    (hneeded : importing.time? = some needed) (hdone : s.extracting.time? = some done) :
    needed.Before done := by
  -- the last of these moves is not one of the importer
  have overtaken : List.Sublist overtaking τ :=
    (sublist_of_append_move (l := overtaking.take 3) overtaken).2 nofun
  obtain ⟨now, known⟩ := h.importer.ticked (overtaken.subset (by decide))
  have old := h.ordered overtaken now done known hdone
  obtain ⟨store, clock, importing, extracting⟩ := s
  cases advances with
  | idle timeless before after => exact absurd (Process.changed_of_time? hneeded) after
  | commit | tick => cases known
  | stamp =>
    obtain rfl := Option.some.inj (known.symm.trans hneeded)
    exact old

theorem Standing.extractor_applied (h : Standing x start τ s)
    (advances : s.extracting.Advances .extractDependencies x.Applied a s.store s.clock extracting t c)
    (changed : extracting.Changed) :
    x.Applied t.graph ∨
      s.importing.Changed ∧ Outruns (τ ++ [(.extractor, a)]) s.importing.time? extracting.time? := by
  have applied := h.applied
  obtain ⟨store, clock, importing, extracting⟩ := s
  cases advances with
  | idle timeless before after => exact absurd changed after
  | commit intact stamps after => exact .inl after
  | tick later => exact (applied trivial).imp_right fun outruns => ⟨outruns.1, outruns.2.extractor _⟩
  | stamp =>
    exact (applied trivial).imp (·.congr rfl rfl rfl) fun outruns => ⟨outruns.1, outruns.2.append _⟩

theorem Standing.extractor_ordered (h : Standing x start τ s)
    (advances : s.extracting.Advances .extractDependencies x.Applied a s.store s.clock extracting t c)
    (overtaken : List.Sublist overtaking (τ ++ [(.extractor, a)])) {needed done : Instant}
    (hneeded : s.importing.time? = some needed) (hdone : extracting.time? = some done) :
    needed.Before done := by
  have ordered := h.ordered
  have past := (h.importer.time needed hneeded).2
  obtain ⟨store, clock, importing, extracting⟩ := s
  cases advances with
  | idle timeless before after => exact absurd (Process.changed_of_time? hdone) after
  | commit => cases hdone
  | tick later =>
    obtain rfl := Option.some.inj hdone
    exact Instant.before_of_le_of_before past later
  | stamp =>
    refine ordered ?_ needed done hneeded hdone
    exact (sublist_of_append_move (l := overtaking.take 3) overtaken).2 nofun

theorem standing_step (hx : x.ReadsAll) (h : Standing x start τ s) {move : Move}
    (step : Step x entries o s move s') : Standing x start (τ ++ [move]) s' := by
  rcases step with @⟨party, a, now, due, passes⟩
  cases party with
  | importer =>
    have advances := advances_next (commits_import entries o) h.closed h.intact due passes
    exact
      { closed := advances.closed h.closed
        intact := advances.intact h.intact
        since := Instant.le_trans h.since advances.le
        importer := h.importer.own h.since advances
        extractor := h.extractor.other advances nofun nofun
        untouched := fun importing extracting => by
          obtain ⟨before, same⟩ := advances.unchanged importing
          exact (congrArg Store.graph same).trans (h.untouched before extracting)
        extracted := fun changed => List.mem_append_left _ (h.extracted changed)
        applied := h.importer_applied advances
        ordered := fun overtaken _ _ => h.importer_ordered advances overtaken }
  | extractor =>
    have advances := advances_next (commits_extract hx) h.closed h.intact due passes
    exact
      { closed := advances.closed h.closed
        intact := advances.intact h.intact
        since := Instant.le_trans h.since advances.le
        importer := h.importer.other advances nofun nofun
        extractor := h.extractor.own h.since advances
        untouched := fun importing extracting => by
          obtain ⟨before, same⟩ := advances.unchanged extracting
          exact (congrArg Store.graph same).trans (h.untouched importing before)
        extracted := fun changed => by
          rcases advances.changed changed with before | rfl
          · exact List.mem_append_left _ (h.extracted before)
          · exact List.mem_append_right _ List.mem_cons_self
        applied := h.extractor_applied advances
        ordered := fun overtaken _ _ => h.extractor_ordered advances overtaken }

variable {times : List Instant} {clock : Instant} {store : Store}

theorem standing_opened (settled : x.Settled times store) (clock : Instant) :
    Standing x (opened x store clock) [] (opened x store clock) where
  closed := settled.closed
  intact := settled.intact
  since := clock.le_refl
  importer := ⟨rfl, nofun, nofun⟩
  extractor := ⟨rfl, nofun, nofun⟩
  untouched := fun _ _ => rfl
  extracted := nofun
  applied := nofun
  ordered := nofun

theorem standing_runs (hx : x.ReadsAll) (settled : x.Settled times store)
    (run : Runs x entries o (opened x store clock) τ s) :
    Standing x (opened x store clock) τ s := by
  induction run with
  | start => exact standing_opened settled clock
  | step _ step ih => exact standing_step hx ih step

/-- If the extraction has changed nothing, dependencies do not look newer than commands that have changed
meanwhile. -/
theorem not_current_of_import (h : Standing x start τ s) (returned : s.Returned)
    (past : ∀ t, start.graph.stamps.get .extractDependencies = some (.at t) → t.le start.clock)
    (changed : s.importing.Changed) (unchanged : ¬ s.extracting.Changed) :
    s.graph.isCurrentPhase .extractDependencies .importCommands ≠ .ok true := by
  obtain ⟨needed, known, stamped⟩ := h.importer.stamped returned.1 changed
  refine not_isCurrentPhase stamped fun t ht => ?_
  rw [h.extractor.stamp, Process.stamp?_of_not_changed unchanged] at ht
  exact Instant.before_of_le_of_before (past t ht) (h.importer.time needed known).1

/-- If both have changed something, and the dependencies look newer, it is because all commands have been
applied, or because the extractor has been overtaken. -/
theorem applied_of_current (h : Standing x start τ s) (returned : s.Returned)
    (extracted : s.extracting.Changed) (inTime : ¬ List.Sublist overtaking τ)
    (current : s.graph.isCurrentPhase .extractDependencies .importCommands = .ok true) :
    x.Applied s.graph := by
  refine (h.applied extracted).resolve_right fun ⟨imported, outruns⟩ => ?_
  obtain ⟨needed, hneeded, stamped⟩ := h.importer.stamped returned.1 imported
  obtain ⟨done, hdone, stamped'⟩ := h.extractor.stamped returned.2 extracted
  rw [hneeded, hdone] at outruns
  refine not_isCurrentPhase stamped (fun t ht => ?_) current
  rw [stamped'] at ht
  rw [← Stamp.eq_of_ofInstant (Option.some.inj ht)]
  exact outruns.resolve_right inTime

/-- A store with one owner gains two, who import and extract dependencies at the same time.  If they have
returned and the dependencies look newer than the commands, all commands have been applied, unless the
importer has overtaken the extractor.  If it has, dependencies look newer whatever has been imported. -/
theorem lost_only_if_overtaken (hx : x.ReadsAll) (settled : x.Settled times store)
    (past : ∀ t ∈ times, t.le clock) (run : Runs x entries o (opened x store clock) τ s)
    (returned : s.Returned) :
    (¬ List.Sublist overtaking τ →
      s.graph.isCurrentPhase .extractDependencies .importCommands = .ok true → x.Applied s.graph) ∧
    (List.Sublist overtaking τ → ∃ needed done, needed.Before done ∧
      s.graph.stamps.get .importCommands = some (.ofInstant needed) ∧
      s.graph.stamps.get .extractDependencies = some (.ofInstant done)) := by
  have h := standing_runs hx settled run
  refine ⟨fun inTime current => ?_, fun overtaken => ?_⟩
  · by_cases extracted : s.extracting.Changed
    · exact applied_of_current h returned extracted inTime current
    by_cases imported : s.importing.Changed
    · refine absurd current (not_current_of_import h returned (fun t ht => ?_) imported extracted)
      obtain ⟨u, hu, e⟩ := settled.stamped _ _ ht
      rw [← Stamp.eq_of_ofInstant e.symm]
      exact past u hu
    · rw [h.untouched imported extracted] at current ⊢
      exact settled.applied current
  · obtain ⟨needed, hneeded⟩ := h.importer.ticked (overtaken.subset (by decide))
    obtain ⟨done, hdone⟩ := h.extractor.ticked (overtaken.subset (by decide))
    obtain ⟨needed', hneeded', stamped⟩ :=
      h.importer.stamped returned.1 (Process.changed_of_time? hneeded)
    obtain ⟨done', hdone', stamped'⟩ := h.extractor.stamped returned.2 (Process.changed_of_time? hdone)
    exact ⟨needed', done', h.ordered overtaken needed' done' hneeded' hdone', stamped, stamped'⟩

/-- An import of one more object. -/
def lateEntries : List RecordedEntry := logEntries "gcc -c -o n.o n.c" "/w"

/-- The extraction begins after the import has been committed. -/
def inTime : List (Move × Instant) :=
  [((.importer, .transact), ⟨1, 0⟩), ((.extractor, .read), ⟨1, 0⟩), ((.extractor, .read), ⟨1, 0⟩),
    ((.extractor, .transact), ⟨1, 0⟩), ((.importer, .tick), ⟨2, 0⟩), ((.extractor, .tick), ⟨3, 0⟩),
    ((.extractor, .stamp), ⟨3, 0⟩), ((.importer, .stamp), ⟨3, 0⟩)]

/-- An extraction that looks newer than the import has applied what was imported. -/
theorem lost_only_if_overtaken_inTime :
    ∃ s, Runs objectExtractor lateEntries {} (opened objectExtractor objectImported ⟨1, 0⟩)
      (inTime.map (·.1)) s ∧ s.graph.commands.length = 2 ∧ objectExtractor.Applied s.graph := by
  have reads : objectExtractor.ReadsAll := fun _ => rfl
  have settled := objectExtractor_reaches.settled reads fun _ => ⟨_, rfl⟩
  have played : ((opened objectExtractor objectImported ⟨1, 0⟩).play? objectExtractor lateEntries {}
      inTime).map (fun s => (s.importing.result?.isSome, s.extracting.result?.isSome,
        s.graph.isCurrentPhase .extractDependencies .importCommands, s.graph.commands.length)) =
      some (true, true, .ok true, 2) := by
    decide +kernel
  obtain ⟨s, run, result⟩ := Option.map_eq_some_iff.1 played
  simp only [Prod.mk.injEq] at result
  obtain ⟨imported, extracted, current, both⟩ := result
  refine ⟨s, runs_of_play? run, both, ?_⟩
  exact (lost_only_if_overtaken reads settled (by simp [Instant.le_refl]) (runs_of_play? run)
    ⟨imported, extracted⟩).1 (by decide) current

/-- The import comes and goes while the extractor has not looked at the clock. -/
def tooLate : List (Move × Instant) :=
  [((.extractor, .read), ⟨1, 0⟩), ((.extractor, .read), ⟨1, 0⟩), ((.extractor, .transact), ⟨1, 0⟩),
    ((.importer, .transact), ⟨1, 0⟩), ((.importer, .tick), ⟨2, 0⟩), ((.importer, .stamp), ⟨2, 0⟩),
    ((.extractor, .tick), ⟨3, 0⟩), ((.extractor, .stamp), ⟨3, 0⟩)]

/-- Then the dependencies look newer than the imported command, which nobody has applied. -/
theorem import_lost :
    ∃ s, Runs objectExtractor lateEntries {} (opened objectExtractor objectImported ⟨1, 0⟩)
      (tooLate.map (·.1)) s ∧ s.Returned ∧
      s.graph.isCurrentPhase .extractDependencies .importCommands = .ok true ∧
      ¬ objectExtractor.Applied s.graph := by
  have reads : objectExtractor.ReadsAll := fun _ => rfl
  have settled := objectExtractor_reaches.settled reads fun _ => ⟨_, rfl⟩
  have played : ((opened objectExtractor objectImported ⟨1, 0⟩).play? objectExtractor lateEntries {}
      tooLate).map (fun s => (s.importing.result?.isSome, s.extracting.result?.isSome,
        s.graph.isCurrentPhase .extractDependencies .importCommands,
        decide (((dependencyUpdate objectExtractor).exec s.graph).2 = s.graph))) =
      some (true, true, .ok true, false) := by
    decide +kernel
  obtain ⟨s, run, result⟩ := Option.map_eq_some_iff.1 played
  simp only [Prod.mk.injEq, decide_eq_false_iff_not] at result
  obtain ⟨imported, extracted, current, changes⟩ := result
  refine ⟨s, runs_of_play? run, ⟨imported, extracted⟩, current, fun applied => ?_⟩
  -- if all were applied, another extraction would have nothing to do
  have standing := standing_runs reads settled (runs_of_play? run)
  obtain ⟨report, idle⟩ := exec_dependencyUpdate_of_applied reads standing.intact applied
  exact changes (congrArg Prod.snd idle)

end Shared

end BuildAudit
