import Mathlib.Data.List.Perm.Subperm
import BuildAudit.Proofs.FinishOrder

/-!
# Bounded work

What `drive` does is a list of steps: a unit is handed out, or the result of a worker is applied.  The
steps move units through a `Pool`, from those that wait to those that are outstanding and out of it, and
every run of a pool keeps count of them (`Pool.Run.counts`).  The loop plays a run of its pool on the
graph, shows its events and stops at the first result that cannot be applied (`drive_driven`).  So no
unit is lost or treated twice, and never are more outstanding than there may be
(`treatAll_accountable`).
-/

namespace BuildAudit

variable {U : Type}

/-! ## Steps -/

/-- What the loop does next. -/
inductive WorkStep (U : Type) where
  /-- A unit is announced and handed to a worker. -/
  | handOut (u : U)
  /-- A worker is done with a unit, and its result is applied. -/
  | apply (u : U) (result : Except StoreError Outcome)

namespace WorkStep

def handed? : WorkStep U → Option U
  | handOut u => some u
  | apply _ _ => none

def applied? : WorkStep U → Option U
  | handOut _ => none
  | apply u _ => some u

/-- The units that are handed out, in order. -/
def handed (steps : List (WorkStep U)) : List U := steps.filterMap handed?

/-- The units whose results are applied, in order. -/
def applied (steps : List (WorkStep U)) : List U := steps.filterMap applied?

/-- Every result could be applied. -/
def Smooth (steps : List (WorkStep U)) : Prop := ∀ u e, apply u (.error e) ∉ steps

theorem smooth_nil : Smooth ([] : List (WorkStep U)) := fun _ _ => List.not_mem_nil

theorem smooth_of_cons {step : WorkStep U} {steps : List (WorkStep U)} (h : Smooth (step :: steps)) :
    Smooth steps :=
  fun u e hmem => h u e (List.mem_cons_of_mem _ hmem)

/-- What an onlooker sees of the steps, after `done` results. -/
def shown (t : Treatment U) (total : Nat) : Nat → List (WorkStep U) → List Event
  | _, [] => []
  | done, handOut u :: steps => .before (t.item u) :: shown t total done steps
  | done, apply u (.ok outcome) :: steps =>
    .after (t.item u) outcome :: .progress (done + 1) total :: shown t total (done + 1) steps
  | done, apply _ (.error _) :: steps => shown t total done steps

/-- The report of the steps, or the error at which they stop. -/
def summary (report : PhaseReport) : List (WorkStep U) → Except StoreError PhaseReport
  | [] => .ok report
  | handOut _ :: steps => summary report steps
  | apply _ (.ok outcome) :: steps => summary (report.record outcome) steps
  | apply _ (.error e) :: _ => .error e

/-- The results of the steps are those of the units on the graph, one after the other. -/
inductive Plays (t : Treatment U) : Graph → List (WorkStep U) → Graph → Prop where
  | nil (g : Graph) : Plays t g [] g
  | handOut {g g' : Graph} {steps : List (WorkStep U)} (u : U) :
    Plays t g steps g' → Plays t g (handOut u :: steps) g'
  | apply {g g₁ g' : Graph} {steps : List (WorkStep U)} {u : U} {result : Except StoreError Outcome} :
    (t.apply u).exec g = (result, g₁) → Plays t g₁ steps g' → Plays t g (apply u result :: steps) g'

/-! ### Units that are handed out together -/

theorem Plays.handOuts {t : Treatment U} {g g' : Graph} {steps : List (WorkStep U)}
    (h : Plays t g steps g') (us : List U) : Plays t g (us.map WorkStep.handOut ++ steps) g' := by
  induction us with
  | nil => exact h
  | cons u us ih => exact .handOut u ih

theorem shown_handOuts (t : Treatment U) (total done : Nat) (us : List U) (steps : List (WorkStep U)) :
    shown t total done (us.map handOut ++ steps) =
      us.map (.before <| t.item ·) ++ shown t total done steps := by
  induction us with
  | nil => rfl
  | cons u us ih => exact congrArg (Event.before (t.item u) :: ·) ih

theorem smooth_handOuts {steps : List (WorkStep U)} (h : Smooth steps) (us : List U) :
    Smooth (us.map handOut ++ steps) := by
  intro u e hmem
  rcases List.mem_append.1 hmem with hmem | hmem
  · obtain ⟨v, -, same⟩ := List.mem_map.1 hmem
    cases same
  · exact h u e hmem

theorem summary_handOuts (report : PhaseReport) (us : List U) (steps : List (WorkStep U)) :
    summary report (us.map handOut ++ steps) = summary report steps := by
  induction us with
  | nil => rfl
  | cons u us ih => exact ih

/-! ### Counts -/

/-- The units a smooth list of steps reports are those whose results it applies. -/
theorem summary_of_smooth {steps : List (WorkStep U)} (h : Smooth steps) (report : PhaseReport) :
    ∃ report', summary report steps = .ok report' ∧
      report'.units = report.units + (applied steps).length := by
  induction steps generalizing report with
  | nil => exact ⟨report, rfl, rfl⟩
  | cons step steps ih =>
    have ih := ih (smooth_of_cons h)
    match step with
    | .handOut u => exact ih report
    | .apply u (.ok outcome) =>
      obtain ⟨report', hreport, count⟩ := ih (report.record outcome)
      refine ⟨report', hreport, ?_⟩
      rw [count, PhaseReport.units_record]
      simp only [applied, List.filterMap_cons, applied?, List.length_cons]
      omega
    | .apply u (.error e) => exact absurd List.mem_cons_self (h u e)

theorem summary_of_failure {past future : List (WorkStep U)} (h : Smooth past) (report : PhaseReport)
    (u : U) (e : StoreError) : summary report (past ++ apply u (.error e) :: future) = .error e := by
  induction past generalizing report with
  | nil => rfl
  | cons step past ih =>
    have ih := ih (smooth_of_cons h)
    match step with
    | .handOut v => exact ih report
    | .apply v (.ok outcome) => exact ih (report.record outcome)
    | .apply v (.error e') => exact absurd List.mem_cons_self (h v e')

end WorkStep

/-- The progress that an event tells. -/
def Event.progress? : Event → Option (Nat × Nat)
  | .progress done total => some (done, total)
  | _ => none

/-- Progress counts the results from one on. -/
theorem WorkStep.progress_shown {steps : List (WorkStep U)} (h : Smooth steps) (t : Treatment U)
    (total done : Nat) :
    (shown t total done steps).filterMap Event.progress? =
      (List.range' (done + 1) (applied steps).length).map (·, total) := by
  induction steps generalizing done with
  | nil => rfl
  | cons step steps ih =>
    have ih := ih (smooth_of_cons h)
    match step with
    | .handOut u => exact ih done
    | .apply u (.ok outcome) => exact congrArg ((done + 1, total) :: ·) (ih (done + 1))
    | .apply u (.error e) => exact absurd List.mem_cons_self (h u e)

/-! ## Pools -/

/-- The units that have not been handed out, and those that are outstanding. -/
structure Pool (U : Type) where
  waiting : List U
  running : List U

namespace Pool

open WorkStep

variable {jobs : Nat} {p p' : Pool U} {steps : List (WorkStep U)}

/-- One step moves one unit. -/
inductive Turn (jobs : Nat) : Pool U → WorkStep U → Pool U → Prop where
  | handOut {u : U} {waiting running : List U} (free : running.length < jobs) :
    Turn jobs ⟨u :: waiting, running⟩ (handOut u) ⟨waiting, running ++ [u]⟩
  | apply {u : U} {waiting running rest : List U} (result : Except StoreError Outcome)
    (finished : running.Perm (u :: rest)) : Turn jobs ⟨waiting, running⟩ (apply u result) ⟨waiting, rest⟩

inductive Run (jobs : Nat) : Pool U → List (WorkStep U) → Pool U → Prop where
  | nil (p : Pool U) : Run jobs p [] p
  | cons {p p₁ p' : Pool U} {step : WorkStep U} {steps : List (WorkStep U)} :
    Turn jobs p step p₁ → Run jobs p₁ steps p' → Run jobs p (step :: steps) p'

/-- A run stands somewhere between any two steps. -/
theorem Run.split {past future : List (WorkStep U)} (h : Run jobs p (past ++ future) p') :
    ∃ mid, Run jobs p past mid ∧ Run jobs mid future p' := by
  induction past generalizing p with
  | nil => exact ⟨p, .nil p, h⟩
  | cons step past ih =>
    cases h with
    | cons turn run =>
      obtain ⟨mid, before, after⟩ := ih run
      exact ⟨mid, .cons turn before, after⟩

/-- What a step hands out was waiting, and what it hands out or found outstanding is applied or still
outstanding. -/
theorem Turn.counts {step : WorkStep U} (h : Turn jobs p step p') :
    step.handed?.toList ++ p'.waiting = p.waiting ∧
      (p.running ++ step.handed?.toList).Perm (step.applied?.toList ++ p'.running) ∧
      (p.running.length ≤ jobs → p'.running.length ≤ jobs) := by
  cases h with
  | handOut free =>
    refine ⟨rfl, .refl _, fun _ => ?_⟩
    rw [List.length_append]
    exact free
  | apply result finished =>
    refine ⟨rfl, by simpa [handed?, applied?] using finished, fun fits => ?_⟩
    have := finished.length_eq
    simp only [List.length_cons] at this fits ⊢
    omega

theorem Run.counts (h : Run jobs p steps p') :
    handed steps ++ p'.waiting = p.waiting ∧
      (p.running ++ handed steps).Perm (applied steps ++ p'.running) ∧
      (p.running.length ≤ jobs → p'.running.length ≤ jobs) := by
  induction h with
  | nil p => exact ⟨rfl, by simp [handed, applied], id⟩
  | @cons p p₁ p' step steps turn run ih =>
    obtain ⟨waited, kept, fits⟩ := turn.counts
    obtain ⟨waited', kept', fits'⟩ := ih
    have handed_cons : handed (step :: steps) = step.handed?.toList ++ handed steps := by
      cases step <;> rfl
    have applied_cons : applied (step :: steps) = step.applied?.toList ++ applied steps := by
      cases step <;> rfl
    refine ⟨?_, ?_, fits' ∘ fits⟩
    · rw [handed_cons, List.append_assoc, waited', waited]
    · rw [handed_cons, applied_cons, List.append_assoc, ← List.append_assoc]
      refine (kept.append_right _).trans ?_
      rw [List.append_assoc]
      exact kept'.append_left _

/-- Waiting units are handed out as long as fewer than `jobs` are outstanding. -/
theorem Run.handOuts {us waiting running : List U} (free : running.length + us.length ≤ jobs)
    (h : Run jobs ⟨waiting, running ++ us⟩ steps p') :
    Run jobs ⟨us ++ waiting, running⟩ (us.map handOut ++ steps) p' := by
  induction us generalizing running with
  | nil => simpa using h
  | cons u us ih =>
    rw [List.length_cons] at free
    refine .cons (.handOut (by omega)) (ih ?_ (by simpa using h))
    rw [List.length_append, List.length_singleton]
    omega

end Pool

/-! ## The loop -/

open WorkStep

/-- The loop with this pool can be told as these steps. -/
structure Driven (t : Treatment U) (jobs total : Nat) (p : Pool U) (report : PhaseReport) (done : Nat)
    (o : Observed) (steps : List (WorkStep U)) (result : Except StoreError PhaseReport)
    (o' : Observed) : Prop where
  result_eq : result = summary report steps
  plays : Plays t o.graph steps o'.graph
  events_eq : o'.events = o.events ++ shown t total done steps
  /-- All units are treated, or the last step is the only one that fails. -/
  ends : ∃ p', Pool.Run jobs p steps p' ∧
    (Smooth steps ∧ p' = ⟨[], []⟩ ∨
      ∃ past u e, steps = past ++ [.apply u (.error e)] ∧ Smooth past)

/-! ### One turn of the loop -/

/-- What has been seen once these units are announced. -/
def Observed.announce (o : Observed) (t : Treatment U) (us : List U) : Observed :=
  { o with events := o.events ++ us.map (.before <| t.item ·) }

theorem run_announce {α : Type} (t : Treatment U) (us : List U) (w : Work α) (o : Observed) :
    ExceptT.run (do us.forM fun u => Work.see (.before (t.item u)); w) o =
      ExceptT.run w (o.announce t us) := by
  induction us generalizing o with
  | nil => simp only [Observed.announce, List.map_nil, List.append_nil]; rfl
  | cons u us ih =>
    refine (ih (o.announce t [u])).trans ?_
    simp only [Observed.announce, List.map_cons, List.map_nil, List.append_assoc, List.singleton_append]

section Turn

variable {t : Treatment U} {jobs total done : Nat} {order : FinishOrder} {waiting running : List U}
  {report : PhaseReport} {o : Observed}

theorem run_drive_of_idle
    (idle : pick? (running ++ waiting.take (jobs - running.length)) (order done) = none) :
    ExceptT.run (drive t jobs order total waiting running report done) o =
      (.ok report, o.announce t (waiting.take (jobs - running.length))) := by
  rw [drive, run_announce]
  split
  · rfl
  · rename_i picked
    rw [idle] at picked
    cases picked

/-- The result of a unit that is picked is applied, or ends the loop. -/
theorem run_drive_of_picked {u : U} {rest : List U} {result : Except StoreError Outcome} {g : Graph}
    (picked : pick? (running ++ waiting.take (jobs - running.length)) (order done) = some (u, rest))
    (applied : (t.apply u).exec o.graph = (result, g)) :
    ExceptT.run (drive t jobs order total waiting running report done) o =
      let announced := (o.announce t (waiting.take (jobs - running.length))).events
      match result with
      | .error e => (.error e, ⟨g, announced⟩)
      | .ok outcome =>
        ExceptT.run (drive t jobs order total (waiting.drop (jobs - running.length)) rest
          (report.record outcome) (done + 1))
          ⟨g, announced ++ [.after (t.item u) outcome, .progress (done + 1) total]⟩ := by
  rw [drive, run_announce]
  split
  · rename_i idle
    rw [picked] at idle
    cases idle
  · rename_i picked'
    rw [picked] at picked'
    cases picked'
    have updated : ExceptT.run (Work.update (t.apply u))
        (o.announce t (waiting.take (jobs - running.length))) =
          (result, ⟨g, (o.announce t (waiting.take (jobs - running.length))).events⟩) := by
      show (((t.apply u).exec o.graph).1, Observed.mk ((t.apply u).exec o.graph).2 _) = _
      rw [applied]
    rw [run_bind_state, updated]
    rcases result with e | outcome
    · rfl
    · simp only
      rw [← List.singleton_append, ← List.append_assoc]
      rfl

end Turn

/-! ### All turns -/

section Driven

variable {t : Treatment U} {jobs total done : Nat} {waiting running rest us : List U} {u : U}
  {report : PhaseReport} {o o' : Observed} {g : Graph} {steps : List (WorkStep U)}
  {result : Except StoreError PhaseReport}

/-- Units are handed out before the loop goes on. -/
theorem Driven.handOuts (free : running.length + us.length ≤ jobs)
    (h : Driven t jobs total ⟨waiting, running ++ us⟩ report done (o.announce t us) steps result o') :
    Driven t jobs total ⟨us ++ waiting, running⟩ report done o (us.map handOut ++ steps) result o' := by
  obtain ⟨p', run, ends⟩ := h.ends
  refine ⟨?_, h.plays.handOuts us, ?_, p', run.handOuts free, ?_⟩
  · rw [summary_handOuts, h.result_eq]
  · rw [shown_handOuts, ← List.append_assoc]
    exact h.events_eq
  · refine ends.imp (fun ⟨smooth, idle⟩ => ⟨smooth_handOuts smooth us, idle⟩) ?_
    rintro ⟨past, u, e, last, smooth⟩
    exact ⟨us.map handOut ++ past, u, e, by rw [last, List.append_assoc], smooth_handOuts smooth us⟩

/-- A result is applied before the loop goes on. -/
theorem Driven.apply {outcome : Outcome} (finished : running.Perm (u :: rest))
    (applied : (t.apply u).exec o.graph = (.ok outcome, g))
    (h : Driven t jobs total ⟨waiting, rest⟩ (report.record outcome) (done + 1)
      ⟨g, o.events ++ [.after (t.item u) outcome, .progress (done + 1) total]⟩ steps result o') :
    Driven t jobs total ⟨waiting, running⟩ report done o (.apply u (.ok outcome) :: steps) result o' := by
  obtain ⟨p', run, ends⟩ := h.ends
  have smooth_cons {steps : List (WorkStep U)} (smooth : Smooth steps) :
      Smooth (.apply u (.ok outcome) :: steps) := by
    intro v e hmem
    rcases List.mem_cons.1 hmem with same | hmem
    · cases same
    · exact smooth v e hmem
  refine ⟨h.result_eq, .apply applied h.plays, ?_, p', .cons (.apply _ finished) run, ?_⟩
  · rw [h.events_eq, List.append_assoc]
    rfl
  · refine ends.imp (fun ⟨smooth, idle⟩ => ⟨smooth_cons smooth, idle⟩) ?_
    rintro ⟨past, v, e, last, smooth⟩
    exact ⟨.apply u (.ok outcome) :: past, v, e, by rw [last, List.cons_append], smooth_cons smooth⟩

/-- A result that cannot be applied is the last. -/
theorem Driven.fail {e : StoreError} (finished : running.Perm (u :: rest))
    (applied : (t.apply u).exec o.graph = (.error e, g)) :
    Driven t jobs total ⟨waiting, running⟩ report done o [.apply u (.error e)] (.error e)
      ⟨g, o.events⟩ where
  result_eq := rfl
  plays := .apply applied (.nil g)
  events_eq := (List.append_nil _).symm
  ends := ⟨⟨waiting, rest⟩, .cons (.apply _ finished) (.nil _), .inr ⟨[], u, e, rfl, smooth_nil⟩⟩

end Driven

/-- The loop can be told in steps, whatever the order in which workers finish. -/
theorem drive_driven (t : Treatment U) {jobs : Nat} (hjobs : 0 < jobs) (order : FinishOrder)
    (total : Nat) (waiting running : List U) (fits : running.length ≤ jobs) (report : PhaseReport)
    (done : Nat) (o : Observed) :
    ∃ steps result o',
      ExceptT.run (drive t jobs order total waiting running report done) o = (result, o') ∧
      Driven t jobs total ⟨waiting, running⟩ report done o steps result o' := by
  fun_induction schedule jobs order waiting running done generalizing report o with
  | case1 waiting running done free idle =>
    obtain ⟨rfl, unhanded⟩ := List.append_eq_nil_iff.1 (eq_nil_of_pick? idle)
    obtain rfl : waiting = [] := by
      refine (List.take_eq_nil_iff.1 unhanded).resolve_left ?_
      simp only [free, List.length_nil]
      omega
    refine ⟨[], _, _, run_drive_of_idle idle, rfl, .nil _, ?_, _, .nil _, .inl ⟨smooth_nil, rfl⟩⟩
    simp [Observed.announce, shown]
  | case2 waiting running done free u rest picked ih =>
    have finished := perm_of_pick? picked
    have room : running.length + (waiting.take free).length ≤ jobs := by
      rw [List.length_take]
      omega
    have fits' : rest.length ≤ jobs := by
      have := finished.length_eq
      simp only [List.length_append, List.length_cons] at this
      omega
    have handed {steps result o'} (h : Driven t jobs total
        ⟨waiting.drop free, running ++ waiting.take free⟩ report done (o.announce t (waiting.take free))
        steps result o') := h.handOuts room
    rw [List.take_append_drop] at handed
    rcases applied : (t.apply u).exec o.graph with ⟨e | outcome, g⟩
    · exact ⟨_, _, _, run_drive_of_picked picked applied, handed (.fail finished applied)⟩
    · obtain ⟨steps, result, o', run, driven⟩ := ih fits' (report.record outcome)
        ⟨g, (o.announce t (waiting.take free)).events ++
          [.after (t.item u) outcome, .progress (done + 1) total]⟩
      exact ⟨_, result, o', (run_drive_of_picked picked applied).trans run,
        handed (.apply finished applied driven)⟩

/-- A failure that is the last step is the only one. -/
theorem future_eq_nil_of_failure {past past' future : List (WorkStep U)} {u v : U} {e e' : StoreError}
    (smooth : Smooth past) (h : past ++ [.apply u (.error e)] = past' ++ .apply v (.error e') :: future) :
    future = [] ∧ past = past' := by
  rcases List.eq_nil_or_concat future with rfl | ⟨future, last, rfl⟩
  · exact ⟨rfl, (List.append_inj' h rfl).1⟩
  · rw [List.concat_eq_append, ← List.cons_append, ← List.append_assoc] at h
    have earlier : past = past' ++ .apply v (.error e') :: future := (List.append_inj' h rfl).1
    exact absurd (earlier ▸ List.mem_append_right _ List.mem_cons_self) (smooth v e')

/-- The loop neither loses nor repeats work: units are announced and handed out in order and once, no
more than `max jobs 1` of them are ever outstanding, and a result is applied once, after its unit was
handed out.  If all results can be applied then all are, and the report and the progress count them;
the first result that cannot be applied is the last, and the loop ends with its error. -/
theorem treatAll_accountable (t : Treatment U) (jobs : Nat) (order : FinishOrder) (units : List U)
    (o : Observed) :
    ∃ steps result o',
      ExceptT.run (treatAll t jobs order units) o = (result, o') ∧
      Plays t o.graph steps o'.graph ∧
      o'.events = o.events ++ shown t units.length 0 steps ∧
      handed steps <+: units ∧
      (∀ past future, steps = past ++ future →
        (applied past).Subperm (handed past) ∧
        (handed past).length ≤ (applied past).length + max jobs 1) ∧
      (Smooth steps →
        handed steps = units ∧ (applied steps).Perm units ∧
        (shown t units.length 0 steps).filterMap Event.progress? =
          (List.range' 1 units.length).map (·, units.length) ∧
        ∃ report, result = .ok report ∧
          report.processed + report.failed + report.skipped = units.length) ∧
      ∀ past u e future, steps = past ++ .apply u (.error e) :: future →
        future = [] ∧ result = .error e := by
  obtain ⟨steps, result, o', run, driven⟩ := drive_driven t (Nat.le_max_right jobs 1) order units.length
    units [] (Nat.zero_le _) {} 0 o
  obtain ⟨p', turns, ends⟩ := driven.ends
  obtain ⟨waited, kept, -⟩ := turns.counts
  refine ⟨steps, result, o', run, driven.plays, driven.events_eq, ⟨_, waited⟩, ?_, ?_, ?_⟩
  · rintro past future rfl
    obtain ⟨mid, before, -⟩ := turns.split
    obtain ⟨-, kept, fits⟩ := before.counts
    rw [List.nil_append] at kept
    refine ⟨(List.sublist_append_left _ _).subperm.trans kept.symm.subperm, ?_⟩
    have count := kept.length_eq
    rw [List.length_append] at count
    have := fits (Nat.zero_le _)
    omega
  · intro smooth
    obtain rfl : p' = ⟨[], []⟩ := by
      obtain ⟨-, idle⟩ | ⟨past, u, e, last, -⟩ := ends
      · exact idle
      · exact absurd (last ▸ List.mem_append_right _ List.mem_cons_self) (smooth u e)
    have all : handed steps = units := by simpa using waited
    have perm : (applied steps).Perm units := by simpa [all] using kept.symm
    obtain ⟨report, hreport, count⟩ := summary_of_smooth smooth {}
    refine ⟨all, perm, ?_, report, driven.result_eq.trans hreport, ?_⟩
    · rw [progress_shown smooth, perm.length_eq]
    · rw [perm.length_eq] at count
      simp only [PhaseReport.units] at count
      omega
  · intro past u e future failed
    obtain ⟨smooth, -⟩ | ⟨past', u', e', last, smooth⟩ := ends
    · exact absurd (failed ▸ List.mem_append_right _ List.mem_cons_self) (smooth u e)
    · obtain ⟨rfl, rfl⟩ := future_eq_nil_of_failure smooth (last.symm.trans failed)
      exact ⟨rfl, by rw [driven.result_eq, failed, summary_of_failure smooth]⟩

end BuildAudit
