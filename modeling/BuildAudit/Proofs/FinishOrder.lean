import Mathlib.Data.List.Perm.Basic
import BuildAudit.Extraction.Workers
import BuildAudit.Proofs.Running

/-!
# Workers and the order in which they finish

Which unit finishes next does not depend on what its result does to the graph, so the order in which
`drive` writes results can be computed beforehand: `schedule`.  It is a rearrangement of the units
(`schedule_perm`), and a phase does to the graph what `treatInOrder` does, which writes the results in
the order of a list and knows of no workers (`treatAll_mirrors`).
-/

namespace BuildAudit

variable {α β U : Type}

/-! ## Watched work as an update -/

/-- To the graph, the work is the update: same result, same graph. -/
def Work.Mirrors (w : Work α) (u : Update α) : Prop :=
  ∀ o : Observed,
    (ExceptT.run w o).1 = (u.exec o.graph).1 ∧ (ExceptT.run w o).2.graph = (u.exec o.graph).2

namespace Work

theorem mirrors_pure (a : α) : (pure a : Work α).Mirrors (pure a) := fun _ => ⟨rfl, rfl⟩

theorem mirrors_ofExcept (r : Except StoreError α) :
    (ofExcept r : Work α).Mirrors (ofExcept r) := by
  rcases r with e | a <;> exact fun _ => ⟨rfl, rfl⟩

theorem mirrors_update (u : Update α) : (Work.update u).Mirrors u := fun _ => ⟨rfl, rfl⟩

theorem Mirrors.bind {w : Work α} {u : Update α} {f : α → Work β} {v : α → Update β}
    (h : w.Mirrors u) (hf : ∀ a, (f a).Mirrors (v a)) : (w >>= f).Mirrors (u >>= v) := by
  intro o
  obtain ⟨hr, hg⟩ := h o
  rw [run_bind_state, Update.exec_bind]
  rcases hw : ExceptT.run w o with ⟨_ | a, o'⟩ <;> rcases hu : u.exec o.graph with ⟨_ | b, g'⟩ <;>
    simp only [hw, hu, Except.error.injEq, Except.ok.injEq, reduceCtorEq] at hr hg <;>
    subst hr hg
  · exact ⟨rfl, rfl⟩
  · exact hf a o'

/-- What only looks at the graph mirrors an update that looks at it. -/
theorem mirrors_get {f : Graph → Work β} {v : Graph → Update β} (h : ∀ g, (f g).Mirrors (v g)) :
    (do f (← get).graph).Mirrors (do v (← get)) := fun o => h o.graph o

/-- Work that is only seen is nothing to the graph. -/
theorem Mirrors.see_bind {e : Event} {w : Work α} {u : Update α} (h : w.Mirrors u) :
    (do see e; w).Mirrors u := fun o => h { o with events := o.events ++ [e] }

theorem Mirrors.forM_see_bind {us : List U} {e : U → Event} {w : Work α} {u : Update α}
    (h : w.Mirrors u) : (do us.forM fun a => see (e a); w).Mirrors u := by
  induction us with
  | nil => exact h
  | cons a us ih => exact fun o => ih { o with events := o.events ++ [e a] }

theorem mirrors_forM {f : α → Work PUnit} {v : α → Update PUnit} (h : ∀ a, (f a).Mirrors (v a)) :
    ∀ as : List α, (as.forM f).Mirrors (as.forM v)
  | [] => mirrors_pure _
  | a :: as => (h a).bind fun _ => mirrors_forM h as

end Work

/-! ## The schedule -/

theorem perm_of_pick? {xs rest : List α} {position : Nat} {x : α}
    (h : pick? xs position = some (x, rest)) : xs.Perm (x :: rest) := by
  obtain ⟨y, hy, he⟩ := Option.map_eq_some_iff.1 h
  obtain ⟨rfl, rfl⟩ := Prod.mk.inj he
  obtain ⟨hlt, rfl⟩ := List.getElem?_eq_some_iff.1 hy
  exact (List.getElem_cons_eraseIdx_perm hlt).symm

theorem eq_nil_of_pick? {xs : List α} {position : Nat} (h : pick? xs position = none) : xs = [] := by
  rcases xs with _ | ⟨x, xs⟩
  · rfl
  · rw [pick?, Option.map_eq_none_iff, List.getElem?_eq_none_iff] at h
    have := Nat.mod_lt position (Nat.zero_lt_succ xs.length)
    exact absurd h (Nat.not_le_of_lt this)

/-- The units in the order in which they finish. -/
def schedule (jobs : Nat) (order : FinishOrder) (waiting running : List U) (done : Nat) : List U :=
  let free := jobs - running.length
  match h : pick? (running ++ waiting.take free) (order done) with
  | none => []
  | some (u, rest) => u :: schedule jobs order (waiting.drop free) rest (done + 1)
termination_by waiting.length + running.length
decreasing_by
  have := length_of_pick? h
  simp only [List.length_append, List.length_take, List.length_drop] at *
  omega

/-- With at least one worker, every unit finishes once. -/
theorem schedule_perm {jobs : Nat} (hjobs : 0 < jobs) (order : FinishOrder)
    (waiting running : List U) (done : Nat) :
    (schedule jobs order waiting running done).Perm (running ++ waiting) := by
  fun_induction schedule jobs order waiting running done with
  | case1 waiting running done free h =>
    obtain ⟨rfl, idle⟩ := List.append_eq_nil_iff.1 (eq_nil_of_pick? h)
    rcases waiting with _ | ⟨u, us⟩
    · rfl
    · obtain ⟨n, hn⟩ : ∃ n, free = n + 1 := ⟨free - 1, by simp only [free, List.length_nil]; omega⟩
      rw [hn] at idle
      cases idle
  | case2 waiting running done free u rest h ih =>
    have split : running ++ waiting = (running ++ waiting.take free) ++ waiting.drop free := by
      rw [List.append_assoc, List.take_append_drop]
    rw [split]
    exact (ih.cons u).trans ((perm_of_pick? h).symm.append_right _)

/-! ## Results in the order of the schedule -/

/-- Writes the results of units in the order of a list. -/
def treatInOrder (apply : U → Update Outcome) (report : PhaseReport) (units : List U) :
    Update PhaseReport :=
  units.foldlM (fun report u => report.record <$> apply u) report

/-- How many units a report counts. -/
def PhaseReport.units (r : PhaseReport) : Nat := r.processed + r.skipped + r.failed

theorem PhaseReport.upToDate_record (r : PhaseReport) (outcome : Outcome) :
    (r.record outcome).upToDate = r.upToDate := by
  cases outcome <;> rfl

theorem PhaseReport.units_record (r : PhaseReport) (outcome : Outcome) :
    (r.record outcome).units = r.units + 1 := by
  cases outcome <;> simp only [record, units] <;> omega

/-- A report counts every unit once, and counting never makes it claim that there was nothing to
do. -/
theorem counts_treatInOrder {apply : U → Update Outcome} {units : List U}
    {report report' : PhaseReport} {g g' : Graph}
    (h : (treatInOrder apply report units).exec g = (.ok report', g')) :
    report'.upToDate = report.upToDate ∧ report'.units = report.units + units.length := by
  induction units generalizing report g with
  | nil =>
    cases h
    exact ⟨rfl, rfl⟩
  | cons u units ih =>
    rw [treatInOrder, List.foldlM_cons] at h
    obtain ⟨report₁, g₁, first, rest⟩ := Update.exec_bind_eq_ok h
    rw [Update.exec_map] at first
    rcases hr : (apply u).exec g with ⟨e | outcome, g''⟩ <;> rw [hr] at first <;> cases first
    obtain ⟨upToDate, counted⟩ := ih rest
    rw [upToDate, counted, PhaseReport.upToDate_record, PhaseReport.units_record, List.length_cons]
    exact ⟨rfl, by omega⟩

theorem drive_mirrors (t : Treatment U) (jobs : Nat) (order : FinishOrder) (total : Nat)
    (waiting running : List U) (report : PhaseReport) (done : Nat) :
    (drive t jobs order total waiting running report done).Mirrors
      (treatInOrder t.apply report (schedule jobs order waiting running done)) := by
  fun_induction schedule jobs order waiting running done generalizing report with
  | case1 waiting running done free h =>
    rw [drive]
    refine Work.Mirrors.forM_see_bind ?_
    split
    · exact Work.mirrors_pure report
    · rename_i h'
      rw [h] at h'
      cases h'
  | case2 waiting running done free u rest h ih =>
    rw [drive]
    refine Work.Mirrors.forM_see_bind ?_
    split
    · rename_i h'
      rw [h] at h'
      cases h'
    · rename_i h'
      rw [h] at h'
      cases h'
      rw [treatInOrder, List.foldlM_cons, ← bind_pure_comp, bind_assoc]
      simp only [pure_bind]
      exact (Work.mirrors_update _).bind fun outcome => (ih _).see_bind.see_bind

/-- Workers that finish in some order write what one worker writes who takes the units in that
order. -/
theorem treatAll_mirrors (t : Treatment U) (jobs : Nat) (order : FinishOrder) (units : List U) :
    (treatAll t jobs order units).Mirrors
      (treatInOrder t.apply {} (schedule (max jobs 1) order units [] 0)) :=
  drive_mirrors t (max jobs 1) order units.length units [] {} 0

end BuildAudit
