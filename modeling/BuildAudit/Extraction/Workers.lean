import BuildAudit.Resolution
import BuildAudit.Store

/-!
# Workers

A phase works through a list of units with a bounded number of workers.  Units are handed out in
order; the results are written one after the other, as workers finish.  In which order they finish
is not decided here: it is a parameter.  What an onlooker may see is kept as a list of events.
-/

namespace BuildAudit

/-- What a worker is busy with. -/
inductive WorkItem where
  | command (record : CommandRecord)
  | artifact (row : Artifact)
  deriving DecidableEq, Repr

def WorkItem.text : WorkItem → String
  | command c => "command " ++ toString c.id ++ " (" ++ c.commandLine ++ ")"
  | artifact a => a.type.name ++ " " ++ a.name

/-- How the work on one unit ended. -/
inductive Outcome where
  /-- The results are written. -/
  | completed (warnings : List String)
  /-- There was nothing to do. -/
  | skipped (reason : String)
  /-- Nothing is written. -/
  | failed (error : String)
  deriving DecidableEq, Repr

/-- What can be seen of a phase while it runs. -/
inductive Event where
  /-- A unit is handed to a worker. -/
  | before (item : WorkItem)
  /-- The result of a unit is dealt with. -/
  | after (item : WorkItem) (outcome : Outcome)
  | progress (done total : Nat)
  deriving DecidableEq, Repr

/-- How many units ended in which way. -/
structure PhaseReport where
  processed : Nat := 0
  failed : Nat := 0
  skipped : Nat := 0
  /-- The phase had nothing to do, because its results are current. -/
  upToDate : Bool := false
  deriving DecidableEq, Repr

namespace PhaseReport

/-- The report of a phase that did not run. -/
def current : PhaseReport := { upToDate := true }

def record (r : PhaseReport) : Outcome → PhaseReport
  | .completed _ => { r with processed := r.processed + 1 }
  | .skipped _ => { r with skipped := r.skipped + 1 }
  | .failed _ => { r with failed := r.failed + 1 }

end PhaseReport

/-! ### Observed work -/

/-- The graph and what has been seen so far. -/
structure Observed where
  graph : Graph
  events : List Event := []
  deriving DecidableEq, Repr

/-- Work on the graph that can be watched. -/
abbrev Work := ExceptT StoreError (StateM Observed)

/-- An update as part of a work. -/
def Work.update {α : Type} (u : Update α) : Work α := fun o =>
  let (result, graph) := ExceptT.run u o.graph
  (result, { o with graph })

def Work.see (e : Event) : Work Unit := modify fun o => { o with events := o.events ++ [e] }

/-! ### The loop -/

/-- Which of the outstanding units finishes next, by the number of those that have finished.  The
number counts from the unit that was handed out first and wraps around. -/
abbrev FinishOrder := Nat → Nat

/-- Units finish in the order in which they are handed out. -/
def FinishOrder.fifo : FinishOrder := fun _ => 0

/-- The element at a position that wraps around, and the others. -/
def pick? {α : Type} (xs : List α) (position : Nat) : Option (α × List α) :=
  (xs[position % xs.length]?).map (·, xs.eraseIdx (position % xs.length))

theorem length_of_pick? {α : Type} {xs rest : List α} {position : Nat} {x : α}
    (h : pick? xs position = some (x, rest)) : rest.length + 1 = xs.length := by
  obtain ⟨y, hy, he⟩ := Option.map_eq_some_iff.1 h
  cases he
  have hlt := (List.getElem?_eq_some_iff.1 hy).1
  rw [List.length_eraseIdx_of_lt hlt]
  omega

/-- How a phase treats its units. -/
structure Treatment (U : Type) where
  item : U → WorkItem
  apply : U → Update Outcome

/-- Hands out waiting units while fewer than `jobs` are outstanding, writes the result of the next
one to finish, and goes on until no unit is left. -/
def drive {U : Type} (t : Treatment U) (jobs : Nat) (order : FinishOrder) (total : Nat)
    (waiting running : List U) (report : PhaseReport) (done : Nat) : Work PhaseReport := do
  let free := jobs - running.length
  (waiting.take free).forM fun u => Work.see (.before (t.item u))
  match h : pick? (running ++ waiting.take free) (order done) with
  | none => return report
  | some (u, rest) =>
    let outcome ← Work.update (t.apply u)
    Work.see (.after (t.item u) outcome)
    Work.see (.progress (done + 1) total)
    drive t jobs order total (waiting.drop free) rest (report.record outcome) (done + 1)
termination_by waiting.length + running.length
decreasing_by
  have := length_of_pick? h
  simp only [List.length_append, List.length_take, List.length_drop] at *
  omega

/-- Treats every unit, with at most `jobs` of them outstanding, and at least one. -/
def treatAll {U : Type} (t : Treatment U) (jobs : Nat) (order : FinishOrder) (units : List U) :
    Work PhaseReport :=
  drive t (max jobs 1) order units.length units [] {} 0

end BuildAudit
