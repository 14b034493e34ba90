import BuildAudit.Graph.Update

/-!
# Stores

A graph with at most one open transaction.  While a transaction is open, the graph as it was before
is kept, and rolling back returns to it.
-/

namespace BuildAudit

structure Store where
  graph : Graph := {}
  /-- The graph at the beginning of the open transaction. -/
  saved : Option Graph := none
  deriving DecidableEq, Repr

namespace Store

def empty : Store := {}

def inTransaction (s : Store) : Bool := s.saved.isSome

def begin (s : Store) : Except StoreError Store :=
  match s.saved with
  | some _ => .error .nestedTransaction
  | none => .ok { s with saved := some s.graph }

def commit (s : Store) : Except StoreError Store :=
  match s.saved with
  | some _ => .ok { s with saved := none }
  | none => .error .commitOutside

def rollback (s : Store) : Except StoreError Store :=
  match s.saved with
  | some graph => .ok { graph, saved := none }
  | none => .error .rollbackOutside

/-- The store as another owner of its database finds it: an open transaction is lost. -/
def reopened (s : Store) : Store := { graph := s.saved.getD s.graph }

/-- Runs one statement, in the open transaction or by itself. -/
def run {α : Type} (s : Store) (u : Update α) : Except StoreError α × Store :=
  let (result, graph) := ExceptT.run u s.graph
  (result, { s with graph })

/-- Runs `work` as one transaction.  It is rolled back when the work has not succeeded, or when it
was a rehearsal. -/
def transaction {β : Type} (s : Store) (rehearsal : Bool) (succeeded : β → Bool)
    (work : StateM Graph β) : Except StoreError β × Store :=
  match s.begin with
  | .error e => (.error e, s)
  | .ok opened =>
    let (result, graph) := work.run opened.graph
    let changed := { opened with graph }
    if succeeded result then
      match (if rehearsal then changed.rollback else changed.commit) with
      | .ok closed => (.ok result, closed)
      | .error e => (.error e, changed)
    else (.ok result, changed.rollback.toOption.getD changed)

/-- Changes the graph outside any update. -/
def mapGraph (s : Store) (f : Graph → Graph) : Store := { s with graph := f s.graph }

end Store

end BuildAudit
