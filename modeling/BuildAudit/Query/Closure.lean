import BuildAudit.Graph

/-!
# Closures

Everything that can be reached from an artifact over one or more edges, nearest first.  A search goes on
in rounds: each takes an artifact off a queue and adds those of its neighbours that have not been
reached before.  The search ends, as an artifact comes into the queue only when it is reached.
-/

namespace BuildAudit

theorem neighbours_subset (g : Graph) (d : Direction) (id : Id) {a : Artifact}
    (h : a ∈ g.neighbours d id) : a ∈ g.artifacts := by
  cases d <;> exact (List.mem_filter.1 h).1

/-- How far a search has come. -/
structure Search where
  /-- What has been reached.  The start has not been, until an edge leads back to it. -/
  visited : List Id := []
  /-- What is still to be followed. -/
  queue : List Id
  reported : List Artifact := []
  deriving DecidableEq, Repr

namespace Search

/-- A search that has only its start to follow. -/
def start (id : Id) : Search := { queue := [id] }

/-- Reaches an artifact, unless it has been reached before.  The list of kinds says what is reported,
not what is followed; an empty one reports every kind. -/
def reach (types : List ArtifactType) (s : Search) (a : Artifact) : Search :=
  if s.visited.contains a.id then s
  else
    { visited := s.visited ++ [a.id]
      queue := s.queue ++ [a.id]
      reported := if types.isEmpty || types.contains a.type then s.reported ++ [a] else s.reported }

/-- Follows the first artifact of the queue to its neighbours. -/
def round (g : Graph) (d : Direction) (types : List ArtifactType) (s : Search) : Search :=
  match s.queue with
  | [] => s
  | current :: queue => (g.neighbours d current).foldl (reach types) { s with queue }

/-- How many rounds a search can still take: one for all that is in the queue or not reached yet. -/
def pending (g : Graph) (s : Search) : Nat :=
  s.queue.length + g.artifacts.countP (!s.visited.contains ·.id)

/-- Reaching an artifact puts it in the queue, but it has not been reached any more. -/
theorem pending_reach_le {g : Graph} (types : List ArtifactType) (s : Search) {a : Artifact}
    (ha : a ∈ g.artifacts) : (s.reach types a).pending g ≤ s.pending g := by
  unfold reach
  split
  · exact Nat.le_refl _
  · rename_i new
    have fewer : g.artifacts.countP (!(s.visited ++ [a.id]).contains ·.id) <
        g.artifacts.countP (!s.visited.contains ·.id) := by
      rw [List.countP_eq_length_filter, List.countP_eq_length_filter]
      have step : g.artifacts.filter (!(s.visited ++ [a.id]).contains ·.id) =
          (g.artifacts.filter (!s.visited.contains ·.id)).filter fun b => !decide (b.id = a.id) := by
        simp only [List.filter_filter, List.contains_eq_mem, List.mem_append, List.mem_singleton,
          Bool.decide_or, Bool.not_or, Bool.and_comm]
      rw [step, List.length_filter_lt_length_iff_exists]
      exact ⟨a, List.mem_filter.2 ⟨ha, by simpa using new⟩, by simp⟩
    simp only [pending, List.length_append, List.length_singleton]
    omega

theorem pending_foldl_reach_le {g : Graph} (types : List ArtifactType) (s : Search)
    {as : List Artifact} (h : ∀ a ∈ as, a ∈ g.artifacts) :
    (as.foldl (reach types) s).pending g ≤ s.pending g := by
  induction as generalizing s with
  | nil => exact Nat.le_refl _
  | cons a as ih =>
    obtain ⟨ha, h⟩ := List.forall_mem_cons.1 h
    exact Nat.le_trans (ih _ h) (pending_reach_le types s ha)

/-- A round takes one from what is pending. -/
theorem pending_round_lt (g : Graph) (d : Direction) (types : List ArtifactType) {s : Search}
    (h : s.queue ≠ []) : (s.round g d types).pending g < s.pending g := by
  unfold round
  split
  · contradiction
  · rename_i current queue hq
    have le := pending_foldl_reach_le types { s with queue } fun _ ha =>
      neighbours_subset g d current ha
    simp only [pending, hq, List.length_cons] at le ⊢
    omega

/-- Goes on until there is nothing left to follow. -/
def run (g : Graph) (d : Direction) (types : List ArtifactType) (s : Search) : Search :=
  if s.queue = [] then s else run g d types (s.round g d types)
termination_by s.pending g
decreasing_by exact pending_round_lt g d types ‹_›

end Search

/-- Everything that can be reached from an artifact, as far as it is of one of the given kinds, or of
any kind if none is given. -/
def closure (g : Graph) (start : Id) (d : Direction) (types : List ArtifactType) : List Artifact :=
  ((Search.start start).run g d types).reported

end BuildAudit
