import Mathlib.Logic.Relation
import Mathlib.Logic.Function.Iterate
import BuildAudit.Query.Closure
import BuildAudit.Proofs.Integrity

/-!
# Reachability

A closure is what can be reached over one or more edges.  `Search.Explores` says what a search knows
between two rounds, and `explores_round` that a round keeps it; a search that has nothing left to follow
has reached everything (`Explores.complete`).  Kinds only select what is reported (`restrict_round`).
-/

namespace BuildAudit

open Relation BuildAudit.Graph

/-- The graph has an edge from the first artifact to the second, seen in a direction. -/
def Graph.Follows (g : Graph) : Direction → Id → Id → Prop
  | .dependencies, a, b => ⟨a, b⟩ ∈ g.edges
  | .dependees, a, b => ⟨b, a⟩ ∈ g.edges

theorem Graph.mem_neighbours_iff {g : Graph} {d : Direction} {id : Id} {a : Artifact} :
    a ∈ g.neighbours d id ↔ a ∈ g.artifacts ∧ g.Follows d id a.id := by
  cases d <;> simp [Graph.neighbours, Graph.dependenciesOf, Graph.dependeesOf, Graph.Follows]

/-- What an edge leads to is an artifact. -/
theorem Graph.Intact.neighbour {g : Graph} (hg : g.Intact) {d : Direction} {i j : Id}
    (h : g.Follows d i j) : ∃ a ∈ g.neighbours d i, a.id = j := by
  have there : g.hasArtifact j := by
    cases d with
    | dependencies => exact (hg.edgeEnds _ h).2
    | dependees => exact (hg.edgeEnds _ h).1
  obtain ⟨a, ha, rfl⟩ := hasArtifact_iff.1 there
  exact ⟨a, mem_neighbours_iff.2 ⟨ha, h⟩, rfl⟩

namespace Search

variable {g : Graph} {d : Direction} {types : List ArtifactType} {s : Search}

/-! ## Rounds -/

theorem round_of_done (h : s.queue = []) : s.round g d types = s := by
  unfold round
  rw [h]

/-- A search takes no more rounds than are pending. -/
theorem run_eq_iterate {n : Nat} (h : s.pending g ≤ n) :
    s.run g d types = (round g d types)^[n] s := by
  induction n generalizing s with
  | zero =>
    have done : s.queue = [] := by
      rw [← List.length_eq_zero_iff]
      unfold pending at h
      omega
    rw [run, if_pos done, Function.iterate_zero_apply]
  | succ n ih =>
    rw [run]
    split
    case isTrue done => exact (Function.iterate_fixed (round_of_done done) _).symm
    case isFalse todo =>
      have less := pending_round_lt g d types todo
      rw [ih (by omega), Function.iterate_succ_apply]

theorem queue_run (g : Graph) (d : Direction) (types : List ArtifactType) (s : Search) :
    (s.run g d types).queue = [] := by
  fun_induction run g d types s with
  | case1 s done => exact done
  | case2 s todo ih => exact ih

theorem pending_start (g : Graph) (id : Id) : (start id).pending g = g.artifacts.length + 1 := by
  simp [pending, start, Nat.add_comm]

/-- Of some artifacts, those that have not been reached are reached now, each once. -/
theorem foldl_reach (s : Search) (as : List Artifact) :
    ∃ fresh, fresh ⊆ as ∧
      as.foldl (reach []) s =
        ⟨s.visited ++ fresh.map (·.id), s.queue ++ fresh.map (·.id), s.reported ++ fresh⟩ ∧
      (s.visited.Nodup → (s.visited ++ fresh.map (·.id)).Nodup) ∧
      ∀ a ∈ as, a.id ∈ s.visited ++ fresh.map (·.id) := by
  induction as generalizing s with
  | nil => exact ⟨[], List.nil_subset _, by simp, by simp, nofun⟩
  | cons a as ih =>
    rw [List.foldl_cons]
    by_cases known : a.id ∈ s.visited
    · have same : s.reach [] a = s := by simp [reach, known]
      obtain ⟨fresh, sub, eq, nodup, all⟩ := ih s
      rw [same]
      refine ⟨fresh, List.subset_cons_of_subset a sub, eq, nodup, List.forall_mem_cons.2 ⟨?_, all⟩⟩
      exact List.mem_append_left _ known
    · have new : s.reach [] a =
          ⟨s.visited ++ [a.id], s.queue ++ [a.id], s.reported ++ [a]⟩ := by simp [reach, known]
      obtain ⟨fresh, sub, eq, nodup, all⟩ := ih (s.reach [] a)
      rw [new] at eq nodup all ⊢
      refine ⟨a :: fresh, List.cons_subset_cons a sub, by simpa using eq, fun once => ?_, ?_⟩
      · simpa using nodup (by simpa [List.nodup_append] using ⟨once, fun b hb e => known (e ▸ hb)⟩)
      · simpa using all

/-! ## What a search knows -/

/-- What a search from `origin` knows between two rounds: what it has reached can be reached, each
artifact once, and whatever is not in the queue has been followed. -/
structure Explores (g : Graph) (d : Direction) (origin : Id) (s : Search) : Prop where
  reported : s.reported.map (·.id) = s.visited
  artifacts : ∀ a ∈ s.reported, a ∈ g.artifacts
  once : s.visited.Nodup
  reached : ∀ i ∈ s.visited, TransGen (g.Follows d) origin i
  queued : ∀ i ∈ s.queue, i = origin ∨ i ∈ s.visited
  followed : ∀ i, i = origin ∨ i ∈ s.visited →
    i ∈ s.queue ∨ ∀ a ∈ g.neighbours d i, a.id ∈ s.visited

variable {origin : Id}

theorem explores_start (g : Graph) (d : Direction) (origin : Id) :
    (start origin).Explores g d origin where
  reported := rfl
  artifacts := nofun
  once := .nil
  reached := nofun
  queued := fun i hi => .inl (List.mem_singleton.1 hi)
  followed := fun i hi => .inl (by simpa [start] using hi)

theorem explores_round (h : s.Explores g d origin) : (s.round g d []).Explores g d origin := by
  unfold round
  split
  case h_1 => exact h
  case h_2 current queue hq =>
    obtain ⟨fresh, sub, eq, nodup, all⟩ := foldl_reach { s with queue } (g.neighbours d current)
    rw [eq]
    -- the artifact that is followed can be reached, if it is not the origin itself
    have step : ∀ a ∈ fresh, TransGen (g.Follows d) origin a.id := fun a ha => by
      have edge := (mem_neighbours_iff.1 (sub ha)).2
      rcases h.queued current (hq ▸ List.mem_cons_self) with rfl | known
      · exact .single edge
      · exact (h.reached current known).tail edge
    refine ⟨?_, ?_, nodup h.once, ?_, ?_, ?_⟩
    · simp [h.reported]
    · intro a ha
      rcases List.mem_append.1 ha with ha | ha
      · exact h.artifacts a ha
      · exact (mem_neighbours_iff.1 (sub ha)).1
    · intro i hi
      rcases List.mem_append.1 hi with hi | hi
      · exact h.reached i hi
      · obtain ⟨a, ha, rfl⟩ := List.mem_map.1 hi
        exact step a ha
    · intro i hi
      rcases List.mem_append.1 hi with hi | hi
      · exact (h.queued i (hq ▸ List.mem_cons_of_mem _ hi)).imp_right (List.mem_append_left _)
      · exact .inr (List.mem_append_right _ hi)
    · intro i hi
      by_cases isCurrent : i = current
      · subst isCurrent
        exact .inr all
      have old : (i = origin ∨ i ∈ s.visited) ∨ i ∈ fresh.map (·.id) := by
        rcases hi with hi | hi
        · exact .inl (.inl hi)
        · exact (List.mem_append.1 hi).imp_left .inr
      rcases old with old | new
      · rcases h.followed i old with waiting | done
        · rw [hq] at waiting
          exact .inl (List.mem_append_left _ ((List.mem_cons.1 waiting).resolve_left isCurrent))
        · exact .inr fun a ha => List.mem_append_left _ (done a ha)
      · exact .inl (List.mem_append_right _ new)

theorem explores_run (h : s.Explores g d origin) : (s.run g d []).Explores g d origin := by
  fun_induction run g d [] s with
  | case1 s done => exact h
  | case2 s todo ih => exact ih (explores_round h)

/-- A search that has nothing left to follow has reached all that can be reached. -/
theorem Explores.complete (hg : g.Intact) (h : s.Explores g d origin) (done : s.queue = []) {i : Id}
    (path : TransGen (g.Follows d) origin i) : i ∈ s.visited := by
  have followed {j k : Id} (hj : j = origin ∨ j ∈ s.visited) (edge : g.Follows d j k) :
      k ∈ s.visited := by
    obtain ⟨a, ha, rfl⟩ := hg.neighbour edge
    exact ((h.followed j hj).resolve_left (by simp [done])) a ha
  induction path with
  | single edge => exact followed (.inl rfl) edge
  | tail _ edge ih => exact followed (.inr ih) edge

/-! ## What is reported -/

/-- The search, with only artifacts of the given kinds reported. -/
def restrict (types : List ArtifactType) (s : Search) : Search :=
  { s with reported := s.reported.filter (types.contains ·.type) }

theorem restrict_reach (some : types ≠ []) (s : Search) (a : Artifact) :
    (s.reach [] a).restrict types = (s.restrict types).reach types a := by
  by_cases known : a.id ∈ s.visited
  · simp [reach, restrict, known]
  · by_cases kind : a.type ∈ types <;> simp [reach, restrict, known, kind, some]

theorem restrict_foldl_reach (some : types ≠ []) (s : Search) (as : List Artifact) :
    (as.foldl (reach []) s).restrict types = as.foldl (reach types) (s.restrict types) := by
  induction as generalizing s with
  | nil => rfl
  | cons a as ih => rw [List.foldl_cons, ih, restrict_reach some, List.foldl_cons]

/-- A round follows the same edges, whatever is reported. -/
theorem restrict_round (some : types ≠ []) :
    Function.Semiconj (restrict types) (round g d []) (round g d types) := by
  intro s
  unfold round restrict
  dsimp only
  split
  · rfl
  · exact restrict_foldl_reach some _ _

end Search

/-! ## Closures -/

variable {g : Graph} {origin : Id} {d : Direction}

theorem explores_closure (g : Graph) (origin : Id) (d : Direction) :
    ((Search.start origin).run g d []).Explores g d origin :=
  Search.explores_run (Search.explores_start g d origin)

theorem mem_closure_iff (hg : g.Intact) {a : Artifact} :
    a ∈ closure g origin d [] ↔ a ∈ g.artifacts ∧ TransGen (g.Follows d) origin a.id := by
  have explores := explores_closure g origin d
  constructor
  · intro ha
    refine ⟨explores.artifacts a ha, explores.reached a.id ?_⟩
    rw [← explores.reported]
    exact List.mem_map.2 ⟨a, ha, rfl⟩
  · rintro ⟨ha, path⟩
    have reached := explores.complete hg (Search.queue_run ..) path
    rw [← explores.reported] at reached
    obtain ⟨b, hb, same⟩ := List.mem_map.1 reached
    rwa [← List.inj_on_of_nodup_map hg.artifactIds_nodup (explores.artifacts b hb) ha same]

theorem closure_eq_filter (g : Graph) (origin : Id) (d : Direction) {types : List ArtifactType}
    (some : types ≠ []) :
    closure g origin d types = (closure g origin d []).filter (types.contains ·.type) := by
  have rounds := Nat.le_of_eq (Search.pending_start g origin)
  unfold closure
  rw [Search.run_eq_iterate rounds, Search.run_eq_iterate rounds]
  exact congrArg Search.reported
    ((Search.restrict_round some).iterate_right _ (Search.start origin)).symm

/-- The origin of a closure is in it exactly if it is on a cycle. -/
theorem origin_mem_closure_iff (hg : g.Intact) :
    (∃ a ∈ closure g origin d [], a.id = origin) ↔ TransGen (g.Follows d) origin origin := by
  constructor
  · rintro ⟨a, ha, rfl⟩
    exact ((mem_closure_iff hg).1 ha).2
  · intro cycle
    obtain ⟨j, -, edge⟩ := TransGen.tail'_iff.1 cycle
    obtain ⟨a, ha, rfl⟩ := hg.neighbour edge
    exact ⟨a, (mem_closure_iff hg).2 ⟨(mem_neighbours_iff.1 ha).1, cycle⟩, rfl⟩

/-- Dependees are followed along the same edges in the other direction. -/
theorem transGen_dependees_iff {i j : Id} :
    TransGen (g.Follows .dependees) i j ↔ TransGen (g.Follows .dependencies) j i :=
  transGen_swap

/-- A closure is what can be reached over one or more edges. -/
theorem closure_reachable (hg : g.Intact) (origin : Id) (d : Direction) :
    -- the search ends after as many rounds as there are artifacts, and one
    (∀ types, closure g origin d types =
        ((Search.round g d types)^[g.artifacts.length + 1] (.start origin)).reported ∧
      ((Search.round g d types)^[g.artifacts.length + 1] (.start origin)).queue = []) ∧
    (∀ a, a ∈ closure g origin d [] ↔ a ∈ g.artifacts ∧ TransGen (g.Follows d) origin a.id) ∧
    ((closure g origin d []).map (·.id)).Nodup ∧
    ((∃ a ∈ closure g origin d [], a.id = origin) ↔ TransGen (g.Follows d) origin origin) ∧
    (∀ types ≠ [],
      closure g origin d types = (closure g origin d []).filter (types.contains ·.type)) ∧
    ∀ a ∈ g.artifacts, ∀ b ∈ g.artifacts,
      b ∈ closure g a.id .dependencies [] ↔ a ∈ closure g b.id .dependees [] := by
  refine ⟨fun types => ?_, fun a => mem_closure_iff hg, ?_, origin_mem_closure_iff hg,
    fun types => closure_eq_filter g origin d, fun a ha b hb => ?_⟩
  · rw [← Search.run_eq_iterate (Nat.le_of_eq (Search.pending_start g origin))]
    exact ⟨rfl, Search.queue_run ..⟩
  · have explores := explores_closure g origin d
    rw [closure, explores.reported]
    exact explores.once
  · rw [mem_closure_iff hg, mem_closure_iff hg, transGen_dependees_iff]
    simp [ha, hb]

/-- A program and two libraries that need each other. -/
def entangled : Graph where
  artifacts := [⟨1, "/app", .executable, none⟩, ⟨2, "/liba.so", .shared, none⟩,
    ⟨3, "/libb.a", .static, none⟩]
  edges := [⟨1, 2⟩, ⟨2, 3⟩, ⟨3, 2⟩]

theorem entangled_intact : entangled.Intact := by
  decide

/-- The libraries are in each other's closures, and so in their own. -/
theorem closure_reachable_entangled :
    (closure entangled 1 .dependencies []).map (·.id) = [2, 3] ∧
    (closure entangled 2 .dependencies []).map (·.id) = [3, 2] ∧
    (closure entangled 2 .dependencies [.shared]).map (·.id) = [2] ∧
    TransGen (entangled.Follows .dependencies) 2 2 := by
  obtain ⟨fromApp, -⟩ := closure_reachable entangled_intact 1 .dependencies
  obtain ⟨rounds, -, -, cycle, kinds, -⟩ := closure_reachable entangled_intact 2 .dependencies
  have all : closure entangled 2 .dependencies [] =
      [⟨3, "/libb.a", .static, none⟩, ⟨2, "/liba.so", .shared, none⟩] := (rounds []).1
  refine ⟨by rw [(fromApp []).1]; rfl, by rw [all]; rfl, by rw [kinds _ (by decide), all]; rfl, ?_⟩
  rw [← cycle, all]
  exact ⟨_, List.mem_cons_of_mem _ List.mem_cons_self, rfl⟩

end BuildAudit
