import BuildAudit.Proofs.Reachability

/-!
# Breadth-first order

A closure lists what can be reached in the order of the distances from the origin, and what is first reached
from the same artifact in the order of the ids (`closure_breadthFirst`).  For the distances, a search is
on a level between two rounds: its queue holds what is left to follow on this level and then what has
been found on the next one (`Search.Levels`).  For the ids, the artifacts that have been followed and
the queue are together the origin and what has been reached (`Search.HasFollowed`).  Both hold although
the origin may be in the queue a second time, when an edge has led back to it.
-/

namespace BuildAudit

open BuildAudit.Graph

/-! ## Distances -/

/-- The last of these artifacts can be reached from the first over `n` edges. -/
inductive Graph.Path (g : Graph) (d : Direction) (i : Id) : Nat → Id → Prop
  | start : g.Path d i 0 i
  | step {n : Nat} {j k : Id} : g.Path d i n j → g.Follows d j k → g.Path d i (n + 1) k

/-- The shortest path of at least one edge has `n` edges. -/
structure Graph.Distance (g : Graph) (d : Direction) (i j : Id) (n : Nat) : Prop where
  positive : 0 < n
  path : g.Path d i n j
  shortest : ∀ m, 0 < m → g.Path d i m j → n ≤ m

variable {g : Graph} {d : Direction} {i j origin : Id} {m n k : Nat}

theorem Graph.Distance.unique (h : g.Distance d i j m) (h' : g.Distance d i j n) : m = n :=
  Nat.le_antisymm (h.shortest n h'.positive h'.path) (h'.shortest m h.positive h.path)

theorem exists_distance (positive : 0 < n) (path : g.Path d i n j) : ∃ m ≤ n, g.Distance d i j m := by
  induction n using Nat.strongRecOn with
  | ind n ih =>
    by_cases shorter : ∃ m < n, 0 < m ∧ g.Path d i m j
    · obtain ⟨m, less, positive, path⟩ := shorter
      obtain ⟨l, le, distance⟩ := ih m less positive path
      exact ⟨l, Nat.le_trans le (Nat.le_of_lt less), distance⟩
    · refine ⟨n, Nat.le_refl n, positive, path, fun m positive path => ?_⟩
      by_contra less
      exact shorter ⟨m, Nat.not_le.1 less, positive, path⟩

/-- The artifacts on a level of a search: on the first one is the origin, on the others are those at that
distance. -/
def Graph.Level (g : Graph) (d : Direction) (origin : Id) : Nat → Id → Prop
  | 0, i => i = origin
  | k + 1, i => g.Distance d origin i (k + 1)

theorem Graph.Level.path (h : g.Level d origin k i) : g.Path d origin k i := by
  cases k with
  | zero =>
    obtain rfl : i = origin := h
    exact .start
  | succ k => exact h.path

/-- The last artifact of a path is on its level, or there is a shorter path. -/
theorem Graph.Path.level_or_shorter (path : g.Path d origin k i) :
    g.Level d origin k i ∨ ∃ m < k, 0 < m ∧ g.Path d origin m i := by
  cases k with
  | zero =>
    cases path
    exact .inl rfl
  | succ k =>
    obtain ⟨m, le, distance⟩ := exists_distance k.succ_pos path
    rcases Nat.eq_or_lt_of_le le with rfl | less
    · exact .inl distance
    · exact .inr ⟨m, less, distance.positive, distance.path⟩

namespace Search

variable {s : Search}

/-! ## Rounds -/

/-- The neighbours of an artifact that have not been reached yet. -/
def fresh (g : Graph) (d : Direction) (s : Search) (i : Id) : List Artifact :=
  (g.neighbours d i).filter (·.id ∉ s.visited)

theorem foldl_reach_eq {as : List Artifact} (once : (as.map (·.id)).Nodup) (s : Search) :
    as.foldl (reach []) s =
      ⟨s.visited ++ (as.filter (·.id ∉ s.visited)).map (·.id),
        s.queue ++ (as.filter (·.id ∉ s.visited)).map (·.id),
        s.reported ++ as.filter (·.id ∉ s.visited)⟩ := by
  induction as generalizing s with
  | nil => simp
  | cons a as ih =>
    obtain ⟨apart, once⟩ := List.nodup_cons.1 (List.map_cons ▸ once)
    rw [List.foldl_cons, ih once]
    by_cases known : a.id ∈ s.visited
    · simp [reach, known]
    · -- the others are no more known than before
      have others : as.filter (·.id ∉ s.visited ++ [a.id]) = as.filter (·.id ∉ s.visited) := by
        refine List.filter_congr fun b hb => ?_
        have differ : b.id ≠ a.id := fun same => apart (List.mem_map.2 ⟨b, hb, same⟩)
        simp [differ]
      have reached : s.reach [] a =
          ⟨s.visited ++ [a.id], s.queue ++ [a.id], s.reported ++ [a]⟩ := by simp [reach, known]
      rw [reached, others, List.filter_cons_of_pos (by simpa using known)]
      simp

theorem ascending_neighbours (hg : g.Intact) (d : Direction) (i : Id) :
    ((g.neighbours d i).map (·.id)).Pairwise (· < ·) := by
  cases d <;> exact hg.artifactIds.sublist (List.filter_sublist.map _)

theorem round_eq (hg : g.Intact) {current : Id} {queue : List Id} (hq : s.queue = current :: queue) :
    s.round g d [] =
      ⟨s.visited ++ (s.fresh g d current).map (·.id), queue ++ (s.fresh g d current).map (·.id),
        s.reported ++ s.fresh g d current⟩ := by
  rw [round, hq]
  exact foldl_reach_eq (nodup_of_pairwise_lt (ascending_neighbours hg d current)) { s with queue }

theorem ascending_fresh (hg : g.Intact) (d : Direction) (s : Search) (i : Id) :
    (s.fresh g d i).Pairwise fun a b => a.id < b.id :=
  (List.pairwise_map.1 (ascending_neighbours hg d i)).sublist List.filter_sublist

theorem mem_fresh_iff {a : Artifact} :
    a ∈ s.fresh g d i ↔ a ∈ g.neighbours d i ∧ a.id ∉ s.visited := by
  simp [fresh]

/-- Following an artifact reaches all of its neighbours. -/
theorem visited_of_neighbour {a : Artifact} (ha : a ∈ g.neighbours d i) :
    a.id ∈ s.visited ++ (s.fresh g d i).map (·.id) := by
  by_cases known : a.id ∈ s.visited
  · exact List.mem_append_left _ known
  · exact List.mem_append_right _ (List.mem_map_of_mem (mem_fresh_iff.2 ⟨ha, known⟩))

/-! ## Levels -/

/-- A search between two rounds on level `k`: `now` is what is left to follow on this level, and `next` what
has been found on the next one. -/
structure Levels (g : Graph) (d : Direction) (origin : Id) (k : Nat) (now next : List Id) (s : Search) :
    Prop where
  queue : s.queue = now ++ next
  current : ∀ i ∈ now, g.Level d origin k i
  following : ∀ i ∈ next, g.Distance d origin i (k + 1)
  covered : ∀ i n, 0 < n → n ≤ k → g.Path d origin n i → i ∈ s.visited
  followed : ∀ i, g.Level d origin k i → i ∈ now ∨ ∀ a ∈ g.neighbours d i, a.id ∈ s.visited
  reached : ∀ i ∈ s.visited, ∃ n ≤ k + 1, g.Distance d origin i n
  waiting : ∀ i ∈ s.visited, g.Distance d origin i (k + 1) → i ∈ next
  ordered : s.visited.Pairwise fun i j => ∀ m n, g.Distance d origin i m → g.Distance d origin j n → m ≤ n

variable {now next : List Id}

theorem levels_start (g : Graph) (d : Direction) (origin : Id) :
    (start origin).Levels g d origin 0 [origin] [] where
  queue := rfl
  current := fun _ hi => List.mem_singleton.1 hi
  following := nofun
  covered := fun _ _ positive none => absurd positive (Nat.not_lt.2 none)
  followed := fun _ hi => .inl (List.mem_singleton.2 hi)
  reached := nofun
  waiting := nofun
  ordered := .nil

/-- When a level has been followed, the next one has been found. -/
theorem Levels.advance (hg : g.Intact) (h : s.Levels g d origin k [] next) :
    s.Levels g d origin (k + 1) next [] := by
  have covered : ∀ i n, 0 < n → n ≤ k + 1 → g.Path d origin n i → i ∈ s.visited := by
    intro i n positive le path
    rcases Nat.eq_or_lt_of_le le with rfl | less
    · -- the last edge of the path comes from this level, or there is a shorter path
      obtain _ | @⟨_, j, _, path, edge⟩ := path
      rcases path.level_or_shorter with level | ⟨m, less, -, shorter⟩
      · obtain ⟨a, ha, rfl⟩ := hg.neighbour edge
        exact ((h.followed j level).resolve_left List.not_mem_nil) a ha
      · exact h.covered i (m + 1) m.succ_pos less (shorter.step edge)
    · exact h.covered i n positive (Nat.le_of_lt_succ less) path
  refine ⟨by simpa using h.queue, h.following, nofun, covered, ?_, ?_, ?_, h.ordered⟩
  · intro i hi
    exact .inl (h.waiting i (covered i _ hi.positive (Nat.le_refl _) hi.path) hi)
  · intro i hi
    obtain ⟨n, le, distance⟩ := h.reached i hi
    exact ⟨n, Nat.le_succ_of_le le, distance⟩
  · intro i hi distance
    obtain ⟨n, le, distance'⟩ := h.reached i hi
    have := distance.unique distance'
    omega

/-- What an artifact of this level leads to first is on the next one. -/
theorem Levels.distance_of_fresh (h : s.Levels g d origin k now next) (level : g.Level d origin k i)
    {a : Artifact} (ha : a ∈ s.fresh g d i) : g.Distance d origin a.id (k + 1) := by
  obtain ⟨neighbour, new⟩ := mem_fresh_iff.1 ha
  refine ⟨k.succ_pos, level.path.step (mem_neighbours_iff.1 neighbour).2, fun m positive path => ?_⟩
  by_contra less
  exact new (h.covered a.id m positive (by omega) path)

/-- Following an artifact of this level. -/
theorem Levels.round (hg : g.Intact) (h : s.Levels g d origin k (i :: now) next) :
    (s.round g d []).Levels g d origin k now (next ++ (s.fresh g d i).map (·.id)) := by
  have level := h.current i List.mem_cons_self
  have found : ∀ j ∈ (s.fresh g d i).map (·.id), g.Distance d origin j (k + 1) := by
    intro j hj
    obtain ⟨a, ha, rfl⟩ := List.mem_map.1 hj
    exact h.distance_of_fresh level ha
  rw [round_eq hg h.queue]
  refine ⟨by simp, fun j hj => h.current j (List.mem_cons_of_mem _ hj), ?_, ?_, ?_, ?_, ?_, ?_⟩
  · exact fun j hj => (List.mem_append.1 hj).elim (h.following j) (found j)
  · exact fun j n positive le path => List.mem_append_left _ (h.covered j n positive le path)
  · intro j hj
    by_cases same : j = i
    · subst same
      exact .inr fun a ha => visited_of_neighbour ha
    · refine (h.followed j hj).imp (fun left => (List.mem_cons.1 left).resolve_left same) fun done a ha => ?_
      exact List.mem_append_left _ (done a ha)
  · intro j hj
    rcases List.mem_append.1 hj with old | new
    · exact h.reached j old
    · exact ⟨k + 1, Nat.le_refl _, found j new⟩
  · intro j hj distance
    exact (List.mem_append.1 hj).elim (fun old => List.mem_append_left _ (h.waiting j old distance))
      (List.mem_append_right _)
  · refine List.pairwise_append.2 ⟨h.ordered, ?_, ?_⟩
    · refine List.pairwise_of_forall_mem_list fun j hj l hl m n distance distance' => ?_
      exact Nat.le_of_eq ((distance.unique (found j hj)).trans (distance'.unique (found l hl)).symm)
    · intro j old l new m n distance distance'
      obtain ⟨m', le, distance''⟩ := h.reached j old
      rw [distance.unique distance'', distance'.unique (found l new)]
      exact le

/-- A search that is between two rounds is on some level. -/
theorem levels_run (hg : g.Intact) (h : ∃ k now next, s.Levels g d origin k now next) :
    ∃ k now next, (s.run g d []).Levels g d origin k now next := by
  fun_induction run g d [] s with
  | case1 s done => exact h
  | case2 s todo ih =>
    refine ih ?_
    obtain ⟨k, now, next, h⟩ := h
    rcases now with _ | ⟨i, now⟩
    · rcases next with _ | ⟨i, next⟩
      · exact absurd h.queue todo
      · exact ⟨_, _, _, (h.advance hg).round hg⟩
    · exact ⟨_, _, _, h.round hg⟩

end Search

/-! ## Sources -/

instance (g : Graph) (d : Direction) (i j : Id) : Decidable (g.Follows d i j) :=
  match d with
  | .dependencies => inferInstanceAs (Decidable (⟨i, j⟩ ∈ g.edges))
  | .dependees => inferInstanceAs (Decidable (⟨j, i⟩ ∈ g.edges))

/-- Of artifacts that are followed in this order, the one from which an artifact is reached first. -/
def Graph.source? (g : Graph) (d : Direction) (order : List Id) (j : Id) : Option Id :=
  order.find? (g.Follows d · j)

variable {order : List Id} {c : Id}

theorem source?_append_of_mem (hi : i ∈ order) (edge : g.Follows d i j) (more : List Id) :
    g.source? d (order ++ more) j = g.source? d order j := by
  have found : (g.source? d order j).isSome := List.find?_isSome.2 ⟨i, hi, decide_eq_true edge⟩
  obtain ⟨k, hk⟩ := Option.isSome_iff_exists.1 found
  rw [source?, List.find?_append]
  change (g.source? d order j).or _ = _
  rw [hk, Option.some_or]

theorem source?_append_of_forall (new : ∀ i ∈ order, ¬ g.Follows d i j) (edge : g.Follows d c j) :
    g.source? d (order ++ [c]) j = some c := by
  have none : order.find? (g.Follows d · j) = none := List.find?_eq_none.2 (by simpa using new)
  rw [source?, List.find?_append, none, Option.none_or]
  simp [edge]

namespace Search

variable {s : Search} {followed queue : List Id}

/-- A search that has followed these artifacts, in this order: what it has reached, it has reached from
them, and what it has reached from the same one stands in the order of the ids. -/
structure HasFollowed (g : Graph) (d : Direction) (origin : Id) (followed : List Id) (s : Search) : Prop where
  order : origin :: s.visited = followed ++ s.queue
  sourced : ∀ a ∈ s.reported, ∃ i ∈ followed, g.Follows d i a.id
  complete : ∀ i ∈ followed, ∀ a ∈ g.neighbours d i, a.id ∈ s.visited
  ascending : s.reported.Pairwise fun a b =>
    g.source? d followed a.id = g.source? d followed b.id → a.id < b.id

theorem hasFollowed_start (g : Graph) (d : Direction) (origin : Id) :
    (start origin).HasFollowed g d origin [] where
  order := rfl
  sourced := nofun
  complete := nofun
  ascending := .nil

theorem HasFollowed.round (hg : g.Intact) (h : s.HasFollowed g d origin followed) (hq : s.queue = c :: queue) :
    (s.round g d []).HasFollowed g d origin (followed ++ [c]) := by
  -- what is reached now, nothing that was followed before leads to
  have new : ∀ a ∈ s.fresh g d c, ∀ i ∈ followed, ¬ g.Follows d i a.id := by
    intro a ha i hi edge
    obtain ⟨neighbour, unseen⟩ := mem_fresh_iff.1 ha
    exact unseen (h.complete i hi a (mem_neighbours_iff.2 ⟨(mem_neighbours_iff.1 neighbour).1, edge⟩))
  have edge : ∀ a ∈ s.fresh g d c, g.Follows d c a.id := fun a ha =>
    (mem_neighbours_iff.1 (mem_fresh_iff.1 ha).1).2
  have same : ∀ a ∈ s.reported, g.source? d (followed ++ [c]) a.id = g.source? d followed a.id := by
    intro a ha
    obtain ⟨i, hi, edge⟩ := h.sourced a ha
    exact source?_append_of_mem hi edge [c]
  rw [round_eq hg hq]
  refine ⟨?_, fun a ha => ?_, fun i hi a ha => ?_, List.pairwise_append.2 ⟨?_, ?_, ?_⟩⟩
  · rw [← List.cons_append, h.order, hq]
    simp
  · rcases List.mem_append.1 ha with old | fresh
    · obtain ⟨i, hi, edge⟩ := h.sourced a old
      exact ⟨i, List.mem_append_left _ hi, edge⟩
    · exact ⟨c, List.mem_append_right _ List.mem_cons_self, edge a fresh⟩
  · rcases List.mem_append.1 hi with old | last
    · exact List.mem_append_left _ (h.complete i old a ha)
    · obtain rfl := List.mem_singleton.1 last
      exact visited_of_neighbour ha
  · refine h.ascending.imp_of_mem fun ha hb before both => before ?_
    rwa [same _ ha, same _ hb] at both
  · refine (ascending_fresh hg d s c).imp ?_
    exact fun less _ => less
  · intro a ha b hb both
    rw [same a ha, source?_append_of_forall (new b hb) (edge b hb)] at both
    exact absurd (edge b hb) (new b hb c (List.mem_of_find?_eq_some both))

theorem run_round (g : Graph) (d : Direction) (types : List ArtifactType) (s : Search) :
    (s.round g d types).run g d types = s.run g d types := by
  by_cases done : s.queue = []
  · rw [round_of_done done]
  · rw [run.eq_def g d types s, if_neg done]

theorem visited_prefix_run (hg : g.Intact) (s : Search) : s.visited <+: (s.run g d []).visited := by
  fun_induction run g d [] s with
  | case1 s done => exact List.prefix_rfl
  | case2 s todo ih =>
    obtain ⟨c, queue, hq⟩ := List.exists_cons_of_ne_nil todo
    have grown : s.visited <+: (s.round g d []).visited := by
      rw [round_eq hg hq]
      exact List.prefix_append ..
    exact grown.trans ih

/-- After `n` rounds, `n` artifacts have been followed, if the search has not come to its end. -/
theorem hasFollowed_iterate (hg : g.Intact) (d : Direction) (origin : Id) (n : Nat) :
    ∃ followed, ((Search.round g d [])^[n] (start origin)).HasFollowed g d origin followed ∧
      (((Search.round g d [])^[n] (start origin)).queue = [] ∧ followed.length ≤ n ∨ followed.length = n) := by
  induction n with
  | zero => exact ⟨[], hasFollowed_start g d origin, .inr rfl⟩
  | succ n ih =>
    obtain ⟨followed, h, count⟩ := ih
    rw [Function.iterate_succ_apply']
    generalize (Search.round g d [])^[n] (start origin) = s at h count
    rcases hq : s.queue with _ | ⟨c, queue⟩
    · rw [round_of_done hq]
      exact ⟨followed, h, .inl ⟨hq, by omega⟩⟩
    · refine ⟨followed ++ [c], h.round hg hq, .inr ?_⟩
      have length := count.resolve_left (by simp [hq])
      simp [length]

end Search

/-! ## Closures -/

theorem run_iterate (g : Graph) (d : Direction) (types : List ArtifactType) (s : Search) (n : Nat) :
    ((Search.round g d types)^[n] s).run g d types = s.run g d types := by
  induction n with
  | zero => rfl
  | succ n ih => rw [Function.iterate_succ_apply', Search.run_round, ih]

theorem map_id_closure (g : Graph) (origin : Id) (d : Direction) :
    (closure g origin d []).map (·.id) = ((Search.start origin).run g d []).visited :=
  (explores_closure g origin d).reported

/-- The search follows the origin, and then what it reports, in this order. -/
theorem queue_head?_iterate (hg : g.Intact) (origin : Id) (d : Direction) (n : Nat) :
    ((Search.round g d [])^[n] (.start origin)).queue.head? =
      (origin :: (closure g origin d []).map (·.id))[n]? := by
  obtain ⟨followed, h, count⟩ := Search.hasFollowed_iterate hg d origin n
  have later := Search.visited_prefix_run (d := d) hg ((Search.round g d [])^[n] (.start origin))
  have done (empty : ((Search.round g d [])^[n] (.start origin)).queue = []) :
      ((Search.round g d [])^[n] (.start origin)).run g d [] =
        (Search.round g d [])^[n] (.start origin) := by
    rw [Search.run, if_pos empty]
  rw [map_id_closure, ← run_iterate g d [] _ n]
  generalize (Search.round g d [])^[n] (Search.start origin) = s at *
  rcases hq : s.queue with _ | ⟨c, queue⟩
  · rw [done hq, h.order, hq, List.append_nil, List.getElem?_eq_none (by omega)]
    rfl
  · obtain ⟨more, hmore⟩ := later
    have length := count.resolve_left (by simp [hq])
    rw [← hmore, ← List.cons_append, h.order, hq]
    simp [← length]

/-- In the end, the search has followed all of them. -/
theorem hasFollowed_run (hg : g.Intact) (origin : Id) (d : Direction) :
    ((Search.start origin).run g d []).HasFollowed g d origin
      (origin :: (closure g origin d []).map (·.id)) := by
  have rounds : (Search.start origin).run g d [] =
      (Search.round g d [])^[(Search.start origin).pending g] (.start origin) :=
    Search.run_eq_iterate (Nat.le_refl _)
  obtain ⟨followed, h, -⟩ := Search.hasFollowed_iterate hg d origin ((Search.start origin).pending g)
  rw [← rounds] at h
  rwa [map_id_closure, h.order, Search.queue_run, List.append_nil]

/-- A closure is reported in breadth-first order: what is nearer to the origin comes first, and what is
first reached from the same artifact stands in the order of the ids. -/
theorem closure_breadthFirst (hg : g.Intact) (origin : Id) (d : Direction) :
    let reached := closure g origin d []
    let order := origin :: reached.map (·.id)
    (∀ a ∈ reached, ∃ n, g.Distance d origin a.id n) ∧
    (reached.Pairwise fun a b => ∀ m n, g.Distance d origin a.id m → g.Distance d origin b.id n → m ≤ n) ∧
    -- the search follows the origin and then what it reports
    (∀ n, ((Search.round g d [])^[n] (.start origin)).queue.head? = order[n]?) ∧
    (∀ a ∈ reached, (g.source? d order a.id).isSome) ∧
    reached.Pairwise fun a b => g.source? d order a.id = g.source? d order b.id → a.id < b.id := by
  intro reached order
  obtain ⟨k, now, next, levels⟩ := Search.levels_run hg ⟨_, _, _, Search.levels_start g d origin⟩
  have visited := map_id_closure g origin d
  have followed := hasFollowed_run hg origin d
  refine ⟨fun a ha => ?_, ?_, queue_head?_iterate hg origin d, fun a ha => ?_, followed.ascending⟩
  · obtain ⟨n, -, distance⟩ := levels.reached a.id (visited ▸ List.mem_map_of_mem ha)
    exact ⟨n, distance⟩
  · exact List.pairwise_map.1 (visited ▸ levels.ordered)
  · obtain ⟨i, hi, edge⟩ := followed.sourced a ha
    exact List.find?_isSome.2 ⟨i, hi, decide_eq_true edge⟩

/-- Artifacts of which the second leads back to itself over the third. -/
def revisited : Graph where
  artifacts := [⟨1, "/crt.o", .object, none⟩, ⟨2, "/liba.so", .shared, none⟩, ⟨3, "/libb.a", .static, none⟩,
    ⟨4, "/libc.a", .static, none⟩, ⟨5, "/libd.a", .static, none⟩]
  edges := [⟨2, 4⟩, ⟨2, 3⟩, ⟨3, 5⟩, ⟨3, 2⟩, ⟨4, 1⟩, ⟨4, 5⟩]

/-- The origin is reached again, and from the same artifact as the one that is listed behind it. -/
theorem closure_breadthFirst_revisited :
    revisited.Intact ∧ (closure revisited 2 .dependencies []).map (·.id) = [3, 4, 2, 5, 1] ∧
    (∀ m n, revisited.Distance .dependencies 2 4 m → revisited.Distance .dependencies 2 2 n → m ≤ n) ∧
    revisited.source? .dependencies [2, 3, 4, 2, 5, 1] 2 = some 3 ∧
    revisited.source? .dependencies [2, 3, 4, 2, 5, 1] 5 = some 3 := by
  have intact : revisited.Intact := by decide
  have reached : closure revisited 2 .dependencies [] = [⟨3, "/libb.a", .static, none⟩,
      ⟨4, "/libc.a", .static, none⟩, ⟨2, "/liba.so", .shared, none⟩, ⟨5, "/libd.a", .static, none⟩,
      ⟨1, "/crt.o", .object, none⟩] := by
    rw [closure, Search.run_eq_iterate (Nat.le_refl _)]
    decide
  obtain ⟨-, nearer, -⟩ := closure_breadthFirst intact 2 .dependencies
  rw [reached] at nearer
  refine ⟨intact, by rw [reached]; rfl, ?_, by decide, by decide⟩
  simp only [List.pairwise_cons, List.forall_mem_cons] at nearer
  exact nearer.2.1.1

end BuildAudit
