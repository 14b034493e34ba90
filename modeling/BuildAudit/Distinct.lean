/-!
# Lists without repeats

`distinct` keeps the first of equal elements.
-/

namespace BuildAudit

variable {α : Type} [DecidableEq α]

/-- The list without the elements that stand in `seen` or earlier in the list. -/
def distinctFrom (seen : List α) : List α → List α
  | [] => []
  | x :: xs => if x ∈ seen then distinctFrom seen xs else x :: distinctFrom (x :: seen) xs

/-- The list with only the first of equal elements. -/
def distinct (xs : List α) : List α := distinctFrom [] xs

theorem mem_distinctFrom {seen xs : List α} {x : α} :
    x ∈ distinctFrom seen xs ↔ x ∈ xs ∧ x ∉ seen := by
  induction xs generalizing seen with
  | nil => simp [distinctFrom]
  | cons y ys ih =>
    by_cases known : y ∈ seen
    · have other (new : x ∉ seen) : x ≠ y := fun e => new (e ▸ known)
      rw [distinctFrom, if_pos known, ih, List.mem_cons]
      exact ⟨fun h => ⟨.inr h.1, h.2⟩, fun h => ⟨h.1.resolve_left (other h.2), h.2⟩⟩
    · rw [distinctFrom, if_neg known, List.mem_cons, ih, List.mem_cons]
      by_cases first : x = y
      · simp [first, known]
      · simp [first]

/-- Only what has been seen matters, not where. -/
theorem distinctFrom_congr {seen seen' xs : List α} (same : ∀ x, x ∈ seen ↔ x ∈ seen') :
    distinctFrom seen xs = distinctFrom seen' xs := by
  induction xs generalizing seen seen' with
  | nil => rfl
  | cons x xs ih =>
    have more : ∀ y, y ∈ x :: seen ↔ y ∈ x :: seen' := fun y => by
      rw [List.mem_cons, List.mem_cons, same]
    simp only [distinctFrom, same x, ih same, ih more]

/-- A list in two parts: the second part is seen after the first. -/
theorem distinctFrom_append (seen xs ys : List α) :
    distinctFrom seen (xs ++ ys) =
      distinctFrom seen xs ++ distinctFrom (seen ++ distinctFrom seen xs) ys := by
  induction xs generalizing seen with
  | nil => simp [distinctFrom]
  | cons x xs ih =>
    by_cases known : x ∈ seen
    · simp [distinctFrom, known, ih]
    · have same : ∀ y, y ∈ x :: seen ++ distinctFrom (x :: seen) xs ↔
          y ∈ seen ++ x :: distinctFrom (x :: seen) xs := fun y => by
        simp [or_left_comm]
      rw [List.cons_append, distinctFrom, if_neg known, ih, distinctFrom_congr same, distinctFrom,
        if_neg known, List.cons_append]

theorem length_distinctFrom_le (seen xs : List α) : (distinctFrom seen xs).length ≤ xs.length := by
  induction xs generalizing seen with
  | nil => exact Nat.le_refl _
  | cons x xs ih =>
    rw [distinctFrom]
    split
    · exact Nat.le_succ_of_le (ih seen)
    · exact Nat.succ_le_succ (ih _)

theorem nodup_distinctFrom (seen xs : List α) : (distinctFrom seen xs).Nodup := by
  induction xs generalizing seen with
  | nil => simp [distinctFrom]
  | cons y ys ih =>
    rw [distinctFrom]
    split
    · exact ih seen
    · exact List.nodup_cons.2 ⟨by simp [mem_distinctFrom], ih _⟩

@[simp]
theorem mem_distinct {xs : List α} {x : α} : x ∈ distinct xs ↔ x ∈ xs := by
  simp [distinct, mem_distinctFrom]

theorem nodup_distinct (xs : List α) : (distinct xs).Nodup := nodup_distinctFrom [] xs

/-- In another order, the same elements are left. -/
theorem distinct_perm {xs ys : List α} (perm : xs.Perm ys) : (distinct xs).Perm (distinct ys) := by
  rw [List.perm_ext_iff_of_nodup (nodup_distinct xs) (nodup_distinct ys)]
  intro x
  rw [mem_distinct, mem_distinct, perm.mem_iff]

section Map

variable {β : Type} [DecidableEq β] {f : α → β} {p : α → Prop}
  (inj : ∀ x y, p x → p y → f x = f y → x = y)

include inj

theorem distinctFrom_map {seen xs : List α} (hseen : ∀ x ∈ seen, p x) (hxs : ∀ x ∈ xs, p x) :
    distinctFrom (seen.map f) (xs.map f) = (distinctFrom seen xs).map f := by
  induction xs generalizing seen with
  | nil => rfl
  | cons x xs ih =>
    rw [List.forall_mem_cons] at hxs
    have known : f x ∈ seen.map f ↔ x ∈ seen := by
      constructor
      · intro h
        obtain ⟨y, hy, same⟩ := List.mem_map.1 h
        rwa [← inj y x (hseen y hy) hxs.1 same]
      · exact List.mem_map_of_mem
    rw [List.map_cons, distinctFrom, distinctFrom]
    by_cases h : x ∈ seen
    · rw [if_pos h, if_pos (known.2 h), ih hseen hxs.2]
    · rw [if_neg h, if_neg (mt known.1 h), List.map_cons, ← List.map_cons,
        ih (List.forall_mem_cons.2 ⟨hxs.1, hseen⟩) hxs.2]

/-- A function that tells the elements apart commutes with leaving out repeats. -/
theorem distinct_map {xs : List α} (hxs : ∀ x ∈ xs, p x) :
    distinct (xs.map f) = (distinct xs).map f := by
  have unseen : ∀ x ∈ ([] : List α), p x := nofun
  exact distinctFrom_map inj unseen hxs

end Map

end BuildAudit
