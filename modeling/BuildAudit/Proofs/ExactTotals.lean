import Mathlib.Algebra.Order.BigOperators.Group.List
import Mathlib.Algebra.Order.Ring.Int
import Mathlib.Tactic.SplitIfs
import BuildAudit.Query.Duplicates

/-!
# Exact totals

Sizes that are added up in 64 bits with a sign have a total exactly if their sum fits, and it is the sum
then (`Number.sumInt64?_eq`), since none of them is negative.  So the groups of a report are those with
sums as numbers without bounds, or there is no report (`Duplicate.groups?_eq`).
-/

namespace BuildAudit

/-! ## Sums -/

namespace Number

/-- The number fits as long as it is not negative and no larger than the largest one that does. -/
theorem fitsInt64_iff_of_nonneg {n : Int} (nonneg : 0 ≤ n) : fitsInt64 n ↔ n ≤ maxInt64 := by
  simp only [fitsInt64, Bool.and_eq_true, decide_eq_true_eq]
  omega

theorem foldlM_addInt64? {ns : List Int} (nonneg : ∀ n ∈ ns, 0 ≤ n) {total : Int} (start : 0 ≤ total)
    (fits : total ≤ maxInt64) :
    ns.foldlM addInt64? total = if total + ns.sum ≤ maxInt64 then some (total + ns.sum) else none := by
  induction ns generalizing total with
  | nil => simp [fits]
  | cons n ns ih =>
    obtain ⟨first, rest⟩ := List.forall_mem_cons.1 nonneg
    have later := List.sum_nonneg rest
    rw [List.foldlM_cons, List.sum_cons, ← add_assoc]
    by_cases here : total + n ≤ maxInt64
    · have added : addInt64? total n = some (total + n) :=
        if_pos ((fitsInt64_iff_of_nonneg (by omega)).2 here)
      rw [added]
      exact ih rest (by omega) here
    · have overflows : addInt64? total n = none :=
        if_neg (mt (fitsInt64_iff_of_nonneg (by omega)).1 here)
      rw [overflows, if_neg (by omega)]
      rfl

/-- Numbers that are not negative have a total exactly if their sum fits. -/
theorem sumInt64?_eq {ns : List Int} (nonneg : ∀ n ∈ ns, 0 ≤ n) :
    sumInt64? ns = if ns.sum ≤ maxInt64 then some ns.sum else none := by
  have folded := foldlM_addInt64? nonneg le_rfl (Int.natCast_nonneg maxInt64)
  rwa [zero_add] at folded

end Number

/-! ## Groups -/

namespace Duplicate

/-- What is reported about a symbol, with the total as a number without bounds. -/
def ofSymbol (rows : List SizedReference) (symbol : Symbol) : Duplicate :=
  let own := rows.filter (·.symbol.id == symbol.id)
  ⟨symbol, (own.map (·.size)).sum, own.map fun r => ⟨r.artifact, r.category, r.size⟩⟩

/-- The references of each symbol taken together, with totals without bounds. -/
def groups (rows : List SizedReference) : List Duplicate :=
  (distinct (rows.map (·.symbol))).map (ofSymbol rows)

variable {rows : List SizedReference}

theorem mem_groups_iff {d : Duplicate} :
    d ∈ groups rows ↔ d.symbol ∈ rows.map (·.symbol) ∧ d = ofSymbol rows d.symbol := by
  rw [groups, List.mem_map]
  constructor
  · rintro ⟨s, hs, rfl⟩
    exact ⟨mem_distinct.1 hs, rfl⟩
  · rintro ⟨hs, same⟩
    exact ⟨d.symbol, mem_distinct.2 hs, same.symm⟩

theorem ofSymbol?_eq (sized : ∀ r ∈ rows, 0 < r.size) (s : Symbol) :
    ofSymbol? rows s =
      if (ofSymbol rows s).totalSize ≤ Number.maxInt64 then some (ofSymbol rows s) else none := by
  have nonneg : ∀ n ∈ (rows.filter (·.symbol.id == s.id)).map (·.size), 0 ≤ n := by
    intro n hn
    obtain ⟨r, hr, rfl⟩ := List.mem_map.1 hn
    exact (sized r (List.mem_of_mem_filter hr)).le
  unfold ofSymbol?
  dsimp only
  rw [Number.sumInt64?_eq nonneg, ofSymbol]
  split_ifs <;> rfl

/-- A loop of rounds with and without results has results exactly if every round has one. -/
theorem mapM_ite {α β : Type} (p : α → Prop) [DecidablePred p] (f : α → β) (as : List α) :
    as.mapM (fun a => if p a then some (f a) else none) =
      if ∀ a ∈ as, p a then some (as.map f) else none := by
  induction as with
  | nil => simp
  | cons a as ih =>
    rw [List.mapM_cons, ih]
    simp only [List.forall_mem_cons]
    by_cases first : p a
    · by_cases rest : ∀ a ∈ as, p a
      · rw [if_pos first, if_pos rest, if_pos ⟨first, rest⟩]
        rfl
      · rw [if_pos first, if_neg rest, if_neg fun all : _ ∧ _ => rest all.2]
        rfl
    · rw [if_neg first, if_neg fun all : _ ∧ _ => first all.1]
      rfl

/-- The groups are made exactly if the sizes of no symbol overflow. -/
theorem groups?_eq (sized : ∀ r ∈ rows, 0 < r.size) :
    groups? rows =
      if ∀ d ∈ groups rows, d.totalSize ≤ Number.maxInt64 then some (groups rows) else none := by
  have rounds : ofSymbol? rows = fun s =>
      if (ofSymbol rows s).totalSize ≤ Number.maxInt64 then some (ofSymbol rows s) else none :=
    funext (ofSymbol?_eq sized)
  rw [groups?, rounds, mapM_ite]
  simp only [groups, List.forall_mem_map]

end Duplicate

/-- Only references with a size are read for the report. -/
theorem size_pos_of_mem_sizedReferences {g : Graph} {r : SizedReference} (h : r ∈ g.sizedReferences) :
    0 < r.size := by
  obtain ⟨row, -, found⟩ := List.mem_filterMap.1 h
  simp only [Graph.sized?, Option.bind_eq_bind, Option.bind_eq_some_iff] at found
  obtain ⟨size, -, found⟩ := found
  split at found
  · cases found
  · simp only [Option.bind_eq_some_iff] at found
    obtain ⟨s, -, a, -, same⟩ := found
    cases same
    exact Int.not_le.1 ‹_›

/-- The report with totals without bounds. -/
def duplicates (g : Graph) (f : DuplicateFilter) : List Duplicate :=
  Duplicate.ranked (Duplicate.groups (g.sizedReferences.filter f.accepts))

/-- The report is made, with exact totals, unless the sizes of a symbol overflow. -/
theorem duplicates?_eq (g : Graph) (f : DuplicateFilter) :
    duplicates? g f =
      if ∀ d ∈ Duplicate.groups (g.sizedReferences.filter f.accepts), d.totalSize ≤ Number.maxInt64
      then some (duplicates g f) else none := by
  have sized : ∀ r ∈ g.sizedReferences.filter f.accepts, 0 < r.size :=
    fun r hr => size_pos_of_mem_sizedReferences (List.mem_of_mem_filter hr)
  rw [duplicates?, Duplicate.ofRows?, Duplicate.groups?_eq sized]
  split_ifs <;> rfl

end BuildAudit
