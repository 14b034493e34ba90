import Mathlib.Data.List.Basic
import BuildAudit.Text

/-!
# Lines of texts

A text that is put together from others has the lines of its parts, as long as each part but the last
ends its line (`Text.linesOf_append`).  A line without a line feed is the only line of its text
(`Text.linesOf_of_line`), and trimming does not change it if it neither begins nor ends with a blank
(`Text.trimChars_eq_self`).  A text is its beginning and what follows it (`Text.after?_eq_some`).
-/

namespace BuildAudit.Text

/-! ## Line feeds -/

theorem splitOn_feed (cs ds : List Char) :
    (cs ++ '\n' :: ds).splitOn '\n' = cs.splitOn '\n' ++ ds.splitOn '\n' :=
  List.splitOnP_append_cons cs ds (beq_self_eq_true '\n')

/-- Behind a line feed, the lines begin anew. -/
theorem linesOf_append (cs ds : List Char) :
    linesOf (cs ++ '\n' :: ds) = linesOf (cs ++ ['\n']) ++ linesOf ds := by
  have nonempty : ds.splitOn '\n' ≠ [] := List.splitOnP_ne_nil _ ds
  have last : ([] : List Char).splitOn '\n' = [[]] := rfl
  simp [linesOf, splitOn_feed, last, List.dropLast_append_of_ne_nil nonempty,
    List.getLast?_append_of_ne_nil _ nonempty]

theorem lines_append (s t : String) : lines (s ++ "\n" ++ t) = lines (s ++ "\n") ++ lines t := by
  have feed : "\n".toList = ['\n'] := rfl
  simp only [lines, String.toList_append, feed, List.append_assoc, List.singleton_append]
  rw [linesOf_append, List.map_append]

/-- A line with a line feed at its end. -/
theorem linesOf_feed {cs : List Char} (oneLine : '\n' ∉ cs) : linesOf (cs ++ ['\n']) = [dropReturn cs] := by
  have last : ([] : List Char).splitOn '\n' = [[]] := rfl
  simp [linesOf, splitOn_feed, last, List.splitOn_eq_singleton oneLine]

/-- A line is read back from a text of its own, whether or not and how its end is marked. -/
theorem linesOf_of_line {cs ending : List Char} (oneLine : '\n' ∉ cs) {last : Char}
    (hlast : last ∈ cs.getLast?) (noReturn : last ≠ '\r') (hending : ending ∈ [[], ['\n'], ['\r', '\n']]) :
    linesOf (cs ++ ending) = [cs] := by
  obtain ⟨init, rfl⟩ := List.getLast?_eq_some_iff.1 hlast
  simp only [List.mem_cons, List.not_mem_nil, or_false] at hending
  rcases hending with rfl | rfl | rfl
  · simp [linesOf, List.splitOn_eq_singleton oneLine]
  · rw [linesOf_feed oneLine]
    simp [dropReturn, noReturn]
  · have line : linesOf (init ++ [last] ++ ['\r'] ++ ['\n']) = _ := linesOf_feed (by simpa using oneLine)
    rw [List.append_assoc] at line
    exact line.trans (by simp [dropReturn])

theorem mem_intercalate {c separator : Char} {pieces : List (List Char)}
    (h : c ∈ [separator].intercalate pieces) : c = separator ∨ ∃ piece ∈ pieces, c ∈ piece := by
  induction pieces with
  | nil => cases h
  | cons piece pieces ih =>
    rcases pieces with _ | ⟨next, pieces⟩
    · exact .inr ⟨piece, List.mem_cons_self, by simpa using h⟩
    · rw [List.intercalate_cons_cons] at h
      simp only [List.mem_append, List.mem_singleton] at h
      rcases h with (h | rfl) | h
      · exact .inr ⟨piece, List.mem_cons_self, h⟩
      · exact .inl rfl
      · refine (ih h).imp_right ?_
        rintro ⟨later, hlater, hc⟩
        exact ⟨later, List.mem_cons_of_mem piece hlater, hc⟩

/-! ## Blanks -/

theorem isBlank_of_isAlphanum {c : Char} (h : c.isAlphanum) : isBlank c = false := by
  have upper : 'A'.toNat = 65 ∧ 'Z'.toNat = 90 := by decide
  have lower : 'a'.toNat = 97 ∧ 'z'.toNat = 122 := by decide
  have digit : '0'.toNat = 48 ∧ '9'.toNat = 57 := by decide
  have ranges : (decide ('A'.val ≤ c.val ∧ c.val ≤ 'Z'.val) ||
      (decide ('a'.val ≤ c.val) && decide (c.val ≤ 'z'.val)) ||
      (decide ('0'.val ≤ c.val) && decide (c.val ≤ '9'.val))) = true := h
  simp only [Bool.or_eq_true, Bool.and_eq_true, decide_eq_true_eq, UInt32.le_iff_toNat_le,
    Char.toNat_val] at ranges
  simp [isBlank]
  omega

theorem trimChars_eq_self {cs : List Char} (first : ∀ c ∈ cs.head?, isBlank c = false)
    (last : ∀ c ∈ cs.getLast?, isBlank c = false) : trimChars cs = cs := by
  have left {cs : List Char} (first : ∀ c ∈ cs.head?, isBlank c = false) : trimLeft cs = cs := by
    rcases cs with _ | ⟨c, cs⟩
    · rfl
    · exact List.dropWhile_cons_of_neg (by simpa using first c rfl)
  rw [trimChars, left first, trimRight, left (by simpa using last), List.reverse_reverse]

/-! ## Beginnings -/

theorem after?_eq_some {lead s rest : String} (h : after? lead s = some rest) : s = lead ++ rest := by
  obtain ⟨cs, hcs, rfl⟩ := Option.map_eq_some_iff.1 h
  rw [List.isPrefixOf?_eq_some_iff_append_eq] at hcs
  rw [← String.toList_inj, String.toList_append, String.toList_ofList, hcs]

end BuildAudit.Text
