import Mathlib.Data.List.Basic
import Mathlib.Data.String.Basic
import Mathlib.Tactic.SplitIfs

/-!
# The order of names

Reports list symbols in the order of the bytes of their names.  Texts are compared character by character
here, which comes to the same: the bytes of a greater character are greater, whatever follows
(`utf8EncodeChar_append_lt`), so texts and their bytes are in the same order (`bytes_lt_iff`).  A list that
is sorted so holds each name before all later ones if no two of its elements rank the same
(`pairwise_lt_mergeSort`).
-/

namespace BuildAudit

namespace Text

/-- The bytes of a text in UTF-8. -/
def bytes (s : String) : List UInt8 := s.toUTF8.data.toList

theorem bytes_eq (s : String) : bytes s = s.toList.flatMap String.utf8EncodeChar := by
  rw [bytes, String.toUTF8_eq_toByteArray, ← String.utf8Encode_toList, List.utf8Encode,
    List.toList_data_toByteArray]

/-! ## Bytes of one character -/

theorem ofNat_cons_lt_cons_iff {m n : Nat} (hm : m < 256) (hn : n < 256) {u v : List UInt8} :
    UInt8.ofNat m :: u < UInt8.ofNat n :: v ↔ m < n ∨ m = n ∧ u < v := by
  rw [List.cons_lt_cons_iff, UInt8.lt_iff_toNat_lt, ← UInt8.toNat_inj, UInt8.toNat_ofNat',
    UInt8.toNat_ofNat', Nat.mod_eq_of_lt hm, Nat.mod_eq_of_lt hn]

/-- The first byte in which two characters differ tells which of them is greater. -/
theorem utf8EncodeChar_append_lt {c d : Char} (h : c < d) (u v : List UInt8) :
    String.utf8EncodeChar c ++ u < String.utf8EncodeChar d ++ v := by
  have lt : c.val.toNat < d.val.toNat := h
  have valid : d.val.toNat < 0x110000 := d.valid.elim (fun h => by omega) (fun h => by omega)
  simp only [String.utf8EncodeChar]
  generalize c.val.toNat = m at lt ⊢
  generalize d.val.toNat = n at lt valid ⊢
  -- four digits to the base 64
  have hm : m / 64 / 64 = m / 4096 ∧ m / 4096 / 64 = m / 262144 ∧ m / 262144 / 8 = 0 := by omega
  have hn : n / 64 / 64 = n / 4096 ∧ n / 4096 / 64 = n / 262144 ∧ n / 262144 / 8 = 0 := by omega
  split_ifs <;>
    simp (disch := omega) only [List.cons_append, List.nil_append, ofNat_cons_lt_cons_iff] <;> omega

/-! ## Bytes of a text -/

theorem flatMap_utf8EncodeChar_lt {cs ds : List Char} (h : cs < ds) :
    cs.flatMap String.utf8EncodeChar < ds.flatMap String.utf8EncodeChar := by
  induction cs generalizing ds with
  | nil =>
    rcases ds with _ | ⟨d, ds⟩
    · exact absurd h (List.lt_irrefl _)
    · obtain ⟨byte, more, some⟩ := List.exists_cons_of_ne_nil (@String.utf8EncodeChar_ne_nil d)
      rw [List.flatMap_cons, some]
      exact List.nil_lt_cons ..
  | cons c cs ih =>
    rcases ds with _ | ⟨d, ds⟩
    · exact absurd h (List.not_lt_nil _)
    · rw [List.flatMap_cons, List.flatMap_cons]
      rcases List.cons_lt_cons_iff.1 h with lt | ⟨rfl, lt⟩
      · exact utf8EncodeChar_append_lt lt _ _
      · exact List.append_left_lt (ih lt)

theorem bytes_lt_iff {s t : String} : bytes s < bytes t ↔ s < t := by
  have forward {s t : String} (h : s < t) : bytes s < bytes t := by
    rw [bytes_eq, bytes_eq]
    exact flatMap_utf8EncodeChar_lt (String.lt_iff.1 h)
  refine ⟨fun h => ?_, forward⟩
  rcases lt_trichotomy s t with lt | rfl | gt
  · exact lt
  · exact absurd h (List.lt_irrefl _)
  · exact absurd (forward gt) (List.lt_asymm h)

end Text

/-- Sorting leaves no two elements in a row that rank the same, if there are none. -/
theorem pairwise_lt_mergeSort {α : Type} {le : α → α → Bool} {lt : α → α → Prop} {xs : List α}
    (trans : ∀ x y z, le x y → le y z → le x z) (total : ∀ x y, le x y || le y x) (once : xs.Nodup)
    (strict : ∀ x ∈ xs, ∀ y ∈ xs, le x y → x ≠ y → lt x y) : (xs.mergeSort le).Pairwise lt := by
  have perm := List.mergeSort_perm xs le
  have sorted := (List.pairwise_mergeSort trans total xs).and (perm.nodup_iff.2 once)
  refine sorted.imp_of_mem fun hx hy ⟨le, other⟩ => ?_
  exact strict _ (perm.mem_iff.1 hx) _ (perm.mem_iff.1 hy) le other

end BuildAudit
