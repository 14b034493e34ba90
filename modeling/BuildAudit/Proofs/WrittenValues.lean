import BuildAudit.Config
import BuildAudit.Proofs.QuotedStrings

/-!
# Values, written and read

The values of a configuration are strings, numbers and lists of strings (`Config.Datum`).  Each is read back
from what is written for it (`Config.value?_written`): a string as it was quoted, a number digit by digit,
and a list item by item, with the blanks between items left out.
-/

namespace BuildAudit

open Toml

/-! ## Filler -/

namespace Toml

variable {c : Char} {cs rest : List Char}

/-- Neither blank nor comment begins with the character. -/
def isSolid (c : Char) : Bool := !isSpace c && c != '\n' && c != '\r' && c != '#'

theorem skipLines_solid (solid : isSolid c) (cs : List Char) : skipLines (c :: cs) = c :: cs := by
  simp only [isSolid, Bool.and_eq_true, Bool.not_eq_true', bne_iff_ne] at solid
  unfold skipLines
  split
  · simp_all
  · simp_all
  · rename_i same
    obtain ⟨rfl, rfl⟩ := List.cons.inj same
    simp [solid]
  · simp_all

theorem skipSpace_solid (solid : isSolid c) (cs : List Char) : skipSpace (c :: cs) = c :: cs := by
  simp only [isSolid, Bool.and_eq_true, Bool.not_eq_true', bne_iff_ne] at solid
  simp [skipSpace, solid]

theorem skipComment_solid (solid : isSolid c) (cs : List Char) : skipComment (c :: cs) = c :: cs := by
  simp only [isSolid, Bool.and_eq_true, Bool.not_eq_true', bne_iff_ne] at solid
  unfold skipComment
  split
  · simp_all
  · rfl

theorem skipLines_suffix (cs : List Char) : skipLines cs <:+ cs := by
  fun_induction skipLines cs with
  | case1 cs ih => exact ih.trans (List.suffix_cons _ cs)
  | case2 cs ih => exact ih.trans ((List.suffix_cons _ cs).trans (List.suffix_cons _ _))
  | case3 c cs _ _ _ ih => exact ih.trans (List.suffix_cons c cs)
  | case4 => exact List.suffix_rfl
  | case5 => exact List.suffix_rfl

theorem skipComment_suffix (cs : List Char) : skipComment cs <:+ cs := by
  unfold skipComment
  split
  · exact (List.dropWhile_suffix _).trans (List.suffix_cons _ _)
  · exact List.suffix_rfl

/-- Filler may be skipped in one go or in several. -/
theorem skipFiller_eq (cs : List Char) : skipFiller cs = skipFiller (skipComment (skipLines cs)) := by
  by_cases shorter : (skipComment (skipLines cs)).length < cs.length
  · rw [skipFiller]
    exact if_pos shorter
  · have suffix := (skipComment_suffix _).trans (skipLines_suffix cs)
    rw [suffix.eq_of_length_le (Nat.not_lt.1 shorter)]

@[simp] theorem skipFiller_nil : skipFiller [] = [] := by
  rw [skipFiller]
  rfl

theorem skipFiller_newline (cs : List Char) : skipFiller ('\n' :: cs) = skipFiller cs := by
  have lines : skipLines ('\n' :: cs) = skipLines cs := by rw [skipLines]
  rw [skipFiller_eq, lines, ← skipFiller_eq]

theorem skipFiller_solid (solid : isSolid c) (cs : List Char) : skipFiller (c :: cs) = c :: cs := by
  rw [skipFiller]
  simp only [skipLines_solid solid, skipComment_solid solid, Nat.lt_irrefl, if_false]

theorem skipFiller_space (cs : List Char) : skipFiller (' ' :: cs) = skipFiller cs := by
  have lines : skipLines (' ' :: cs) = skipLines cs := by
    rw [skipLines]
    · rfl
    · decide
    · exact fun _ same => absurd same (by decide)
  rw [skipFiller_eq, lines, ← skipFiller_eq]

/-! ## Strings -/

theorem value?_quote (depth : Nat) (text : String) (ends : Unquoted rest) :
    value? depth ((quote text).toList ++ rest) = some (.string text, rest) := by
  obtain ⟨s, inside, begins⟩ := quote_begins text
  have read := quoted?_quote text ends
  rw [begins, List.cons_append] at read ⊢
  have dispatch : value? depth (s.quote :: (inside ++ rest)) =
      (quoted? true (s.quote :: (inside ++ rest))).map fun read => (.string read.1, read.2) := by
    unfold Style.quote
    cases depth <;> split <;> rfl
  rw [dispatch, read]
  rfl

/-! ## Numbers -/

theorem digitValue_of_isDigit (h : c.isDigit) :
    Text.digitValue c = some (c.toNat - '0'.toNat) ∧ c.toNat - '0'.toNat < 10 := by
  simp only [Char.isDigit, Bool.and_eq_true, decide_eq_true_eq] at h
  refine ⟨if_pos ⟨h.1, h.2⟩, ?_⟩
  have below : c.toNat ≤ 57 := h.2
  have zero : '0'.toNat = 48 := rfl
  omega

theorem isDigitIn_of_isDigit (h : c.isDigit) : Text.isDigitIn 10 c := by
  obtain ⟨value, small⟩ := digitValue_of_isDigit h
  rw [Text.isDigitIn, value]
  exact decide_eq_true small

theorem valueIn_eq_ofDigitChars (digits : ∀ d ∈ cs, d.isDigit) :
    Text.valueIn 10 cs = Nat.ofDigitChars 10 cs 0 := by
  rw [Text.valueIn, Nat.ofDigitChars_eq_foldl]
  refine List.foldl_ext _ _ _ fun n d hd => ?_
  rw [(digitValue_of_isDigit (digits d hd)).1, Option.getD_some, Nat.mul_comm]

theorem isDigit_of_mem {n : Nat} (h : c ∈ Nat.toDigits 10 n) : c.isDigit :=
  Nat.isDigit_of_mem_toDigits (by decide) (by decide) h

theorem valueIn_toDigits (n : Nat) : Text.valueIn 10 (Nat.toDigits 10 n) = n := by
  rw [valueIn_eq_ofDigitChars fun _ => isDigit_of_mem, Nat.ofDigitChars_ten_toDigits]

/-- No number but zero begins with a zero. -/
theorem head_toDigits_ne_zero {n : Nat} (positive : 0 < n) : (Nat.toDigits 10 n).head? ≠ some '0' := by
  induction n using Nat.base_induction 10 (by decide) with
  | single n small =>
    rw [Nat.toDigits_of_lt_base small]
    simpa using Nat.ne_of_gt positive
  | digit n k small some ih =>
    rw [← Nat.toDigits_append_toDigits (by decide) some small, List.head?_append_of_ne_nil _ Nat.toDigits_ne_nil]
    exact ih some

theorem digitsOf?_toDigits (n : Nat) : digitsOf? 10 (Nat.toDigits 10 n) = some (Nat.toDigits 10 n) := by
  have single : (Nat.toDigits 10 n).splitOn '_' = [Nat.toDigits 10 n] :=
    List.splitOn_eq_singleton Nat.underscore_not_in_toDigits
  have digits : ∀ c ∈ Nat.toDigits 10 n, Text.isDigitIn 10 c :=
    fun c hc => isDigitIn_of_isDigit (isDigit_of_mem hc)
  rw [digitsOf?, single]
  simpa using digits

theorem decimal?_toDigits (n : Nat) : decimal? (Nat.toDigits 10 n) = some (Nat.toDigits 10 n) := by
  rw [decimal?, digitsOf?_toDigits]
  split
  · rename_i zero
    have begins := Option.some.inj zero
    rcases Nat.eq_zero_or_pos n with rfl | positive
    · cases begins
    · exact absurd (by rw [begins]; rfl) (head_toDigits_ne_zero positive)
  · rfl

theorem integer?_toDigits {n : Nat} (fits : n ≤ Number.maxInt64) :
    integer? (Nat.toDigits 10 n) = some (n : Int) := by
  have plain {c d : Char} {cs : List Char} (same : Nat.toDigits 10 n = c :: d :: cs) : d.isDigit :=
    isDigit_of_mem (same ▸ List.mem_cons_of_mem c List.mem_cons_self)
  have unsigned : splitSign (Nat.toDigits 10 n) = (false, Nat.toDigits 10 n) := by
    unfold splitSign
    split
    · rename_i same
      exact absurd (isDigit_of_mem (same ▸ List.mem_cons_self)) (by decide)
    · rename_i same
      exact absurd (isDigit_of_mem (same ▸ List.mem_cons_self)) (by decide)
    · rfl
  unfold integer?
  dsimp only
  split
  · rename_i same
    exact absurd (plain same) (by decide)
  · rename_i same
    exact absurd (plain same) (by decide)
  · rename_i same
    exact absurd (plain same) (by decide)
  · rw [unsigned]
    simp only [decimal?_toDigits, Option.map_some, valueIn_toDigits]
    have fits' : Number.fitsInt64 n := by
      simp only [Number.fitsInt64, Bool.and_eq_true, decide_eq_true_eq]
      omega
    simp [Option.filter, fits']

theorem not_mem_of_isDigit (h : c.isDigit) (others : ∀ d ∈ cs, d.isDigit = false) : c ∉ cs := by
  intro hc
  rw [others c hc] at h
  cases h

theorem oneOf?_of_isDigit {allowed : List Char} (others : ∀ c ∈ allowed, c.isDigit = false)
    (digits : ∀ c ∈ cs, c.isDigit) : Instant.oneOf? allowed cs = none := by
  rcases cs with _ | ⟨c, cs⟩
  · rfl
  · have notAllowed := not_mem_of_isDigit (digits c List.mem_cons_self) others
    simp [Instant.oneOf?, notAllowed]

theorem eq_drop_of_digits? {n v : Nat} (h : Instant.digits? n cs = some (v, rest)) : rest = cs.drop n := by
  unfold Instant.digits? at h
  split at h
  · obtain ⟨_, -, same⟩ := Option.map_eq_some_iff.1 h
    exact (Prod.mk.inj same).2.symm
  · cases h

theorem timeOfDay?_of_isDigit (digits : ∀ c ∈ cs, c.isDigit) : timeOfDay? cs = none := by
  unfold timeOfDay?
  rcases hour : Instant.digits? 2 cs with _ | ⟨v, rest⟩
  · rfl
  · obtain rfl := eq_drop_of_digits? hour
    have colon : Instant.oneOf? [':'] (cs.drop 2) = none :=
      oneOf?_of_isDigit (by simp) fun c hc => digits c (List.mem_of_mem_drop hc)
    simp [colon]

theorem date?_of_isDigit (digits : ∀ c ∈ cs, c.isDigit) : date? cs = none := by
  unfold date?
  rcases year : Instant.digits? 4 cs with _ | ⟨v, rest⟩
  · rfl
  · obtain rfl := eq_drop_of_digits? year
    have dash : Instant.oneOf? ['-'] (cs.drop 4) = none :=
      oneOf?_of_isDigit (by simp) fun c hc => digits c (List.mem_of_mem_drop hc)
    simp [dash]

theorem endsWord_of_isDigit (h : c.isDigit) : endsWord c = false := by
  rw [endsWord, List.contains_eq_mem, decide_eq_false_iff_not]
  exact not_mem_of_isDigit h (by simp)

theorem isSolid_of_isDigit (h : c.isDigit) : isSolid c := by
  have others : c ∉ [' ', '\t', '\n', '\r', '#'] := not_mem_of_isDigit h (by simp)
  simp only [List.mem_cons, List.not_mem_nil, or_false, not_or] at others
  simp [isSolid, isSpace, others]

/-- A number is read up to the end of its line. -/
theorem bare?_number {n : Nat} (fits : n ≤ Number.maxInt64) (rest : List Char) :
    bare? (Nat.toDigits 10 n ++ '\n' :: rest) = some (.integer n, '\n' :: rest) := by
  have digits : ∀ c ∈ Nat.toDigits 10 n, c.isDigit := fun _ => isDigit_of_mem
  have word : (Nat.toDigits 10 n ++ '\n' :: rest).takeWhile (!endsWord ·) = Nat.toDigits 10 n := by
    rw [List.takeWhile_append_of_pos fun c hc => by rw [endsWord_of_isDigit (digits c hc)]; rfl,
      List.takeWhile_cons_of_neg (by decide), List.append_nil]
  have notTrue : Nat.toDigits 10 n ≠ ['t', 'r', 'u', 'e'] := fun same => by
    have digit := digits 't' (same ▸ List.mem_cons_self)
    exact absurd digit (by decide)
  have notFalse : Nat.toDigits 10 n ≠ ['f', 'a', 'l', 's', 'e'] := fun same => by
    have digit := digits 'f' (same ▸ List.mem_cons_self)
    exact absurd digit (by decide)
  have notTime : isTime (Nat.toDigits 10 n) = false := by
    rw [isTime, timeOfDay?_of_isDigit digits, date?_of_isDigit digits]
    rfl
  have notDate : isDate (Nat.toDigits 10 n) = false := by
    rw [isDate, date?_of_isDigit digits]
    rfl
  unfold bare?
  dsimp only
  rw [word, notDate, Bool.false_and, Bool.false_and, if_neg Bool.false_ne_true, List.drop_left, ofWord?,
    if_neg notTrue, if_neg notFalse, notTime, if_neg Bool.false_ne_true, integer?_toDigits fits]
  rfl

theorem value?_number (depth : Nat) {n : Nat} (fits : n ≤ Number.maxInt64) (rest : List Char) :
    value? depth ((toString n).toList ++ '\n' :: rest) = some (.integer n, '\n' :: rest) := by
  rw [Nat.toString_eq_repr, Nat.toList_repr, ← bare?_number fits]
  obtain ⟨c, cs, begins⟩ := List.exists_cons_of_ne_nil (Nat.toDigits_ne_nil (n := n) (b := 10))
  have digit : c.isDigit := isDigit_of_mem (begins ▸ List.mem_cons_self)
  rw [begins, List.cons_append]
  unfold value?
  split
  all_goals first
    | rfl
    | rename_i same
      obtain ⟨rfl, -⟩ := List.cons.inj same
      exact absurd digit (by decide)

/-! ## Lists -/

theorem isSolid_quote (s : Style) : isSolid s.quote := by
  unfold Style.quote
  split <;> decide

theorem skipFiller_quote (text : String) (rest : List Char) :
    skipFiller ((quote text).toList ++ rest) = (quote text).toList ++ rest := by
  obtain ⟨s, inside, begins⟩ := quote_begins text
  rw [begins, List.cons_append, skipFiller_solid (isSolid_quote s)]

theorem sign?_quote {c : Char} (other : ∀ s : Style, s.quote ≠ c) (text : String) (rest : List Char) :
    sign? c ((quote text).toList ++ rest) = none := by
  obtain ⟨s, inside, begins⟩ := quote_begins text
  rw [begins, List.cons_append, sign?, if_neg (other s)]

theorem quote_ne_bracket (s : Style) : s.quote ≠ ']' := by
  unfold Style.quote
  split <;> decide

theorem unquoted_cons (other : c ∉ ['"', '\x27']) (cs : List Char) : Unquoted (c :: cs) := by
  intro s same
  obtain rfl : c = s.quote := Option.some.inj same
  unfold Style.quote at other
  split at other <;> simp at other

/-- An item of a list on a line of its own. -/
def itemChars (item : String) : List Char :=
  [' ', ' ', ' ', ' '] ++ (quote item).toList ++ [',', '\n']

theorem arrayRest?_close (value : Reader Value) (fuel : Nat) {rest : List Char}
    (closes : skipFiller cs = ']' :: rest) : arrayRest? value (fuel + 1) cs = some ([], rest) := by
  rw [arrayRest?, closes]
  rfl

/-- An item is read, and then what follows behind its comma. -/
theorem arrayRest?_quote (depth fuel : Nat) {item : String} {before : List Char}
    (front : skipFiller before = (quote item).toList ++ ',' :: rest) :
    arrayRest? (value? depth) (fuel + 1) before =
      (arrayRest? (value? depth) fuel rest).map fun (items, rest) => (.string item :: items, rest) := by
  have read := value?_quote depth item (unquoted_cons (c := ',') (by decide) rest)
  have comma : skipFiller (',' :: rest) = ',' :: rest := skipFiller_solid (by decide) rest
  rw [arrayRest?, front]
  dsimp only
  rw [sign?_quote quote_ne_bracket, read]
  simp [comma]

theorem arrayRest?_last (depth fuel : Nat) {item : String} {before : List Char}
    (front : skipFiller before = (quote item).toList ++ ']' :: rest) :
    arrayRest? (value? depth) (fuel + 1) before = some ([.string item], rest) := by
  have read := value?_quote depth item (unquoted_cons (c := ']') (by decide) rest)
  have closes : skipFiller (']' :: rest) = ']' :: rest := skipFiller_solid (by decide) rest
  rw [arrayRest?, front]
  dsimp only
  rw [sign?_quote quote_ne_bracket, read]
  simp [closes]

theorem arrayRest?_items (depth : Nat) {fuel : Nat} (items : List String) (enough : items.length < fuel)
    (rest : List Char) :
    arrayRest? (value? depth) fuel ('\n' :: (items.flatMap itemChars ++ ']' :: rest)) =
      some (items.map .string, rest) := by
  obtain ⟨fuel, rfl⟩ := Nat.exists_eq_succ_of_ne_zero (Nat.ne_of_gt (Nat.zero_lt_of_lt enough))
  induction items generalizing fuel with
  | nil =>
    refine arrayRest?_close _ fuel ?_
    rw [List.flatMap_nil, List.nil_append, skipFiller_newline, skipFiller_solid (by decide)]
  | cons item items ih =>
    have front : skipFiller ('\n' :: ((item :: items).flatMap itemChars ++ ']' :: rest)) =
        (quote item).toList ++ ',' :: '\n' :: (items.flatMap itemChars ++ ']' :: rest) := by
      rw [List.flatMap_cons, skipFiller_newline]
      simp only [itemChars, List.append_assoc, List.cons_append, List.nil_append, skipFiller_space,
        skipFiller_quote]
    rw [arrayRest?_quote depth fuel front]
    have some : fuel ≠ 0 := Nat.ne_of_gt (Nat.zero_lt_of_lt (Nat.lt_of_succ_lt_succ enough))
    obtain ⟨fuel, rfl⟩ := Nat.exists_eq_succ_of_ne_zero some
    rw [ih fuel (Nat.lt_of_succ_lt_succ enough)]
    rfl

theorem length_le_flatMap_itemChars (items : List String) :
    items.length ≤ (items.flatMap itemChars).length := by
  induction items with
  | nil => exact Nat.le_refl 0
  | cons item items ih =>
    simp only [List.flatMap_cons, List.length_append, List.length_cons, itemChars]
    omega

end Toml

namespace Config

open Toml

theorem toList_listText {items : List String} (several : 2 ≤ items.length) :
    (listText items).toList = '[' :: '\n' :: (items.flatMap itemChars ++ [']']) := by
  have item (s : String) : ("    " ++ quote s ++ ",\n").toList = itemChars s := by
    simp [itemChars]
  unfold listText
  split
  · simp at several
  · simp at several
  · simp only [String.toList_append, String.toList_join, List.flatMap_map, item]
    rfl

theorem listText_begins (items : List String) : ∃ inside, (listText items).toList = '[' :: inside := by
  rcases items with _ | ⟨first, _ | ⟨second, items⟩⟩
  · exact ⟨[']'], rfl⟩
  · exact ⟨(quote first).toList ++ [']'], by simp [listText]⟩
  · exact ⟨_, toList_listText (by simp)⟩

theorem value?_bracket (depth : Nat) (cs : List Char) :
    value? (depth + 1) ('[' :: cs) =
      (arrayRest? (value? depth) (cs.length + 1) cs).map fun (items, rest) => (.array items, rest) := rfl

/-- A list is read, on one line or on several. -/
theorem value?_listText (depth : Nat) (items : List String) (rest : List Char) :
    value? (depth + 1) ((listText items).toList ++ rest) = some (.array (items.map .string), rest) := by
  rcases items with _ | ⟨first, _ | ⟨second, items⟩⟩
  · have text : (listText []).toList = ['[', ']'] := rfl
    have closes : skipFiller (']' :: rest) = ']' :: rest := skipFiller_solid (by decide) rest
    rw [text, List.cons_append, List.cons_append, List.nil_append, value?_bracket, arrayRest?_close _ _ closes]
    rfl
  · have text : (listText [first]).toList = '[' :: ((quote first).toList ++ [']']) := by
      simp [listText]
    have read := arrayRest?_last depth ((quote first).toList ++ ']' :: rest).length
      (skipFiller_quote first (']' :: rest))
    rw [text, List.cons_append, List.append_assoc, value?_bracket, List.cons_append, List.nil_append, read]
    rfl
  · rw [toList_listText (by simp), List.cons_append, List.cons_append, List.append_assoc, value?_bracket,
      List.cons_append, List.nil_append, arrayRest?_items]
    · rfl
    · have many := length_le_flatMap_itemChars (first :: second :: items)
      simp only [List.length_append, List.length_cons] at many ⊢
      omega

/-! ## Settings -/

/-- The value of a setting. -/
inductive Datum where
  | text (s : String)
  | count (n : Nat)
  | texts (items : List String)
  deriving DecidableEq, Repr

namespace Datum

def written : Datum → String
  | text s => quote s
  | count n => toString n
  | texts items => listText items

def value : Datum → Value
  | text s => .string s
  | count n => .integer n
  | texts items => .array (items.map .string)

/-- Numbers have 64 bits with a sign. -/
def Fits : Datum → Prop
  | count n => n ≤ Number.maxInt64
  | text _ | texts _ => True

theorem written_begins (datum : Datum) : ∃ c cs, datum.written.toList = c :: cs ∧ isSolid c := by
  cases datum with
  | text s =>
    obtain ⟨style, inside, begins⟩ := quote_begins s
    exact ⟨_, _, begins, isSolid_quote style⟩
  | count n =>
    obtain ⟨c, cs, begins⟩ := List.exists_cons_of_ne_nil (Nat.toDigits_ne_nil (n := n) (b := 10))
    have digit : c.isDigit := isDigit_of_mem (begins ▸ List.mem_cons_self)
    exact ⟨c, cs, by rw [written, Nat.toString_eq_repr, Nat.toList_repr, begins], isSolid_of_isDigit digit⟩
  | texts items =>
    obtain ⟨inside, begins⟩ := listText_begins items
    exact ⟨'[', inside, begins, by decide⟩

/-- The value is read back from what is written, up to the end of the line. -/
theorem value?_written (depth : Nat) {datum : Datum} (fits : datum.Fits) (rest : List Char) :
    value? (depth + 1) (datum.written.toList ++ '\n' :: rest) = some (datum.value, '\n' :: rest) := by
  cases datum with
  | text s => exact value?_quote _ s (unquoted_cons (by decide) rest)
  | count n =>
    simp only [Fits] at fits
    exact value?_number _ fits rest
  | texts items => exact value?_listText depth items _

end Datum

end Config

end BuildAudit
