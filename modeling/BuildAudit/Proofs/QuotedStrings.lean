import Mathlib.Data.List.Basic
import BuildAudit.Toml.Quoted

/-!
# Quoted strings, written and read

Between its quotes, a string is spelled piece by piece (`Style.Spells`): a character stands for itself or is
escaped, and a few quotes in a row may stand as they are.  Reading finds what is spelled
(`Style.Spells.readRest?_eq`), and what is written spells the string, so every string is read back,
whichever style was chosen for it and whatever follows (`quoted?_quote`).
-/

namespace BuildAudit.Toml

namespace Style

variable {s : Style} {c d : Char} {cs piece written text rest : List Char} {run : Nat}

/-! ## Single steps of reading -/

theorem readRest?_open (opens : s.closing? cs = none) :
    s.readRest? (s.quote :: cs) =
      (s.readRest? cs).map fun (text, rest) => (s.quote :: text, rest) := by
  rw [readRest?, if_pos rfl, opens]

theorem readRest?_close {ending : List Char × List Char} (closes : s.closing? cs = some ending) :
    s.readRest? (s.quote :: cs) = some ending := by
  rw [readRest?, if_pos rfl, closes]

theorem backslash_ne_quote (s : Style) : '\\' ≠ s.quote := by
  unfold quote
  split <;> decide

theorem readRest?_escape (escapes : s.escapes) {added : List Char}
    (stands : s.escaped? cs = some (added, rest)) :
    s.readRest? ('\\' :: cs) =
      (s.readRest? rest).map fun (text, rest) => (added ++ text, rest) := by
  rw [readRest?, if_neg s.backslash_ne_quote, if_pos ⟨rfl, escapes⟩]
  split
  · rename_i same
    obtain ⟨rfl, rfl⟩ := Prod.mk.inj (Option.some.inj (stands.symm.trans same))
    rfl
  · rename_i none
    rw [stands] at none
    cases none

theorem newline_ne_quote (s : Style) : '\n' ≠ s.quote := by
  unfold quote
  split <;> decide

theorem readRest?_newline (lines : s.lines) :
    s.readRest? ('\n' :: cs) = (s.readRest? cs).map fun (text, rest) => ('\n' :: text, rest) := by
  rw [readRest?, if_neg s.newline_ne_quote, if_neg (fun h => absurd h.1 (by decide))]
  split
  · rename_i found
    rw [if_pos lines] at found
    obtain rfl := Option.some.inj found
    rfl
  · rename_i none
    rw [if_pos lines] at none
    cases none

theorem newline?_eq_none (notFeed : c ≠ '\n') (notReturn : c ≠ '\r') : newline? (c :: cs) = none := by
  unfold newline?
  split
  · rename_i same
    exact absurd (List.cons.inj same).1 notFeed
  · rename_i same
    exact absurd (List.cons.inj same).1 notReturn
  · rfl

theorem readRest?_plain (inner : c ≠ s.quote) (direct : ¬ (c = '\\' ∧ s.escapes)) (plain : isPlainChar c) :
    s.readRest? (c :: cs) = (s.readRest? cs).map fun (text, rest) => (c :: text, rest) := by
  have notFeed : c ≠ '\n' := by
    rintro rfl
    exact absurd plain (by decide)
  have notReturn : c ≠ '\r' := by
    rintro rfl
    exact absurd plain (by decide)
  rw [readRest?, if_neg inner, if_neg direct]
  split
  · rename_i found
    rw [newline?_eq_none notFeed notReturn, ite_self] at found
    cases found
  · rw [if_pos plain]

/-! ## Quotes in a row -/

/-- Quotes in front of something else belong to the string, if they are few. -/
theorem readRest?_quotes (few : run ≤ s.quotesAllowed) (other : d ≠ s.quote) :
    s.readRest? (List.replicate run s.quote ++ d :: rest) =
      (s.readRest? (d :: rest)).map fun (text, rest) => (List.replicate run s.quote ++ text, rest) := by
  induction run with
  | zero => simp
  | succ run ih =>
    have opens : s.closing? (List.replicate run s.quote ++ d :: rest) = none := by
      unfold quotesAllowed at few
      unfold closing?
      split at few
      · rename_i lines
        have short : run = 0 ∨ run = 1 := by omega
        rcases short with rfl | rfl <;> simp [lines, other]
      · omega
    rw [List.replicate_succ, List.cons_append, readRest?_open opens, ih (Nat.le_of_succ_le few), Option.map_map]
    rfl

/-- Quotes in front of the closing ones belong to the string, if they are few. -/
theorem readRest?_closing (few : run ≤ s.quotesAllowed) (ends : rest.head? ≠ some s.quote) :
    s.readRest? (List.replicate run s.quote ++ (List.replicate s.width s.quote ++ rest)) =
      some (List.replicate run s.quote, rest) := by
  unfold quotesAllowed at few
  rcases lines : s.lines
  · obtain rfl : run = 0 := by simpa [lines] using few
    have closes : s.closing? rest = some ([], rest) := by simp [closing?, lines]
    simpa [width, lines] using readRest?_close closes
  · have two : run ≤ 2 := by simpa [lines] using few
    have front : List.replicate run s.quote ++ (List.replicate s.width s.quote ++ rest) =
        s.quote :: s.quote :: s.quote :: (List.replicate run s.quote ++ rest) := by
      rw [← List.append_assoc, List.replicate_append_replicate, width, if_pos lines, Nat.add_comm,
        ← List.replicate_append_replicate]
      rfl
    rw [front]
    refine readRest?_close ?_
    have extra : ((List.replicate run s.quote ++ rest).take 2).takeWhile (· = s.quote) =
        List.replicate run s.quote := by
      have short : run = 0 ∨ run = 1 ∨ run = 2 := by omega
      rcases rest with _ | ⟨r, rest⟩
      · rcases short with rfl | rfl | rfl <;> simp
      · have other : r ≠ s.quote := fun same => ends (by rw [same]; rfl)
        rcases short with rfl | rfl | rfl <;> simp [other]
    have taken : (s.quote :: s.quote :: (List.replicate run s.quote ++ rest)).take 2 = [s.quote, s.quote] := rfl
    have dropped : (s.quote :: s.quote :: (List.replicate run s.quote ++ rest)).drop 2 =
        List.replicate run s.quote ++ rest := rfl
    have behind : (s.quote :: s.quote :: (List.replicate run s.quote ++ rest)).drop (2 + run) = rest := by
      rw [← List.drop_drop, dropped, List.drop_left' List.length_replicate]
    rw [closing?, if_neg (by simp [lines]), if_pos taken, dropped, extra]
    dsimp only
    rw [List.length_replicate, behind]

/-! ## Spelling -/

/-- The piece stands for the character, whatever follows. -/
structure Denotes (s : Style) (piece : List Char) (c : Char) : Prop where
  /-- It begins neither as quotes do nor, unless it stands for one, as a line end does. -/
  begins : ∃ first more, piece = first :: more ∧ first ≠ s.quote ∧ first ≠ '\r' ∧ (first = '\n' → c = '\n')
  reads : ∀ rest, s.readRest? (piece ++ rest) =
    (s.readRest? rest).map fun (text, rest) => (c :: text, rest)

/-- What is written between quotes, behind `run` quotes of the string, stands for the string. -/
inductive Spells (s : Style) : Nat → List Char → List Char → Prop where
  | nil (run : Nat) : Spells s run [] []
  | quote {run : Nat} {written text : List Char} (allowed : run < s.quotesAllowed)
    (rest : Spells s (run + 1) written text) : Spells s run (s.quote :: written) (s.quote :: text)
  | char {run : Nat} {piece written text : List Char} {c : Char} (denotes : s.Denotes piece c)
    (rest : Spells s 0 written text) : Spells s run (piece ++ written) (c :: text)

/-- What is spelled between quotes is read.  The quotes before it wait until it is clear whether they are
the closing ones. -/
theorem Spells.readRest?_eq (h : s.Spells run written text) (few : run ≤ s.quotesAllowed)
    (ends : rest.head? ≠ some s.quote) :
    s.readRest? (List.replicate run s.quote ++ (written ++ (List.replicate s.width s.quote ++ rest))) =
      some (List.replicate run s.quote ++ text, rest) := by
  induction h with
  | nil run =>
    rw [List.nil_append, List.append_nil]
    exact readRest?_closing few ends
  | @quote run written text allowed _ ih =>
    have shift (cs : List Char) : List.replicate run s.quote ++ s.quote :: cs =
        List.replicate (run + 1) s.quote ++ cs := by
      rw [List.replicate_succ', List.append_assoc]
      rfl
    rw [List.cons_append, shift, shift]
    exact ih allowed
  | @char run piece written text c denotes _ ih =>
    obtain ⟨first, more, rfl, other, -⟩ := denotes.begins
    have reads := denotes.reads (written ++ (List.replicate s.width s.quote ++ rest))
    rw [List.append_assoc, List.cons_append, readRest?_quotes few other, ← List.cons_append, reads]
    have later := ih (Nat.zero_le _)
    rw [List.replicate_zero, List.nil_append] at later
    rw [later]
    rfl

/-- A string of one line is spelled without quotes at the front. -/
theorem Spells.head_ne_quote (h : s.Spells 0 written text) (line : s.lines = false) :
    written.head? ≠ some s.quote := by
  cases h with
  | nil => exact nofun
  | quote allowed => simp [quotesAllowed, line] at allowed
  | char denotes =>
    obtain ⟨first, more, rfl, other, -⟩ := denotes.begins
    simpa using other

/-- A string without line ends is not spelled with one at the front. -/
theorem Spells.newline?_eq_none (h : s.Spells 0 written text) (line : '\n' ∉ text) (cs : List Char) :
    newline? (written ++ s.quote :: cs) = none := by
  have notReturn : s.quote ≠ '\r' := by
    unfold Style.quote
    split <;> decide
  cases h with
  | nil => exact Style.newline?_eq_none s.newline_ne_quote.symm notReturn
  | quote => exact Style.newline?_eq_none s.newline_ne_quote.symm notReturn
  | char denotes =>
    obtain ⟨first, more, rfl, -, notReturn, feed⟩ := denotes.begins
    exact Style.newline?_eq_none (fun same => line (feed same ▸ List.mem_cons_self)) notReturn

/-! ## Writing -/

/-- A character that can stand as it is. -/
theorem denotes_self (inner : c ≠ s.quote) (direct : ¬ (c = '\\' ∧ s.escapes))
    (stands : isPlainChar c ∨ c = '\n' ∧ s.lines) : s.Denotes [c] c := by
  rcases stands with plain | ⟨rfl, lines⟩
  · refine ⟨⟨c, [], rfl, inner, ?_, id⟩, fun rest => readRest?_plain inner direct plain⟩
    rintro rfl
    exact absurd plain (by decide)
  · exact ⟨⟨'\n', [], rfl, inner, by decide, id⟩, fun rest => readRest?_newline lines⟩

/-- An escape, which does not continue a line. -/
theorem denotes_escape (escapes : s.escapes) {e : Char} (inline : isSpace e = false)
    (notFeed : e ≠ '\n') (notReturn : e ≠ '\r')
    (stands : ∀ rest, escape? (e :: (cs ++ rest)) = some (c, rest)) : s.Denotes ('\\' :: e :: cs) c := by
  refine ⟨⟨'\\', e :: cs, rfl, s.backslash_ne_quote, by decide, nofun⟩, fun rest => ?_⟩
  have reads : s.escaped? (e :: (cs ++ rest)) = some ([c], rest) := by
    rw [escaped?, List.dropWhile_cons_of_neg (by simp [inline]), newline?_eq_none notFeed notReturn, ite_self,
      stands]
    rfl
  exact readRest?_escape escapes reads

/-- The characters that are escaped by their numbers have small ones. -/
theorem toNat_lt_of_needsEscape (h : needsEscape c) : c.toNat < 128 := by
  simp only [needsEscape, isPlainChar, Bool.and_eq_true, Bool.not_eq_true', Bool.or_eq_false_iff,
    Bool.and_eq_false_iff, decide_eq_false_iff_not, bne_eq_false_iff_eq] at h
  omega

theorem hexText_of_lt : ∀ n < 128, (hexText n).length = 4 ∧ Text.natIn? 16 (hexText n) = some n := by
  decide

theorem escape?_hexText (h : c.toNat < 128) (rest : List Char) :
    escape? ('u' :: (hexText c.toNat ++ rest)) = some (c, rest) := by
  obtain ⟨four, value⟩ := hexText_of_lt c.toNat h
  have valid : c.toNat.isValidChar := c.valid
  rw [escape?, scalar?, List.take_left' four, List.drop_left' four, if_pos four, value]
  simp [valid]

theorem denotes_writeChar (escapes : s.escapes) (inner : c ≠ '"') : s.Denotes (s.writeChar c) c := by
  have inner' : c ≠ s.quote := by rwa [quote, if_pos escapes]
  unfold writeChar
  split
  · exact denotes_escape escapes rfl (by decide) (by decide) fun _ => rfl
  · exact denotes_escape escapes rfl (by decide) (by decide) fun _ => rfl
  · split
    · exact denotes_self inner' (fun h => absurd h.1 (by decide)) (.inr ⟨rfl, ‹_›⟩)
    · exact denotes_escape escapes rfl (by decide) (by decide) fun _ => rfl
  · exact denotes_escape escapes rfl (by decide) (by decide) fun _ => rfl
  · exact denotes_escape escapes rfl (by decide) (by decide) fun _ => rfl
  · exact denotes_escape escapes rfl (by decide) (by decide) fun _ => rfl
  · rename_i notFeed _ _ notBackslash
    split
    · rename_i needed
      exact denotes_escape escapes rfl (by decide) (by decide)
        (escape?_hexText (toNat_lt_of_needsEscape needed))
    · rename_i needless
      refine denotes_self inner' (fun h => notBackslash h.1) (.inl ?_)
      by_contra plain
      exact needless (by simp [needsEscape, plain, show c ≠ '\n' from notFeed])

/-- Text that is written with escapes spells itself. -/
theorem spells_writeFrom (escapes : s.escapes) (run : Nat) (text : List Char) :
    s.Spells run (s.writeFrom run text) text := by
  have mark : s.quote = '"' := by rw [quote, if_pos escapes]
  induction text generalizing run with
  | nil => exact .nil run
  | cons c text ih =>
    unfold writeFrom
    split
    · rename_i same
      rw [same]
      split
      · rw [← mark]
        exact .quote ‹_› (ih (run + 1))
      · have escaped : s.Denotes ['\\', '"'] '"' :=
          denotes_escape escapes rfl (by decide) (by decide) fun _ => rfl
        exact .char escaped (ih 0)
    · exact .char (denotes_writeChar escapes ‹_›) (ih 0)

/-- Text that suits a style without escapes spells itself as it is. -/
theorem spells_self (direct : s.escapes = false) (plain : ∀ c ∈ text, isPlainChar c ∨ c = '\n' ∧ s.lines)
    (few : runsAtMost s.quote s.quotesAllowed run text) : s.Spells run text text := by
  induction text generalizing run with
  | nil => exact .nil run
  | cons c text ih =>
    obtain ⟨stands, plain⟩ := List.forall_mem_cons.1 plain
    unfold runsAtMost at few
    split at few
    · rename_i same
      obtain ⟨allowed, few⟩ := Bool.and_eq_true_iff.1 few
      rw [same]
      exact .quote (of_decide_eq_true allowed) (ih plain few)
    · exact .char (denotes_self ‹_› (by simp [direct]) stands) (ih plain few)

theorem plain_of_suits (suits : s.suits text) : ∀ c ∈ text, isPlainChar c ∨ c = '\n' ∧ s.lines := by
  intro c hc
  simp only [Style.suits, Bool.and_eq_true, Bool.or_eq_true, Bool.not_eq_true', List.any_eq_false,
    List.contains_eq_mem, decide_eq_false_iff_not] at suits
  obtain ⟨⟨⟨noEscape, -⟩, oneLine⟩, -⟩ := suits
  have needless := noEscape c hc
  simp only [needsEscape, Bool.and_eq_true, Bool.not_eq_true', bne_iff_ne, not_and, not_not] at needless
  rcases plain : isPlainChar c
  · obtain rfl := needless plain
    exact .inr ⟨rfl, oneLine.resolve_right (not_not.2 hc)⟩
  · exact .inl rfl

/-- What is written between the quotes spells the text, if the style has escapes or needs none. -/
theorem spells_written (able : s.escapes ∨ s.suits text) :
    s.Spells 0 (if s.escapes then s.writeFrom 0 text else text) text := by
  split
  · exact spells_writeFrom ‹_› 0 text
  · rename_i direct
    have suits := able.resolve_left direct
    have few : runsAtMost s.quote s.quotesAllowed 0 text := by
      rw [Style.suits, Bool.and_eq_true] at suits
      exact suits.2
    exact spells_self (Bool.eq_false_iff.2 direct) (plain_of_suits suits) few

/-- The style for a text has escapes or suits it. -/
theorem able_choose (text : List Char) : (choose text).escapes ∨ (choose text).suits text := by
  rcases found : all.find? (·.suits text) with _ | s
  · left
    rw [choose, found]
    rfl
  · right
    have suits := List.find?_some found
    rw [choose, found]
    exact suits

end Style

/-! ## Strings of any style -/

/-- The kind of quote tells whether there are escapes. -/
theorem Style.quote_beq (s : Style) : (s.quote == '"') = s.escapes := by
  rcases escapes : s.escapes <;> simp [quote, escapes]

/-- Nothing that follows a string begins with a quote. -/
def Unquoted (rest : List Char) : Prop := ∀ s : Style, rest.head? ≠ some s.quote

/-- Two more quotes at the front tell a string of several lines. -/
theorem quoted?_eq {s : Style} {cs : List Char} (style : (cs.take 2 == [s.quote, s.quote]) = s.lines) :
    quoted? true (s.quote :: cs) =
      (s.readRest? (if s.lines then (newline? (cs.drop (s.width - 1))).getD (cs.drop (s.width - 1))
        else cs.drop (s.width - 1))).map fun (text, rest) => (String.ofList text, rest) := by
  have chosen : (⟨s.quote == '"', true && cs.take 2 == [s.quote, s.quote]⟩ : Style) = s := by
    rw [style, Style.quote_beq, Bool.true_and]
  simp only [quoted?, chosen]
  simp only [style, Bool.true_and, if_true]

theorem quoted?_line {s : Style} (line : s.lines = false) {written text rest : List Char}
    (spells : s.Spells 0 written text) (ends : Unquoted rest) :
    quoted? true (s.quote :: (written ++ s.quote :: rest)) = some (String.ofList text, rest) := by
  have width : s.width = 1 := by simp [Style.width, line]
  have reads := spells.readRest?_eq (Nat.zero_le _) (ends s)
  have style : ((written ++ s.quote :: rest).take 2 == [s.quote, s.quote]) = s.lines := by
    rw [line, beq_eq_false_iff_ne]
    have other := spells.head_ne_quote line
    rcases written with _ | ⟨c, written⟩
    · rcases rest with _ | ⟨r, rest⟩
      · simp
      · have differ := ends s
        simpa using differ
    · intro same
      exact other (congrArg List.head? same)
  rw [width] at reads
  rw [quoted?_eq style, if_neg (by simp [line]), width, List.drop_zero]
  exact congrArg _ reads

/-- The line end behind the opening quotes does not count. -/
theorem quoted?_lines {s : Style} (lines : s.lines) {start written text rest : List Char}
    (starts : start = ['\n'] ∨ start = [] ∧ '\n' ∉ text) (spells : s.Spells 0 written text)
    (ends : Unquoted rest) :
    let quotes := [s.quote, s.quote, s.quote]
    quoted? true (quotes ++ (start ++ (written ++ (quotes ++ rest)))) = some (String.ofList text, rest) := by
  intro quotes
  have width : s.width = 3 := by simp [Style.width, lines]
  have reads := spells.readRest?_eq (Nat.zero_le _) (ends s)
  have behind : (newline? (start ++ (written ++ (quotes ++ rest)))).getD (start ++ (written ++ (quotes ++ rest))) =
      written ++ (quotes ++ rest) := by
    rcases starts with rfl | ⟨rfl, line⟩
    · rfl
    · have none : newline? (written ++ (quotes ++ rest)) = none := spells.newline?_eq_none line _
      rw [List.nil_append, none]
      rfl
  have style : ((s.quote :: s.quote :: (start ++ (written ++ (quotes ++ rest)))).take 2 ==
      [s.quote, s.quote]) = s.lines := by simp [lines]
  have dropped : (s.quote :: s.quote :: (start ++ (written ++ (quotes ++ rest)))).drop 2 =
      start ++ (written ++ (quotes ++ rest)) := rfl
  rw [width] at reads
  rw [List.cons_append, List.cons_append, List.cons_append, List.nil_append, quoted?_eq style, if_pos lines,
    width, dropped, behind]
  exact congrArg _ reads

/-- What is written in a style is read in it, if the style has escapes or needs none. -/
theorem quoted?_write {s : Style} {text rest : List Char} (able : s.escapes ∨ s.suits text)
    (ends : Unquoted rest) : quoted? true (s.write text ++ rest) = some (String.ofList text, rest) := by
  have spells := Style.spells_written able
  rcases lines : s.lines
  · have read := quoted?_line lines spells ends
    simpa [Style.write, Style.width, lines] using read
  · have starts : (if s.lines && text.contains '\n' then ['\n'] else []) = ['\n'] ∨
        (if s.lines && text.contains '\n' then ['\n'] else []) = [] ∧ '\n' ∉ text := by
      by_cases feed : '\n' ∈ text <;> simp [lines, feed]
    have read := quoted?_lines lines starts spells ends
    simpa [Style.write, Style.width, lines, List.replicate_succ] using read

theorem quote_begins (text : String) :
    ∃ (s : Style) (inside : List Char), (quote text).toList = s.quote :: inside := by
  have some (s : Style) : ∃ more, List.replicate s.width s.quote = s.quote :: more := by
    unfold Style.width
    split
    · exact ⟨[s.quote, s.quote], rfl⟩
    · exact ⟨[], rfl⟩
  obtain ⟨more, begins⟩ := some (Style.choose text.toList)
  rw [quote, String.toList_ofList, Style.write, begins]
  exact ⟨_, _, rfl⟩

/-- Every string is read back from what is written for it. -/
theorem quoted?_quote (text : String) {rest : List Char} (ends : Unquoted rest) :
    quoted? true ((quote text).toList ++ rest) = some (text, rest) := by
  rw [quote, String.toList_ofList, quoted?_write (Style.able_choose _) ends, String.ofList_toList]

end BuildAudit.Toml
