import BuildAudit.Proofs.WrittenValues

/-!
# Documents, written and read

A document of a configuration is a list of lines, each empty, a header or a setting.  Reading it is entering
one line after the other (`read?_charsOf`), where empty lines change nothing, and entering sections of different
names makes the table of these sections (`foldlM_enter_sections`).
-/

namespace BuildAudit

open Toml

/-! ## Entries -/

namespace Toml

variable {key : String} {f : Option Node → Option Node} {entries : Entries}

/-- A new key goes to the end. -/
theorem alter_new (new : key ∉ entries.map Prod.fst) :
    alter key f entries = (f none).map fun node => entries ++ [(key, node)] := by
  induction entries with
  | nil => rfl
  | cons entry entries ih =>
    obtain ⟨k, node⟩ := entry
    rw [List.map_cons, List.mem_cons, not_or] at new
    rw [alter, if_neg (Ne.symm new.1), ih new.2, Option.map_map]
    rfl

theorem alter_last (new : key ∉ entries.map Prod.fst) (node : Node) :
    alter key f (entries ++ [(key, node)]) = (f (some node)).map fun node => entries ++ [(key, node)] := by
  induction entries with
  | nil => exact if_pos rfl
  | cons entry entries ih =>
    obtain ⟨k, node'⟩ := entry
    rw [List.map_cons, List.mem_cons, not_or] at new
    rw [List.cons_append, alter, if_neg (Ne.symm new.1), ih new.2, Option.map_map]
    rfl

theorem openTable_new (new : key ∉ entries.map Prod.fst) :
    openTable [] key entries = some (entries ++ [(key, .table .header [])]) := by
  rw [openTable, alterUnder, alter_new new]
  rfl

/-- A new name gets its value in the table at the end. -/
theorem alterUnder_assign {section' name : String} {value : Value} {settings : Entries}
    (new : section' ∉ entries.map Prod.fst) (new' : name ∉ settings.map Prod.fst) (origin : Origin) :
    alterUnder [section'] (assign value name []) (entries ++ [(section', .table origin settings)]) =
      some (entries ++ [(section', .table origin (settings ++ [(name, .leaf value)]))]) := by
  have assigned : assign value name [] settings = some (settings ++ [(name, .leaf value)]) := by
    rw [assign, alter_new new']
    rfl
  rw [alterUnder, alter_last new, alterUnder]
  dsimp only
  rw [assigned]
  rfl

/-! ## Names -/

/-- A name that needs no quotes. -/
structure IsBareName (name : String) : Prop where
  some : name ≠ ""
  bare : ∀ c ∈ name.toList, isBareKeyChar c

instance (name : String) : Decidable (IsBareName name) :=
  decidable_of_iff (name ≠ "" ∧ name.toList.all isBareKeyChar)
    ⟨fun h => ⟨h.1, List.all_eq_true.1 h.2⟩, fun h => ⟨h.1, List.all_eq_true.2 h.2⟩⟩

theorem ne_of_isBareKeyChar {c d : Char} (bare : isBareKeyChar c) (other : isBareKeyChar d = false) : c ≠ d := by
  rintro rfl
  rw [bare] at other
  cases other

theorem isSolid_of_isBareKeyChar {c : Char} (bare : isBareKeyChar c) : isSolid c := by
  have other (d : Char) (notBare : isBareKeyChar d = false) : c ≠ d := ne_of_isBareKeyChar bare notBare
  simp [isSolid, isSpace, other ' ' (by decide), other '\t' (by decide), other '\n' (by decide),
    other '\r' (by decide), other '#' (by decide)]

theorem IsBareName.begins {name : String} (h : IsBareName name) :
    ∃ c cs, name.toList = c :: cs ∧ isBareKeyChar c := by
  obtain ⟨c, cs, begins⟩ := List.exists_cons_of_ne_nil (l := name.toList) (by simpa using h.some)
  exact ⟨c, cs, begins, h.bare c (begins ▸ List.mem_cons_self)⟩

theorem name?_bare {name : String} (h : IsBareName name) {c : Char} (ends : isBareKeyChar c = false)
    (rest : List Char) : name? (name.toList ++ c :: rest) = some (name, c :: rest) := by
  obtain ⟨first, cs, begins, bare⟩ := h.begins
  have notQuote : ¬ (first = '"' ∨ first = '\x27') :=
    not_or.2 ⟨ne_of_isBareKeyChar bare (by decide), ne_of_isBareKeyChar bare (by decide)⟩
  have word : (name.toList ++ c :: rest).takeWhile isBareKeyChar = name.toList := by
    rw [List.takeWhile_append_of_pos h.bare, List.takeWhile_cons_of_neg (by simp [ends]), List.append_nil]
  have some : name.toList ≠ [] := by simpa using h.some
  rw [begins, List.cons_append, name?, if_neg notQuote, ← List.cons_append, ← begins, word, if_neg some,
    List.drop_left, String.ofList_toList]

/-- A name without quotes is a key, if no dot follows. -/
theorem key?_bare {name : String} (h : IsBareName name) {c : Char} {rest : List Char}
    (ends : isBareKeyChar c = false) (next : (skipSpace (c :: rest)).head? ≠ some '.') :
    key? (name.toList ++ c :: rest) = some (⟨[], name⟩, skipSpace (c :: rest)) := by
  obtain ⟨first, cs, begins, bare⟩ := h.begins
  have front : skipSpace (name.toList ++ c :: rest) = name.toList ++ c :: rest := by
    rw [begins, List.cons_append, skipSpace_solid (isSolid_of_isBareKeyChar bare)]
  have single : names? nestingLimit (name.toList ++ c :: rest) = some ([name], skipSpace (c :: rest)) := by
    rw [nestingLimit, names?, front, name?_bare h ends]
    simp only [Option.bind_eq_bind, Option.bind_some]
    split
    · rename_i dot
      exact absurd (by rw [dot]; rfl) next
    · rfl
  rw [key?, single]
  rfl

end Toml

namespace Config

/-! ## Lines -/

/-- A line of a configuration. -/
inductive Line where
  | blank
  | header (name : String)
  | setting (name : String) (datum : Datum)
  deriving DecidableEq, Repr

namespace Line

def text : Line → String
  | blank => "\n"
  | header name => "[" ++ name ++ "]\n"
  | setting name datum => settingLine name datum.written

/-- The names need no quotes, and numbers have 64 bits with a sign. -/
def Fits : Line → Prop
  | blank => True
  | header name => IsBareName name
  | setting name datum => IsBareName name ∧ datum.Fits

/-- What reading the line does. -/
def enter (d : Draft) : Line → Option Draft
  | blank => some d
  | header name => (openTable [] name d.entries).map fun entries => ⟨entries, [name]⟩
  | setting name datum =>
    (alterUnder d.heading (assign datum.value name []) d.entries).map fun entries => ⟨entries, d.heading⟩

end Line

/-- The text of lines. -/
def charsOf (lines : List Line) : List Char := lines.flatMap fun line => line.text.toList

theorem headerKey?_bare {name : String} (bare : IsBareName name) (rest : List Char) :
    headerKey? [']'] (name.toList ++ ']' :: '\n' :: rest) = some (⟨[], name⟩, rest) := by
  have bracket : skipSpace (']' :: '\n' :: rest) = ']' :: '\n' :: rest := skipSpace_solid (by decide) _
  have read : key? (name.toList ++ ']' :: '\n' :: rest) = some (⟨[], name⟩, skipSpace (']' :: '\n' :: rest)) :=
    key?_bare bare (by decide) (by simp [bracket])
  rw [headerKey?, read, bracket]
  rfl

theorem line?_header (d : Draft) {name : String} (bare : IsBareName name) (rest : List Char) :
    line? d ((Line.header name).text.toList ++ rest) = ((Line.header name).enter d).map fun d => (d, rest) := by
  have text : (Line.header name).text.toList ++ rest = '[' :: (name.toList ++ ']' :: '\n' :: rest) := by
    simp [Line.text]
  have read := headerKey?_bare bare rest
  obtain ⟨first, cs, begins, plain⟩ := bare.begins
  have single : first ≠ '[' := ne_of_isBareKeyChar plain (by decide)
  rw [begins, List.cons_append] at read
  rw [text, begins, List.cons_append]
  unfold line?
  split
  · rename_i same
    exact absurd (List.cons.inj (List.cons.inj same).2).1 single
  · rename_i same
    obtain ⟨-, rfl⟩ := List.cons.inj same
    rw [read]
    rcases opened : openTable [] name d.entries with _ | entries <;> simp [Line.enter, opened]
  · rename_i other
    exact absurd rfl (other _)

theorem pair?_written {name : String} {datum : Datum} (bare : IsBareName name) (fits : datum.Fits)
    (rest : List Char) :
    pair? (value? nestingLimit) (name.toList ++ ' ' :: '=' :: ' ' :: (datum.written.toList ++ '\n' :: rest)) =
      some ((⟨[], name⟩, datum.value), '\n' :: rest) := by
  have equals : skipSpace (' ' :: '=' :: ' ' :: (datum.written.toList ++ '\n' :: rest)) =
      '=' :: ' ' :: (datum.written.toList ++ '\n' :: rest) := rfl
  have front : skipSpace (' ' :: (datum.written.toList ++ '\n' :: rest)) = datum.written.toList ++ '\n' :: rest := by
    obtain ⟨c, cs, begins, solid⟩ := datum.written_begins
    rw [begins, List.cons_append]
    exact skipSpace_solid solid _
  have read := key?_bare bare (c := ' ') (by decide) (by rw [equals]; exact nofun)
  have value := Datum.value?_written 78 fits rest
  rw [pair?, read, equals]
  simp [sign?, front, nestingLimit, value]

theorem line?_setting (d : Draft) {name : String} {datum : Datum} (bare : IsBareName name) (fits : datum.Fits)
    (rest : List Char) :
    line? d ((Line.setting name datum).text.toList ++ rest) =
      ((Line.setting name datum).enter d).map fun d => (d, rest) := by
  have text : (Line.setting name datum).text.toList ++ rest =
      name.toList ++ ' ' :: '=' :: ' ' :: (datum.written.toList ++ '\n' :: rest) := by
    simp [Line.text, settingLine]
  have read := pair?_written bare fits rest
  obtain ⟨first, cs, begins, plain⟩ := bare.begins
  have noHeader : first ≠ '[' := ne_of_isBareKeyChar plain (by decide)
  rw [begins, List.cons_append] at read
  rw [text, begins, List.cons_append]
  unfold line?
  split
  · rename_i same
    exact absurd (List.cons.inj same).1 noHeader
  · rename_i same
    exact absurd (List.cons.inj same).1 noHeader
  · rw [read]
    have feed : lineEnd? ('\n' :: rest) = some rest := rfl
    rcases entered : alterUnder d.heading (assign datum.value name []) d.entries with _ | entries <;>
      simp [Line.enter, entered, feed]

/-- A line that is not blank is read as what it enters. -/
theorem line?_enter (d : Draft) {line : Line} (some : line ≠ .blank) (fits : line.Fits) (rest : List Char) :
    line? d (line.text.toList ++ rest) = (line.enter d).map fun d => (d, rest) := by
  cases line with
  | blank => exact absurd rfl some
  | header name => exact line?_header d fits rest
  | setting name datum =>
    obtain ⟨bare, fits⟩ := fits
    exact line?_setting d bare fits rest

/-- A line begins neither with filler nor with a byte order mark. -/
theorem Line.begins {line : Line} (some : line ≠ .blank) (fits : line.Fits) :
    ∃ c cs, line.text.toList = c :: cs ∧ isSolid c ∧ c ≠ '\uFEFF' := by
  cases line with
  | blank => exact absurd rfl some
  | header name => exact ⟨'[', name.toList ++ [']', '\n'], by simp [text], by decide, by decide⟩
  | setting name datum =>
    obtain ⟨c, cs, begins, plain⟩ := fits.1.begins
    exact ⟨c, cs ++ ' ' :: '=' :: ' ' :: (datum.written.toList ++ ['\n']), by simp [text, settingLine, begins],
      isSolid_of_isBareKeyChar plain, ne_of_isBareKeyChar plain (by decide)⟩

/-- Reading lines is entering them. -/
theorem lines?_charsOf {fuel : Nat} (d : Draft) {lines : List Line} (fits : ∀ line ∈ lines, line.Fits)
    (enough : lines.length ≤ fuel) :
    lines? fuel d (charsOf lines) = (lines.foldlM Line.enter d).map (·.entries) := by
  induction lines generalizing fuel d with
  | nil => cases fuel <;> simp [lines?, charsOf]
  | cons line lines ih =>
    obtain ⟨fit, fits⟩ := List.forall_mem_cons.1 fits
    by_cases blank : line = .blank
    · have skipped : lines? fuel d (charsOf (line :: lines)) = lines? fuel d (charsOf lines) := by
        have feed : charsOf (line :: lines) = '\n' :: charsOf lines := by
          rw [blank]
          rfl
        rw [feed, lines?.eq_def, skipFiller_newline, ← lines?.eq_def]
      rw [skipped, ih d fits (Nat.le_of_succ_le enough), blank]
      rfl
    · obtain ⟨c, cs, begins, solid, -⟩ := Line.begins blank fit
      obtain ⟨fuel, rfl⟩ := Nat.exists_eq_succ_of_ne_zero (Nat.ne_of_gt (Nat.zero_lt_of_lt enough))
      have split : charsOf (line :: lines) = line.text.toList ++ charsOf lines := List.flatMap_cons
      have front : skipFiller (charsOf (line :: lines)) = charsOf (line :: lines) := by
        rw [split, begins, List.cons_append, skipFiller_solid solid]
      have step : lines? (fuel + 1) d (charsOf (line :: lines)) =
          (line? d (charsOf (line :: lines))).bind fun read => lines? fuel read.1 read.2 := by
        rw [lines?.eq_def, front, split, begins]
        rfl
      rw [step, split, line?_enter d blank fit, List.foldlM_cons]
      rcases line.enter d with _ | d'
      · rfl
      · exact ih d' fits (Nat.le_of_succ_le_succ enough)

/-! ## Sections -/

/-- Blank lines change nothing. -/
theorem foldlM_enter_filter (d : Draft) (lines : List Line) :
    (lines.filter (· ≠ .blank)).foldlM Line.enter d = lines.foldlM Line.enter d := by
  induction lines generalizing d with
  | nil => rfl
  | cons line lines ih =>
    by_cases blank : line = .blank
    · rw [blank, List.filter_cons_of_neg (by simp), ih]
      rfl
    · rw [List.filter_cons_of_pos (by simpa using blank), List.foldlM_cons, List.foldlM_cons]
      exact congrArg _ (funext fun d' => ih d')

/-- A header and the settings under it. -/
structure Section where
  name : String
  settings : List (String × Datum)
  deriving DecidableEq, Repr

namespace Section

def lines (s : Section) : List Line := .header s.name :: s.settings.map fun (name, datum) => .setting name datum

def table (s : Section) : String × Value := (s.name, .table (s.settings.map fun (name, datum) => (name, datum.value)))

/-- The names need no quotes and are different, and numbers have 64 bits with a sign. -/
structure Fits (s : Section) : Prop where
  name : IsBareName s.name
  settings : ∀ setting ∈ s.settings, IsBareName setting.1 ∧ setting.2.Fits
  once : (s.settings.map Prod.fst).Nodup

/-- The section in a document that is being read. -/
def entry (s : Section) : String × Node :=
  (s.name, .table .header (s.settings.map fun (name, datum) => (name, .leaf datum.value)))

end Section

theorem foldlM_enter_settings {name : String} {entries : Entries} (new : name ∉ entries.map Prod.fst)
    (origin : Origin) (before : Entries) {settings : List (String × Datum)}
    (once : (before.map Prod.fst ++ settings.map Prod.fst).Nodup) :
    (settings.map fun (name, datum) => Line.setting name datum).foldlM Line.enter
        ⟨entries ++ [(name, .table origin before)], [name]⟩ =
      some ⟨entries ++ [(name, .table origin
        (before ++ settings.map fun (name, datum) => (name, .leaf datum.value)))], [name]⟩ := by
  induction settings generalizing before with
  | nil => simp
  | cons setting settings ih =>
    obtain ⟨key, datum⟩ := setting
    have fresh : key ∉ before.map Prod.fst := by
      rw [List.map_cons, List.nodup_append] at once
      exact fun h => once.2.2 _ h _ List.mem_cons_self rfl
    rw [List.map_cons, List.foldlM_cons, Line.enter, alterUnder_assign new fresh origin]
    have later := ih (before ++ [(key, .leaf datum.value)]) (by simpa using once)
    simpa using later

theorem foldlM_enter_section {d : Draft} {s : Section} (new : s.name ∉ d.entries.map Prod.fst)
    (once : (s.settings.map Prod.fst).Nodup) :
    s.lines.foldlM Line.enter d = some ⟨d.entries ++ [s.entry], [s.name]⟩ := by
  rw [Section.lines, List.foldlM_cons, Line.enter, openTable_new new]
  exact foldlM_enter_settings new .header [] (by simpa using once)

/-- Entering sections of different names adds them to the document, one after the other. -/
theorem foldlM_enter_sections {sections : List Section} (d : Draft)
    (new : (d.entries.map Prod.fst ++ sections.map (·.name)).Nodup)
    (once : ∀ s ∈ sections, (s.settings.map Prod.fst).Nodup) :
    ((sections.flatMap Section.lines).foldlM Line.enter d).map (·.entries) =
      some (d.entries ++ sections.map Section.entry) := by
  induction sections generalizing d with
  | nil => simp
  | cons s sections ih =>
    obtain ⟨first, once⟩ := List.forall_mem_cons.1 once
    have fresh : s.name ∉ d.entries.map Prod.fst := by
      rw [List.map_cons, List.nodup_append] at new
      exact fun h => new.2.2 _ h _ List.mem_cons_self rfl
    rw [List.flatMap_cons, List.foldlM_append, foldlM_enter_section fresh first]
    have later := ih ⟨d.entries ++ [s.entry], [s.name]⟩ (by simpa [Section.entry] using new) once
    simpa using later

theorem valuesOf_sections (sections : List Section) :
    valuesOf (sections.map Section.entry) = sections.map Section.table := by
  have leaves (settings : List (String × Datum)) :
      valuesOf (settings.map fun (name, datum) => (name, .leaf datum.value)) =
        settings.map fun (name, datum) => (name, datum.value) := by
    induction settings with
    | nil => rw [List.map_nil, valuesOf]; rfl
    | cons setting settings ih => rw [List.map_cons, valuesOf, ih, Node.value]; rfl
  induction sections with
  | nil => rw [List.map_nil, valuesOf]; rfl
  | cons s sections ih => rw [List.map_cons, Section.entry, valuesOf, ih, Node.value, leaves]; rfl

/-! ## Documents -/

theorem length_le_charsOf (lines : List Line) : lines.length ≤ (charsOf lines).length := by
  have some (line : Line) : line.text.toList ≠ [] := by
    cases line <;> simp [Line.text, settingLine]
  induction lines with
  | nil => exact Nat.le_refl 0
  | cons line lines ih =>
    have split : charsOf (line :: lines) = line.text.toList ++ charsOf lines := List.flatMap_cons
    have first := List.length_pos_iff.2 (some line)
    rw [split, List.length_append, List.length_cons]
    omega

theorem head_charsOf {lines : List Line} (fits : ∀ line ∈ lines, line.Fits) :
    (charsOf lines).head? ≠ some '\uFEFF' := by
  rcases lines with _ | ⟨line, lines⟩
  · exact nofun
  · have split : charsOf (line :: lines) = line.text.toList ++ charsOf lines := List.flatMap_cons
    rw [split]
    by_cases blank : line = .blank
    · have feed : line.text.toList ++ charsOf lines = '\n' :: charsOf lines := by
        rw [blank]
        rfl
      simp [feed]
    · obtain ⟨c, cs, begins, -, other⟩ := Line.begins blank (fits line List.mem_cons_self)
      simpa [begins] using other

/-- Lines are read as the tables that entering them makes. -/
theorem read?_charsOf {lines : List Line} (fits : ∀ line ∈ lines, line.Fits) :
    Toml.read? (String.ofList (charsOf lines)) =
      (lines.foldlM Line.enter {}).map fun d => valuesOf d.entries := by
  have noMark : ((charsOf lines).head? == some '\uFEFF') = false := beq_eq_false_iff_ne.2 (head_charsOf fits)
  have enough := Nat.le_succ_of_le (length_le_charsOf lines)
  rw [Toml.read?, String.toList_ofList]
  rw [noMark, if_neg Bool.false_ne_true, lines?_charsOf {} fits enough, Option.map_map]
  rfl

theorem Section.Fits.lines {s : Section} (fits : s.Fits) : ∀ line ∈ s.lines, line.Fits := by
  intro line hline
  rcases List.mem_cons.1 hline with rfl | hline
  · exact fits.name
  · obtain ⟨setting, hsetting, rfl⟩ := List.mem_map.1 hline
    exact fits.settings setting hsetting

/-- A text of sections is read as their tables, wherever blank lines stand. -/
theorem read?_sections {sections : List Section} (fits : ∀ s ∈ sections, s.Fits)
    (once : (sections.map (·.name)).Nodup) {lines : List Line}
    (hlines : lines.filter (· ≠ .blank) = sections.flatMap Section.lines) :
    Toml.read? (String.ofList (charsOf lines)) = some (sections.map Section.table) := by
  have each : ∀ line ∈ lines, line.Fits := by
    intro line hline
    by_cases blank : line = .blank
    · rw [blank]
      trivial
    · have kept : line ∈ lines.filter (· ≠ .blank) := List.mem_filter.2 ⟨hline, by simpa using blank⟩
      obtain ⟨s, hs, inside⟩ := List.mem_flatMap.1 (hlines ▸ kept)
      exact (fits s hs).lines line inside
  have entered : ((sections.flatMap Section.lines).foldlM Line.enter {}).map (·.entries) =
      some ([] ++ sections.map Section.entry) :=
    foldlM_enter_sections {} (by simpa using once) fun s hs => (fits s hs).once
  rw [← hlines, foldlM_enter_filter] at entered
  obtain ⟨d, hd, entries⟩ := Option.map_eq_some_iff.1 entered
  rw [read?_charsOf each, hd, Option.map_some, entries, List.nil_append, valuesOf_sections]

end Config

end BuildAudit
