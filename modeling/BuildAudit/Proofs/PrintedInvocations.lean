import BuildAudit.Proofs.InputForms
import BuildAudit.Proofs.Replay

/-!
# Printed invocations

A row prints its invocation as a line: the executable as it is, and behind it the arguments, which are
quoted.  What stands behind a text is split from where the text leaves the splitter
(`Shell.splitFrom_append`), so an executable that leaves nothing open does not disturb the arguments.
But it may be split into other words itself: only if it is plain is it one of its own words, as splitting
makes no characters (`Shell.isPlain_of_mem`).  So lines with plain executables are read as they were
stored, and others are not (`printed_lines_exact`).
-/

namespace BuildAudit

namespace Shell

/-! ## Steps of a splitter -/

/-- The word that a character ends, if it ends one, and where the splitter stands behind it. -/
def Position.step : Position → Char → Option (List Char) × Position
  | .gap, c => (none, if isSeparator c then .gap else if c == '#' then .comment else .inWord [] c)
  | .comment, c => (none, if c == '\n' then .gap else .comment)
  | .bare word, c => if isSeparator c then (some word, .gap) else (none, .inWord word c)
  | .escaped word, c => (none, if c == '\n' then .bare word else .bare (word ++ [c]))
  | .single word, c => (none, if c == '\'' then .bare word else .single (word ++ [c]))
  | .double word, c =>
    (none, if c == '"' then .bare word
      else if c == '\\' then .doubleEscaped word
      else .double (word ++ [c]))
  | .doubleEscaped word, c =>
    (none, if isDoubleSpecial c then .double (word ++ [c])
      else if c == '\n' then .double word
      else .double (word ++ ['\\', c]))

theorem splitFrom_cons (p : Position) (c : Char) (cs : List Char) :
    splitFrom p (c :: cs) = (splitFrom (p.step c).2 cs).map ((p.step c).1.toList ++ ·) := by
  cases p <;> simp only [splitFrom, Position.step] <;> split_ifs <;> simp

/-- Where the splitter stands behind a text. -/
def Position.after (p : Position) (cs : List Char) : Position := cs.foldl (fun p c => (p.step c).2) p

/-- The words that end inside a text. -/
def Position.ended : Position → List Char → List (List Char)
  | _, [] => []
  | p, c :: cs => (p.step c).1.toList ++ (p.step c).2.ended cs

/-- What stands behind a text is split from where the text leaves the splitter. -/
theorem splitFrom_append (p : Position) (cs ds : List Char) :
    splitFrom p (cs ++ ds) = (splitFrom (p.after cs) ds).map (p.ended cs ++ ·) := by
  induction cs generalizing p with
  | nil => simp [Position.after, Position.ended]
  | cons c cs ih =>
    rw [List.cons_append, splitFrom_cons, ih, Option.map_map]
    simp [Position.after, Position.ended, Function.comp_def]

/-! ## Texts that leave nothing open -/

/-- Neither a quote, nor an escape, nor a comment is open. -/
def Position.isClosed : Position → Bool
  | .gap | .bare _ => true
  | .comment | .escaped _ | .single _ | .double _ | .doubleEscaped _ => false

/-- A splitter behind the text stands between words or in the unquoted part of one. -/
def leavesNothingOpen (text : String) : Bool := (Position.gap.after text.toList).isClosed

/-- A blank ends what is not open. -/
theorem splitFrom_blank {p : Position} (closed : p.isClosed) {words : List (List Char)}
    (last : splitFrom p [] = some words) (cs : List Char) :
    splitFrom p (' ' :: cs) = (splitFrom .gap cs).map (words ++ ·) := by
  cases p with
  | gap | bare =>
    obtain rfl := Option.some.inj last
    simp [splitFrom, isSeparator]
  | comment | escaped | single | double | doubleEscaped => cases closed

theorem splitFrom_comment {cs : List Char} (h : '\n' ∉ cs) : splitFrom .comment cs = some [] := by
  induction cs with
  | nil => rfl
  | cons c cs ih =>
    obtain ⟨hc, h⟩ := not_or.1 (mt List.mem_cons.2 h)
    rw [splitFrom, if_neg (by simpa using Ne.symm hc), ih h]

/-- The words of a text are those that end inside it and what is left then. -/
theorem exists_left_of_splitFrom {p : Position} {cs : List Char} {words : List (List Char)}
    (h : splitFrom p cs = some words) :
    ∃ left, splitFrom (p.after cs) [] = some left ∧ words = p.ended cs ++ left := by
  rw [← List.append_nil cs, splitFrom_append] at h
  obtain ⟨left, last, rfl⟩ := Option.map_eq_some_iff.1 h
  exact ⟨left, last, rfl⟩

theorem splitFrom_append_blank {cs : List Char} {words : List (List Char)}
    (h : splitFrom .gap cs = some words) (closed : (Position.gap.after cs).isClosed) (ds : List Char) :
    splitFrom .gap (cs ++ ' ' :: ds) = (splitFrom .gap ds).map (words ++ ·) := by
  obtain ⟨left, last, rfl⟩ := exists_left_of_splitFrom h
  rw [splitFrom_append, splitFrom_blank closed last, Option.map_map]
  simp [Function.comp_def]

/-- A comment takes what stands behind it on its line. -/
theorem splitFrom_append_comment {cs ds : List Char} {words : List (List Char)}
    (h : splitFrom .gap cs = some words) (unclosed : (Position.gap.after cs).isClosed = false)
    (oneLine : '\n' ∉ ds) : splitFrom .gap (cs ++ ' ' :: ds) = some words := by
  obtain ⟨left, last, rfl⟩ := exists_left_of_splitFrom h
  have rest : '\n' ∉ ' ' :: ds := by simpa using oneLine
  rw [splitFrom_append]
  generalize Position.gap.after cs = p at *
  cases p with
  | comment =>
    obtain rfl := Option.some.inj last
    rw [splitFrom_comment rest]
    rfl
  | gap | bare => cases unclosed
  | escaped | single | double | doubleEscaped => cases last

/-! ## Room for words -/

/-- The characters that the splitter may still put into a word. -/
def Position.held : Position → Nat
  | .gap | .comment => 0
  | .bare word | .escaped word | .single word | .double word => word.length
  | .doubleEscaped word => word.length + 1

/-- The room that words need, each with a separator. -/
def room : List (List Char) → Nat
  | [] => 0
  | word :: words => word.length + 1 + room words

theorem room_append (words more : List (List Char)) : room (words ++ more) = room words + room more := by
  induction words with
  | nil => simp [room]
  | cons word words ih => rw [List.cons_append, room, ih, room, ← Nat.add_assoc]

theorem room_singleton (word : List Char) : room [word] = word.length + 1 := rfl

theorem eq_nil_of_room {words : List (List Char)} (none : room words = 0) : words = [] := by
  cases words with
  | nil => rfl
  | cons word words => simp [room] at none

theorem held_inWord_le (word : List Char) (c : Char) : (Position.inWord word c).held ≤ word.length + 1 := by
  unfold Position.inWord
  split_ifs <;> simp [Position.held]

/-- Only a plain character joins the word. -/
theorem held_inWord_of_not_plain {c : Char} (inside : isSeparator c = false) (h : ¬ IsPlainChar c)
    (word : List Char) : (Position.inWord word c).held = word.length := by
  unfold Position.inWord
  split_ifs with double single backslash
  · rfl
  · rfl
  · rfl
  · exact absurd ⟨inside, by simpa using double, by simpa using single, by simpa using backslash⟩ h

/-- A character makes room for one more. -/
theorem room_step_le (p : Position) (c : Char) :
    room (p.step c).1.toList + (p.step c).2.held ≤ p.held + 1 := by
  cases p with
  | gap =>
    simp only [Position.step]
    split_ifs
    · simp [room, Position.held]
    · simp [room, Position.held]
    · exact (Nat.zero_add _).le.trans (held_inWord_le [] c)
  | bare word =>
    simp only [Position.step]
    split_ifs
    · simp [room, Position.held]
    · exact (Nat.zero_add _).le.trans (held_inWord_le word c)
  | comment | escaped | single | double | doubleEscaped =>
    simp only [Position.step]
    split_ifs <;> simp [room, Position.held] <;> omega

/-- Splitting makes no characters. -/
theorem room_le {p : Position} {cs : List Char} {words : List (List Char)}
    (h : splitFrom p cs = some words) : room words ≤ p.held + cs.length + 1 := by
  induction cs generalizing p words with
  | nil =>
    cases p with
    | gap | comment | bare =>
      obtain rfl := Option.some.inj h
      simp [room, Position.held]
    | escaped | single | double | doubleEscaped => cases h
  | cons c cs ih =>
    rw [splitFrom_cons] at h
    obtain ⟨rest, hrest, rfl⟩ := Option.map_eq_some_iff.1 h
    have step := room_step_le p c
    have later := ih hrest
    rw [room_append, List.length_cons]
    omega

/-! ## Plain texts -/

/-- The text is one word that is read as it stands. -/
structure IsPlain (text : String) : Prop where
  begins : BeginsWord text.toList
  chars : ∀ c ∈ text.toList, IsPlainChar c

theorem split?_of_isPlain {text : String} (h : IsPlain text) : split? text = some [text] := by
  have word := splitFrom_plain h.chars [] []
  rw [List.append_nil, ← splitFrom_gap h.begins] at word
  simp [split?, word, splitFrom]

theorem after_plain {cs : List Char} (h : ∀ c ∈ cs, IsPlainChar c) (word : List Char) :
    (Position.bare word).after cs = .bare (word ++ cs) := by
  induction cs generalizing word with
  | nil => simp [Position.after]
  | cons c cs ih =>
    obtain ⟨hc, h⟩ := List.forall_mem_cons.1 h
    have step : (Position.bare word).step c = (none, .bare (word ++ [c])) := by
      simp [Position.step, hc.1, hc.inWord]
    have later := ih h (word ++ [c])
    rw [List.append_assoc, List.singleton_append] at later
    rwa [Position.after, List.foldl_cons, step]

theorem leavesNothingOpen_of_isPlain {text : String} (h : IsPlain text) : leavesNothingOpen text := by
  obtain ⟨⟨c, cs, begins, separator, hash⟩, chars⟩ := h
  rw [begins] at chars
  have first : Position.gap.step c = (Position.bare []).step c := by
    simp [Position.step, separator, hash]
  rw [leavesNothingOpen, begins, Position.after, List.foldl_cons, first, ← List.foldl_cons,
    ← Position.after, after_plain chars]
  rfl

/-- A word that takes all characters takes them as they stand. -/
theorem isPlainChar_of_splitFrom {word text cs : List Char}
    (h : splitFrom (.bare word) cs = some [text]) (all : text.length = word.length + cs.length) :
    ∀ c ∈ cs, IsPlainChar c := by
  induction cs generalizing word with
  | nil => nofun
  | cons c cs ih =>
    rw [List.length_cons] at all
    by_cases separator : isSeparator c
    · -- the word ends before the character
      rw [splitFrom, if_pos separator] at h
      obtain ⟨rest, -, same⟩ := Option.map_eq_some_iff.1 h
      obtain ⟨rfl, -⟩ := List.cons.inj same
      omega
    · rw [splitFrom, if_neg separator] at h
      by_cases plain : IsPlainChar c
      · rw [plain.inWord] at h
        refine List.forall_mem_cons.2 ⟨plain, ih h ?_⟩
        rw [List.length_append, List.length_singleton]
        omega
      · have fits := room_le h
        rw [held_inWord_of_not_plain (by simpa using separator) plain] at fits
        rw [room_singleton] at fits
        omega

theorem beginsWord_of_splitFrom {cs : List Char} (h : splitFrom .gap cs = some [cs]) : BeginsWord cs := by
  cases cs with
  | nil => cases h
  | cons c cs =>
    have wasted (p : Position) (idle : p.held = 0) : splitFrom p cs ≠ some [c :: cs] := fun h => by
      have fits := room_le h
      rw [room_singleton, idle, List.length_cons] at fits
      omega
    rw [splitFrom] at h
    split_ifs at h with separator hash
    · exact absurd h (wasted .gap rfl)
    · exact absurd h (wasted .comment rfl)
    · exact ⟨c, cs, rfl, by simpa using separator, by simpa using hash⟩

/-- A text that is one of its own words is plain: there is no room for anything else. -/
theorem isPlain_of_mem {text : String} {words : List String} (h : split? text = some words)
    (own : text ∈ words) : IsPlain text := by
  obtain ⟨chars, hchars, rfl⟩ := Option.map_eq_some_iff.1 h
  obtain ⟨word, hword, rfl⟩ := List.mem_map.1 own
  rw [String.toList_ofList] at hchars
  have alone : chars = [word] := by
    obtain ⟨before, behind, rfl⟩ := List.append_of_mem hword
    have fits := room_le hchars
    rw [← List.singleton_append, room_append, room_append, room_singleton, Position.held] at fits
    obtain rfl : before = [] := eq_nil_of_room (by omega)
    obtain rfl : behind = [] := eq_nil_of_room (by omega)
    rfl
  subst alone
  have begins := beginsWord_of_splitFrom hchars
  rw [splitFrom_gap begins] at hchars
  refine ⟨?_, ?_⟩ <;> rw [String.toList_ofList]
  · exact begins
  · exact isPlainChar_of_splitFrom hchars (Nat.zero_add _).symm

/-! ## Lines -/

theorem split?_append_blank {text : String} {words : List String} (h : split? text = some words)
    (closed : leavesNothingOpen text) (rest : String) :
    split? (text ++ " " ++ rest) = (split? rest).map (words ++ ·) := by
  obtain ⟨chars, hchars, rfl⟩ := Option.map_eq_some_iff.1 h
  have line := splitFrom_append_blank hchars closed rest.toList
  simp [split?, line, Function.comp_def]

theorem split?_append_comment {text rest : String} {words : List String} (h : split? text = some words)
    (unclosed : leavesNothingOpen text = false) (oneLine : '\n' ∉ rest.toList) :
    split? (text ++ " " ++ rest) = some words := by
  obtain ⟨chars, hchars, rfl⟩ := Option.map_eq_some_iff.1 h
  have line := splitFrom_append_comment hchars unclosed oneLine
  simp [split?, line]

end Shell

namespace Command

/-- The words of a line that is read as a command. -/
theorem words_of_ofLine {line default : String} {c : Command} (h : ofLine line default = .ok c) :
    ∃ words, Shell.split? line = some words ∧
      (words = c.executable :: c.arguments ∨ words = c.directory :: c.executable :: c.arguments) := by
  unfold ofLine at h
  split at h
  · cases h
  · cases h
  · cases h
    exact ⟨_, ‹_›, .inl rfl⟩
  · split at h <;> cases h
    · exact ⟨_, ‹_›, .inr rfl⟩
    · exact ⟨_, ‹_›, .inl rfl⟩

/-- Arguments that are written down hold a line feed only if one of them does. -/
theorem feed_of_args {c : Command} {text : String} (h : c.args = .ok text) (feed : '\n' ∈ text.toList) :
    ∃ a ∈ c.arguments, '\n' ∈ a.toList := by
  unfold args at h
  split at h
  case h_2 => cases h
  case h_1 joined =>
    obtain rfl := Except.ok.inj h
    rw [Shell.toList_of_join? joined] at feed
    rcases Shell.mem_joinWords feed with blank | mark | ⟨word, hword, hfeed⟩
    · exact absurd blank (by decide)
    · exact absurd mark (by decide)
    · obtain ⟨a, ha, rfl⟩ := List.mem_map.1 hword
      exact ⟨a, ha, hfeed⟩

end Command

namespace CommandRecord

variable {row : CommandRecord} {c : Command} {words : List String}

/-! ## Rows -/

/-- The row holds the parts of a command of a known tool. -/
structure Holds (row : CommandRecord) (c : Command) : Prop where
  directory : c.directory = row.directory
  executable : c.executable = row.executable
  args : c.args = .ok row.args
  tool : c.isRecognized

theorem Holds.command (h : row.Holds c) : row.command = .ok c := by
  rw [CommandRecord.command, ← h.directory, ← h.executable]
  exact Command.ofParts_of_args h.args

theorem Holds.split?_args (h : row.Holds c) : Shell.split? row.args = some c.arguments := by
  have parts := h.command
  unfold CommandRecord.command Command.ofParts at parts
  split at parts <;> cases parts
  assumption

theorem Holds.split?_commandLine (h : row.Holds c) (split : Shell.split? row.executable = some words)
    (closed : Shell.leavesNothingOpen row.executable) :
    Shell.split? row.commandLine = some (words ++ c.arguments) := by
  have arguments := h.split?_args
  unfold commandLine
  split
  case isTrue empty =>
    rw [beq_iff_eq.1 empty] at arguments
    obtain none : [] = c.arguments := Option.some.inj arguments
    rw [split, ← none, List.append_nil]
  case isFalse =>
    rw [Shell.split?_append_blank split closed, arguments]
    rfl

theorem Holds.split?_commandLine_of_comment (h : row.Holds c)
    (split : Shell.split? row.executable = some words)
    (unclosed : Shell.leavesNothingOpen row.executable = false)
    (oneLine : ∀ a ∈ c.arguments, '\n' ∉ a.toList) : Shell.split? row.commandLine = some words := by
  unfold commandLine
  split
  case isTrue => exact split
  case isFalse =>
    refine Shell.split?_append_comment split unclosed fun feed => ?_
    obtain ⟨a, ha, hfeed⟩ := Command.feed_of_args h.args feed
    exact oneLine a ha hfeed

/-- Behind a plain executable the arguments are read as they are stored, and the executable is no
directory, as it is a tool. -/
theorem Holds.ofLine_commandLine (h : row.Holds c) (plain : Shell.IsPlain row.executable) :
    Command.ofLine row.commandLine row.directory = .ok c := by
  have line := h.split?_commandLine (Shell.split?_of_isPlain plain)
    (Shell.leavesNothingOpen_of_isPlain plain)
  rw [List.singleton_append, ← h.executable] at line
  rw [Command.ofLine_of_tool h.tool line, ← h.directory]

/-- If the line is read as the command, then the executable is one of the words it is split into. -/
theorem Holds.isPlain_of_ofLine (h : row.Holds c) (split : Shell.split? row.executable = some words)
    (oneLine : Shell.leavesNothingOpen row.executable = false → ∀ a ∈ c.arguments, '\n' ∉ a.toList)
    (read : Command.ofLine row.commandLine row.directory = .ok c) : Shell.IsPlain row.executable := by
  obtain ⟨all, hall, either⟩ := Command.words_of_ofLine read
  rw [h.executable] at either
  refine Shell.isPlain_of_mem split ?_
  rcases closed : Shell.leavesNothingOpen row.executable with _ | _
  · rw [h.split?_commandLine_of_comment split closed (oneLine closed)] at hall
    obtain rfl := Option.some.inj hall
    rcases either with rfl | rfl <;> simp
  · rw [h.split?_commandLine split closed] at hall
    obtain rfl := Option.some.inj hall
    -- the arguments are the end of the line, so the executable is among the words before them
    rcases either with alone | directory
    · obtain rfl : words = [row.executable] := List.append_cancel_right alone
      exact List.mem_singleton_self _
    · obtain rfl : words = [c.directory, row.executable] := List.append_cancel_right directory
      exact List.mem_cons_of_mem _ (List.mem_singleton_self _)

end CommandRecord

/-! ## Imports -/

theorem holds_of_accepted {row : CommandRecord} {entry : RecordedEntry}
    (h : Verdict.of entry = .accepted row.directory row.executable row.args) : ∃ c, row.Holds c := by
  obtain ⟨c, -, tool, -, directory, executable, args⟩ := command_of_accepted h
  exact ⟨c, directory, executable, args, tool⟩

theorem holds_of_importEntries {s : Store} {entries : List RecordedEntry} {o : ImportOptions}
    {now : Instant} {row : CommandRecord} (stored : row ∈ (importEntries s entries o now).2.graph.commands)
    (new : row ∉ s.graph.commands) : ∃ c, row.Holds c := by
  rcases closed : s.saved with _ | saved
  · rcases hr : (writeEntries entries o.replace).exec s.graph with ⟨e | report, g⟩ <;>
      rw [importEntries_of_closed closed, hr, Store.concluded] at stored
    · exact absurd stored new
    · split at stored
      · exact absurd stored new
      · rw [Graph.commands_finish] at stored
        obtain ⟨⟨g₀, before, collects⟩, -⟩ := collects_writeEntries hr
        rcases collects.accepted row stored with old | accepted
        · exact absurd (before old) new
        · obtain ⟨entry, -, verdict⟩ := List.mem_map.1 accepted
          exact holds_of_accepted verdict
  · rw [importEntries_of_open (closed ▸ Option.some_ne_none saved)] at stored
    exact absurd stored new

/-- What is read from the line that a row of an import prints.  If the executable is plain, it is the
command of the row, whatever the arguments are.  If the executable leaves nothing open, its words and
the arguments are the words of the line.  In this case, and if it ends in a comment and the arguments
are on one line, the command of the row is only read if the executable is plain. -/
theorem printed_lines_exact {call : Call} (imports : call.isExtraction = false) (x : Extractor)
    (now : Instant) (s : Store) {row : CommandRecord}
    (stored : row ∈ (call.run x now s).2.graph.commands) (new : row ∉ s.graph.commands) :
    ∃ c, row.command = .ok c ∧
      (Shell.IsPlain row.executable → Command.ofLine row.commandLine row.directory = .ok c) ∧
      ∀ words, Shell.split? row.executable = some words →
        (Shell.leavesNothingOpen row.executable →
          Shell.split? row.commandLine = some (words ++ c.arguments)) ∧
        ((Shell.leavesNothingOpen row.executable = false → ∀ a ∈ c.arguments, '\n' ∉ a.toList) →
          Command.ofLine row.commandLine row.directory = .ok c → Shell.IsPlain row.executable) := by
  have written : ∃ c, row.Holds c := by
    rcases recording : call.recording? with _ | ⟨entries, o⟩
    · rw [run_of_no_recording imports recording] at stored
      exact absurd stored new
    · rw [run_of_recording recording] at stored
      exact holds_of_importEntries stored new
  obtain ⟨c, holds⟩ := written
  refine ⟨c, holds.command, holds.ofLine_commandLine, fun words split => ⟨?_, ?_⟩⟩
  · exact holds.split?_commandLine split
  · exact holds.isPlain_of_ofLine split

/-- A compilation database with a tool whose arguments have to be quoted, and one in a directory whose
name has a blank. -/
def toolsDatabase : Call :=
  .importDatabase ("[\x7b\"directory\": \"/w\", \"arguments\": [\"gcc\", \"-c\", \"-o\", \"it's.o\", " ++
    "\"#a.c\"]\x7d, \x7b\"directory\": \"/w\", \"arguments\": [\"/opt/my tools/gcc\", \"-c\", \"-o\", " ++
    "\"b.o\", \"b.c\"]\x7d]").toUTF8 {}

def plainRow : CommandRecord := ⟨1, "/w", "gcc", "-c -o \"it's.o\" '#a.c'"⟩

def spacedRow : CommandRecord := ⟨2, "/w", "/opt/my tools/gcc", "-c -o b.o b.c"⟩

theorem run_toolsDatabase :
    (toolsDatabase.run objectExtractor ⟨1, 0⟩ .empty).2.graph.commands = [plainRow, spacedRow] := by
  decide +kernel

theorem printed_lines_exact_tools :
    Command.ofLine plainRow.commandLine "/w" = .ok ⟨"/w", "gcc", ["-c", "-o", "it's.o", "#a.c"]⟩ ∧
      Shell.split? spacedRow.commandLine =
        some (["/opt/my", "tools/gcc"] ++ ["-c", "-o", "b.o", "b.c"]) ∧
      Command.ofLine spacedRow.commandLine "/w" ≠
        .ok ⟨"/w", "/opt/my tools/gcc", ["-c", "-o", "b.o", "b.c"]⟩ := by
  have imports : toolsDatabase.isExtraction = false := rfl
  have plain : Shell.IsPlain plainRow.executable :=
    ⟨⟨'g', ['c', 'c'], rfl, rfl, by decide⟩, by simp [plainRow, Shell.IsPlainChar, Shell.isSeparator]⟩
  have spaced : ¬ Shell.IsPlain spacedRow.executable := fun plain =>
    absurd (plain.chars ' ' (by decide +kernel)).1 (by decide)
  obtain ⟨c, command, read, -⟩ := printed_lines_exact imports objectExtractor ⟨1, 0⟩ .empty
    (run_toolsDatabase ▸ List.mem_cons_self) List.not_mem_nil
  obtain ⟨d, command', -, lines⟩ := printed_lines_exact imports objectExtractor ⟨1, 0⟩ .empty
    (run_toolsDatabase ▸ List.mem_cons_of_mem _ List.mem_cons_self) List.not_mem_nil
  obtain ⟨words, only⟩ := lines ["/opt/my", "tools/gcc"] (by decide +kernel)
  have parts : plainRow.command = .ok ⟨"/w", "gcc", ["-c", "-o", "it's.o", "#a.c"]⟩ := by decide +kernel
  have parts' : spacedRow.command = .ok ⟨"/w", "/opt/my tools/gcc", ["-c", "-o", "b.o", "b.c"]⟩ := by
    decide +kernel
  obtain rfl := Except.ok.inj (command.symm.trans parts)
  obtain rfl := Except.ok.inj (command'.symm.trans parts')
  exact ⟨read plain, words (by decide +kernel), fun same => spaced (only (by decide +kernel) same)⟩

/-- The blank ends the first word of the line, which is absolute and no tool, so it is taken for the
working directory. -/
theorem printed_line_misread :
    spacedRow ∈ (toolsDatabase.run objectExtractor ⟨1, 0⟩ .empty).2.graph.commands ∧
      spacedRow.command = .ok ⟨"/w", "/opt/my tools/gcc", ["-c", "-o", "b.o", "b.c"]⟩ ∧
      Command.ofLine spacedRow.commandLine spacedRow.directory =
        .ok ⟨"/opt/my", "tools/gcc", ["-c", "-o", "b.o", "b.c"]⟩ ∧
      Command.ofLine spacedRow.commandLine spacedRow.directory ≠ spacedRow.command := by
  rw [run_toolsDatabase]
  decide +kernel

end BuildAudit
