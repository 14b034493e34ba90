import BuildAudit.Import.Contents
import BuildAudit.Proofs.Lines
import BuildAudit.Proofs.Quoting

/-!
# Forms of input

An invocation can be recorded as a line of a log, and as an entry of a compilation database with its
words or with a command line.  All forms are read as the same command (`Command.forms_agree`).  A line
of quoted words begins and ends with characters that are neither blanks nor the sign of a comment
(`Shell.framed_joinWords`), so a log gives it back as it was written (`logEntries_of_line`).
-/

namespace BuildAudit

namespace Shell

/-- A character that is kept at the end of a line, and at its front. -/
def IsFirm (c : Char) : Prop := Text.isBlank c = false ∧ c ≠ '#'

/-- The text begins and ends with characters that are kept there. -/
def Framed (cs : List Char) : Prop :=
  (∃ c ∈ cs.head?, IsFirm c) ∧ ∃ c ∈ cs.getLast?, IsFirm c

theorem Framed.append {cs ds : List Char} (h : Framed cs) (h' : Framed ds) (between : List Char) :
    Framed (cs ++ (between ++ ds)) := by
  obtain ⟨c, hc, firm⟩ := h.1
  obtain ⟨d, hd, firm'⟩ := h'.2
  refine ⟨⟨c, ?_, firm⟩, d, ?_, firm'⟩
  · simp_all [List.head?_append]
  · simp_all [List.getLast?_append]

theorem framed_cons_concat {c d : Char} (first : IsFirm c) (last : IsFirm d) (cs : List Char) :
    Framed (c :: cs ++ [d]) :=
  ⟨⟨c, rfl, first⟩, d, List.getLast?_concat, last⟩

theorem isFirm_of_isBareChar {c : Char} (h : isBareChar c) : IsFirm c := by
  refine ⟨?_, (isPlainChar_of_isBareChar h).2⟩
  by_cases alphanum : c.isAlphanum
  · exact Text.isBlank_of_isAlphanum alphanum
  · simp only [isBareChar, alphanum, Bool.false_or, Bool.or_eq_true, beq_iff_eq, or_assoc] at h
    rcases h with rfl | rfl | rfl | rfl | rfl | rfl | rfl | rfl <;> decide

theorem framed_quoteChunk {f : Fit} {chunk : List Char} (carries : f.Carries chunk)
    (some : chunk ≠ []) : Framed (quoteChunk chunk f) := by
  unfold quoteChunk
  split
  case isTrue bare =>
    have firm (c : Char) (hc : c ∈ chunk) := isFirm_of_isBareChar (carries.bare bare c hc)
    exact ⟨⟨_, List.head_mem_head? some, firm _ (List.head_mem some)⟩,
      _, List.getLast_mem_getLast? some, firm _ (List.getLast_mem some)⟩
  case isFalse =>
    split
    · exact framed_cons_concat ⟨by decide, by decide⟩ ⟨by decide, by decide⟩ _
    · exact framed_cons_concat ⟨by decide, by decide⟩ ⟨by decide, by decide⟩ _

theorem framed_quoteChars {cs : List Char} (some : cs ≠ []) : Framed (quoteChars cs) := by
  fun_induction quoteChars cs with
  | case1 => exact absurd rfl some
  | case2 c cs ih =>
    have chunk := framed_quoteChunk (carries_firstChunk (c :: cs)) (firstChunk_ne_nil c cs)
    by_cases last : (firstChunk (c :: cs)).2.2 = []
    · rw [last, quoteChars, List.append_nil]
      exact chunk
    · exact chunk.append (ih last) []

theorem framed_quoteWord (word : List Char) : Framed (quoteWord word) := by
  unfold quoteWord
  split
  case isTrue => exact framed_cons_concat ⟨by decide, by decide⟩ ⟨by decide, by decide⟩ []
  case isFalse some => exact framed_quoteChars some

theorem framed_joinWords {words : List (List Char)} (some : words ≠ []) :
    Framed (joinWords words) := by
  unfold joinWords
  induction words with
  | nil => exact absurd rfl some
  | cons word words ih =>
    rcases words with _ | ⟨next, words⟩
    · simpa using framed_quoteWord word
    · rw [List.map_cons, List.map_cons, List.intercalate_cons_cons, List.append_assoc, ← List.map_cons]
      exact (framed_quoteWord word).append (ih nofun) [' ']

/-! ## Characters of quoted words -/

/-- The characters that quoting adds. -/
def marks : List Char := ['\'', '"', '\\']

theorem mem_quoteChunk {f : Fit} {chunk : List Char} {c : Char} (h : c ∈ quoteChunk chunk f) :
    c ∈ marks ∨ c ∈ chunk := by
  have escaped (d : Char) (hc : c ∈ if isDoubleSpecial d then ['\\', d] else [d]) : c ∈ marks ∨ c = d := by
    split at hc
    · simp only [List.mem_cons, List.not_mem_nil, or_false] at hc
      rcases hc with rfl | same
      · exact .inl (by decide)
      · exact .inr same
    · exact .inr (List.mem_singleton.1 hc)
  unfold quoteChunk at h
  split at h
  · exact .inr h
  · split at h <;> simp only [List.cons_append, List.mem_cons, List.mem_append, List.not_mem_nil, or_false,
      List.mem_flatMap] at h
    · rcases h with rfl | hc | rfl
      · exact .inl (by decide)
      · exact .inr hc
      · exact .inl (by decide)
    · rcases h with rfl | ⟨d, hd, hc⟩ | rfl
      · exact .inl (by decide)
      · exact (escaped d hc).imp_right fun same : c = d => same ▸ hd
      · exact .inl (by decide)

theorem mem_quoteWord {word : List Char} {c : Char} (h : c ∈ quoteWord word) : c ∈ marks ∨ c ∈ word := by
  have chars (cs : List Char) (h : c ∈ quoteChars cs) : c ∈ marks ∨ c ∈ cs := by
    fun_induction quoteChars cs with
    | case1 => cases h
    | case2 first cs ih =>
      rw [← firstChunk_append (first :: cs), List.mem_append]
      rcases List.mem_append.1 h with h | h
      · exact (mem_quoteChunk h).imp_right .inl
      · exact (ih h).imp_right .inr
  unfold quoteWord at h
  split at h
  · exact .inl (by simp_all [marks])
  · exact chars word h

theorem mem_joinWords {words : List (List Char)} {c : Char} (h : c ∈ joinWords words) :
    c = ' ' ∨ c ∈ marks ∨ ∃ word ∈ words, c ∈ word := by
  refine (Text.mem_intercalate h).imp_right ?_
  rintro ⟨quoted, hquoted, hc⟩
  obtain ⟨word, hword, rfl⟩ := List.mem_map.1 hquoted
  exact (mem_quoteWord hc).imp_right fun inside => ⟨word, hword, inside⟩

/-- The words that were joined, on their line. -/
theorem toList_of_join? {words : List String} {text : String} (h : join? words = some text) :
    text.toList = joinWords (words.map String.toList) := by
  unfold join? at h
  split at h
  · cases h
  · obtain rfl := Option.some.inj h
    exact String.toList_ofList

end Shell

/-! ## Logs of one line -/

/-- A log that holds a line of quoted words has the command of this line. -/
theorem logEntries_of_line {words : List String} {line ending : String} (some : words ≠ [])
    (joined : Shell.join? words = .some line) (oneLine : ∀ word ∈ words, '\n' ∉ word.toList)
    (hending : ending ∈ ["", "\n", "\r\n"]) (directory : String) :
    logEntries (line ++ ending) directory = [Command.ofLine line directory] := by
  have chars := Shell.toList_of_join? joined
  obtain ⟨⟨first, hfirst, begins⟩, last, hlast, ends⟩ : Shell.Framed line.toList := by
    rw [chars]
    exact Shell.framed_joinWords (by simpa using some)
  have feed : '\n' ∉ line.toList := by
    rw [chars]
    intro h
    rcases Shell.mem_joinWords h with blank | mark | ⟨word, hword, hc⟩
    · exact absurd blank (by decide)
    · exact absurd mark (by decide)
    · obtain ⟨w, hw, rfl⟩ := List.mem_map.1 hword
      exact oneLine w hw hc
  have lines : Text.linesOf (line ++ ending).toList = [line.toList] := by
    rw [String.toList_append]
    refine Text.linesOf_of_line feed hlast ?_ ?_
    · rintro rfl
      exact absurd ends.1 (by decide)
    · simp only [List.mem_cons, List.not_mem_nil, or_false] at hending ⊢
      rcases hending with rfl | rfl | rfl <;> simp
  have trimmed : Text.trimChars line.toList = line.toList := by
    refine Text.trimChars_eq_self (fun c hc => ?_) fun c hc => ?_
    · obtain rfl := Option.mem_unique hfirst hc
      exact begins.1
    · obtain rfl := Option.mem_unique hlast hc
      exact ends.1
  have said : isLogComment line.toList = false := by
    obtain ⟨rest, hrest⟩ := List.head?_eq_some_iff.1 hfirst
    simp [isLogComment, hrest, begins.2]
  unfold logEntries
  rw [lines]
  simp [trimmed, said]

/-- The bytes of a text are read as the text. -/
theorem textOf_toUTF8 (text : String) : FileTree.textOf text.toUTF8 = .ok text := by
  have decoded : String.fromUTF8? text.toUTF8 = some text := by
    unfold String.fromUTF8?
    rw [String.toUTF8_eq_toByteArray, dif_pos text.isValidUTF8]
    rfl
  rw [FileTree.textOf, decoded]

/-! ## The forms of a command -/

namespace Command

/-- A line that names a tool first runs it in the default directory. -/
theorem ofLine_of_tool {executable : String} {arguments : List String} {line : String}
    (tool : (ToolFamily.ofExecutable? executable).isSome)
    (words : Shell.split? line = some (executable :: arguments)) (directory : String) :
    ofLine line directory = .ok ⟨directory, executable, arguments⟩ := by
  rw [ofLine, words]
  cases arguments with
  | nil => rfl
  | cons second rest =>
    have known : (ToolFamily.ofExecutable? executable).isNone = false := by
      simpa [← Option.isSome_iff_ne_none] using tool
    simp [known]

/-- A line that names a tool behind something that is none runs it there. -/
theorem ofLine_of_directory {directory executable : String} {arguments : List String} {line : String}
    (tool : (ToolFamily.ofExecutable? executable).isSome)
    (other : ToolFamily.ofExecutable? directory = none)
    (joined : Shell.join? (directory :: executable :: arguments) = some line) (default : String) :
    ofLine line default = .ok ⟨directory, executable, arguments⟩ := by
  rw [ofLine, Shell.split?_of_join? joined]
  simp [tool, other]

/-- The entries of a compilation database that say what the line says. -/
def entries (c : Command) (line : String) : List CompileEntry :=
  [⟨c.directory, none, some (c.executable :: c.arguments)⟩, ⟨c.directory, some line, none⟩]

theorem recorded_of_mem_entries {c : Command} {line : String}
    (joined : Shell.join? (c.executable :: c.arguments) = some line) :
    ∀ entry ∈ c.entries line, entry.recorded = .ok c := by
  simp [entries, CompileEntry.recorded, Shell.split?_of_join? joined]

/-- A command of a known tool is read alike from the words of an entry, from the command line of an
entry and from a line; if its directory is no tool, then also from a line that begins with the
directory, whatever the default directory is.  A log of this line is imported as a compilation database
with either entry is. -/
theorem forms_agree (c : Command) (tool : c.isRecognized)
    (noNul : ∀ word ∈ c.directory :: c.executable :: c.arguments, '\x00' ∉ word.toList) :
    ∃ line, Shell.join? (c.executable :: c.arguments) = some line ∧
      (∀ entry ∈ c.entries line, entry.recorded = .ok c) ∧
      ofLine line c.directory = .ok c ∧
      (ToolFamily.ofExecutable? c.directory = none →
        ∃ full, Shell.join? (c.directory :: c.executable :: c.arguments) = some full ∧
          (∀ fallback, ofLine full fallback = .ok c) ∧
          ((∀ word ∈ c.directory :: c.executable :: c.arguments, '\n' ∉ word.toList) →
            ∀ ending ∈ ["", "\n", "\r\n"], ∀ document, ∀ entry ∈ c.entries line,
              compileDatabase document = .ok [entry] → ∀ s fallback o now,
                importLog s (full ++ ending).toUTF8 fallback o now = importDatabase s document o now ∧
                (importDatabase s document o now).2 = (importEntries s [.ok c] o now).2)) := by
  have joins {words : List String} (noNul : ∀ word ∈ words, '\x00' ∉ word.toList) :
      ∃ text, Shell.join? words = some text := by
    rw [← Option.isSome_iff_exists, ← Option.ne_none_iff_isSome, Ne, Shell.join?_eq_none_iff]
    rintro ⟨word, hword, nul⟩
    exact noNul word hword nul
  obtain ⟨line, hline⟩ := joins (List.forall_mem_cons.1 noNul).2
  have recorded := recorded_of_mem_entries hline
  have plain := ofLine_of_tool tool (Shell.split?_of_join? hline) c.directory
  refine ⟨line, hline, recorded, plain, fun other => ?_⟩
  obtain ⟨full, hfull⟩ := joins noNul
  have read := ofLine_of_directory tool other hfull
  refine ⟨full, hfull, read, ?_⟩
  intro oneLine ending hending document entry hentry readable s fallback o now
  have log : logEntries (full ++ ending) fallback = [.ok c] := by
    rw [logEntries_of_line (List.cons_ne_nil _ _) hfull oneLine hending, read]
  have database : [entry].map CompileEntry.recorded = [.ok c] := by
    rw [List.map_singleton, recorded entry hentry]
  have fromLog : importLog s (full ++ ending).toUTF8 fallback o now =
      ((importEntries s [.ok c] o now).1.mapError .store, (importEntries s [.ok c] o now).2) := by
    simp only [importLog, textOf_toUTF8, log]
  have fromDatabase : importDatabase s document o now =
      ((importEntries s [.ok c] o now).1.mapError .store, (importEntries s [.ok c] o now).2) := by
    simp only [importDatabase, readable, database]
  exact ⟨fromLog.trans fromDatabase.symm, congrArg Prod.snd fromDatabase⟩

/-- A command that has to be quoted in every way, in a directory that could be taken for words. -/
def spaced : Command := ⟨"/my gcc", "/opt/arm-none-eabi-g++", ["-c", "#a.c", "-o", "it's $o.o", ""]⟩

/-- Its words as an entry of a compilation database. -/
def spacedDatabase : ByteArray :=
  ("[\x7b\"directory\": \"/my gcc\", \"arguments\": " ++
    "[\"/opt/arm-none-eabi-g++\", \"-c\", \"#a.c\", \"-o\", \"it's $o.o\", \"\"]\x7d]").toUTF8

def spacedLine : String := "'/my gcc' /opt/arm-none-eabi-g++ -c '#a.c' -o \"it's \"'$o.o' ''"

theorem forms_agree_spaced :
    spaced.isRecognized ∧ ToolFamily.ofExecutable? spaced.directory = none ∧
      (∀ fallback, ofLine spacedLine fallback = .ok spaced) ∧
      compileDatabase spacedDatabase = .ok [⟨"/my gcc", none, some (spaced.executable :: spaced.arguments)⟩] ∧
      importLog {} (spacedLine ++ "\r\n").toUTF8 "/x" {} ⟨5, 0⟩ =
        importDatabase {} spacedDatabase {} ⟨5, 0⟩ ∧
      (importDatabase {} spacedDatabase {} ⟨5, 0⟩).2.graph.commands =
        [⟨1, "/my gcc", "/opt/arm-none-eabi-g++", "-c '#a.c' -o \"it's \"'$o.o' ''"⟩] := by
  have tool : spaced.isRecognized := by decide +kernel
  have other : ToolFamily.ofExecutable? spaced.directory = none := by decide +kernel
  have readable : compileDatabase spacedDatabase =
      .ok [⟨"/my gcc", none, some (spaced.executable :: spaced.arguments)⟩] := by decide +kernel
  have joined : Shell.join? (spaced.directory :: spaced.executable :: spaced.arguments) =
      some spacedLine := by decide +kernel
  obtain ⟨line, -, -, -, forms⟩ := forms_agree spaced tool (by decide +kernel)
  obtain ⟨full, hfull, read, imported⟩ := forms other
  obtain rfl := Option.some.inj (hfull.symm.trans joined)
  obtain ⟨same, -⟩ := imported (by decide +kernel) "\r\n" (by decide) spacedDatabase _
    List.mem_cons_self readable {} "/x" {} ⟨5, 0⟩
  exact ⟨tool, other, read, readable, same, by decide +kernel⟩

end Command

end BuildAudit
