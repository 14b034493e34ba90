import BuildAudit.Command

/-!
# Quoted words

Splitting finds the words that were joined (`Shell.split?_of_join?`).  Quoting cuts a word into chunks;
a splitter inside a word that reads a quoted chunk has that chunk added to its word
(`splitFrom_quoteChunk`), whatever kind of quoting was chosen, and so it reads a whole word chunk by
chunk (`splitFrom_quoteChars`).
-/

namespace BuildAudit

namespace Shell

/-! ## Chunks -/

/-- What a chunk must be like to be written in the kinds of quoting that are left.  Double quotes can
carry everything. -/
structure Fit.Carries (f : Fit) (chunk : List Char) : Prop where
  bare : f.bare → ∀ c ∈ chunk, isBareChar c
  single : f.single → '\'' ∉ chunk

theorem chunkFrom_append (f : Fit) (cs : List Char) :
    (chunkFrom f cs).1 ++ (chunkFrom f cs).2.2 = cs := by
  induction cs generalizing f with
  | nil => rfl
  | cons c cs ih =>
    unfold chunkFrom
    split
    · exact congrArg (c :: ·) (ih _)
    · rfl

/-- The kinds that are left for a chunk are those that fit each of its characters. -/
theorem fit_chunkFrom (f : Fit) (cs : List Char) :
    (chunkFrom f cs).2.1 =
      ⟨f.bare && (chunkFrom f cs).1.all isBareChar, f.single && (chunkFrom f cs).1.all isSingleChar,
        f.double && (chunkFrom f cs).1.all isDoubleChar⟩ := by
  induction cs generalizing f with
  | nil => simp [chunkFrom]
  | cons c cs ih =>
    unfold chunkFrom
    split
    · simp only [ih, Fit.narrow, List.all_cons, Bool.and_assoc]
    · simp

theorem not_mem_of_all_isSingleChar {chunk : List Char} (h : chunk.all isSingleChar) :
    '\'' ∉ chunk := by
  intro hq
  have := List.all_eq_true.1 h _ hq
  revert this
  decide

theorem firstChunk_append (cs : List Char) : (firstChunk cs).1 ++ (firstChunk cs).2.2 = cs := by
  unfold firstChunk
  split
  · exact congrArg ('^' :: ·) (chunkFrom_append _ _)
  · exact chunkFrom_append _ _

theorem firstChunk_ne_nil (c : Char) (cs : List Char) : (firstChunk (c :: cs)).1 ≠ [] := by
  intro none
  have whole := firstChunk_append (c :: cs)
  rw [none, List.nil_append] at whole
  exact absurd (length_firstChunk c cs) (by rw [whole]; exact Nat.lt_irrefl _)

theorem carries_firstChunk (cs : List Char) : (firstChunk cs).2.1.Carries (firstChunk cs).1 := by
  unfold firstChunk
  split
  · -- a caret at the front: only single quotes are left
    simp only [fit_chunkFrom]
    refine ⟨by simp, fun single hq => ?_⟩
    rcases List.mem_cons.1 hq with caret | hq
    · exact absurd caret (by decide)
    · exact not_mem_of_all_isSingleChar (by simpa using single) hq
  · simp only [fit_chunkFrom]
    exact ⟨fun bare => by simpa using bare,
      fun single => not_mem_of_all_isSingleChar (by simpa using single)⟩

/-! ## Reading chunks -/

/-- The character does not end a word, and inside one it is read as itself. -/
def IsPlainChar (c : Char) : Prop := isSeparator c = false ∧ c ≠ '"' ∧ c ≠ '\'' ∧ c ≠ '\\'

theorem IsPlainChar.inWord {c : Char} (h : IsPlainChar c) (word : List Char) :
    Position.inWord word c = .bare (word ++ [c]) := by
  obtain ⟨-, double, single, backslash⟩ := h
  simp [Position.inWord, double, single, backslash]

theorem isPlainChar_of_isBareChar {c : Char} (h : isBareChar c) : IsPlainChar c ∧ c ≠ '#' := by
  have special : [' ', '\t', '\n', '#', '"', '\'', '\\'].any isBareChar = false := by decide
  have other : ∀ d ∈ [' ', '\t', '\n', '#', '"', '\'', '\\'], c ≠ d := by
    rintro d hd rfl
    exact List.any_eq_false.1 special c hd h
  simp only [List.mem_cons, List.not_mem_nil, or_false, forall_eq_or_imp, forall_eq] at other
  obtain ⟨blank, tab, feed, hash, quotes⟩ := other
  exact ⟨⟨by simp [isSeparator, blank, tab, feed], quotes⟩, hash⟩

theorem splitFrom_plain {chunk : List Char} (h : ∀ c ∈ chunk, IsPlainChar c) (word rest : List Char) :
    splitFrom (.bare word) (chunk ++ rest) = splitFrom (.bare (word ++ chunk)) rest := by
  induction chunk generalizing word with
  | nil => simp
  | cons c chunk ih =>
    obtain ⟨hc, h⟩ := List.forall_mem_cons.1 h
    rw [List.cons_append, splitFrom, hc.1, hc.inWord]
    simp only [Bool.false_eq_true, if_false]
    rw [ih h, List.append_assoc, List.singleton_append]

theorem splitFrom_single {chunk : List Char} (h : '\'' ∉ chunk) (word rest : List Char) :
    splitFrom (.single word) (chunk ++ '\'' :: rest) = splitFrom (.bare (word ++ chunk)) rest := by
  induction chunk generalizing word with
  | nil => simp [splitFrom]
  | cons c chunk ih =>
    obtain ⟨hc, h⟩ := not_or.1 (mt List.mem_cons.2 h)
    rw [List.cons_append, splitFrom, if_neg (by simpa using Ne.symm hc), ih h, List.append_assoc,
      List.singleton_append]

theorem splitFrom_double (chunk word rest : List Char) :
    splitFrom (.double word)
        (chunk.flatMap (fun c => if isDoubleSpecial c then ['\\', c] else [c]) ++ '"' :: rest) =
      splitFrom (.bare (word ++ chunk)) rest := by
  induction chunk generalizing word with
  | nil => simp [splitFrom]
  | cons c chunk ih =>
    rw [List.flatMap_cons, List.append_assoc, splitFrom_escaped, ih, List.append_assoc,
      List.singleton_append]

/-- Inside a word, a quoted chunk is read as the chunk. -/
theorem splitFrom_quoteChunk {f : Fit} {chunk : List Char} (carries : f.Carries chunk)
    (word rest : List Char) :
    splitFrom (.bare word) (quoteChunk chunk f ++ rest) = splitFrom (.bare (word ++ chunk)) rest := by
  unfold quoteChunk
  split
  case isTrue bare =>
    exact splitFrom_plain (fun c hc => (isPlainChar_of_isBareChar (carries.bare bare c hc)).1) word rest
  case isFalse =>
    split
    case isTrue single =>
      rw [List.cons_append, List.cons_append, List.append_assoc,
        ← splitFrom_single (carries.single single)]
      rfl
    case isFalse =>
      rw [List.cons_append, List.cons_append, List.append_assoc, ← splitFrom_double]
      rfl

/-! ## Reading words -/

theorem splitFrom_quoteChars (cs word rest : List Char) :
    splitFrom (.bare word) (quoteChars cs ++ rest) = splitFrom (.bare (word ++ cs)) rest := by
  fun_induction quoteChars cs generalizing word with
  | case1 => simp
  | case2 c cs ih =>
    rw [List.append_assoc, splitFrom_quoteChunk (carries_firstChunk _), ih, List.append_assoc,
      firstChunk_append]

/-- The text begins a word when it is read between words. -/
def BeginsWord (cs : List Char) : Prop := ∃ c rest, cs = c :: rest ∧ isSeparator c = false ∧ c ≠ '#'

theorem BeginsWord.append {cs : List Char} (h : BeginsWord cs) (rest : List Char) :
    BeginsWord (cs ++ rest) := by
  obtain ⟨c, cs, rfl, hc⟩ := h
  exact ⟨c, cs ++ rest, rfl, hc⟩

theorem splitFrom_gap {cs : List Char} (h : BeginsWord cs) :
    splitFrom .gap cs = splitFrom (.bare []) cs := by
  obtain ⟨c, rest, rfl, separator, hash⟩ := h
  simp [splitFrom, separator, hash]

theorem beginsWord_quoteChunk {f : Fit} {chunk : List Char} (carries : f.Carries chunk)
    (some : chunk ≠ []) : BeginsWord (quoteChunk chunk f) := by
  unfold quoteChunk
  split
  case isTrue bare =>
    obtain ⟨c, rest, rfl⟩ := List.exists_cons_of_ne_nil some
    obtain ⟨⟨separator, -⟩, hash⟩ :=
      isPlainChar_of_isBareChar (carries.bare bare c List.mem_cons_self)
    exact ⟨c, rest, rfl, separator, hash⟩
  case isFalse =>
    split
    · exact ⟨_, _, rfl, by decide, by decide⟩
    · exact ⟨_, _, rfl, by decide, by decide⟩

theorem beginsWord_quoteWord (word : List Char) : BeginsWord (quoteWord word) := by
  unfold quoteWord
  split
  case isTrue => exact ⟨_, _, rfl, by decide, by decide⟩
  case isFalse some =>
    obtain ⟨c, cs, rfl⟩ := List.exists_cons_of_ne_nil some
    rw [quoteChars]
    exact (beginsWord_quoteChunk (carries_firstChunk _) (firstChunk_ne_nil c cs)).append _

/-- Between words, a quoted word is read as the word. -/
theorem splitFrom_quoteWord (word rest : List Char) :
    splitFrom .gap (quoteWord word ++ rest) = splitFrom (.bare word) rest := by
  rw [splitFrom_gap ((beginsWord_quoteWord word).append rest), quoteWord]
  split
  case isTrue empty =>
    subst empty
    simp [splitFrom, isSeparator, Position.inWord]
  case isFalse => rw [splitFrom_quoteChars, List.nil_append]

theorem splitFrom_joinWords (words : List (List Char)) :
    splitFrom .gap (joinWords words) = some words := by
  unfold joinWords
  induction words with
  | nil => rfl
  | cons word words ih =>
    rcases words with _ | ⟨next, words⟩
    · have last := splitFrom_quoteWord word []
      rw [List.append_nil] at last
      simpa [splitFrom] using last
    · rw [List.map_cons, List.map_cons, List.intercalate_cons_cons, List.append_assoc,
        splitFrom_quoteWord, List.singleton_append, splitFrom]
      simp only [isSeparator]
      rw [← List.map_cons, ih]
      rfl

/-- Splitting finds the words that were joined. -/
theorem split?_of_join? {words : List String} {text : String} (h : join? words = some text) :
    split? text = some words := by
  unfold join? at h
  split at h
  · cases h
  · obtain rfl := Option.some.inj h
    simp [split?, splitFrom_joinWords]

/-- Only a NUL keeps words from being joined. -/
theorem join?_eq_none_iff {words : List String} :
    join? words = none ↔ ∃ word ∈ words, '\x00' ∈ word.toList := by
  simp [join?]

end Shell

namespace Command

/-- The arguments of a command, written as one text, read back as the command. -/
theorem ofParts_of_args {c : Command} {text : String} (h : c.args = .ok text) :
    ofParts c.directory c.executable text = .ok c := by
  unfold args at h
  split at h
  case h_1 joined =>
    obtain rfl := Except.ok.inj h
    rw [ofParts, Shell.split?_of_join? joined]
  case h_2 => cases h

theorem args_eq_error_iff {c : Command} :
    (∃ e, c.args = .error e) ↔ ∃ a ∈ c.arguments, '\x00' ∈ a.toList := by
  rw [← Shell.join?_eq_none_iff, args]
  rcases Shell.join? c.arguments with _ | text <;> simp

/-- A command can be written down for replay unless an argument holds a NUL, and what is written down
reads back as the command. -/
theorem args_lossless (c : Command) :
    ((∃ e, c.args = .error e) ↔ ∃ a ∈ c.arguments, '\x00' ∈ a.toList) ∧
    ∀ text, c.args = .ok text → ofParts c.directory c.executable text = .ok c :=
  ⟨args_eq_error_iff, fun _ h => ofParts_of_args h⟩

/-- A command whose arguments need every kind of quoting, and more than one of them in a word. -/
def intricate : Command :=
  ⟨"/my build", "gcc", ["-o", "", "#x", "it's", "a^b!\\", "$`\"'", "é\n"]⟩

def intricateArgs : String := "-o '' '#x' \"it's\" a'^b!'\"\\\\\" '$`\"'\"'\" 'é\n'"

theorem args_lossless_intricate :
    intricate.args = .ok intricateArgs ∧ ofParts "/my build" "gcc" intricateArgs = .ok intricate ∧
      ∃ e, args ⟨"/b", "gcc", ["-o", "a\x00b"]⟩ = .error e := by
  have joined : Shell.join? intricate.arguments = some intricateArgs := by decide +kernel
  have written : intricate.args = .ok intricateArgs := by rw [args, joined]
  refine ⟨written, (args_lossless intricate).2 _ written, ?_⟩
  exact (args_lossless _).1.2 ⟨"a\x00b", by decide, by decide⟩

end Command

end BuildAudit
