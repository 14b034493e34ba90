/-!
# Shell words

Splitting a command line into words, and writing words so that splitting finds them again.

Splitting knows blanks, tabs and line feeds as separators, `#` comments at the start of a word,
backslashes, and single and double quotes.  Quoting cuts a word into chunks that each need one kind
of quoting: bare, single or double.
-/

namespace BuildAudit.Shell

/-! ### Splitting -/

/-- Where a splitter stands; the word read so far is kept while inside one. -/
inductive Position where
  | gap
  | comment
  | bare (word : List Char)
  | escaped (word : List Char)
  | single (word : List Char)
  | double (word : List Char)
  | doubleEscaped (word : List Char)

/-- The characters between words. -/
def isSeparator (c : Char) : Bool := c == ' ' || c == '\t' || c == '\n'

/-- Where the splitter stands after `c` in the unquoted part of a word. -/
def Position.inWord (word : List Char) (c : Char) : Position :=
  if c == '"' then .double word
  else if c == '\'' then .single word
  else if c == '\\' then .escaped word
  else .bare (word ++ [c])

/-- The characters that a backslash escapes between double quotes. -/
def isDoubleSpecial (c : Char) : Bool := c == '$' || c == '\x60' || c == '"' || c == '\\'

/-- The words from a position on; `none` when a quote or an escape is left open. -/
def splitFrom : Position → List Char → Option (List (List Char))
  | .gap, [] => some []
  | .comment, [] => some []
  | .bare word, [] => some [word]
  | .escaped _, [] => none
  | .single _, [] => none
  | .double _, [] => none
  | .doubleEscaped _, [] => none
  | .gap, c :: cs =>
    if isSeparator c then splitFrom .gap cs
    else if c == '#' then splitFrom .comment cs
    else splitFrom (.inWord [] c) cs
  | .comment, c :: cs => if c == '\n' then splitFrom .gap cs else splitFrom .comment cs
  | .bare word, c :: cs =>
    if isSeparator c then (splitFrom .gap cs).map (word :: ·) else splitFrom (.inWord word c) cs
  | .escaped word, c :: cs =>
    if c == '\n' then splitFrom (.bare word) cs else splitFrom (.bare (word ++ [c])) cs
  | .single word, c :: cs =>
    if c == '\'' then splitFrom (.bare word) cs else splitFrom (.single (word ++ [c])) cs
  | .double word, c :: cs =>
    if c == '"' then splitFrom (.bare word) cs
    else if c == '\\' then splitFrom (.doubleEscaped word) cs
    else splitFrom (.double (word ++ [c])) cs
  | .doubleEscaped word, c :: cs =>
    if isDoubleSpecial c then splitFrom (.double (word ++ [c])) cs
    else if c == '\n' then splitFrom (.double word) cs
    else splitFrom (.double (word ++ ['\\', c])) cs

/-- A character with its escape, if it needs one, is read as itself between double quotes. -/
theorem splitFrom_escaped (c : Char) (word rest : List Char) :
    splitFrom (.double word) ((if isDoubleSpecial c then ['\\', c] else [c]) ++ rest) =
      splitFrom (.double (word ++ [c])) rest := by
  by_cases special : isDoubleSpecial c
  · simp [special, splitFrom]
  · have plain : c ≠ '"' ∧ c ≠ '\\' := by
      simp only [isDoubleSpecial, Bool.or_eq_true, beq_iff_eq, not_or] at special
      exact ⟨special.1.2, special.2⟩
    simp [special, splitFrom, plain]

/-- The words of a command line; `none` when a quote or an escape is left open. -/
def split? (line : String) : Option (List String) :=
  (splitFrom .gap line.toList).map (·.map String.ofList)

/-! ### Quoting -/

/-- The kinds of quoting that still fit a chunk. -/
structure Fit where
  bare : Bool
  single : Bool
  double : Bool
  deriving DecidableEq

def Fit.some (f : Fit) : Bool := f.bare || f.single || f.double

def isBareChar (c : Char) : Bool :=
  c.isAlphanum || c == '+' || c == '-' || c == '.' || c == '/' || c == ':' || c == '@' ||
    c == ']' || c == '_'

def isSingleChar (c : Char) : Bool := !(c == '\'' || c == '^' || c == '\\')

def isDoubleChar (c : Char) : Bool := !(c == '\x60' || c == '$' || c == '!' || c == '^')

/-- The kinds left after `c` joins the chunk. -/
def Fit.narrow (f : Fit) (c : Char) : Fit :=
  ⟨f.bare && isBareChar c, f.single && isSingleChar c, f.double && isDoubleChar c⟩

/-- The longest beginning of `cs` for which a kind is left, that kind, and the rest. -/
def chunkFrom (f : Fit) : List Char → List Char × Fit × List Char
  | [] => ([], f, [])
  | c :: cs =>
    if (f.narrow c).some then
      let (chunk, fit, rest) := chunkFrom (f.narrow c) cs
      (c :: chunk, fit, rest)
    else ([], f, c :: cs)

/-- The first chunk of a word.  A caret is only allowed at the front of a chunk and forces single
quotes on it. -/
def firstChunk : List Char → List Char × Fit × List Char
  | '^' :: cs =>
    let (chunk, fit, rest) := chunkFrom ⟨false, true, false⟩ cs
    ('^' :: chunk, fit, rest)
  | cs => chunkFrom ⟨true, true, true⟩ cs

/-- A chunk in the least quoting that fits it. -/
def quoteChunk (chunk : List Char) (f : Fit) : List Char :=
  if f.bare then chunk
  else if f.single then '\'' :: chunk ++ ['\'']
  else '"' :: chunk.flatMap (fun c => if isDoubleSpecial c then ['\\', c] else [c]) ++ ['"']

theorem length_chunkFrom (f : Fit) (cs : List Char) :
    (chunkFrom f cs).2.2.length ≤ cs.length := by
  induction cs generalizing f with
  | nil => simp [chunkFrom]
  | cons c cs ih =>
    unfold chunkFrom
    split
    · exact Nat.le_succ_of_le (ih _)
    · simp

/-- A single character always fits some kind of quoting. -/
theorem narrow_some (c : Char) (h : c ≠ '^') : ((⟨true, true, true⟩ : Fit).narrow c).some := by
  simp only [Fit.some, Fit.narrow, isSingleChar, isDoubleChar]
  by_cases h1 : c = '\'' <;> by_cases h2 : c = '\\' <;> simp_all

theorem length_firstChunk (c : Char) (cs : List Char) :
    (firstChunk (c :: cs)).2.2.length < (c :: cs).length := by
  unfold firstChunk
  split
  · rename_i cs' heq
    cases heq
    exact Nat.lt_succ_of_le (length_chunkFrom _ _)
  · rename_i h
    have hc : c ≠ '^' := fun e => h cs (by rw [e])
    unfold chunkFrom
    rw [if_pos (narrow_some c hc)]
    exact Nat.lt_succ_of_le (length_chunkFrom _ _)

def quoteChars : List Char → List Char
  | [] => []
  | c :: cs =>
    quoteChunk (firstChunk (c :: cs)).1 (firstChunk (c :: cs)).2.1 ++
      quoteChars (firstChunk (c :: cs)).2.2
termination_by cs => cs.length
decreasing_by exact length_firstChunk c cs

/-- A word as it is written on a command line. -/
def quoteWord (word : List Char) : List Char :=
  if word = [] then ['\'', '\''] else quoteChars word

/-- The words on one line, with a blank between them. -/
def joinWords (words : List (List Char)) : List Char := [' '].intercalate (words.map quoteWord)

/-- The words on one line; `none` when one holds a NUL, which no quoting can carry. -/
def join? (words : List String) : Option String :=
  if words.any (·.toList.contains '\x00') then none
  else some (String.ofList (joinWords (words.map String.toList)))

end BuildAudit.Shell
