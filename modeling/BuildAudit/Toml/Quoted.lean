import BuildAudit.Text

/-!
# Quoted strings

Strings of TOML, read and written.  There are four styles: between double or single quotes, with
escapes or without, and on one line or between three quotes over several.  `write` takes the first
style that needs no escape, and `Style.readRest?` reads any of them.
-/

namespace BuildAudit.Toml

/-- How a string is quoted. -/
structure Style where
  /-- Between double quotes, a backslash starts an escape; between single quotes, none does. -/
  escapes : Bool
  /-- The string stands between three quotes and may hold line ends. -/
  lines : Bool
  deriving DecidableEq, Repr

/-! ### Characters -/

/-- Blanks within a line. -/
def isSpace (c : Char) : Bool := c == ' ' || c == '\t'

/-- The characters that strings and comments may hold as they are: all but controls. -/
def isPlainChar (c : Char) : Bool := c == '\t' || (0x20 ≤ c.toNat && c.toNat != 0x7F)

def newline? : List Char → Option (List Char)
  | '\n' :: cs => some cs
  | '\r' :: '\n' :: cs => some cs
  | _ => none

theorem length_of_newline? {cs rest : List Char} (h : newline? cs = some rest) :
    rest.length < cs.length := by
  unfold newline? at h
  split at h
  · cases h
    simp only [List.length_cons]
    omega
  · cases h
    simp only [List.length_cons]
    omega
  · cases h

/-- The text behind blanks and line ends. -/
def skipLines : List Char → List Char
  | '\n' :: cs => skipLines cs
  | '\r' :: '\n' :: cs => skipLines cs
  | c :: cs => if isSpace c then skipLines cs else c :: cs
  | [] => []

theorem length_skipLines_le (cs : List Char) : (skipLines cs).length ≤ cs.length := by
  fun_induction skipLines cs with
  | case1 cs ih => simp only [List.length_cons]; omega
  | case2 cs ih => simp only [List.length_cons]; omega
  | case3 c cs _ _ h ih => simp only [List.length_cons]; omega
  | case4 => simp
  | case5 => simp

/-! ### Escapes -/

/-- The character that a one-letter escape stands for. -/
def simpleEscape? : Char → Option Char
  | 'b' => some '\x08'
  | 't' => some '\t'
  | 'n' => some '\n'
  | 'f' => some '\x0c'
  | 'r' => some '\r'
  | '"' => some '"'
  | '\\' => some '\\'
  | _ => none

/-- Reads the `n` hexadecimal digits of an escape. -/
def scalar? (n : Nat) (cs : List Char) : Option (Char × List Char) :=
  if (cs.take n).length = n then
    match Text.natIn? 16 (cs.take n) with
    | some v => if Nat.isValidChar v then some (Char.ofNat v, cs.drop n) else none
    | none => none
  else none

/-- Reads an escape behind its backslash. -/
def escape? : List Char → Option (Char × List Char)
  | 'u' :: cs => scalar? 4 cs
  | 'U' :: cs => scalar? 8 cs
  | c :: cs => (simpleEscape? c).map (·, cs)
  | [] => none

theorem length_of_escape? {cs rest : List Char} {c : Char} (h : escape? cs = some (c, rest)) :
    rest.length ≤ cs.length := by
  have scalar {n : Nat} {cs : List Char} (h : scalar? n cs = some (c, rest)) :
      rest.length ≤ cs.length := by
    simp only [scalar?] at h
    split at h
    · split at h
      · split at h
        · cases h; simp
        · cases h
      · cases h
    · cases h
  unfold escape? at h
  split at h
  · exact Nat.le_succ_of_le (scalar h)
  · exact Nat.le_succ_of_le (scalar h)
  · obtain ⟨_, _, he⟩ := Option.map_eq_some_iff.1 h
    cases he; simp
  · cases h

/-! ### Reading -/

namespace Style

def quote (s : Style) : Char := if s.escapes then '"' else '\x27'

/-- The number of quotes on either side. -/
def width (s : Style) : Nat := if s.lines then 3 else 1

/-- Behind one quote inside a string: what is left of the string and the text behind it, if the
string ends here.  Up to two quotes before the last three belong to the string. -/
def closing? (s : Style) (cs : List Char) : Option (List Char × List Char) :=
  if !s.lines then some ([], cs)
  else if cs.take 2 = [s.quote, s.quote] then
    let extra := ((cs.drop 2).take 2).takeWhile (· = s.quote)
    some (extra, cs.drop (2 + extra.length))
  else none

/-- Behind a backslash inside a string: what it adds to the string.  At the end of a line it takes
away all blanks and line ends that follow. -/
def escaped? (s : Style) (cs : List Char) : Option (List Char × List Char) :=
  match if s.lines then newline? (cs.dropWhile isSpace) else none with
  | some rest => some ([], skipLines rest)
  | none => (escape? cs).map fun (c, rest) => ([c], rest)

theorem length_of_escaped? {s : Style} {cs added rest : List Char}
    (h : s.escaped? cs = some (added, rest)) : rest.length ≤ cs.length := by
  unfold escaped? at h
  split at h
  · next tail ht =>
    cases h
    have hd : (cs.dropWhile isSpace).length ≤ cs.length :=
      (List.dropWhile_sublist isSpace).length_le
    have hn : tail.length < (cs.dropWhile isSpace).length := by
      split at ht
      · exact length_of_newline? ht
      · cases ht
    exact Nat.le_trans (length_skipLines_le tail) (Nat.le_trans (Nat.le_of_lt hn) hd)
  · obtain ⟨⟨c, tail⟩, he, heq⟩ := Option.map_eq_some_iff.1 h
    cases heq
    exact length_of_escape? he

/-- Reads a string behind its opening quotes: its characters and the text behind it. -/
def readRest? (s : Style) (cs : List Char) : Option (List Char × List Char) :=
  match cs with
  | [] => none
  | c :: cs =>
    if c = s.quote then
      match s.closing? cs with
      | some ending => some ending
      | none => (readRest? s cs).map fun (text, rest) => (c :: text, rest)
    else if c = '\\' ∧ s.escapes then
      match _h : s.escaped? cs with
      | some (added, tail) => (readRest? s tail).map fun (text, rest) => (added ++ text, rest)
      | none => none
    else
      match _h : if s.lines then newline? (c :: cs) else none with
      | some tail => (readRest? s tail).map fun (text, rest) => ('\n' :: text, rest)
      | none =>
        if isPlainChar c then (readRest? s cs).map fun (text, rest) => (c :: text, rest)
        else none
termination_by cs.length
decreasing_by
  · simp
  · have := length_of_escaped? _h
    simp only [List.length_cons]
    omega
  · split at _h
    · exact length_of_newline? _h
    · cases _h
  · simp

end Style

/-- Reads a string of any style; `lines` says whether those over several lines are allowed. -/
def quoted? (lines : Bool) (cs : List Char) : Option (String × List Char) :=
  match cs with
  | [] => none
  | c :: rest =>
    let style : Style := ⟨c == '"', lines && rest.take 2 == [c, c]⟩
    if c = style.quote then
      let inside := rest.drop (style.width - 1)
      let inside := if style.lines then (newline? inside).getD inside else inside
      (style.readRest? inside).map fun (text, rest) => (String.ofList text, rest)
    else none

/-! ### Writing -/

/-- Whether `c` can only be written as an escape. -/
def needsEscape (c : Char) : Bool :=
  !isPlainChar c && c != '\n'

/-- Whether no more than `limit` characters `c` follow each other, the first one behind `run` more
of them. -/
def runsAtMost (c : Char) (limit run : Nat) : List Char → Bool
  | [] => true
  | d :: cs =>
    if d = c then run < limit && runsAtMost c limit (run + 1) cs
    else runsAtMost c limit 0 cs

namespace Style

/-- The longest run of its own quotes that a string of this style may hold. -/
def quotesAllowed (s : Style) : Nat := if s.lines then 2 else 0

/-- Whether a text can be written in this style without escapes. -/
def suits (s : Style) (cs : List Char) : Bool :=
  !cs.any needsEscape && (!s.escapes || !cs.contains '\\') && (s.lines || !cs.contains '\n') &&
    runsAtMost s.quote s.quotesAllowed 0 cs

/-- The styles in the order of preference. -/
def all : List Style := [⟨true, false⟩, ⟨false, false⟩, ⟨true, true⟩, ⟨false, true⟩]

/-- The style for a text.  Where no style does without escapes, line ends decide. -/
def choose (cs : List Char) : Style :=
  (all.find? (·.suits cs)).getD ⟨true, cs.contains '\n'⟩

/-- Upper-case hexadecimal digits, at least four. -/
def hexText (n : Nat) : List Char :=
  let digits := (Nat.toDigits 16 n).map Char.toUpper
  List.replicate (4 - digits.length) '0' ++ digits

/-- A character other than a quote between double quotes. -/
def writeChar (s : Style) (c : Char) : List Char :=
  match c with
  | '\x08' => ['\\', 'b']
  | '\t' => ['\\', 't']
  | '\n' => if s.lines then ['\n'] else ['\\', 'n']
  | '\x0c' => ['\\', 'f']
  | '\r' => ['\\', 'r']
  | '\\' => ['\\', '\\']
  | c => if needsEscape c then '\\' :: 'u' :: hexText c.toNat else [c]

/-- A text between double quotes, behind `run` quotes.  One quote more than the style allows in a
row becomes an escape. -/
def writeFrom (s : Style) (run : Nat) : List Char → List Char
  | [] => []
  | c :: cs =>
    if c = '"' then
      if run < s.quotesAllowed then '"' :: writeFrom s (run + 1) cs
      else '\\' :: '"' :: writeFrom s 0 cs
    else s.writeChar c ++ writeFrom s 0 cs

/-- A string in this style.  A text with line ends starts on a line of its own. -/
def write (s : Style) (cs : List Char) : List Char :=
  let quotes := List.replicate s.width s.quote
  let start := if s.lines && cs.contains '\n' then ['\n'] else []
  quotes ++ start ++ (if s.escapes then s.writeFrom 0 cs else cs) ++ quotes

end Style

def quote (text : String) : String :=
  String.ofList ((Style.choose text.toList).write text.toList)

end BuildAudit.Toml
