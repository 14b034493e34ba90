import BuildAudit.Toml.Quoted
import BuildAudit.Toml.Scalar

/-!
# Reading TOML

A document is a list of lines, each empty, a header, or a key with its value.  They are read one
after the other into the entries of the document.  Nothing is said about what is wrong with a text
that is no TOML.
-/

namespace BuildAudit.Toml

/-- Reads a value at the front of a text. -/
abbrev Reader (α : Type) := List Char → Option (α × List Char)

/-! ### Blanks and comments -/

def skipSpace (cs : List Char) : List Char := cs.dropWhile isSpace

/-- The text behind a comment, if there is one at the front; its line end stays. -/
def skipComment : List Char → List Char
  | '#' :: cs => cs.dropWhile isPlainChar
  | cs => cs

/-- Reads the end of a line behind blanks and a comment.  The end of the text is one. -/
def lineEnd? (cs : List Char) : Option (List Char) :=
  match skipComment (skipSpace cs) with
  | [] => some []
  | cs => newline? cs

/-- The text behind blanks, comments and line ends. -/
def skipFiller (cs : List Char) : List Char :=
  let rest := skipComment (skipLines cs)
  if rest.length < cs.length then skipFiller rest else rest
termination_by cs.length

def sign? (c : Char) : List Char → Option (List Char)
  | d :: cs => if d = c then some cs else none
  | [] => none

/-! ### Keys -/

/-- The characters of a name without quotes. -/
def isBareKeyChar (c : Char) : Bool :=
  let n := c.toNat
  n < 128 && (c.isAlphanum || c == '-' || c == '_')

def name? : Reader String := fun cs =>
  match cs with
  | c :: _ =>
    if c = '"' ∨ c = '\x27' then quoted? false cs
    else
      let name := cs.takeWhile isBareKeyChar
      if name = [] then none else some (String.ofList name, cs.drop name.length)
  | [] => none

/-- A name, or several with dots between them. -/
structure Key where
  path : List String
  last : String
  deriving DecidableEq, Repr

/-- How deep brackets may be nested, and how many names a key may have. -/
def nestingLimit : Nat := 79

/-- Reads up to `names` names with dots between them, and the blanks around them. -/
def names? (names : Nat) : Reader (List String) := fun cs =>
  match names with
  | 0 => none
  | names + 1 => do
    let (name, rest) ← name? (skipSpace cs)
    match skipSpace rest with
    | '.' :: rest => (names? names rest).map fun (more, rest) => (name :: more, rest)
    | rest => some ([name], rest)

def key? : Reader Key := fun cs => do
  let (names, rest) ← names? nestingLimit cs
  let last ← names.getLast?
  return (⟨names.dropLast, last⟩, rest)

/-! ### Values -/

/-- Reads the values of an array behind its opening bracket; `fuel` bounds their number. -/
def arrayRest? (value : Reader Value) (fuel : Nat) : Reader (List Value) := fun cs =>
  match fuel, skipFiller cs with
  | fuel + 1, cs =>
    match sign? ']' cs with
    | some rest => some ([], rest)
    | none => do
      let (item, rest) ← value cs
      match skipFiller rest with
      | ',' :: rest => (arrayRest? value fuel rest).map fun (items, rest) => (item :: items, rest)
      | ']' :: rest => return ([item], rest)
      | _ => none
  | 0, _ => none

def pair? (value : Reader Value) : Reader (Key × Value) := fun cs => do
  let (key, rest) ← key? cs
  let rest ← sign? '=' rest
  let (value, rest) ← value (skipSpace rest)
  return ((key, value), rest)

/-- Reads the pairs of an inline table into `entries`; `fuel` bounds their number. -/
def inlineRest? (value : Reader Value) (fuel : Nat) (entries : Entries) : Reader Entries :=
  fun cs => do
  match fuel with
  | 0 => none
  | fuel + 1 =>
    let ((key, value'), rest) ← pair? value cs
    let entries ← assign value' key.last key.path entries
    match skipSpace rest with
    | ',' :: rest => inlineRest? value fuel entries rest
    | '\x7d' :: rest => return (entries, rest)
    | _ => none

/-- Reads an inline table behind its opening brace. -/
def inline? (value : Reader Value) : Reader Value := fun cs =>
  match sign? '\x7d' (skipSpace cs) with
  | some rest => some (.table [], rest)
  | none => (inlineRest? value (cs.length + 1) [] cs).map fun (entries, rest) =>
      (.table (valuesOf entries), rest)

/-- Reads a value, in which brackets are nested at most `depth` deep. -/
def value? (depth : Nat) : Reader Value := fun cs =>
  match depth, cs with
  | depth + 1, '[' :: cs =>
    (arrayRest? (value? depth) (cs.length + 1) cs).map fun (items, rest) => (.array items, rest)
  | depth + 1, '\x7b' :: cs => inline? (value? depth) cs
  | _, '"' :: _ => (quoted? true cs).map fun (text, rest) => (.string text, rest)
  | _, '\x27' :: _ => (quoted? true cs).map fun (text, rest) => (.string text, rest)
  | _, _ => bare? cs

/-! ### Documents -/

/-- A document that has been read in part. -/
structure Draft where
  entries : Entries := []
  /-- The names of the last header. -/
  heading : List String := []

/-- Reads the keys of a header up to its closing brackets. -/
def headerKey? (closing : List Char) : Reader Key := fun cs => do
  let (key, rest) ← key? cs
  if closing.isPrefixOf rest then return (key, ← lineEnd? (rest.drop closing.length)) else none

def line? (d : Draft) : Reader Draft := fun cs =>
  match cs with
  | '[' :: '[' :: rest => do
    let (key, rest) ← headerKey? [']', ']'] rest
    let entries ← openElement key.path key.last d.entries
    return (⟨entries, key.path ++ [key.last]⟩, rest)
  | '[' :: rest => do
    let (key, rest) ← headerKey? [']'] rest
    let entries ← openTable key.path key.last d.entries
    return (⟨entries, key.path ++ [key.last]⟩, rest)
  | _ => do
    let ((key, value), rest) ← pair? (value? nestingLimit) cs
    let rest ← lineEnd? rest
    let entries ← alterUnder d.heading (assign value key.last key.path) d.entries
    return (⟨entries, d.heading⟩, rest)

/-- Reads the lines of a document; `fuel` bounds their number. -/
def lines? (fuel : Nat) (d : Draft) (cs : List Char) : Option Entries :=
  match fuel, skipFiller cs with
  | _, [] => some d.entries
  | 0, _ => none
  | fuel + 1, cs => do
    let (d, rest) ← line? d cs
    lines? fuel d rest

/-- Reads a document.  A byte order mark may come first. -/
def read? (text : String) : Option Table :=
  let cs := text.toList
  let cs := if cs.head? == some '\uFEFF' then cs.tail else cs
  (lines? (cs.length + 1) {} cs).map valuesOf

end BuildAudit.Toml
