import BuildAudit.Mangled.Tree
import BuildAudit.Number
import BuildAudit.Text

/-!
# Reading mangled names

Parsers that may fail and be tried in another way at the same place.  The parts that can be referred
back to are remembered in the order in which they are read; what a failed attempt has remembered
stays.  Every production takes a level while it is being read, and a name that needs too many levels
fails for good.
-/

namespace BuildAudit.Mangled

/-- Why a reading failed. -/
inductive Failure where
  /-- Another way may be tried. -/
  | mismatch
  | tooDeep
  deriving DecidableEq, Repr

/-- What is remembered while reading. -/
structure Memory where
  components : Array Component := #[]
  /-- Whether the type of a conversion operator is being read. -/
  inConversion : Bool := false

/-- Parsers know how many levels are left. -/
abbrev Parser := ReaderT Nat (StateT (List Char) (ExceptT Failure (StateM Memory)))

namespace Parser

variable {α : Type}

def fail : Parser α := throw .mismatch

/-- Runs a parser on an input with some levels left. -/
def attempt (p : Parser α) (levels : Nat) (input : List Char) (m : Memory) :
    Except Failure (α × List Char) × Memory :=
  p levels input m

/-- Reads one level further down. -/
def level (p : Parser α) : Parser α := fun levels input m =>
  match levels with
  | 0 => (.error .tooDeep, m)
  | levels + 1 => attempt p levels input m

/-- Tries the second parser where the first one does not match. -/
def or (p q : Parser α) : Parser α := fun levels input m =>
  match attempt p levels input m with
  | (.error .mismatch, m) => attempt q levels input m
  | result => result

def firstOf : List (Parser α) → Parser α
  | [] => fail
  | p :: ps => or p (firstOf ps)

/-- What a parser reads, or nothing where it does not match. -/
def optional (p : Parser α) : Parser (Option α) := or (some <$> p) (pure none)

/-- Reads as many as there are, at most `fuel`. -/
def manyWithin (p : Parser α) : Nat → Parser (List α)
  | 0 => pure []
  | fuel + 1 => do
    match ← optional p with
    | none => return []
    | some a => return a :: (← manyWithin p fuel)

def many (p : Parser α) : Parser (List α) := do manyWithin p ((← get).length + 1)

def many1 (p : Parser α) : Parser (List α) := do
  let a ← p
  return a :: (← many p)

/-- The rest of the input after `p`, which leaves no trace. -/
def restAfter (p : Parser α) : Parser (Option (List Char)) := fun levels input m =>
  match (attempt p levels input m).1 with
  | .ok (_, rest) => (.ok (some rest, input), m)
  | .error .mismatch => (.ok (none, input), m)
  | .error .tooDeep => (.error .tooDeep, m)

/-- Runs a parser as the reading of the type of a conversion, or as anything else. -/
def converting (b : Bool) (p : Parser α) : Parser α := fun levels input m =>
  let (result, m') := attempt p levels input { m with inConversion := b }
  (result, { m' with inConversion := m.inConversion })

/-! ### Characters -/

def peek : Parser (Option Char) := do return (← get).head?

def char (accepted : Char → Bool) : Parser Char := do
  match ← get with
  | c :: rest =>
    if accepted c then
      set rest
      return c
    else fail
  | [] => fail

/-- Reads characters of some kind, one at least. -/
def chars (accepted : Char → Bool) : Parser String := do
  let input ← get
  let found := input.takeWhile accepted
  if found.isEmpty then fail
  set (input.dropWhile accepted)
  return String.ofList found

/-- What a table says of the first of its codes that is there, and the input behind it. -/
def lookup (table : List (String × α)) (input : List Char) : Option (α × List Char) :=
  table.findSome? fun (code, a) => (code.toList.isPrefixOf? input).map (a, ·)

/-- Reads the first code of a table that is there. -/
def oneOf (table : List (String × α)) : Parser α := do
  match lookup table (← get) with
  | some (a, rest) =>
    set rest
    return a
  | none => fail

def eat (s : String) : Parser Unit := oneOf [(s, ())]

/-- Whether one of some texts is there; it is read. -/
def givenAny (texts : List String) : Parser Bool :=
  or (oneOf (texts.map (·, true))) (pure false)

/-- Whether a text is there; it is read. -/
def given (s : String) : Parser Bool := givenAny [s]

def isDigit (c : Char) : Bool := Text.isDigitIn 10 c

/-- A digit of a number in base 36: letters are upper case. -/
def isSeqDigit (c : Char) : Bool := isDigit c || ('A' ≤ c && c ≤ 'Z')

/-- Reads a number without superfluous zeros. -/
def numberIn (base : Nat) (accepted : Char → Bool) : Parser Nat := do
  let input ← get
  let digits := input.takeWhile accepted
  if digits.isEmpty || (digits.length > 1 && digits.head? == some '0') then fail
  if Text.valueIn base digits > Number.maxInt64 then fail
  set (input.dropWhile accepted)
  return Text.valueIn base digits

def number : Parser Nat := numberIn 10 isDigit

/-- Reads a number with an `n` as its sign. -/
def signedNumber : Parser Int := do
  let negative ← given "n"
  let n ← number
  return if negative then -n else n

/-! ### Names -/

def isNameChar (c : Char) : Bool := c.isAlphanum || c == '$' || c == '_'

def identifier (length : Nat) : Parser String := level do
  let input ← get
  let name := input.take length
  if !name.all (fun c => isNameChar c || c == '.') then fail
  set (input.drop length)
  return String.ofList name

/-- Reads an identifier behind its length. -/
def sourceName : Parser String := level do
  let n ← number
  if n = 0 || ((← get).take n).length < n then fail
  identifier n

def tags : Parser (List String) := level do
  many (level do eat "B"; sourceName)

/-- Reads the number of one of several names in a function. -/
def discriminator : Parser Unit := level do
  eat "_"
  if ← given "_" then
    if (← number) < 10 then fail
    eat "_"
  else
    let _ ← char isDigit

/-! ### Back references -/

def remember (c : Component) : Parser Referent := do
  modifyThe Memory fun m => { m with components := m.components.push c }
  return .component c

def seqId : Parser Nat := level (numberIn 36 isSeqDigit)

/-- Reads an abbreviation of a part of the standard library. -/
def wellKnown : Parser WellKnown := level <|
  oneOf [("St", .std), ("Sa", .allocator), ("Sb", .basicString), ("Ss", .string), ("Si", .istream),
    ("So", .ostream), ("Sd", .iostream)]

/-- Reads an abbreviation or a back reference; the first part has no number. -/
def substitution : Parser Referent := level do
  match ← optional wellKnown with
  | some w => return .wellKnown w
  | none =>
    eat "S"
    let i := (← optional seqId).elim 0 (· + 1)
    match (← getThe Memory).components[i]? with
    | some c =>
      eat "_"
      return .component c
    | none => fail

/-- Reads a number that is left out for the first of several things. -/
def ordinal : Parser Nat := do
  let n ← optional number
  eat "_"
  return n.elim 0 (· + 1)

/-- Reads the number of a template parameter. -/
def templateParam : Parser Nat := level do
  eat "T"
  ordinal

def cvQualifiers : Parser CvQualifiers := level do
  let restrict ← given "r"
  let volatile ← given "V"
  let const ← given "K"
  return { restrict, volatile, const }

def refQualifier : Parser RefQualifier := level (oneOf [("R", .lvalue), ("O", .rvalue)])

/-! ### Built-in types and operators -/

/-- The fixed-point types by their codes. -/
def fixedPointTypes : List (String × String) :=
  [("", ""), ("DS", "_Sat ")].flatMap fun (saturated, adjective) =>
    [("DA", "_Accum"), ("DR", "_Fract")].flatMap fun (kind, noun) =>
      [("s", "short "), ("t", "unsigned short "), ("i", ""), ("j", "unsigned "), ("l", "long "),
        ("m", "unsigned long ")].map fun (size, word) =>
          (saturated ++ kind ++ size, adjective ++ word ++ noun)

def builtinTypes : List (String × String) :=
  [("v", "void"), ("w", "wchar_t"), ("b", "bool"), ("c", "char"), ("a", "signed char"),
    ("h", "unsigned char"), ("s", "short"), ("t", "unsigned short"), ("i", "int"),
    ("j", "unsigned int"), ("l", "long"), ("m", "unsigned long"), ("x", "long long"),
    ("y", "unsigned long long"), ("n", "__int128"), ("o", "unsigned __int128"), ("f", "float"),
    ("d", "double"), ("e", "long double"), ("g", "__float128"), ("z", "..."),
    ("Dd", "decimal64"), ("De", "decimal128"), ("Df", "decimal32"), ("Dh", "half"),
    ("DF16b", "std::bfloat16_t"), ("Di", "char32_t"), ("Ds", "char16_t"), ("Du", "char8_t"),
    ("Da", "auto"), ("Dc", "decltype(auto)"), ("Dn", "std::nullptr_t")] ++ fixedPointTypes

/-- The operators by their codes, with their texts and the numbers of their operands. -/
def operators : List (String × String × Nat) :=
  [("nw", "new", 3), ("na", "new[]", 3), ("dl", "delete", 1), ("da", "delete[]", 1),
    ("aw", "co_await", 1), ("ps", "+", 1), ("ng", "-", 1), ("ad", "&", 1), ("de", "*", 1),
    ("co", "~", 1), ("pl", "+", 2), ("mi", "-", 2), ("ml", "*", 2), ("dv", "/", 2), ("rm", "%", 2),
    ("an", "&", 2), ("or", "|", 2), ("eo", "^", 2), ("aS", "=", 2), ("pL", "+=", 2),
    ("mI", "-=", 2), ("mL", "*=", 2), ("dV", "/=", 2), ("rM", "%=", 2), ("aN", "&=", 2),
    ("oR", "|=", 2), ("eO", "^=", 2), ("ls", "<<", 2), ("rs", ">>", 2), ("lS", "<<=", 2),
    ("rS", ">>=", 2), ("eq", "==", 2), ("ne", "!=", 2), ("lt", "<", 2), ("gt", ">", 2),
    ("le", "<=", 2), ("ge", ">=", 2), ("ss", "<=>", 2), ("nt", "!", 1), ("aa", "&&", 2),
    ("oo", "||", 2), ("pp", "++", 1), ("mm", "--", 1), ("cm", ",", 2), ("pm", "->*", 2),
    ("pt", "->", 2), ("cl", "()", 2), ("ix", "[]", 2), ("qu", "?:", 3)]

/-- Reads an operator that has a code of its own. -/
def simpleOperator : Parser Operator := level <|
  oneOf (operators.map fun (code, text, arity) => (code, .simple code text arity))

end Parser

end BuildAudit.Mangled
