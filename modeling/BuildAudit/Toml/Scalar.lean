import BuildAudit.Instant
import BuildAudit.Number
import BuildAudit.Toml.Value

/-!
# Bare values

The values of TOML that are written without quotes or brackets: truth values, numbers, dates and
times.  Each is one word, except that a blank may stand between a date and a time.
-/

namespace BuildAudit.Toml

/-- A word without its sign, and whether the sign is a minus. -/
def splitSign : List Char → Bool × List Char
  | '+' :: cs => (false, cs)
  | '-' :: cs => (true, cs)
  | cs => (false, cs)

/-- The digits of a number in base `base`; single underscores may stand between them. -/
def digitsOf? (base : Nat) (cs : List Char) : Option (List Char) :=
  let groups := cs.splitOn '_'
  if groups.all fun group => group ≠ [] ∧ group.all (Text.isDigitIn base) then some groups.flatten
  else none

/-- The digits of a number in decimal.  No zero stands before another digit. -/
def decimal? (cs : List Char) : Option (List Char) :=
  match digitsOf? 10 cs with
  | some ('0' :: _ :: _) => none
  | digits? => digits?

/-! ### Integers -/

/-- Reads an integer.  One in another base than ten has no sign. -/
def integer? (word : List Char) : Option Int :=
  let number : Option Int :=
    match word with
    | '0' :: 'x' :: cs => (digitsOf? 16 cs).map fun digits => Text.valueIn 16 digits
    | '0' :: 'o' :: cs => (digitsOf? 8 cs).map fun digits => Text.valueIn 8 digits
    | '0' :: 'b' :: cs => (digitsOf? 2 cs).map fun digits => Text.valueIn 2 digits
    | _ =>
      let (negative, cs) := splitSign word
      (decimal? cs).map fun digits =>
        let n : Int := Text.valueIn 10 digits
        if negative then -n else n
  number.filter Number.fitsInt64

/-! ### Numbers with a fraction or an exponent -/

/-- Reads the exponent of a number; an empty text is none. -/
def exponent? : List Char → Option Int
  | [] => some 0
  | e :: cs =>
    if e = 'e' ∨ e = 'E' then
      let (negative, cs) := splitSign cs
      (digitsOf? 10 cs).map fun digits =>
        let n : Int := Text.valueIn 10 digits
        if negative then -n else n
    else none

/-- Whether a word is a number with a fraction or an exponent that is not too large, infinity or no
number. -/
def isFloat (word : List Char) : Bool :=
  let (negative, cs) := splitSign word
  let isExponent := fun (c : Char) => c == 'e' || c == 'E'
  if cs = ['i', 'n', 'f'] ∨ cs = ['n', 'a', 'n'] then true
  else if !cs.any fun c => c == '.' || isExponent c then false
  else
    let whole := cs.takeWhile fun c => c != '.' && !isExponent c
    let (part?, exponent) :=
      match cs.drop whole.length with
      | '.' :: cs => (digitsOf? 10 (cs.takeWhile (!isExponent ·)), cs.dropWhile (!isExponent ·))
      | cs => (some [], cs)
    match decimal? whole, part?, exponent? exponent with
    | some whole, some part, some e =>
      negative || !Number.exceedsDouble (Text.valueIn 10 (whole ++ part)) (e - part.length)
    | _, _, _ => false

/-! ### Dates and times -/

def date? (cs : List Char) : Option (List Char) := do
  let (year, cs) ← Instant.digits? 4 cs
  let cs ← Instant.oneOf? ['-'] cs
  let (month, cs) ← Instant.digits? 2 cs
  let cs ← Instant.oneOf? ['-'] cs
  let (day, cs) ← Instant.digits? 2 cs
  if month = 0 ∨ month > 12 ∨ day = 0 ∨ day > Instant.monthLength year month then none
  else some cs

def timeOfDay? (cs : List Char) : Option (List Char) := do
  let (hour, cs) ← Instant.digits? 2 cs
  let cs ← Instant.oneOf? [':'] cs
  let (minute, cs) ← Instant.digits? 2 cs
  let cs ← Instant.oneOf? [':'] cs
  let (second, cs) ← Instant.digits? 2 cs
  let (_, cs) ← Instant.fraction? cs
  if hour > 23 ∨ minute > 59 ∨ second > 60 then none else some cs

/-- Whether a word is a time of day behind a date: it may have an offset. -/
def isTimeWithOffset (word : List Char) : Bool :=
  match timeOfDay? word with
  | none => false
  | some [] => true
  | some (c :: offset) =>
    if c = 'Z' ∨ c = 'z' then offset.isEmpty
    else (c = '+' ∨ c = '-') && (Instant.offset? (c :: offset)).isSome

def isDate (word : List Char) : Bool := date? word == some []

/-- Whether a word is a date, a time of day, or both. -/
def isTime (word : List Char) : Bool :=
  timeOfDay? word == some [] ||
    match date? word with
    | some [] => true
    | some (c :: time) => (c = 'T' ∨ c = 't') && isTimeWithOffset time
    | none => false

/-! ### Words -/

def endsWord (c : Char) : Bool :=
  [' ', '\t', '\n', '\r', '#', ',', ']', '\x7d'].contains c

def ofWord? (word : List Char) : Option Value :=
  if word = ['t', 'r', 'u', 'e'] then some (.boolean true)
  else if word = ['f', 'a', 'l', 's', 'e'] then some (.boolean false)
  else if isTime word then some .time
  else
    match integer? word with
    | some n => some (.integer n)
    | none => if isFloat word then some .float else none

/-- Reads a value without quotes or brackets. -/
def bare? (cs : List Char) : Option (Value × List Char) :=
  let word := cs.takeWhile (!endsWord ·)
  let rest := cs.drop word.length
  let second := (rest.drop 1).takeWhile (!endsWord ·)
  if isDate word && rest.head? == some ' ' && isTimeWithOffset second then
    some (.time, rest.drop (1 + second.length))
  else (ofWord? word).map (·, rest)

end BuildAudit.Toml
