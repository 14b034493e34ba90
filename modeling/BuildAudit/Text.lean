/-!
# Text

Characters, lines and columns, over lists of characters: the blanks of Unicode, trimming, the
blank-separated fields of a line, the lines of a text, and padding to a column.  The string
versions are named in `BuildAudit.Text`; the list versions do the work.
-/

namespace BuildAudit.Text

/-! ### Blanks -/

/-- The characters with the Unicode property `White_Space`. -/
def isBlank (c : Char) : Bool :=
  let n := c.toNat
  (9 ≤ n && n ≤ 13) || n == 0x20 || n == 0x85 || n == 0xA0 || n == 0x1680 ||
    (0x2000 ≤ n && n ≤ 0x200A) || n == 0x2028 || n == 0x2029 || n == 0x202F || n == 0x205F ||
    n == 0x3000

/-- `cs` without the blanks at its front. -/
def trimLeft (cs : List Char) : List Char := cs.dropWhile isBlank

def trimRight (cs : List Char) : List Char := (trimLeft cs.reverse).reverse

/-- `cs` without the blanks at either end. -/
def trimChars (cs : List Char) : List Char := trimRight (trimLeft cs)

/-- `s` without the blanks at either end. -/
def trim (s : String) : String := String.ofList (trimChars s.toList)

/-- The maximal runs of non-blank characters. -/
def fieldsOf (cs : List Char) : List (List Char) :=
  (cs.splitOnP isBlank).filter (· ≠ [])

/-! ### Lines -/

/-- Drops one carriage return at the end. -/
def dropReturn (cs : List Char) : List Char :=
  match cs.reverse with
  | '\r' :: r => r.reverse
  | _ => cs

/-- The lines of a text.  A line feed ends a line and takes one carriage return before it along;
an unfinished last line counts when it holds anything. -/
def linesOf (cs : List Char) : List (List Char) :=
  let pieces := cs.splitOn '\n'
  pieces.dropLast.map dropReturn ++ (pieces.getLast?.toList.filter (· ≠ []))

def lines (s : String) : List String := (linesOf s.toList).map String.ofList

/-! ### Beginnings and ends -/

/-- What follows `lead` in `s`, if `s` begins with it. -/
def after? (lead s : String) : Option String :=
  (lead.toList.isPrefixOf? s.toList).map String.ofList

def beginsWith (lead s : String) : Bool := lead.toList.isPrefixOf s.toList

def endsIn (tail s : String) : Bool := tail.toList.isSuffixOf s.toList

/-- Whether `part` occurs somewhere in `cs`. -/
def occursIn (part : List Char) : List Char → Bool
  | [] => part.isPrefixOf []
  | c :: cs => part.isPrefixOf (c :: cs) || occursIn part cs

/-! ### Columns -/

def blanks (n : Nat) : String := String.ofList (List.replicate n ' ')

/-- `s` at the left of a column of `width` characters. -/
def padRight (width : Nat) (s : String) : String := s ++ blanks (width - s.length)

/-- `s` at the right of a column of `width` characters. -/
def padLeft (width : Nat) (s : String) : String := blanks (width - s.length) ++ s

/-- `s` in the middle of a column of `width` characters; an odd blank goes to the right. -/
def padMiddle (width : Nat) (s : String) : String :=
  let free := width - s.length
  blanks (free / 2) ++ s ++ blanks (free - free / 2)

/-! ### Digits -/

/-- The value of an ASCII digit or letter as a digit, letters counting on from ten. -/
def digitValue (c : Char) : Option Nat :=
  if '0' ≤ c ∧ c ≤ '9' then some (c.toNat - '0'.toNat)
  else if 'a' ≤ c ∧ c ≤ 'z' then some (c.toNat - 'a'.toNat + 10)
  else if 'A' ≤ c ∧ c ≤ 'Z' then some (c.toNat - 'A'.toNat + 10)
  else none

/-- Whether `c` is a digit in base `base`. -/
def isDigitIn (base : Nat) (c : Char) : Bool :=
  match digitValue c with
  | some d => d < base
  | none => false

/-- The number that the digits `cs` write in base `base`; characters that are no digits count as
zero, so callers check them first. -/
def valueIn (base : Nat) (cs : List Char) : Nat :=
  cs.foldl (fun n c => n * base + (digitValue c).getD 0) 0

/-- The number that a non-empty run of ASCII digits in base `base` writes. -/
def natIn? (base : Nat) (cs : List Char) : Option Nat :=
  if cs ≠ [] ∧ cs.all (isDigitIn base) then some (valueIn base cs) else none

/-- `n` in decimal, filled with zeros at the left up to `width` digits. -/
def zeroPadded (width n : Nat) : String :=
  let digits := toString n
  String.ofList (List.replicate (width - digits.length) '0') ++ digits

end BuildAudit.Text
