import BuildAudit.Number
import BuildAudit.Text

/-!
# Reading JSON

Reads JSON from left to right, byte by byte, and stops at the first problem.  A reader takes the
remaining bytes and gives a value with the bytes behind it.  Values that are asked for are read in
full; values that nobody asks for are skipped by a laxer reader, which does not look at the range of
numbers nor at what escapes mean.
-/

namespace BuildAudit.Json

/-- Why a text cannot be read. -/
inductive ReadError where
  /-- It is not JSON. -/
  | malformed
  /-- It ends too early. -/
  | truncated
  /-- It is JSON of another shape. -/
  | misshapen
  deriving DecidableEq, Repr

def ReadError.message : ReadError → String
  | malformed => "this is not JSON"
  | truncated => "the text ends too early"
  | misshapen => "a value has an unexpected shape"

/-- Bytes still to be read. -/
abbrev Input := List UInt8

/-- Reads a value at the front of the input. -/
abbrev Reader (α : Type) := Input → Except ReadError (α × Input)

/-! ### Bytes -/

def byte (c : Char) : UInt8 := c.toNat.toUInt8

def isSpace (b : UInt8) : Bool :=
  b == byte ' ' || b == byte '\t' || b == byte '\n' || b == byte '\r'

/-- The input without the blanks at its front. -/
def skipSpace (input : Input) : Input := input.dropWhile isSpace

def isDigit (b : UInt8) : Bool := byte '0' ≤ b && b ≤ byte '9'

def hexValue? (b : UInt8) : Option Nat :=
  match Text.digitValue (Char.ofNat b.toNat) with
  | some d => if d < 16 && b < 128 then some d else none
  | none => none

def name (rest : List Char) : Input → Except ReadError Input := fun input =>
  match rest, input with
  | [], input => .ok input
  | _ :: _, [] => .error .truncated
  | c :: cs, b :: input => if b == byte c then name cs input else .error .malformed

/-! ### Strings -/

/-- Where a reader stands inside a string. -/
inductive StringPosition where
  | plain
  | escaped
  /-- Inside the digits of an escape, behind `count` of them; `high` is the first half of a pair. -/
  | digits (count value : Nat) (high : Option Nat)
  /-- Behind the first half of a pair. -/
  | paired (high : Nat)
  /-- Behind the backslash of the second half. -/
  | pairedEscape (high : Nat)

def utf8 (n : Nat) : List UInt8 := (Char.ofNat n).toString.toUTF8.toList

/-- The character that a one-letter escape stands for. -/
def simpleEscape? (b : UInt8) : Option UInt8 :=
  if b == byte '"' || b == byte '\\' || b == byte '/' then some b
  else if b == byte 'b' then some 8
  else if b == byte 'f' then some 12
  else if b == byte 'n' then some 10
  else if b == byte 'r' then some 13
  else if b == byte 't' then some 9
  else none

/-- What the four digits of an escape give.  With `strict`, halves of pairs must be paired. -/
def afterDigits (strict : Bool) (n : Nat) :
    Option Nat → Except ReadError (StringPosition × List UInt8)
  | none =>
    if !strict then .ok (.plain, [])
    else if 0xDC00 ≤ n && n ≤ 0xDFFF then .error .malformed
    else if 0xD800 ≤ n && n ≤ 0xDBFF then .ok (.paired n, [])
    else .ok (.plain, utf8 n)
  | some high =>
    if 0xDC00 ≤ n && n ≤ 0xDFFF then
      .ok (.plain, utf8 (0x10000 + (high - 0xD800) * 0x400 + (n - 0xDC00)))
    else .error .malformed

/-- One byte of a string: the position behind it and the bytes that it adds.  The closing quote is
not a step. -/
def stringStep (strict : Bool) (p : StringPosition) (b : UInt8) :
    Except ReadError (StringPosition × List UInt8) :=
  match p with
  | .plain =>
    if b == byte '\\' then .ok (.escaped, [])
    else if b < 32 then .error .malformed
    else .ok (.plain, [b])
  | .escaped =>
    if b == byte 'u' then .ok (.digits 0 0 none, [])
    else
      match simpleEscape? b with
      | some c => .ok (.plain, [c])
      | none => .error .malformed
  | .digits count value high =>
    match hexValue? b with
    | none => .error .malformed
    | some d =>
      if count < 3 then .ok (.digits (count + 1) (value * 16 + d) high, [])
      else afterDigits strict (value * 16 + d) high
  | .paired high => if b == byte '\\' then .ok (.pairedEscape high, []) else .error .malformed
  | .pairedEscape high =>
    if b == byte 'u' then .ok (.digits 0 0 (some high), []) else .error .malformed

/-- Whether a quote at this position closes the string. -/
def StringPosition.isPlain : StringPosition → Bool
  | plain => true
  | _ => false

/-- The contents of a string from a position on; `read` holds what has been read, backwards. -/
def stringFrom (strict : Bool) (p : StringPosition) (read : List UInt8) :
    Reader (List UInt8)
  | [] => .error .truncated
  | b :: input =>
    if b == byte '"' && p.isPlain then .ok (read.reverse, input)
    else
      match stringStep strict p b with
      | .error e => .error e
      | .ok (p, added) => stringFrom strict p (added.reverse ++ read) input

/-- A string behind its opening quote. -/
def string : Reader String := fun input =>
  match stringFrom true .plain [] input with
  | .error e => .error e
  | .ok (bytes, input) =>
    match String.fromUTF8? ⟨bytes.toArray⟩ with
    | some s => .ok (s, input)
    | none => .error .malformed

/-- Skips a string behind its opening quote. -/
def skipString (input : Input) : Except ReadError Input :=
  (stringFrom false .plain [] input).map (·.2)

/-! ### Numbers -/

/-- The error where a digit is missing: a number that is only skipped cannot be truncated. -/
def missingDigit (strict : Bool) (input : Input) : ReadError :=
  if strict && input.isEmpty then .truncated else .malformed

def someDigits (strict : Bool) : Reader (List UInt8) := fun input =>
  match input.takeWhile isDigit with
  | [] => .error (missingDigit strict input)
  | digits => .ok (digits, input.dropWhile isDigit)

/-- Reads the digits before the point: no zero stands before another digit. -/
def integerDigits (strict : Bool) : Reader (List UInt8) := fun input =>
  match someDigits strict input with
  | .ok (digits, input) =>
    if digits.length > 1 && digits.head? == some (byte '0') then .error .malformed
    else .ok (digits, input)
  | .error e => .error e

/-- Reads the digits behind the point, if there is one. -/
def fractionDigits (strict : Bool) : Reader (List UInt8)
  | [] => .ok ([], [])
  | b :: input => if b == byte '.' then someDigits strict input else .ok ([], b :: input)

def digitsValue (digits : List UInt8) : Nat :=
  digits.foldl (fun n b => n * 10 + (b - byte '0').toNat) 0

def exponent (strict : Bool) : Reader Int
  | [] => .ok (0, [])
  | b :: input =>
    if b == byte 'e' || b == byte 'E' then
      let negative := input.head? == some (byte '-')
      let input := if negative || input.head? == some (byte '+') then input.drop 1 else input
      match someDigits strict input with
      | .error e => .error e
      | .ok (digits, input) =>
        .ok (if negative then -(digitsValue digits : Int) else digitsValue digits, input)
    else .ok (0, b :: input)

/-- A number in the form in which it is computed: a whole number of 64 bits, scaled by a power of
ten. -/
structure Scaled where
  significand : Nat := 0
  exponent : Int := 0
  /-- Whether a digit has been found not to fit. -/
  isFull : Bool := false

namespace Scaled

/-- Takes a digit into the significand.  From the first one that does not fit, digits only move the
exponent, by `dropped`; one that fits moves it by `taken`. -/
def digit (dropped taken : Int) (n : Scaled) (b : UInt8) : Scaled :=
  let next := n.significand * 10 + (b - byte '0').toNat
  if n.isFull || next > Number.maxWord64 then
    { n with exponent := n.exponent + dropped, isFull := true }
  else { n with significand := next, exponent := n.exponent + taken }

/-- The digits before and behind the point and the exponent. -/
def ofParts (whole part : List UInt8) (e : Int) : Scaled :=
  let n := whole.foldl (digit 1 0) {}
  let n := part.foldl (digit 0 (-1)) { n with isFull := false }
  { n with exponent := n.exponent + e }

/-- Whether the number is infinite when it is computed in doubles. -/
def isInfinite (n : Scaled) : Bool :=
  n.significand != 0 && 0 ≤ n.exponent &&
    (308 < n.exponent ||
      Number.productExceedsDouble n.significand (Nat.pow 10 n.exponent.toNat))

end Scaled

def number (strict : Bool) (input : Input) : Except ReadError Input := do
  let (whole, input) ← integerDigits strict input
  let (part, input) ← fractionDigits strict input
  let (e, input) ← exponent strict input
  if strict && (Scaled.ofParts whole part e).isInfinite then .error .malformed
  else .ok input

/-! ### Skipping values -/

/-- The kind of an open bracket. -/
inductive Bracket where
  | list
  | object
  deriving DecidableEq

def Bracket.closing : Bracket → UInt8
  | list => byte ']'
  | object => byte '\x7d'

def skipKey (input : Input) : Except ReadError Input :=
  match skipSpace input with
  | [] => .error .truncated
  | b :: input =>
    if b != byte '"' then .error .malformed
    else
      match skipString input with
      | .error e => .error e
      | .ok input =>
        match skipSpace input with
        | [] => .error .truncated
        | b :: input => if b == byte ':' then .ok input else .error .malformed

/-- What is expected next while a value is skipped. -/
inductive Expected where
  | value
  /-- The first element of the innermost open bracket, or its end. -/
  | first
  /-- A comma or the end of the innermost open bracket. -/
  | more

/-- Skips to the end of a value.  `opened` holds the open brackets, the innermost first; `fuel`
bounds the number of steps, of which every byte takes two at most. -/
def skipFrom (fuel : Nat) (expected : Expected) (opened : List Bracket) (input : Input) :
    Except ReadError Input :=
  match fuel with
  | 0 => .error .truncated
  | fuel + 1 =>
    match expected, opened with
    | .value, _ =>
      match skipSpace input with
      | [] => .error .truncated
      | b :: input =>
        if b == byte '[' then skipFrom fuel .first (.list :: opened) input
        else if b == byte '\x7b' then skipFrom fuel .first (.object :: opened) input
        else
          let after :=
            if b == byte 'n' then name ['u', 'l', 'l'] input
            else if b == byte 't' then name ['r', 'u', 'e'] input
            else if b == byte 'f' then name ['a', 'l', 's', 'e'] input
            else if b == byte '"' then skipString input
            else if b == byte '-' then number false input
            else if isDigit b then number false (b :: input)
            else .error .malformed
          match after with
          | .error e => .error e
          | .ok input => skipFrom fuel .more opened input
    | .first, bracket :: outer =>
      match skipSpace input with
      | [] => .error .truncated
      | b :: rest =>
        if b == bracket.closing then skipFrom fuel .more outer rest
        else if bracket == .list then skipFrom fuel .value opened (b :: rest)
        else
          match skipKey (b :: rest) with
          | .error e => .error e
          | .ok input => skipFrom fuel .value opened input
    | .more, bracket :: outer =>
      match skipSpace input with
      | [] => .error .truncated
      | b :: rest =>
        if b == bracket.closing then skipFrom fuel .more outer rest
        else if b != byte ',' then .error .malformed
        else if bracket == .list then skipFrom fuel .value opened rest
        else
          match skipKey rest with
          | .error e => .error e
          | .ok input => skipFrom fuel .value opened input
    | _, [] => .ok input

def skipValue (input : Input) : Except ReadError Input :=
  skipFrom (2 * input.length + 2) .value [] input

/-! ### Values of a shape -/

/-- The error for a value of a wrong shape that begins with `b`: a scalar is read in full first. -/
def misfit (b : UInt8) (input : Input) : ReadError :=
  let scalar :=
    if b == byte 'n' then name ['u', 'l', 'l'] input
    else if b == byte 't' then name ['r', 'u', 'e'] input
    else if b == byte 'f' then name ['a', 'l', 's', 'e'] input
    else if b == byte '"' then (string input).map (·.2)
    else if b == byte '-' then number true input
    else if isDigit b then number true (b :: input)
    else if b == byte '[' || b == byte '\x7b' then .ok input
    else .error .malformed
  match scalar with
  | .ok _ => .misshapen
  | .error e => e

def text : Reader String := fun input =>
  match skipSpace input with
  | [] => .error .truncated
  | b :: input => if b == byte '"' then string input else .error (misfit b input)

def nullable {α : Type} (value : Reader α) : Reader (Option α) := fun input =>
  match skipSpace input with
  | [] => .error .truncated
  | b :: rest =>
    if b == byte 'n' then (name ['u', 'l', 'l'] rest).map (none, ·)
    else (value (b :: rest)).map fun (a, input) => (some a, input)

/-- Reads up to the next element of a list: whether there is one. -/
def nextElement (first : Bool) : Reader Bool := fun input =>
  match skipSpace input with
  | [] => .error .truncated
  | b :: rest =>
    if b == byte ']' then .ok (false, b :: rest)
    else if first then .ok (true, b :: rest)
    else if b != byte ',' then .error .malformed
    else
      match skipSpace rest with
      | [] => .error .truncated
      | b :: rest => if b == byte ']' then .error .malformed else .ok (true, b :: rest)

/-- Reads the end of a list or an object. -/
def close (bracket : Bracket) (input : Input) : Except ReadError Input :=
  match skipSpace input with
  | [] => .error .truncated
  | b :: rest => if b == bracket.closing then .ok rest else .error .malformed

/-- Reads the elements of a list up to its end; `fuel` bounds their number. -/
def elements {α : Type} (element : Reader α) (fuel : Nat) (first : Bool) : Reader (List α) :=
  fun input =>
  match fuel with
  | 0 => .error .truncated
  | fuel + 1 => do
    let (found, input) ← nextElement first input
    if found then
      let (a, input) ← element input
      let (as, input) ← elements element fuel false input
      .ok (a :: as, input)
    else .ok ([], ← close .list input)

def list {α : Type} (element : Reader α) : Reader (List α) := fun input =>
  match skipSpace input with
  | [] => .error .truncated
  | b :: rest =>
    if b == byte '[' then elements element (rest.length + 1) true rest
    else .error (misfit b rest)

/-- Reads up to the next name of an object: the name, if there is one. -/
def nextKey (first : Bool) : Reader (Option String) := fun input =>
  let key : Reader (Option String) := fun input =>
    match input with
    | [] => .error .truncated
    | b :: rest =>
      if b == byte '"' then (string rest).map fun (k, input) => (some k, input)
      else .error .malformed
  match skipSpace input with
  | [] => .error .truncated
  | b :: rest =>
    if b == byte '\x7d' then .ok (none, b :: rest)
    else if first then key (b :: rest)
    else if b == byte ',' then key (skipSpace rest)
    else .error .malformed

def colon (input : Input) : Except ReadError Input :=
  match skipSpace input with
  | [] => .error .truncated
  | b :: rest => if b == byte ':' then .ok rest else .error .malformed

def document {α : Type} (value : Reader α) (input : Input) : Except ReadError α := do
  let (a, input) ← value input
  if (skipSpace input).isEmpty then .ok a else .error .malformed

end BuildAudit.Json
