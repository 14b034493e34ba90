import BuildAudit.Text

/-!
# Instants

Points of time in UTC and their RFC 3339 text.  A leap second is written as second 60; as a value
it is the second before, with a billion or more nanoseconds.
-/

namespace BuildAudit

/-- Seconds since the start of 1970 and nanoseconds within the second. -/
structure Instant where
  seconds : Int
  nanos : Nat
  deriving DecidableEq, Repr, Inhabited

namespace Instant

def le (a b : Instant) : Bool :=
  a.seconds < b.seconds || (a.seconds == b.seconds && a.nanos ≤ b.nanos)

def billion : Nat := 1000000000

def daySeconds : Int := 86400

/-! ### The calendar -/

/-- The days from 1970 to a date of the Gregorian calendar.  Years are counted from March, so that
the leap day ends one. -/
def daysOf (year : Int) (month day : Nat) : Int :=
  let y := if month ≤ 2 then year - 1 else year
  let era := y.fdiv 400
  let yearOfEra := y.fmod 400
  let monthFromMarch : Int := if month ≤ 2 then month + 9 else month - 3
  let dayOfYear := (153 * monthFromMarch + 2) / 5 + day - 1
  let dayOfEra := yearOfEra * 365 + yearOfEra / 4 - yearOfEra / 100 + dayOfYear
  era * 146097 + dayOfEra - 719468

/-- The date of a day counted from 1970: year, month and day. -/
def dateOf (days : Int) : Int × Nat × Nat :=
  let z := days + 719468
  let era := z.fdiv 146097
  let dayOfEra := z.fmod 146097
  let yearOfEra := (dayOfEra - dayOfEra / 1460 + dayOfEra / 36524 - dayOfEra / 146096) / 365
  let dayOfYear := dayOfEra - (365 * yearOfEra + yearOfEra / 4 - yearOfEra / 100)
  let monthFromMarch := (5 * dayOfYear + 2) / 153
  let day := dayOfYear - (153 * monthFromMarch + 2) / 5 + 1
  let month := if monthFromMarch < 10 then monthFromMarch + 3 else monthFromMarch - 9
  let year := yearOfEra + era * 400 + (if month ≤ 2 then 1 else 0)
  (year, month.toNat, day.toNat)

def isLeapYear (year : Nat) : Bool := year % 4 == 0 && (year % 100 != 0 || year % 400 == 0)

def monthLength (year month : Nat) : Nat :=
  if month == 2 then (if isLeapYear year then 29 else 28)
  else if [4, 6, 9, 11].contains month then 30
  else 31

/-- The year of an instant. -/
def year (t : Instant) : Int := (dateOf (t.seconds.fdiv daySeconds)).1

/-! ### Writing -/

/-- A year: four digits, or a sign and at least four digits outside 0 to 9999. -/
def yearText (year : Int) : String :=
  if 0 ≤ year ∧ year ≤ 9999 then Text.zeroPadded 4 year.toNat
  else (if year < 0 then "-" else "+") ++ Text.zeroPadded 4 year.natAbs

/-- Date and time up to the second, and the nanoseconds left over. -/
def textToSecond (t : Instant) : String × Nat :=
  let (year, month, day) := dateOf (t.seconds.fdiv daySeconds)
  let ofDay := (t.seconds.fmod daySeconds).toNat
  let leap := if t.nanos ≥ billion then 1 else 0
  let two := Text.zeroPadded 2
  (yearText year ++ "-" ++ two month ++ "-" ++ two day ++ "T" ++
    two (ofDay / 3600) ++ ":" ++ two (ofDay / 60 % 60) ++ ":" ++ two (ofDay % 60 + leap),
    t.nanos - leap * billion)

/-- The stored text: nine fraction digits and `Z`. -/
def text (t : Instant) : String :=
  let (head, nanos) := t.textToSecond
  head ++ "." ++ Text.zeroPadded 9 nanos ++ "Z"

/-- The shortest of no, three, six and nine fraction digits that loses nothing. -/
def shortFraction (nanos : Nat) : String :=
  if nanos == 0 then ""
  else if nanos % 1000000 == 0 then "." ++ Text.zeroPadded 3 (nanos / 1000000)
  else if nanos % 1000 == 0 then "." ++ Text.zeroPadded 6 (nanos / 1000)
  else "." ++ Text.zeroPadded 9 nanos

/-- The printed text: a short fraction and the offset. -/
def shortText (t : Instant) : String :=
  let (head, nanos) := t.textToSecond
  head ++ shortFraction nanos ++ "+00:00"

/-! ### Reading -/

def digits? (n : Nat) (cs : List Char) : Option (Nat × List Char) :=
  if (cs.take n).length = n then (Text.natIn? 10 (cs.take n)).map (·, cs.drop n) else none

def oneOf? (allowed : List Char) : List Char → Option (List Char)
  | c :: cs => if allowed.contains c then some cs else none
  | [] => none

/-- Reads the nanoseconds of an optional fraction; missing digits are zeros, and those after the
ninth are dropped. -/
def fraction? : List Char → Option (Nat × List Char)
  | '.' :: cs =>
    let digits := cs.takeWhile (Text.isDigitIn 10)
    if digits = [] then none
    else
      let nine := (digits ++ List.replicate 9 '0').take 9
      some (Text.valueIn 10 nine, cs.dropWhile (Text.isDigitIn 10))
  | cs => some (0, cs)

/-- Reads `Z` or an offset in hours and minutes, as seconds; nothing may follow. -/
def offset? : List Char → Option Int
  | ['Z'] => some 0
  | ['z'] => some 0
  | sign :: cs => do
    let (hours, cs) ← digits? 2 cs
    let cs ← oneOf? [':'] cs
    let (minutes, cs) ← digits? 2 cs
    let seconds : Int := hours * 3600 + minutes * 60
    if cs ≠ [] ∨ hours > 23 ∨ minutes > 59 then none
    else if sign == '+' then some seconds
    else if sign == '-' || sign == '−' then some (-seconds)
    else none
  | [] => none

def ofChars? (cs : List Char) : Option Instant := do
  let (year, cs) ← digits? 4 cs
  let cs ← oneOf? ['-'] cs
  let (month, cs) ← digits? 2 cs
  let cs ← oneOf? ['-'] cs
  let (day, cs) ← digits? 2 cs
  let cs ← oneOf? ['T', 't', ' '] cs
  let (hour, cs) ← digits? 2 cs
  let cs ← oneOf? [':'] cs
  let (minute, cs) ← digits? 2 cs
  let cs ← oneOf? [':'] cs
  let (second, cs) ← digits? 2 cs
  let (nanos, cs) ← fraction? cs
  let offset ← offset? cs
  if month = 0 ∨ month > 12 ∨ day = 0 ∨ day > monthLength year month ∨
      hour > 23 ∨ minute > 59 ∨ second > 60 then none
  else
    let leap : Nat := if second = 60 then 1 else 0
    let ofDay : Int := (hour * 3600 + minute * 60 + (second - leap) : Nat)
    some ⟨daysOf year month day * daySeconds + ofDay - offset, nanos + leap * billion⟩

def ofText? (s : String) : Option Instant := ofChars? s.toList

end Instant

end BuildAudit
