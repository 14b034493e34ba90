import BuildAudit.Mangled.Grammar.Expr
import BuildAudit.Mangled.Grammar.Type

/-!
# The grammar of mangled names

What stands behind the mark of a mangled name, and the knot that ties the productions together:
`Productions.at` holds them with a number of levels below them.
-/

namespace BuildAudit.Mangled

open BuildAudit.Mangled.Parser

variable (p : Productions)

/-! ### Special names -/

/-- The distance by which a thunk moves the object, as it is printed. -/
def callOffset : Parser String := level do
  if ← given "h" then
    let n ← level (level signedNumber)
    eat "_"
    return "\x7boffset(" ++ toString n ++ ")\x7d"
  eat "v"
  let (n, v) ← level do
    let n ← level signedNumber
    eat "_"
    return (n, ← level signedNumber)
  eat "_"
  return "\x7bvirtual offset(" ++ toString n ++ ", " ++ toString v ++ ")\x7d"

def thunk (offsets : List String) : Parser Encoding := do
  return .thunk offsets (← p.encoding)

/-- A table of virtual functions in use while the bases of an object are being made. -/
def constructionTable : Parser Encoding := do
  let type ← p.type
  let _ ← number
  eat "_"
  return .constructionTable type (← p.type)

/-- An object that a reference is bound to; the first one has no number. -/
def temporary : Parser Encoding := do
  let name ← p.name
  let n ← if ← given "_" then pure 0 else do
    let n ← seqId
    eat "_"
    pure (n + 1)
  return .ofName ("reference temporary #" ++ toString n ++ " for ") name

/-- A piece of the path of a resource, where some characters are spelt out. -/
def resourcePiece : Parser String := level do
  let piece ← chars (· ≠ '$')
  if ← given "$" then
    return piece ++ (← oneOf [("S", "/"), ("_", "."), ("$", "$")])
  return piece

def resource : Parser Encoding := do
  let _ ← number
  eat "_"
  return .resource (String.join (← many resourcePiece))

/-- A function that can run in a transaction, or the one that it stands for. -/
def transactionClone : Parser Encoding := do
  let kind ← char fun _ => true
  let before := if kind = 'n' then "non-transaction clone for " else "transaction clone for "
  return .ofEncoding before (← p.encoding)

def ofType (before after : String) : Parser Encoding := do
  return .ofType before (← p.type) after

def ofName (before : String) : Parser Encoding := do return .ofName before (← p.name)

/-- How a special name goes on behind its code. -/
def specialNames : List (String × Parser Encoding) :=
  [("TV", ofType p "\x7bvtable(" ")\x7d"), ("TT", ofType p "\x7bvtt(" ")\x7d"),
    ("TI", ofType p "typeinfo for " ""), ("TS", ofType p "typeinfo name for " ""),
    ("TF", ofType p "typeinfo fn for " ""), ("TC", constructionTable p),
    ("TH", ofName p "TLS init function for "), ("TW", ofName p "TLS wrapper function for "),
    ("Tc", do
      let first ← callOffset
      thunk p [first, ← callOffset]),
    ("T", do thunk p [← callOffset]),
    ("GV", ofName p "guard variable for "), ("GR", temporary p), ("Gr", resource),
    ("GT", transactionClone p)]

/-- Something that the compiler makes for a type or a name. -/
def specialName : Parser Encoding := level do
  match lookup (specialNames p) (← get) with
  | some (parse, rest) =>
    set rest
    parse
  | none => fail

/-! ### Whole names -/

/-- A function with the types of its signature, a variable or a special name. -/
def anyEncoding : Parser Encoding := level do
  if let some name ← optional p.name then
    match ← optional (signature p) with
    | some types => return .function name types
    | none => return .data name
  specialName p

/-- A suffix that a compiler puts on a copy of a function. -/
def cloneSuffix : Parser (String × List Nat) := level do
  eat "."
  let name ← level (chars isNameChar)
  return (name, ← many (do eat "."; number))

/-- The initialization of a file, behind its mark. -/
def keyed : Parser MangledName := level do
  let _ ← char ['_', '.', '$'].contains
  let what ← oneOf [("I", "constructors"), ("D", "destructors")]
  eat "_"
  return .keyed what (← p.mangled)

/-- The code of a block, behind the mark. -/
def block : Parser MangledName := do
  let e ← p.encoding
  eat "_block_invoke"
  if ← givenAny ["_", "."] then
    let _ ← number
  return .block e

/-- A function, a variable, a block or the initialization of a file, behind its mark; without a
mark, a type. -/
def anyMangled : Parser MangledName := level do
  if ← givenAny ["_Z", "__Z"] then
    let e ← p.encoding
    return .encoding e (← many cloneSuffix)
  if ← givenAny ["___Z", "____Z"] then return ← block p
  if ← given "_GLOBAL_" then return ← keyed p
  return .type (← p.type)

/-! ### Tying the knot -/

def Productions.next (p : Productions) : Productions where
  type := anyType p
  name := anyName p
  templateArg := anyTemplateArg p
  expr := anyExpr p
  encoding := anyEncoding p
  mangled := anyMangled p

/-- The productions with a number of levels below them. -/
def Productions.at : Nat → Productions
  | 0 => .bottom
  | n + 1 => (Productions.at n).next

/-- The number of levels that a name may have. -/
def maxLevels : Nat := 95

/-- Reads a whole mangled name.  Each production takes a level, so there are never more productions
in each other than levels. -/
def MangledName.ofChars? (cs : List Char) : Option MangledName :=
  match (attempt (Productions.at maxLevels).mangled maxLevels cs {}).1 with
  | .ok (m, []) => some m
  | _ => none

end BuildAudit.Mangled
