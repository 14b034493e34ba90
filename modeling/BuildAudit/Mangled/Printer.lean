import BuildAudit.Mangled.Grammar
import BuildAudit.Mangled.Printer.Expr
import BuildAudit.Mangled.Printer.Type

/-!
# Printing mangled names

Writes the tree of a mangled name as C++ source would spell it.  A name that needs too many levels,
or that refers to a template argument that is not there, cannot be printed.
-/

namespace BuildAudit.Mangled

open BuildAudit.Mangled.Writer

variable (p : Printers)

/-! ### Whole names -/

/-- A function.  Its signature begins with the result if it is a template. -/
def printFunction (frames : Frames) (name : Name) (types : List TypeRef) : Writer Unit := do
  let frames := (name.leaf?.map Frame.leaf).toList ++ frames
  let frames := (name.args?.map (Frame.args · none)).toList ++ frames
  if name.args?.isSome && !name.lacksResult then
    types.head?.forM (printTypeRef p frames)
    write " "
  around (.signature name types) (p.name frames name) (p.declarator frames)

/-- Something that the compiler makes for a type or a name. -/
def printSpecial (frames : Frames) (e : Encoding) : Writer Unit := level do
  match e with
  | .ofType before type after =>
    write before
    printTypeRef p frames type
    write after
  | .ofName before name =>
    write before
    p.name frames name
  | .ofEncoding before e =>
    write before
    p.encoding frames e
  | .thunk offsets target =>
    write ("\x7bvirtual override thunk(" ++ String.intercalate ", " offsets ++ ", ")
    p.encoding frames target
    write ")\x7d"
  | .constructionTable type within =>
    write "construction vtable for "
    printTypeRef p frames type
    write "-in-"
    printTypeRef p frames within
  | .resource path => write ("java resource " ++ path)
  | .function _ _ => fail
  | .data _ => fail

def printEncoding (frames : Frames) (e : Encoding) : Writer Unit := level <| isolated do
  match e with
  | .function name types => printFunction p frames name types
  | .data name => p.name frames name
  | e => printSpecial p frames e

def cloneText (clone : String × List Nat) : String :=
  " [clone ." ++ clone.1 ++ String.join (clone.2.map fun n => "." ++ toString n) ++ "]"

def printMangled (frames : Frames) (m : MangledName) : Writer Unit := level do
  match m with
  | .encoding e clones =>
    p.encoding frames e
    clones.forM fun clone => level (write (cloneText clone))
  | .block e =>
    write "invocation function for block in "
    p.encoding frames e
  | .type t => printTypeRef p frames t
  | .keyed what target => level <| isolated do
    write ("global " ++ what ++ " keyed to ")
    p.mangled frames target

/-! ### Tying the knot -/

def Printers.next (p : Printers) : Printers where
  type := printType p
  scope := printScope p
  unqualified := printUnqualified p
  name := printName p
  templateArg := printTemplateArg p
  expr := printExpr p
  encoding := printEncoding p
  mangled := printMangled p
  declarator := printDeclarator p

/-- The printers with a number of levels below them. -/
def Printers.at : Nat → Printers
  | 0 => .bottom
  | n + 1 => (Printers.at n).next

/-- The number of levels that a printed name may have. -/
def maxPrintedLevels : Nat := 127

/-- A mangled name in clear.  Each part takes a level, so there are never more parts in each other
than levels. -/
def MangledName.text? (m : MangledName) : Option String := do
  let (_, page) ← (Printers.at maxPrintedLevels).mangled [] m maxPrintedLevels {}
  return page.text

end BuildAudit.Mangled
