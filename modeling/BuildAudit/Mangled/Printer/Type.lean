import BuildAudit.Mangled.Printer.Name

/-!
# Printing types

A type prints its core with its own declarator waiting.  The parameters of functions and the sizes
of arrays bind more closely than what waits around them, so they put it in parentheses.
-/

namespace BuildAudit.Mangled

open BuildAudit.Mangled.Writer

variable (p : Printers)

/-! ### Declarators -/

def TypeRef.isVoid : TypeRef → Bool
  | .builtin (.standard name) => name == "void"
  | _ => false

/-- Whether parameters have to keep what waits in parentheses, and whether these stand apart from
what is before them. -/
def parentheses? (waiting : List Declarator) : Option Bool :=
  if waiting.any Declarator.isMember then some true
  else (waiting.find? Declarator.isLoose).map Declarator.isQualifiers

/-- The parameters of a function, behind everything that waits.  A single `void` means none. -/
def printParams (frames : Frames) (hasObjectParam : Bool) (types : List TypeRef) : Writer Unit :=
  level do
    let parentheses := parentheses? ((← get).waiting.map (·.2))
    if let some apart := parentheses then
      let c := ← last?
      if apart || !(c == some '(' || c == some '*') then space
      write "("
    drainExcept Declarator.staysBehind (p.declarator frames)
    if parentheses.isSome then write ")"
    write "("
    match types with
    | [t] =>
      if !t.isVoid then
        if hasObjectParam then write "this "
        printTypeRef p frames t
    | types =>
      if hasObjectParam then write "this "
      commaList (types.map (printTypeRef p frames))
    write ")"
    drain (p.declarator frames)

/-- Prints what waits around an array, at most `fuel` declarators; whether a blank is needed before
its size. -/
def printAroundArray (frames : Frames) : Nat → Bool → Writer Bool
  | 0, needsBlank => return needsBlank
  | fuel + 1, needsBlank => do
    match ← take? with
    | none => return needsBlank
    | some d =>
      match d with
      | .array _ =>
        p.declarator frames d
        printAroundArray frames fuel false
      | .qualifiers _ true =>
        p.declarator frames d
        printAroundArray frames fuel needsBlank
      | d =>
        space
        if d.isQualifiers then
          p.declarator frames d
          space
          write "("
        else
          write "("
          p.declarator frames d
        drain (p.declarator frames)
        write ")"
        printAroundArray frames fuel needsBlank

def printDimension (frames : Frames) : Dimension → Writer Unit
  | .unknown => return ()
  | .number n => write (toString n)
  | .computed e => p.expr frames e

/-- References to references collapse: two of them make an rvalue reference only if both are. -/
def printReference (isLvalue : Bool) : Writer Unit := do
  if isLvalue then
    discardWhile Declarator.isRef
    write "&"
  else
    discardWhile fun d => d matches .rvalue
    if !((← get).waiting.head?.any (·.2 matches .lvalue)) then write "&&"

def printDeclarator (frames : Frames) (d : Declarator) : Writer Unit := level do
  match d with
  | .pointer => write "*"
  | .lvalue => printReference true
  | .rvalue => printReference false
  | .qualifiers cv _ => printCvQualifiers cv
  | .array size =>
    if ← printAroundArray p frames (← get).waiting.length true then space
    write "["
    printDimension p frames size
    write "]"
  | .vector size =>
    write " __vector("
    printDimension p frames size
    write ")"
  | .member owner =>
    if (← last?) != some '(' then write " "
    printTypeRef p frames owner
    write "::*"
  | .params types => printParams p frames false types
  | .memberQualifiers q =>
    if q.cv.any then printCvQualifiers q.cv
    q.ref.forM fun r => do
      space
      write r.text
  | .signature name types =>
    match name.args? with
    | some args =>
      printParams p (.args args none :: frames) name.hasObjectParam (types.drop 1)
    | none => printParams p frames name.hasObjectParam types

/-! ### Types -/

def printDerived (frames : Frames) (d : Declarator) (t : TypeRef) : Writer Unit :=
  around d (printTypeRef p frames t) (p.declarator frames)

def printExceptions (frames : Frames) : Exceptions → Writer Unit
  | .unspecified => return ()
  | .never => write " noexcept"
  | .neverIf e => do
    write " noexcept("
    p.expr frames e
    write ")"

def printFunctionType (frames : Frames) (q : MemberQualifiers) (exceptions : Exceptions)
    (result : TypeRef) (params : List TypeRef) : Writer Unit := level do
  around (.memberQualifiers q)
    (level <| around (.params params) (printTypeRef p frames result) fun d => do
      space
      p.declarator frames d)
    (p.declarator frames)
  printExceptions p frames exceptions

/-- Whether a type is an array as it stands. -/
def TypeRef.isArray : TypeRef → Bool
  | .referent (.component (.type (.array _ _))) => true
  | _ => false

def printType (frames : Frames) (t : TypeBody) : Writer Unit := level do
  match t with
  | .named keyword name => level do
    write keyword
    p.name frames name
  | .function q exceptions result params => printFunctionType p frames q exceptions result params
  | .array size element => level (printDerived p frames (.array size) element)
  | .vector size element => level (printDerived p frames (.vector size) element)
  | .member owner type => level (printDerived p frames (.member owner) type)
  | .param n => printParam p frames n
  | .template head args => do
    printReferent p frames head
    printArgs p frames args
  | .decltype e => printDecltype p frames e
  | .qualified cv type => printDerived p frames (.qualifiers cv type.isArray) type
  | .pointer type => printDerived p frames .pointer type
  | .lvalue type => printDerived p frames .lvalue type
  | .rvalue type => printDerived p frames .rvalue type
  | .complex type => do
    printTypeRef p frames type
    write " complex"
  | .imaginary type => do
    printTypeRef p frames type
    write " imaginary"
  | .vendor name args type => do
    printTypeRef p frames type
    write " "
    printIdentifier name
    printArgs? p frames args
  | .pack type => do
    printTypeRef p frames type
    if !(← get).showsPack then write "..."

end BuildAudit.Mangled
