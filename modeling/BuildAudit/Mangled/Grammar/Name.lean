import BuildAudit.Mangled.Parser

/-!
# The grammar of names

The productions of the Itanium ABI refer to each other in circles.  Those that close the circles are
gathered in a structure, and every other production is written in terms of them.  This module holds
the productions of names.
-/

namespace BuildAudit.Mangled

open BuildAudit.Mangled.Parser

/-- The productions that the others need further down. -/
structure Productions where
  type : Parser TypeRef
  name : Parser Name
  templateArg : Parser TemplateArg
  expr : Parser Expr
  encoding : Parser Encoding
  mangled : Parser MangledName

/-- Below the last level nothing can be read. -/
def Productions.bottom : Productions where
  type := throw .tooDeep
  name := throw .tooDeep
  templateArg := throw .tooDeep
  expr := throw .tooDeep
  encoding := throw .tooDeep
  mangled := throw .tooDeep

variable (p : Productions)

/-! ### Template arguments -/

def templateArgList : Parser (List TemplateArg) := do
  let args ← many p.templateArg
  eat "E"
  return args

def templateArgs : Parser TemplateArgs := level do
  let place := (← get).length
  eat "I"
  return .list place (← templateArgList p)

def decltypeExpr : Parser Expr := level do
  let _ ← oneOf [("Dt", ()), ("DT", ())]
  let e ← p.expr
  eat "E"
  return e

/-! ### Names without scopes -/

/-- An operator: a code, a conversion, a literal or an extension. -/
def operatorName : Parser Operator := level do
  match ← optional simpleOperator with
  | some op => return op
  | none =>
    if ← given "cv" then return .conversion (← converting true p.type)
    if ← given "li" then return .literal (← sourceName)
    eat "v"
    let arity := Text.valueIn 10 [← char isDigit]
    return .vendor arity (← sourceName)

def constructorOrDestructor : Parser BareName := level do
  if ← given "C" then
    let inherits ← given "I"
    let _ ← char ['1', '2', '3', '4'].contains
    if inherits then return .constructor (some (← p.type))
    return .constructor none
  else
    eat "D"
    let _ ← char ['0', '1', '2', '4'].contains
    return .destructor

def lambdaParams : Parser (List TypeRef) := level do
  if ← given "v" then return []
  many1 p.type

/-- The type of a lambda expression; they count from one. -/
def closureName : Parser BareName := level do
  eat "Ul"
  let params ← lambdaParams p
  eat "E"
  return .closure params ((← ordinal) + 1)

/-- A type without a name; the first two have the same number. -/
def unnamedName : Parser BareName := level do
  eat "Ut"
  return .unnamed (max 1 (← ordinal))

/-- A name that only its own file knows. -/
def fileName : Parser BareName := do
  eat "L"
  let name ← sourceName
  let _ ← optional discriminator
  return .source name

def bareName : Parser BareName := do
  match ← optional (operatorName p) with
  | some op => return .operator op
  | none =>
    match ← optional (constructorOrDestructor p) with
    | some n => return n
    | none =>
      if (← peek) == some 'L' then return ← fileName
      match ← optional sourceName with
      | some name => return .source name
      | none => or (closureName p) unnamedName

def unqualifiedName : Parser Unqualified := level do
  let name ← bareName p
  return .tagged name (← tags)

/-! ### Scopes -/

/-- Goes on in a scope, which is remembered unless it is the whole of a nested name. -/
def enter (s : Scope) : Parser Referent := do
  if (← peek) == some 'E' then return .component (.scope s)
  remember (.scope s)

/-- A name in the scope that has been read so far. -/
def Scope.append (current : Option Referent) (n : Unqualified) : Scope :=
  match current with
  | none => .name n
  | some within => .nested within n

/-- A name in a scope, which may be a member whose initializer holds what follows. -/
def memberScope (within : Referent) : Parser Referent := do
  let name ← sourceName
  if (← peek) == some 'M' then
    let found ← enter (.dataMember within name)
    eat "M"
    return found
  else
    let tags ← tags
    enter (.nested within (.tagged (.source name) tags))

/-- Whether a name without a scope can begin with a character. -/
def beginsName (c : Char) : Bool :=
  isDigit c || ['L', 'C', 'D', 'U', 'c', 'v'].contains c ||
    operators.any (·.1.toList.head? == some c)

/-- One step of the scopes of a nested name; nothing, if they have come to their end. -/
def scopeStep (current : Option Referent) : Parser (Option Referent) := level do
  match ← peek, current with
  | some 'S', _ => some <$> substitution
  | some 'T', _ => some <$> (do enter (.param (← templateParam)))
  | some 'D', _ =>
    match ← optional (decltypeExpr p) with
    | some e => some <$> enter (.decltype e)
    | none => some <$> (do enter (.append current (← unqualifiedName p)))
  | some 'I', some head => some <$> (do enter (.template head (← templateArgs p)))
  | some c, _ =>
    match current, isDigit c with
    | some within, true => some <$> memberScope within
    | _, _ =>
      if beginsName c then some <$> (do enter (.append current (← unqualifiedName p)))
      else return none
  | none, _ => return none

/-- The scopes of a nested name; `fuel` bounds their number. -/
def scopesWithin : Nat → Option Referent → Parser (Option Referent)
  | 0, current => return current
  | fuel + 1, current => do
    match ← scopeStep p current with
    | some next => scopesWithin fuel (some next)
    | none => return current

def scopes : Parser Referent := level do
  match ← scopesWithin p ((← get).length + 1) none with
  | some found => return found
  | none => fail

/-- What a member function demands of its object. -/
def memberQualifiers : Parser MemberQualifiers := do
  if ← given "H" then return { hasObjectParam := true }
  let cv ← cvQualifiers
  return { cv, ref := ← optional refQualifier }

def nestedName : Parser Name := level do
  eat "N"
  let q ← memberQualifiers
  let found ← scopes p
  eat "E"
  match found with
  | .component (.scope (.nested within n)) => return .nested q (some within) n
  | .component (.scope (.name n)) => return .nested q none n
  | .component (.scope (.template head args)) => return .nestedTemplate q head args
  | _ => fail

/-! ### All names -/

/-- A name in the global namespace or in `std`. -/
def unscopedName : Parser (Bool × Unqualified) := level do
  let inStd ← given "St"
  return (inStd, ← unqualifiedName p)

/-- The name of a template that has no scope, or a reference to one. -/
def templateHead : Parser Referent := level do
  match ← optional (unscopedName p) with
  | some (inStd, n) => remember (.templateName inStd n)
  | none => substitution

/-- The name of something inside a function. -/
def insideName : Parser Name := level do
  eat "Z"
  let function ← p.encoding
  eat "E"
  if ← given "s" then
    let _ ← optional discriminator
    return .inside function none
  if ← given "d" then
    let _ ← optional (level signedNumber)
    eat "_"
    return .insideDefault function (← p.name)
  let entity ← p.name
  let _ ← optional discriminator
  return .inside function (some entity)

def anyName : Parser Name := level do
  if let some n ← optional (nestedName p) then return n
  if let some (inStd, n) ← optional (unscopedName p) then
    if (← peek) == some 'I' then
      let head ← remember (.templateName inStd n)
      return .template head (← templateArgs p)
    else return .unscoped inStd n
  if let some head ← optional (templateHead p) then
    return .template head (← templateArgs p)
  insideName p

end BuildAudit.Mangled
