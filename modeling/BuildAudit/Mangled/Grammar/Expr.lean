import BuildAudit.Mangled.Grammar.Name

/-!
# The grammar of expressions

Expressions stand in template arguments, in `decltype` and in the sizes of arrays.  Most begin with
a code of two letters that says how they go on.
-/

namespace BuildAudit.Mangled

open BuildAudit.Mangled.Parser

variable (p : Productions)

/-- The expressions up to the end of a list. -/
def exprList : Parser (List Expr) := do
  let es ← many p.expr
  eat "E"
  return es

/-- A literal, or something with a linker name. -/
def primaryExpr : Parser Primary := level do
  eat "L"
  match ← optional p.type with
  | some type =>
    let input ← get
    set (input.dropWhile (· ≠ 'E'))
    eat "E"
    return .literal type (String.ofList (input.takeWhile (· ≠ 'E')))
  | none =>
    let m ← p.mangled
    eat "E"
    return .entity m

def anyTemplateArg : Parser TemplateArg := level do
  if ← given "X" then
    let e ← p.expr
    eat "E"
    return .expr e
  if let some x ← optional (primaryExpr p) then return .primary x
  if let some t ← optional p.type then return .type t
  let _ ← oneOf [("J", ()), ("I", ())]
  return .pack (← templateArgList p)

/-- A parameter of the function whose type is being given, or its object. -/
def functionParam : Parser (Option Nat) := level do
  eat "f"
  if ← given "L" then
    let _ ← number
  eat "p"
  if ← given "T" then return none
  let _ ← cvQualifiers
  return some (← ordinal)

/-! ### Names that are not resolved -/

/-- The template arguments behind a name, if it has any. -/
def argsBehind : Parser (Option TemplateArgs) := optional (templateArgs p)

def simplePiece : Parser (String × Option TemplateArgs) := do
  let name ← sourceName
  return (name, ← argsBehind p)

/-- A type at the head of a name that is not resolved. -/
def unresolvedType : Parser TypeRef := level do
  if let some n ← optional templateParam then
    let args ← argsBehind p
    return .referent (← remember (.unresolvedParam n args))
  if let some e ← optional (decltypeExpr p) then
    return .referent (← remember (.type (.decltype e)))
  .referent <$> substitution

/-- The last piece of a name that is not resolved. -/
def lastPiece : Parser Piece := level do
  if let some (name, args) ← optional (simplePiece p) then return .simple name args
  if ← given "on" then
    let op ← operatorName p
    return .operator op (← argsBehind p)
  eat "dn"
  if let some t ← optional (unresolvedType p) then return .destructorOfType t
  let (name, args) ← simplePiece p
  return .destructorOf name args

/-- The scopes of a name that is not resolved, up to their end. -/
def scopePieces : Parser (List Piece) := do
  let pieces ← many1 (level (simplePiece p))
  eat "E"
  return pieces.map fun (name, args) => .simple name args

def unresolvedName : Parser Expr := level do
  let isGlobal ← given "gs"
  if let some last ← optional (lastPiece p) then return .unresolved isGlobal none [] last
  eat "sr"
  if isGlobal then
    let scopes ← scopePieces p
    return .unresolved true none scopes (← lastPiece p)
  if ← given "N" then
    let type ← unresolvedType p
    let scopes ← scopePieces p
    return .unresolved false (some type) scopes (← lastPiece p)
  if let some type ← optional (unresolvedType p) then
    return .unresolved false (some type) [] (← lastPiece p)
  let scopes ← scopePieces p
  return .unresolved false none scopes (← lastPiece p)

/-! ### Making and deleting objects -/

/-- The expressions that a new object starts with. -/
def startList : Parser (List Expr) := level do
  eat "pi"
  exprList p

def newOrDelete (isGlobal : Bool) : Parser Expr := do
  if let some isArray ← optional (oneOf [("nw", false), ("na", true)]) then
    let placement ← many p.expr
    eat "_"
    let type ← p.type
    if ← given "E" then return .new isGlobal isArray placement type none
    return .new isGlobal isArray placement type (some (← startList p))
  let isArray ← oneOf [("dl", false), ("da", true)]
  return .delete isGlobal isArray (← p.expr)

/-! ### Expressions with a code -/

/-- A part of an object, at an offset and along the members of unions. -/
def subobject : Parser Expr := do
  let _ ← p.type
  let e ← p.expr
  let _ ← optional signedNumber
  let _ ← many (do eat "_"; optional number)
  let _ ← given "p"
  eat "E"
  return .subobject e

/-- The name of a member behind its object. -/
def memberName : Parser Name := level do
  let n ← unqualifiedName p
  match ← argsBehind p with
  | some args => return .template (.component (.templateName false n)) args
  | none => return .unscoped false n

def convertExpr : Parser Expr := do
  let type ← p.type
  if ← given "_" then return .construct type (← exprList p)
  return .convert type (← p.expr)

def castExpr (word : String) : Parser Expr := do
  let type ← p.type
  return .cast word type (← p.expr)

def packSizeExpr : Parser Expr := do
  if let some n ← optional templateParam then return .templatePackSize n
  return .functionPackSize (← functionParam)

/-- How an expression goes on behind its code. -/
def codedExprs : List (String × Parser Expr) :=
  [("pp_", .stepFirst "++" <$> p.expr), ("mm_", .stepFirst "--" <$> p.expr),
    ("cl", do
      let function ← p.expr
      return .call function (← exprList p)),
    ("cv", convertExpr p),
    ("tl", do
      let type ← p.type
      return .list type (← exprList p)),
    ("il", do
      let e ← p.expr
      eat "E"
      return .braced e),
    ("dc", castExpr p "dynamic_cast"), ("sc", castExpr p "static_cast"),
    ("cc", castExpr p "const_cast"), ("rc", castExpr p "reinterpret_cast"),
    ("ti", .ofType "typeid" <$> p.type), ("st", .ofType "sizeof" <$> p.type),
    ("at", .ofType "alignof" <$> p.type), ("te", .ofExpr "typeid" <$> p.expr),
    ("sz", .ofExpr "sizeof" <$> p.expr), ("az", .ofExpr "alignof" <$> p.expr),
    ("nx", .ofExpr "noexcept" <$> p.expr), ("so", subobject p),
    ("dt", do
      let e ← p.expr
      return .member e (← memberName p)),
    ("pt", do
      let e ← p.expr
      return .memberOfPointer e (← memberName p)),
    ("ds", do
      let e ← p.expr
      return .memberPointer e (← p.expr)),
    ("sZ", packSizeExpr), ("sP", .argsSize <$> templateArgList p), ("sp", .expand <$> p.expr),
    ("tw", .throw <$> p.expr), ("tr", pure .rethrow)]

/-! ### All expressions -/

/-- The number of operands. -/
def Operator.arity : Operator → Nat
  | .simple _ _ arity => arity
  | .vendor arity _ => arity
  | .conversion _ => 1
  | .literal _ => 1

def operatorExpr : Parser Expr := do
  let op ← operatorName p
  let arity := op.arity
  if arity = 0 || arity > 3 then fail
  return .operation op (← (List.replicate arity p.expr).mapM id)

def uncodedExpr : Parser Expr := do
  if let some e ← optional (do eat "gs"; newOrDelete p true) then return e
  if let some e ← optional (newOrDelete p false) then return e
  if let some n ← optional templateParam then return .templateParam n
  if let some n ← optional functionParam then return .functionParam n
  if let some e ← optional (unresolvedName p) then return e
  if let some x ← optional (primaryExpr p) then return .primary x
  operatorExpr p

def anyExpr : Parser Expr := level do
  match lookup (codedExprs p) (← get) with
  | some (parse, rest) =>
    set rest
    parse
  | none => uncodedExpr p

end BuildAudit.Mangled
