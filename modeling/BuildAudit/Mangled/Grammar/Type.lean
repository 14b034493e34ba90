import BuildAudit.Mangled.Grammar.Name

/-!
# The grammar of types

Types that are built from other parts of the name can be referred back to, so each is remembered
when it has been read.
-/

namespace BuildAudit.Mangled

open BuildAudit.Mangled.Parser

variable (p : Productions)

/-! ### Built-in types -/

/-- A floating-point or integer type of some width. -/
def sizedType : Parser Builtin := level do
  if ← given "DF" then
    let n ← number
    let suffix ← oneOf [("x", "x"), ("_", "")]
    return .standard ("_Float" ++ toString n ++ suffix)
  let signedness ← oneOf [("DB", "signed"), ("DU", "unsigned")]
  match (← peek).map isDigit with
  | none => fail
  | some true =>
    let n ← number
    eat "_"
    return .standard (signedness ++ " _BitInt(" ++ toString n ++ ")")
  | some false => return .bitInteger signedness (← p.expr)

def builtinType : Parser Builtin := level do
  if let some name ← optional (level (oneOf builtinTypes)) then return .standard name
  if let some b ← optional (sizedType p) then return b
  eat "u"
  return .vendor (← sourceName)

/-! ### Functions -/

def signature : Parser (List TypeRef) := level (many1 p.type)

def exceptions : Parser Exceptions := level do
  if ← given "Do" then return .never
  eat "DO"
  let e ← p.expr
  eat "E"
  return .neverIf e

def functionType : Parser TypeBody := level do
  let cv ← cvQualifiers
  let exceptions := (← optional (exceptions p)).getD .unspecified
  let _ ← given "Dx"
  eat "F"
  let _ ← given "Y"
  let types ← signature p
  let ref ← optional refQualifier
  eat "E"
  match types with
  | result :: params => return .function { cv, ref } exceptions result params
  | [] => fail

/-! ### Compound types -/

/-- The size of an array, if it is given, and its element type. -/
def arrayType : Parser TypeBody := level do
  eat "A"
  let size ← firstOf [.number <$> number, .computed <$> p.expr, pure .unknown]
  eat "_"
  return .array size (← p.type)

def vectorType : Parser TypeBody := level do
  eat "Dv"
  let size ← firstOf [.number <$> number, .computed <$> p.expr]
  eat "_"
  return .vector size (← p.type)

def memberType : Parser TypeBody := level do
  eat "M"
  let owner ← p.type
  return .member owner (← p.type)

def classEnumType : Parser TypeBody := level do
  match ← optional p.name with
  | some name => return .named "" name
  | none =>
    let keyword ← oneOf [("Ts", "class "), ("Tu", "union "), ("Te", "enum ")]
    return .named keyword (← p.name)

/-- A template parameter as a type.  With arguments behind it, it is a template instead, unless the
arguments belong to the conversion operator whose type is being read. -/
def paramType : Parser TypeBody := do
  let n ← templateParam
  if (← peek) != some 'I' then return .param n
  if (← getThe Memory).inConversion then
    match ← restAfter (templateArgs p) with
    | some rest => if rest.head? != some 'I' then return .param n else fail
    | none => fail
  else fail

/-- A template where a type stands: a reference to one, or a parameter. -/
def templateTemplate : Parser Referent := level do
  match ← optional substitution with
  | some found => return found
  | none => remember (.templateParam (← templateParam))

/-- The qualifiers of a type, or all of a function type that begins with qualifiers. -/
def qualifiedType : Parser TypeBody := do
  let input ← get
  let cv ← cvQualifiers
  if ["F", "Do", "DO", "Dw", "Dx"].any (·.toList.isPrefixOf (← get)) then
    set input
    functionType p
  else return .qualified cv (← p.type)

def vendorType : Parser TypeBody := do
  eat "U"
  let name ← sourceName
  let args ← optional (templateArgs p)
  return .vendor name args (← p.type)

def derivedType : Parser TypeBody := do
  let make ← oneOf [("P", TypeBody.pointer), ("R", .lvalue), ("O", .rvalue), ("C", .complex),
    ("G", .imaginary), ("Dp", .pack)]
  return make (← p.type)

/-! ### All types -/

/-- A type that can be referred back to. -/
def rememberType (t : TypeBody) : Parser TypeRef := do return .referent (← remember (.type t))

/-- A reference to a type; one with arguments behind it stands for a template instead. -/
def substitutedType : Parser TypeRef := do
  let found ← substitution
  if (← peek) == some 'I' then fail
  return .referent found

def templateType (head : Referent) : Parser TypeRef := do
  let args ← templateArgs p
  rememberType (.template head args)

def anyType : Parser TypeRef := level do
  if let some b ← optional (builtinType p) then return .builtin b
  let c ← peek
  if c == some 'r' || c == some 'V' || c == some 'K' then
    return ← rememberType (← qualifiedType p)
  if c == some 'U' then return ← rememberType (← vendorType p)
  if let some t ← optional (classEnumType p) then return ← rememberType t
  if let some found ← optional substitutedType then return found
  if let some t ← optional (firstOf [functionType p, arrayType p, vectorType p, memberType p,
      paramType p]) then
    return ← rememberType t
  if let some head ← optional templateTemplate then return ← templateType p head
  if let some e ← optional (decltypeExpr p) then return ← rememberType (.decltype e)
  rememberType (← derivedType p)

end BuildAudit.Mangled
