import BuildAudit.Mangled.Printer.Name

/-!
# Printing expressions

Operands stand in parentheses, unless they are parameters or entities with a linker name.
-/

namespace BuildAudit.Mangled

open BuildAudit.Mangled.Writer

variable (p : Printers)

/-! ### Literals and template arguments -/

/-- The value of a literal: its sign and the rest. -/
def signAndDigits (value : String) : String × String :=
  match Text.after? "n" value with
  | some digits => ("-", digits)
  | none => ("", value)

/-- A literal.  Those of most types are casts, and the bits of floating-point numbers are not
read. -/
def printLiteral (frames : Frames) (type : TypeRef) (value : String) : Writer Unit := do
  let (sign, digits) := signAndDigits value
  let cast : Writer Unit := do
    write "("
    printTypeRef p frames type
    write (")" ++ sign ++ digits)
  match type with
  | .builtin (.standard name) =>
    if name == "bool" then
      if value == "0" then write "false"
      else if value == "1" then write "true"
      else write ("(bool)" ++ sign ++ digits)
    else if name == "std::nullptr_t" then write "nullptr"
    else if name == "float" || name == "double" then
      write ("(" ++ name ++ ")" ++ sign ++ "[" ++ digits ++ "]")
    else if name == "int" then write (sign ++ digits)
    else cast
  | _ => cast

def printPrimary (frames : Frames) (x : Primary) : Writer Unit := level do
  match x with
  | .literal type value => printLiteral p frames type value
  | .entity m => p.mangled frames m

def printTemplateArg (frames : Frames) (a : TemplateArg) : Writer Unit := level do
  match a with
  | .type t => printTypeRef p frames t
  | .expr e => p.expr frames e
  | .primary x => printPrimary p frames x
  | .pack args => do
    modify fun page => { page with showsPack := true }
    commaList (args.map (p.templateArg frames))

/-! ### Names that are not resolved -/

def printSimplePiece (frames : Frames) (name : String) (args : Option TemplateArgs) :
    Writer Unit := level do
  printIdentifier name
  printArgs? p frames args

def printPiece (frames : Frames) (piece : Piece) : Writer Unit := level do
  match piece with
  | .simple name args => printSimplePiece p frames name args
  | .operator op args =>
    printOperator p frames op
    printArgs? p frames args
  | .destructorOf name args =>
    write "~"
    printSimplePiece p frames name args
  | .destructorOfType t =>
    write "~"
    printTypeRef p frames t

def printUnresolved (frames : Frames) (isGlobal : Bool) (type : Option TypeRef)
    (scopes : List Piece) (last : Piece) : Writer Unit := level do
  if isGlobal then write "::"
  type.forM fun t => do
    printTypeRef p frames t
    write "::"
  scopes.forM fun piece => do
    printPiece p frames piece
    write "::"
  printPiece p frames last

/-! ### Operators -/

/-- An operand, in parentheses unless it cannot be torn apart. -/
def printOperand (frames : Frames) (e : Expr) : Writer Unit := do
  match e with
  | .functionParam _ => p.expr frames e
  | .primary (.entity _) => p.expr frames e
  | _ =>
    write "("
    p.expr frames e
    write ")"

def printExprs (frames : Frames) (es : List Expr) : Writer Unit :=
  commaList (es.map (p.expr frames))

/-- An operator with its operands.  A comparison that could end template arguments is in parentheses
itself. -/
def printOperation (frames : Frames) (op : Operator) (operands : List Expr) : Writer Unit := do
  let code := match op with
    | .simple code _ _ => code
    | _ => ""
  match operands with
  | [e] =>
    if code == "pp" || code == "mm" then
      printOperand p frames e
      printOperator p frames op
    else
      printOperator p frames op
      printOperand p frames e
  | [a, b] =>
    if code == "gt" then
      write "(("
      p.expr frames a
      write ")>("
      p.expr frames b
      write "))"
    else
      printOperand p frames a
      printOperator p frames op
      printOperand p frames b
  | [a, b, c] =>
    if code == "qu" then
      printOperand p frames a
      write "?"
      printOperand p frames b
      write " : "
      printOperand p frames c
    else
      printOperator p frames op
      write "("
      printExprs p frames operands
      write ")"
  | _ => fail

/-! ### All expressions -/

def printFunctionParam (n : Option Nat) : Writer Unit :=
  level <| write <|
    match n with
    | none => "this"
    | some n => "\x7bparm#" ++ toString (n + 1) ++ "\x7d"

def printNew (frames : Frames) (isGlobal isArray : Bool) (placement : List Expr) (type : TypeRef)
    (start : Option (List Expr)) : Writer Unit := do
  write ((if isGlobal then "::" else "") ++ (if isArray then "new[] (" else "new ("))
  printExprs p frames placement
  write ") "
  printTypeRef p frames type
  start.forM fun es => level do
    write "("
    printExprs p frames es
    write ")"

def printExpr (frames : Frames) (e : Expr) : Writer Unit := level do
  match e with
  | .operation op operands => printOperation p frames op operands
  | .stepFirst op e =>
    write op
    p.expr frames e
  | .call function args =>
    printOperand p frames function
    write "("
    printExprs p frames args
    write ")"
  | .convert type e =>
    write "("
    printTypeRef p frames type
    write ")"
    printOperand p frames e
  | .construct type args =>
    printTypeRef p frames type
    write "("
    printExprs p frames args
    write ")"
  | .list type args =>
    printTypeRef p frames type
    write "\x7b"
    printExprs p frames args
    write "\x7d"
  | .braced e =>
    write "\x7b"
    p.expr frames e
    write "\x7d"
  | .new isGlobal isArray placement type start =>
    printNew p frames isGlobal isArray placement type start
  | .delete isGlobal isArray e =>
    write ((if isGlobal then "::" else "") ++ (if isArray then "delete[] " else "delete "))
    p.expr frames e
  | .cast word type e =>
    write (word ++ "<")
    printTypeRef p frames type
    write ">("
    p.expr frames e
    write ")"
  | .ofType word type =>
    write (word ++ " (")
    printTypeRef p frames type
    write ")"
  | .ofExpr word e =>
    write (word ++ " (")
    p.expr frames e
    write ")"
  | .subobject e => p.expr frames e
  | .member e name =>
    printOperand p frames e
    write "."
    level (p.name frames name)
  | .memberOfPointer e name =>
    p.expr frames e
    write "->"
    level (p.name frames name)
  | .memberPointer e pointer =>
    p.expr frames e
    write ".*"
    p.expr frames pointer
  | .templatePackSize n =>
    write "sizeof...("
    printParam p frames n
    write ")"
  | .functionPackSize n =>
    write "sizeof...("
    printFunctionParam n
    write ")"
  | .argsSize args =>
    write "sizeof...("
    commaList (args.map (p.templateArg frames))
    write ")"
  | .expand e =>
    printOperand p frames e
    write "..."
  | .throw e =>
    write "throw "
    p.expr frames e
  | .rethrow => write "throw"
  | .templateParam n => printParam p frames n
  | .functionParam n => printFunctionParam n
  | .unresolved isGlobal type scopes last => printUnresolved p frames isGlobal type scopes last
  | .primary x => printPrimary p frames x

end BuildAudit.Mangled
