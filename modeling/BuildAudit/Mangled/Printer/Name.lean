import BuildAudit.Mangled.Page
import BuildAudit.Text

/-!
# Printing names

As the productions of the grammar, the printers of the parts refer to each other in circles.  Those
that close the circles are gathered in a structure, and every other printer is written in terms of
them.  This module holds the printers of names.
-/

namespace BuildAudit.Mangled

open BuildAudit.Mangled.Writer

/-- The printers that the others need further down. -/
structure Printers where
  type : Frames → TypeBody → Writer Unit
  scope : Frames → Scope → Writer Unit
  unqualified : Frames → Unqualified → Writer Unit
  name : Frames → Name → Writer Unit
  templateArg : Frames → TemplateArg → Writer Unit
  expr : Frames → Expr → Writer Unit
  encoding : Frames → Encoding → Writer Unit
  mangled : Frames → MangledName → Writer Unit
  declarator : Frames → Declarator → Writer Unit

/-- Below the last level nothing can be printed. -/
def Printers.bottom : Printers where
  type _ _ := fail
  scope _ _ := fail
  unqualified _ _ := fail
  name _ _ := fail
  templateArg _ _ := fail
  expr _ _ := fail
  encoding _ _ := fail
  mangled _ _ := fail
  declarator _ _ := fail

variable (p : Printers)

/-! ### Identifiers -/

/-- Whether an identifier is what compilers call an anonymous namespace. -/
def isAnonymousNamespace (name : String) : Bool :=
  match (Text.after? "_GLOBAL_" name).map (·.toList) with
  | some (c :: 'N' :: _) => ['.', '_', '$'].contains c
  | _ => false

def printIdentifier (name : String) : Writer Unit := level <| level do
  if isAnonymousNamespace name then write "(anonymous namespace)"
  else
    modify fun page => { page with lastName := some name }
    write name

def printTags (tags : List String) : Writer Unit := level do
  tags.forM fun tag => level do
    write "[abi:"
    printIdentifier tag
    write "]"

/-! ### Types and templates, where they are mentioned -/

/-- The argument for a template parameter.  In the parameters of a lambda expression it is one of
the expression's own. -/
def printParam (frames : Frames) (n : Nat) : Writer Unit := level do
  if (← get).inLambda then write ("auto:" ++ toString (n + 1))
  else
    match frames.argument? n with
    | some a => p.templateArg frames a
    | none => fail

/-- Template arguments in angle brackets; a blank keeps two closing ones apart. -/
def printArgs (frames : Frames) : TemplateArgs → Writer Unit
  | .list place args => level <| isolated do
    write "<"
    commaList (args.mapIdx fun i a => p.templateArg (frames.atArgument place i) a)
    if (← last?) == some '>' then write " "
    write ">"

/-- Template arguments, if there are any. -/
def printArgs? (frames : Frames) (args : Option TemplateArgs) : Writer Unit :=
  args.forM (printArgs p frames)

def printBuiltin (frames : Frames) : Builtin → Writer Unit
  | .standard name => level (level (write name))
  | .vendor name => level (printIdentifier name)
  | .bitInteger signedness width => level do
    write (signedness ++ " _BitInt(")
    p.expr frames width
    write ")"

/-- A name in the global namespace or in `std`. -/
def printUnscoped (frames : Frames) (inStd : Bool) (n : Unqualified) : Writer Unit := level do
  if inStd then write "std::"
  p.unqualified frames n

def printComponent (frames : Frames) : Component → Writer Unit
  | .templateName inStd n => level (printUnscoped p frames inStd n)
  | .type t => p.type frames t
  | .scope s => p.scope frames s
  | .templateParam n => level (printParam p frames n)
  | .unresolvedParam n args => level do
    printParam p frames n
    printArgs? p frames args

def printReferent (frames : Frames) : Referent → Writer Unit
  | .wellKnown w => level (write w.text)
  | .component c => printComponent p frames c

def printTypeRef (frames : Frames) : TypeRef → Writer Unit
  | .builtin b => printBuiltin p frames b
  | .referent r => printReferent p frames r

/-- A template, whose name may refer to its arguments, and the arguments. -/
def printTemplate (frames : Frames) (head : Referent) (args : TemplateArgs) : Writer Unit := do
  printReferent p (.args args none :: frames) head
  printArgs p frames args

/-! ### Names without scopes -/

def printClosure (frames : Frames) (params : List TypeRef) (number : Nat) : Writer Unit := level do
  write "\x7blambda("
  level do
    modify fun page => { page with inLambda := true }
    commaList (params.map (printTypeRef p frames))
    modify fun page => { page with inLambda := false }
  write (")#" ++ toString number ++ "\x7d")

def printUnnamed (number : Nat) : Writer Unit :=
  level (write ("\x7bunnamed type#" ++ toString number ++ "\x7d"))

/-- The name of a class where its constructor stands.  A type without a name borrows the last
identifier. -/
def printLeaf (frames : Frames) (l : Leaf) : Writer Unit := level do
  match l with
  | .wellKnown name => write name
  | .source name => printIdentifier name
  | .closure params number => printClosure p frames params number
  | .unnamed number => level do
    match (← get).lastName with
    | some name => write name
    | none => printUnnamed number

/-- A constructor, which may come from another class than the one around it. -/
def printConstructor (frames : Frames) (inherited : Option TypeRef) : Writer Unit := level do
  match frames.leaf?, inherited.map (·.leaf?) with
  | some l, none => printLeaf p frames l
  | some _, some (some l) => printLeaf p frames l
  | _, _ => fail

def printDestructor (frames : Frames) : Writer Unit := level do
  match frames.leaf? with
  | some l =>
    write "~"
    printLeaf p frames l
  | none => fail

/-- An operator; those that are words stand apart. -/
def printOperator (frames : Frames) (op : Operator) : Writer Unit := level do
  match op with
  | .simple _ text _ =>
    if ["new", "new[]", "delete", "delete[]"].contains text then space
    level (write text)
  | .conversion t =>
    space
    printTypeRef p ((t.args?.map (Frame.args · none)).toList ++ frames) t
  | .literal name =>
    printIdentifier name
    write "::operator \"\""
  | .vendor _ name =>
    write " "
    printIdentifier name

def printBareName (frames : Frames) : BareName → Writer Unit
  | .operator op => do
    write "operator"
    printOperator p frames op
  | .constructor inherited => printConstructor p frames inherited
  | .destructor => printDestructor p frames
  | .source name => printIdentifier name
  | .closure params number => printClosure p frames params number
  | .unnamed number => printUnnamed number

def printUnqualified (frames : Frames) : Unqualified → Writer Unit
  | .tagged name tags => level do
    printBareName p frames name
    printTags tags

/-! ### Scopes -/

def printDecltype (frames : Frames) (e : Expr) : Writer Unit := level do
  write "decltype ("
  p.expr frames e
  write ")"

def printScope (frames : Frames) (s : Scope) : Writer Unit := level do
  match s with
  | .name n => p.unqualified frames n
  | .nested within n =>
    printReferent p frames within
    write "::"
    p.unqualified frames n
  | .template head args => printTemplate p frames head args
  | .param n => printParam p frames n
  | .decltype e => printDecltype p frames e
  | .dataMember within name =>
    printReferent p frames within
    write "::"
    level (printIdentifier name)

/-! ### All names -/

def printCvQualifiers (cv : CvQualifiers) : Writer Unit := level do
  [(cv.const, "const"), (cv.volatile, "volatile"), (cv.restrict, "restrict")].forM
    fun (isGiven, word) => do
      if isGiven then
        space
        write word

def printRefQualifier (ref : Option RefQualifier) : Writer Unit :=
  ref.forM fun r => do
    space
    level (write r.text)

/-- A member, where `core` prints it.  What waits next goes before the qualifiers. -/
def printMember (frames : Frames) (q : MemberQualifiers) (core : Writer Unit) : Writer Unit :=
  level do
    core
    (← take?).forM (p.declarator frames)
    if q.cv.any then printCvQualifiers q.cv
    printRefQualifier q.ref

def printInside (frames : Frames) (function : Encoding) (entity : Writer Unit) : Writer Unit :=
  level do
    p.encoding frames function
    entity

def printName (frames : Frames) (name : Name) : Writer Unit := level do
  match name with
  | .unscoped inStd n => printUnscoped p frames inStd n
  | .template head args => printTemplate p frames head args
  | .nested q within n =>
    printMember p frames q do
      within.forM fun r => do
        printReferent p frames r
        write "::"
      p.unqualified frames n
  | .nestedTemplate q head args => printMember p frames q (p.scope frames (.template head args))
  | .inside function none => printInside p frames function (write "::string literal")
  | .inside function (some entity) =>
    printInside p frames function do
      write "::"
      p.name frames entity
  | .insideDefault function _ => printInside p frames function (return ())

end BuildAudit.Mangled
