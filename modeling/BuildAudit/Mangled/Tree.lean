/-!
# Mangled names as trees

What a mangled C++ name says, after the encoding of the Itanium ABI: names in their scopes, types,
template arguments and the expressions in them.  Back references are resolved while reading, so a
tree holds the part that a reference names.
-/

namespace BuildAudit.Mangled

/-- The qualifiers of a type or a member function. -/
structure CvQualifiers where
  restrict : Bool := false
  volatile : Bool := false
  const : Bool := false
  deriving DecidableEq, Repr, Inhabited

def CvQualifiers.any (q : CvQualifiers) : Bool := q.restrict || q.volatile || q.const

/-- The kind of object that a member function is restricted to. -/
inductive RefQualifier where
  | lvalue
  | rvalue
  deriving DecidableEq, Repr, Inhabited

def RefQualifier.text : RefQualifier → String
  | lvalue => "&"
  | rvalue => "&&"

/-- What a member function demands of the object that it is called on. -/
structure MemberQualifiers where
  cv : CvQualifiers := {}
  ref : Option RefQualifier := none
  /-- Whether the object is a parameter of its own. -/
  hasObjectParam : Bool := false
  deriving DecidableEq, Repr, Inhabited

/-- Parts of the standard library that have an abbreviation. -/
inductive WellKnown where
  | std
  | allocator
  | basicString
  | string
  | istream
  | ostream
  | iostream
  deriving DecidableEq, Repr, Inhabited

namespace WellKnown

def text : WellKnown → String
  | std => "std"
  | allocator => "std::allocator"
  | basicString => "std::basic_string"
  | string => "std::string"
  | istream => "std::basic_istream<char, std::char_traits<char> >"
  | ostream => "std::ostream"
  | iostream => "std::basic_iostream<char, std::char_traits<char> >"

/-- The name of the class alone, which its constructors bear. -/
def leaf? : WellKnown → Option String
  | std => none
  | allocator => some "allocator"
  | basicString => some "basic_string"
  | string => some "string"
  | istream => some "basic_istream"
  | ostream => some "ostream"
  | iostream => some "basic_iostream"

end WellKnown

mutual

/-- A type where it is mentioned. -/
inductive TypeRef where
  | builtin (b : Builtin)
  | referent (r : Referent)

/-- A type that the language or a vendor provides. -/
inductive Builtin where
  | standard (name : String)
  | vendor (name : String)
  /-- An integer whose number of bits is computed. -/
  | bitInteger (signedness : String) (width : Expr)

/-- What an abbreviation or a back reference stands for. -/
inductive Referent where
  | wellKnown (w : WellKnown)
  | component (c : Component)

/-- A part that later parts of the name can refer back to. -/
inductive Component where
  /-- The name of a template, in the global namespace or in `std`. -/
  | templateName (inStd : Bool) (name : Unqualified)
  | type (t : TypeBody)
  | scope (s : Scope)
  /-- A parameter that stands for a template. -/
  | templateParam (n : Nat)
  /-- A parameter at the head of a name that is not resolved. -/
  | unresolvedParam (n : Nat) (args : Option TemplateArgs)

inductive TypeBody where
  /-- A class, union or enumeration; `keyword` is printed before it. -/
  | named (keyword : String) (name : Name)
  /-- A function with the types of its parameters. -/
  | function (qualifiers : MemberQualifiers) (exceptions : Exceptions) (result : TypeRef)
      (params : List TypeRef)
  | array (size : Dimension) (element : TypeRef)
  | vector (size : Dimension) (element : TypeRef)
  | member (owner : TypeRef) (type : TypeRef)
  | param (n : Nat)
  | template (head : Referent) (args : TemplateArgs)
  | decltype (e : Expr)
  | qualified (cv : CvQualifiers) (type : TypeRef)
  | pointer (type : TypeRef)
  | lvalue (type : TypeRef)
  | rvalue (type : TypeRef)
  | complex (type : TypeRef)
  | imaginary (type : TypeRef)
  /-- A type with a qualifier of some vendor. -/
  | vendor (name : String) (args : Option TemplateArgs) (type : TypeRef)
  | pack (type : TypeRef)

/-- What a function type says of exceptions. -/
inductive Exceptions where
  | unspecified
  | never
  | neverIf (condition : Expr)

/-- The size of an array or a vector. -/
inductive Dimension where
  | unknown
  | number (n : Nat)
  | computed (e : Expr)

/-- A name without its scope, and the tags that set it apart from others of the same spelling. -/
inductive Unqualified where
  | tagged (name : BareName) (tags : List String)

inductive BareName where
  | operator (op : Operator)
  /-- A constructor; one that is inherited names the class that it comes from. -/
  | constructor (inherited : Option TypeRef)
  | destructor
  | source (name : String)
  /-- The type of a lambda expression, with its parameters and its number. -/
  | closure (params : List TypeRef) (number : Nat)
  /-- A type without a name, with its number. -/
  | unnamed (number : Nat)

inductive Operator where
  | simple (code text : String) (arity : Nat)
  | conversion (type : TypeRef)
  | literal (name : String)
  | vendor (arity : Nat) (name : String)

inductive Scope where
  | name (n : Unqualified)
  | nested (within : Referent) (n : Unqualified)
  | template (head : Referent) (args : TemplateArgs)
  | param (n : Nat)
  | decltype (e : Expr)
  | dataMember (within : Referent) (name : String)

inductive Name where
  | unscoped (inStd : Bool) (n : Unqualified)
  | template (head : Referent) (args : TemplateArgs)
  | nested (qualifiers : MemberQualifiers) (within : Option Referent) (n : Unqualified)
  | nestedTemplate (qualifiers : MemberQualifiers) (head : Referent) (args : TemplateArgs)
  /-- Something inside a function; without a name, one of its string literals. -/
  | inside (function : Encoding) (entity : Option Name)
  /-- Something inside a default argument of a function. -/
  | insideDefault (function : Encoding) (entity : Name)

/-- The arguments of a template.  The place in the name where they stand tells them from others. -/
inductive TemplateArgs where
  | list (place : Nat) (args : List TemplateArg)

inductive TemplateArg where
  | type (t : TypeRef)
  | expr (e : Expr)
  | primary (p : Primary)
  | pack (args : List TemplateArg)

inductive Primary where
  | literal (type : TypeRef) (value : String)
  | entity (m : MangledName)

inductive Expr where
  | operation (op : Operator) (operands : List Expr)
  /-- An operator before its operand where it could stand behind it, too. -/
  | stepFirst (op : String) (e : Expr)
  | call (function : Expr) (args : List Expr)
  | convert (type : TypeRef) (e : Expr)
  | construct (type : TypeRef) (args : List Expr)
  | list (type : TypeRef) (args : List Expr)
  | braced (e : Expr)
  | new (isGlobal isArray : Bool) (placement : List Expr) (type : TypeRef)
      (start : Option (List Expr))
  | delete (isGlobal isArray : Bool) (e : Expr)
  | cast (word : String) (type : TypeRef) (e : Expr)
  | ofType (word : String) (type : TypeRef)
  | ofExpr (word : String) (e : Expr)
  | subobject (e : Expr)
  | member (e : Expr) (name : Name)
  | memberOfPointer (e : Expr) (name : Name)
  | memberPointer (e pointer : Expr)
  /-- The number of arguments for a parameter that stands for several. -/
  | templatePackSize (n : Nat)
  | functionPackSize (n : Option Nat)
  | argsSize (args : List TemplateArg)
  | expand (e : Expr)
  | throw (e : Expr)
  | rethrow
  | templateParam (n : Nat)
  /-- A parameter of the function, or the object that it is called on. -/
  | functionParam (n : Option Nat)
  | unresolved (isGlobal : Bool) (type : Option TypeRef) (scopes : List Piece) (last : Piece)
  | primary (p : Primary)

/-- A piece of a name that is not resolved. -/
inductive Piece where
  | simple (name : String) (args : Option TemplateArgs)
  | operator (op : Operator) (args : Option TemplateArgs)
  | destructorOf (name : String) (args : Option TemplateArgs)
  | destructorOfType (t : TypeRef)

inductive Encoding where
  /-- A function with the types of its signature; those of a template begin with its result. -/
  | function (name : Name) (types : List TypeRef)
  | data (name : Name)
  /-- A table or a piece of code that belongs to a type. -/
  | ofType (before : String) (type : TypeRef) (after : String)
  /-- Something that belongs to a variable or a function, by name. -/
  | ofName (before : String) (name : Name)
  | ofEncoding (before : String) (e : Encoding)
  /-- The adjustments of a thunk and the function that it leads to. -/
  | thunk (offsets : List String) (target : Encoding)
  | constructionTable (type within : TypeRef)
  /-- A file that goes with a class. -/
  | resource (path : String)

inductive MangledName where
  /-- A function or a variable; a clone has suffixes, of a name and numbers each. -/
  | encoding (e : Encoding) (clones : List (String × List Nat))
  /-- The code of a block. -/
  | block (e : Encoding)
  | type (t : TypeRef)
  /-- The constructors or destructors that belong to a name. -/
  | keyed (what : String) (target : MangledName)

end

end BuildAudit.Mangled
