import BuildAudit.Mangled.Leaf

/-!
# The page that a name is printed on

A type is written as the name at its core with declarators around it: pointers, qualifiers, sizes of
arrays and parameters of functions.  While the core is being written, they wait on a stack, the
innermost on top, and whatever has to enclose them takes them off.
-/

namespace BuildAudit.Mangled

/-- What waits to be written behind the core of a type or a name. -/
inductive Declarator where
  | pointer
  | lvalue
  | rvalue
  /-- Qualifiers of a type, which may be an array itself. -/
  | qualifiers (cv : CvQualifiers) (ofArray : Bool)
  | array (size : Dimension)
  | vector (size : Dimension)
  /-- A pointer to a member of a class. -/
  | member (owner : TypeRef)
  /-- The parameters of a function type. -/
  | params (types : List TypeRef)
  /-- The qualifiers of a function type. -/
  | memberQualifiers (q : MemberQualifiers)
  /-- The parameters of a function of some name. -/
  | signature (name : Name) (types : List TypeRef)

namespace Declarator

def isRef : Declarator → Bool
  | lvalue => true
  | rvalue => true
  | _ => false

def isMember : Declarator → Bool
  | member _ => true
  | _ => false

def isQualifiers : Declarator → Bool
  | qualifiers _ _ => true
  | _ => false

/-- Whether the parameters of a function would bind more closely. -/
def isLoose : Declarator → Bool
  | pointer => true
  | d => d.isRef || d.isQualifiers

/-- Whether it stays behind the parameters of a function. -/
def staysBehind : Declarator → Bool
  | memberQualifiers q => q.cv.any
  | _ => false

end Declarator

/-- A page with what is written on it and what waits. -/
structure Page where
  text : String := ""
  /-- The waiting declarators, each with a number of its own. -/
  waiting : List (Nat × Declarator) := []
  /-- How many declarators have been put on the stack. -/
  issued : Nat := 0
  lastName : Option String := none
  /-- Whether the parameters of a lambda expression are being written. -/
  inLambda : Bool := false
  /-- Whether several template arguments have been written for one parameter. -/
  showsPack : Bool := false

/-- Printing on a page, which may fail.  Each part takes a level while it is being printed, and it
is known how many are left. -/
abbrev Writer := ReaderT Nat (StateT Page Option)

namespace Writer

variable {α : Type}

def fail : Writer α := fun _ _ => none

/-- Prints one level further down. -/
def level (w : Writer α) : Writer α := fun levels page =>
  match levels with
  | 0 => none
  | levels + 1 => w levels page

def write (s : String) : Writer Unit := modify fun page => { page with text := page.text ++ s }

def last? : Writer (Option Char) := do return (← get).text.toSlice.back?

/-- Writes a blank, unless one has just been written. -/
def space : Writer Unit := do
  if (← last?) != some ' ' then write " "

/-- Writes things with commas between them. -/
def commaList (ws : List (Writer Unit)) : Writer Unit := do
  match ws with
  | [] => return ()
  | w :: ws =>
    w
    ws.forM fun w => do
      write ", "
      w

/-! ### Declarators that wait -/

def take? : Writer (Option Declarator) := do
  match (← get).waiting with
  | [] => return none
  | (_, d) :: rest =>
    modify fun page => { page with waiting := rest }
    return some d

/-- Takes declarators off the stack as long as they are of some kind. -/
def discardWhile (p : Declarator → Bool) : Writer Unit :=
  modify fun page => { page with waiting := page.waiting.dropWhile (p ·.2) }

/-- Prints a core while a declarator waits, and then what `finish` makes of the declarator, if
nothing has taken it. -/
def around (d : Declarator) (core : Writer Unit) (finish : Declarator → Writer Unit) :
    Writer Unit := do
  let number := (← get).issued
  modify fun page =>
    { page with waiting := (number, d) :: page.waiting, issued := number + 1 }
  core
  match (← get).waiting with
  | (top, _) :: rest =>
    if top = number then
      modify fun page => { page with waiting := rest }
      finish d
  | [] => return ()

/-- Prints something while the declarators around it are out of reach. -/
def isolated (w : Writer Unit) : Writer Unit := do
  let outside := (← get).waiting
  modify fun page => { page with waiting := [] }
  w
  modify fun page => { page with waiting := outside }

/-- Takes declarators off the stack one after the other, at most `fuel`.  Those that are kept are
left there at the end. -/
def drainWithin (keeps : Declarator → Bool) (f : Declarator → Writer Unit) :
    Nat → List (Nat × Declarator) → Writer Unit
  | 0, kept => modify fun page => { page with waiting := kept.reverse ++ page.waiting }
  | fuel + 1, kept => do
    match (← get).waiting with
    | [] => modify fun page => { page with waiting := kept.reverse }
    | top :: rest =>
      modify fun page => { page with waiting := rest }
      if keeps top.2 then drainWithin keeps f fuel (top :: kept)
      else
        f top.2
        drainWithin keeps f fuel kept

/-- Takes declarators off the stack, except those that are kept. -/
def drainExcept (keeps : Declarator → Bool) (f : Declarator → Writer Unit) : Writer Unit := do
  drainWithin keeps f (← get).waiting.length []

def drain (f : Declarator → Writer Unit) : Writer Unit := drainExcept (fun _ => false) f

end Writer

/-! ### What template parameters stand for -/

/-- What a part of a name is printed in. -/
inductive Frame where
  /-- A class, by the name of its constructors. -/
  | leaf (l : Leaf)
  /-- A template.  While its arguments are being printed, they can refer to those before `limit`. -/
  | args (args : TemplateArgs) (limit : Option Nat)

/-- What surrounds a part of a name, the innermost first. -/
abbrev Frames := List Frame

namespace Frames

def leaf? (frames : Frames) : Option Leaf :=
  frames.findSome? fun
    | .leaf l => some l
    | .args _ _ => none

/-- The argument for a template parameter: the innermost template that has one gives it. -/
def argument? : Frames → Nat → Option TemplateArg
  | [], _ => none
  | .leaf _ :: frames, n => argument? frames n
  | .args (.list _ args) limit :: frames, n =>
    match args[n]? with
    | some a => if limit.any (· ≤ n) then none else some a
    | none => argument? frames n

/-- What surrounds the `i`-th of some template arguments. -/
def atArgument (place i : Nat) : Frames → Frames
  | .args (.list own args) _ :: frames =>
    .args (.list own args) (if own = place then some i else none) :: frames
  | frames => frames

end Frames

end BuildAudit.Mangled
