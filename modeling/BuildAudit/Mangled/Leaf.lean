import BuildAudit.Mangled.Tree

/-!
# What a name ends in

Constructors bear the name of their class, so a name has a *leaf*: the name of what it denotes,
without scopes and template arguments.  Whether a function has a result in its signature also hangs
on the end of its name.
-/

namespace BuildAudit.Mangled

/-- The name that constructors of a class bear. -/
inductive Leaf where
  | wellKnown (name : String)
  | source (name : String)
  | closure (params : List TypeRef) (number : Nat)
  | unnamed (number : Nat)

/-! ### Leaves -/

def BareName.leaf? : BareName → Option Leaf
  | .source name => some (.source name)
  | .closure params number => some (.closure params number)
  | .unnamed number => some (.unnamed number)
  | .operator _ => none
  | .constructor _ => none
  | .destructor => none

def Unqualified.leaf? : Unqualified → Option Leaf
  | .tagged name _ => name.leaf?

mutual

def Referent.leaf? : Referent → Option Leaf
  | .wellKnown w => w.leaf?.map .wellKnown
  | .component c => c.leaf?

def Component.leaf? : Component → Option Leaf
  | .templateName _ n => n.leaf?
  | .type (.named _ name) => name.leaf?
  | .type _ => none
  | .scope s => s.leaf?
  | .templateParam _ => none
  | .unresolvedParam _ _ => none

def Scope.leaf? : Scope → Option Leaf
  | .name n => n.leaf?
  | .nested within n => n.leaf?.or within.leaf?
  | .template head _ => head.leaf?
  | .dataMember _ name => some (.source name)
  | .param _ => none
  | .decltype _ => none

def Name.leaf? : Name → Option Leaf
  | .unscoped _ n => n.leaf?
  | .template head _ => head.leaf?
  | .nested _ (some within) n => n.leaf?.or within.leaf?
  | .nested _ none n => n.leaf?
  | .nestedTemplate _ head _ => head.leaf?
  | .inside _ (some entity) => entity.leaf?
  | .inside _ none => none
  | .insideDefault _ entity => entity.leaf?

end

/-- The leaf of the class that an inherited constructor comes from. -/
def TypeRef.leaf? : TypeRef → Option Leaf
  | .builtin _ => none
  | .referent r => r.leaf?

/-! ### Results -/

/-- Whether a function of this name has no result: a constructor, a destructor or a conversion. -/
def Unqualified.lacksResult : Unqualified → Bool
  | .tagged (.constructor _) _ => true
  | .tagged .destructor _ => true
  | .tagged (.operator (.conversion _)) _ => true
  | .tagged _ _ => false

mutual

def Referent.lacksResult : Referent → Bool
  | .component (.scope s) => s.lacksResult
  | _ => false

def Scope.lacksResult : Scope → Bool
  | .name n => n.lacksResult
  | .nested _ n => n.lacksResult
  | .template head _ => head.lacksResult
  | _ => false

end

/-- Whether a function template of this name has no result in its signature. -/
def Name.lacksResult : Name → Bool
  | .unscoped _ n => n.lacksResult
  | .nested _ _ n => n.lacksResult
  | .nestedTemplate _ head _ => head.lacksResult
  | _ => false

/-! ### Other properties -/

/-- The template arguments that belong to what the name denotes. -/
def Name.args? : Name → Option TemplateArgs
  | .template _ args => some args
  | .nestedTemplate _ _ args => some args
  | .inside _ (some entity) => entity.args?
  | .insideDefault _ entity => entity.args?
  | _ => none

/-- Whether the first parameter of the function is the object that it is called on. -/
def Name.hasObjectParam : Name → Bool
  | .nested q _ _ => q.hasObjectParam
  | .nestedTemplate q _ _ => q.hasObjectParam
  | .inside _ (some entity) => entity.hasObjectParam
  | .insideDefault _ entity => entity.hasObjectParam
  | _ => false

mutual

/-- The template arguments of a type, looked up through pointers and references. -/
def TypeRef.args? : TypeRef → Option TemplateArgs
  | .referent (.component (.type t)) => t.args?
  | _ => none

def TypeBody.args? : TypeBody → Option TemplateArgs
  | .template _ args => some args
  | .vendor _ args _ => args
  | .pointer t => t.args?
  | .lvalue t => t.args?
  | .rvalue t => t.args?
  | _ => none

end

end BuildAudit.Mangled
