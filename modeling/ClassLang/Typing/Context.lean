import ClassLang.Typing.Scope
import ClassLang.Typing.Compat
import ClassLang.Registry.Console

namespace ClassLang

/-- The kinds of code the checker checks. -/
inductive RoutineKind where
  | method | ctor | dtor | attrInit
  deriving DecidableEq, Repr, Inhabited

/-- The routine being checked. -/
structure Routine where
  kind : RoutineKind
  ret : Ty
  isStatic : Bool
  deriving Repr, Inhabited

/-- What a name stands for. -/
inductive NameRef where
  | cls (name : String)
  | scoped (b : Binding)
  | attr (host : ClassInfo) (a : AttrInfo)
  deriving Repr, Inhabited

/-- The checker's context. -/
structure Context where
  table : ClassTable
  scopes : ScopeStack
  cls : Option String
  routine : Option Routine
  loops : Nat
  initAttr : Option String
  deriving Repr, Inhabited

namespace Context

/-- The context before any class: the program frame binds `io` to the console class. -/
def start (t : ClassTable) : Context :=
  ⟨t, (ScopeStack.push {}).bind Console.binding ⟨.cls Console.className, true, Span.origin⟩,
    none, none, 0, none⟩

def inStatic (cx : Context) : Bool :=
  match cx.routine with
  | some r => r.isStatic
  | none => false

def classType (cx : Context) : Ty :=
  match cx.cls with
  | some c => .cls c
  | none => .error

/-- The attribute `n` seen from class `c`, except the one being initialized in the current class. -/
def findAttr (cx : Context) (c n : String) : Option (ClassInfo × AttrInfo) :=
  if cx.cls == some c && cx.initAttr == some n then none else cx.table.findAttr c n

def resolve (cx : Context) (n : String) : Option NameRef :=
  if let some r := cx.table.get? n then some (.cls r.name)
  else if let some b := cx.scopes.lookup n then some (.scoped b)
  else match cx.cls with
    | none => none
    | some c =>
      match cx.findAttr c n with
      | some (h, a) => if cx.inStatic && !a.isStatic then none else some (.attr h a)
      | none => none

def isFinalAttr (cx : Context) (n : String) : Bool :=
  match cx.cls with
  | some c => match cx.findAttr c n with
    | some (_, a) => a.isFinal
    | none => false
  | none => false

def isFinalName (cx : Context) (n : String) : Bool :=
  match cx.scopes.lookup n with
  | some b => b.isFinal
  | none => cx.isFinalAttr n

/-- Whether a value of `actual` fits where `expected` is declared. -/
def fits (cx : Context) (expected actual : Ty) : Bool := Ty.compatible cx.table expected actual

def enterRoutine (cx : Context) (kind : RoutineKind) (ret : Ty) (isStatic : Bool) : Context :=
  { cx with routine := some ⟨kind, ret, isStatic⟩, loops := 0 }

end Context

end ClassLang
