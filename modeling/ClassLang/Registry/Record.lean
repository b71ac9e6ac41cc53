import ClassLang.Syntax.Decl

namespace ClassLang

/-- A parameter signature: the parameter types of a routine. -/
structure Signature where
  types : List Ty
  deriving DecidableEq, Repr, Inhabited

def Signature.text (s : Signature) : String :=
  "(" ++ ", ".intercalate (s.types.map Ty.text) ++ ")"

/-- A registered attribute. -/
structure AttrInfo where
  name : String
  type : Ty
  isStatic : Bool
  isFinal : Bool
  init : Option Expr
  span : Span
  deriving Repr, Inhabited

/-- A registered method. -/
structure MethodInfo where
  name : String
  ret : Ty
  params : List Ty
  isStatic : Bool
  span : Span
  deriving Repr, Inhabited

/-- A registered constructor. -/
structure CtorInfo where
  sig : Signature
  span : Span
  deriving Repr, Inhabited

/-- What the class table records of a class. -/
structure ClassInfo where
  name : String
  parent : Option String
  attrs : List AttrInfo
  methods : List MethodInfo
  ctors : List CtorInfo
  dtor : Option Span
  span : Span
  builtin : Bool
  deriving Repr, Inhabited

namespace ClassInfo

def empty (name : String) (parent : Option String) (span : Span) : ClassInfo :=
  ⟨name, parent, [], [], [], none, span, false⟩

def attr? (c : ClassInfo) (n : String) : Option AttrInfo := c.attrs.find? (·.name == n)

def method? (c : ClassInfo) (n : String) : Option MethodInfo := c.methods.find? (·.name == n)

def ctor? (c : ClassInfo) (s : Signature) : Option CtorInfo := c.ctors.find? (·.sig == s)

/-- A class can be built without arguments when it declares no constructor or one without
parameters. -/
def hasDefaultCtor (c : ClassInfo) : Bool :=
  c.ctors.isEmpty || (c.ctor? ⟨[]⟩).isSome

end ClassInfo

end ClassLang
