import ClassLang.Syntax.Stmt

namespace ClassLang

/-- A routine parameter. -/
structure Param where
  name : String
  type : Ty
  span : Span
  deriving Repr, Inhabited

/-- A declaration of attributes of one type. -/
structure AttrDecl where
  isStatic : Bool
  isFinal : Bool
  type : Ty
  vars : List Declarator
  span : Span
  deriving Repr, Inhabited

/-- A method. -/
structure MethodDecl where
  isStatic : Bool
  ret : Ty
  name : String
  params : List Param
  body : Block
  span : Span
  deriving Repr, Inhabited

/-- A constructor; it should carry the name of its class. -/
structure CtorDecl where
  name : String
  params : List Param
  body : Block
  span : Span
  deriving Repr, Inhabited

/-- A destructor; it should carry the name of its class. -/
structure DtorDecl where
  name : String
  body : Block
  span : Span
  deriving Repr, Inhabited

/-- A class member. -/
inductive Member where
  | attr (d : AttrDecl)
  | method (d : MethodDecl)
  | ctor (d : CtorDecl)
  | dtor (d : DtorDecl)
  deriving Repr, Inhabited

/-- A class declaration. -/
structure ClassDecl where
  name : String
  parent : Option String
  members : List Member
  span : Span
  deriving Repr, Inhabited

/-- A program: its classes in order. -/
structure Program where
  classes : List ClassDecl
  deriving Repr, Inhabited

def Param.text (p : Param) : String := p.type.text ++ " " ++ p.name

def Param.listText (ps : List Param) : String := ", ".intercalate (ps.map Param.text)

def AttrDecl.text (d : AttrDecl) : String :=
  (if d.isStatic then "static " else "") ++ (if d.isFinal then "final " else "") ++
    d.type.text ++ " " ++ Declarator.listText d.vars

def MethodDecl.text (m : MethodDecl) : String :=
  (if m.isStatic then "static " else "") ++ m.ret.text ++ " " ++ m.name ++ "(" ++
    Param.listText m.params ++ ")"

def MethodDecl.isEntryPoint (m : MethodDecl) : Bool :=
  m.isStatic && m.name == "main" && m.params.isEmpty && m.ret.isVoid

def CtorDecl.text (c : CtorDecl) : String := c.name ++ "(" ++ Param.listText c.params ++ ")"

def DtorDecl.text (d : DtorDecl) : String := "~" ++ d.name ++ "()"

namespace Member

def span : Member → Span
  | attr d => d.span
  | method d => d.span
  | ctor d => d.span
  | dtor d => d.span

def text : Member → String
  | attr d => d.text
  | method d => d.text
  | ctor d => d.text
  | dtor d => d.text

end Member

namespace ClassDecl

def attrs (c : ClassDecl) : List AttrDecl :=
  c.members.filterMap fun | .attr d => some d | _ => none

def methods (c : ClassDecl) : List MethodDecl :=
  c.members.filterMap fun | .method d => some d | _ => none

def ctors (c : ClassDecl) : List CtorDecl :=
  c.members.filterMap fun | .ctor d => some d | _ => none

def dtor? (c : ClassDecl) : Option DtorDecl :=
  c.members.findSome? fun | .dtor d => some d | _ => none

end ClassDecl

end ClassLang
