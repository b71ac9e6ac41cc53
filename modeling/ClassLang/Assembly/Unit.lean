import ClassLang.Assembly.Instr

namespace ClassLang

/-- The header of a routine: its access, its name and its parameter and result types. -/
structure MethodHeader where
  isPublic : Bool
  isStatic : Bool
  name : String
  params : List Ty
  ret : Ty
  deriving Repr, Inhabited

def MethodHeader.descriptor (h : MethodHeader) : String := methodDescriptor h.params h.ret

def MethodHeader.text (h : MethodHeader) : String :=
  (if h.isPublic then "public " else "") ++ (if h.isStatic then "static " else "") ++ h.name ++
    h.descriptor

/-- A lowered routine: its header, its lines, and the limits of its stack and locals. -/
structure RoutineCode where
  header : MethodHeader
  lines : List Line
  maxStack : Int
  maxLocals : Nat
  deriving Repr, Inhabited

def RoutineCode.text (r : RoutineCode) : String :=
  ".method " ++ r.header.text ++ "\n" ++ Line.body r.lines r.maxStack r.maxLocals

/-- A field of a class: every field is public. -/
structure FieldDecl where
  name : String
  type : Ty
  isStatic : Bool
  isFinal : Bool
  deriving Repr, Inhabited

def FieldDecl.text (f : FieldDecl) : String :=
  ".field public " ++ (if f.isStatic then "static " else "") ++ (if f.isFinal then "final " else "") ++
    f.name ++ " " ++ f.type.descriptor ++ "\n"

/-- The assembly unit of a class and the file it goes to. -/
structure ClassUnit where
  cls : String
  file : String
  source : String
  parent : String
  fields : List FieldDecl
  routines : List RoutineCode
  deriving Repr, Inhabited

def ClassUnit.text (u : ClassUnit) : String :=
  ".source " ++ u.source ++ "\n.class public " ++ u.cls ++ "\n.super " ++ u.parent ++ "\n" ++
    String.join (u.fields.map FieldDecl.text) ++
    String.join (u.routines.map fun r ↦ "\n" ++ r.text)

end ClassLang
