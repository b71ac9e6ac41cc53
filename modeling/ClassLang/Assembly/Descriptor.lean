import ClassLang.Types

namespace ClassLang

def stringClass : String := "java/lang/String"

def objectClass : String := "java/lang/Object"

def Ty.descriptor : Ty → String
  | .prim .int => "I"
  | .prim .float => "F"
  | .prim .bool => "Z"
  | .prim .string => "L" ++ stringClass ++ ";"
  | .prim .void => "V"
  | .array e _ => "[" ++ e.descriptor
  | .cls n => "L" ++ n ++ ";"
  | .ref t => t.descriptor
  | .nil | .error => "L" ++ objectClass ++ ";"

def methodDescriptor (params : List Ty) (ret : Ty) : String :=
  "(" ++ String.join (params.map Ty.descriptor) ++ ")" ++ ret.descriptor

/-- How the machine holds a value. -/
inductive ValueKind where
  | int | float | ref
  deriving DecidableEq, Repr, Inhabited

def ValueKind.of (t : Ty) : ValueKind :=
  match t.deref with
  | .prim .int | .prim .bool => .int
  | .prim .float => .float
  | _ => .ref

def ValueKind.prefixText : ValueKind → String
  | .int => "i"
  | .float => "f"
  | .ref => "a"

def Ty.arrayPrefix (t : Ty) : String :=
  match t.deref with
  | .prim .bool => "b"
  | u => (ValueKind.of u).prefixText

def Ty.newArrayText (t : Ty) : String :=
  match t.deref with
  | .prim .int => "newarray int"
  | .prim .float => "newarray float"
  | .prim .bool => "newarray boolean"
  | .prim .string => "anewarray " ++ stringClass
  | .cls n => "anewarray " ++ n
  | .array .. => "anewarray " ++ t.descriptor
  | _ => "newarray int"

end ClassLang
