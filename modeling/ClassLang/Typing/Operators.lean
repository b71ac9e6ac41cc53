import ClassLang.Types
import ClassLang.Syntax.Operator

namespace ClassLang

def Ty.isReferenceLike (t : Ty) : Bool := t.isNullable || t.isNil

def BinOp.result (op : BinOp) (l r : Ty) : Option Ty :=
  if l.isError || r.isError then some .error
  else
    let numeric := l.isNumeric && r.isNumeric
    match op with
    | .add | .sub | .mul | .intDiv | .mod =>
      if l.isInt && r.isInt then some .int else if numeric then some .float else none
    | .div => if numeric then some .float else none
    | .lt | .le | .gt | .ge => if numeric then some .bool else none
    | .eq | .ne =>
      if (l.isInt && r.isInt) || (l.isBool && r.isBool) ||
          ((l.isNil || r.isNil) && l.isReferenceLike && r.isReferenceLike) then some .bool
      else none
    | .and | .or => if l.isBool && r.isBool then some .bool else none
    | .concat => if l.isString && r.isString then some .string else none

def UnOp.result (op : UnOp) (t : Ty) : Option Ty :=
  if t.isError then some .error
  else match op with
    | .plus | .neg => if t.isNumeric then some t else none
    | .not => if t.isBool then some .bool else none

end ClassLang
