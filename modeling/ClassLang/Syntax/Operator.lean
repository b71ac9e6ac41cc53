namespace ClassLang

/-- Binary operators. -/
inductive BinOp where
  | add | sub | mul | div | intDiv | mod
  | lt | le | gt | ge | eq | ne
  | and | or | concat
  deriving DecidableEq, Repr, Inhabited

namespace BinOp

def text : BinOp → String
  | add => "+"
  | sub => "-"
  | mul => "*"
  | div => "/"
  | intDiv => "\\"
  | mod => "%"
  | lt => "<"
  | le => "<="
  | gt => ">"
  | ge => ">="
  | eq => "=="
  | ne => "!="
  | and => "&&"
  | or => "||"
  | concat => "^"

def all : List BinOp := [add, sub, mul, div, intDiv, mod, lt, le, gt, ge, eq, ne, and, or, concat]

def ofText? (s : String) : Option BinOp := all.find? (·.text == s)

def isArithmetic : BinOp → Bool
  | add | sub | mul | intDiv | mod => true
  | _ => false

def isRelational : BinOp → Bool
  | lt | le | gt | ge => true
  | _ => false

def isEquality : BinOp → Bool
  | eq | ne => true
  | _ => false

def isLogical : BinOp → Bool
  | and | or => true
  | _ => false

end BinOp

/-- Unary operators. -/
inductive UnOp where
  | plus | neg | not
  deriving DecidableEq, Repr, Inhabited

namespace UnOp

def text : UnOp → String
  | plus => "+"
  | neg => "-"
  | not => "!"

def ofText? (s : String) : Option UnOp := [plus, neg, not].find? (·.text == s)

end UnOp

/-- Whether a counting loop counts up (`to`) or down (`downto`). -/
inductive Direction where
  | up | down
  deriving DecidableEq, Repr, Inhabited

def Direction.text : Direction → String
  | up => "to"
  | down => "downto"

end ClassLang
