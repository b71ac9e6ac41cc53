import ClassLang.Assembly.Frame
import ClassLang.Assembly.Descriptor
import ClassLang.Number.Text
import ClassLang.Text.Quoted
import ClassLang.Syntax.Operator

namespace ClassLang

/-- The tests of conditional branches. -/
inductive Cond where
  | eq | ne | lt | le | gt | ge
  deriving DecidableEq, Repr, Inhabited

def Cond.suffix : Cond → String
  | eq => "eq"
  | ne => "ne"
  | lt => "lt"
  | le => "le"
  | gt => "gt"
  | ge => "ge"

def Cond.ofBinOp? : BinOp → Option Cond
  | .eq => some .eq
  | .ne => some .ne
  | .lt => some .lt
  | .le => some .le
  | .gt => some .gt
  | .ge => some .ge
  | _ => none

/-- Arithmetic instructions. -/
inductive ArithOp where
  | add | sub | mul | div | rem
  deriving DecidableEq, Repr, Inhabited

def ArithOp.name : ArithOp → String
  | add => "add"
  | sub => "sub"
  | mul => "mul"
  | div => "div"
  | rem => "rem"

def ArithOp.ofBinOp? : BinOp → Option ArithOp
  | .add => some .add
  | .sub => some .sub
  | .mul => some .mul
  | .div | .intDiv => some .div
  | .mod => some .rem
  | _ => none

/-- Instructions. -/
inductive Instr where
  | pushInt (v : Int)
  | pushFloat (v : Binary64)
  | pushString (s : String)
  | pushNull
  | load (k : ValueKind) (slot : Nat)
  | store (k : ValueKind) (slot : Nat)
  | getField (host name : String) (type : Ty)
  | putField (host name : String) (type : Ty)
  | getStatic (host name : String) (type : Ty)
  | putStatic (host name : String) (type : Ty)
  | invokeStatic (target : String) (params : List Ty) (ret : Ty)
  | invokeVirtual (target : String) (params : List Ty) (ret : Ty)
  | invokeSpecial (target : String) (params : List Ty)
  | new (cls : String)
  | dup
  | pop
  | newArray (elem : Ty)
  | arrayLoad (elem : Ty)
  | arrayStore (elem : Ty)
  | arith (op : ArithOp) (k : ValueKind)
  | neg (k : ValueKind)
  | i2f
  | f2i
  | ixor
  | iinc (slot : Nat) (by_ : Int)
  | goto (l : Label)
  | ifFalse (l : Label)
  | ifZero (c : Cond) (l : Label)
  | ifICmp (c : Cond) (l : Label)
  | ifACmp (c : Cond) (l : Label)
  | fcmp (nanGreater : Bool)
  | retValue (k : ValueKind)
  | retVoid
  | raw (text : String) (delta : Int)
  deriving Repr, Inhabited

def intPushText (v : Int) : String :=
  if v = -1 then "iconst_m1"
  else if 0 ≤ v ∧ v ≤ 5 then "iconst_" ++ toString v
  else if -128 ≤ v ∧ v ≤ 127 then "bipush " ++ toString v
  else if -32768 ≤ v ∧ v ≤ 32767 then "sipush " ++ toString v
  else "ldc " ++ toString v

def floatPushText (v : Binary64) : String :=
  if v.isPosZero then "fconst_0"
  else if v = Binary.ofDecimal false 1 0 then "fconst_1"
  else if v = Binary.ofDecimal false 2 0 then "fconst_2"
  else "ldc " ++ (Binary.narrow v : Binary32).text .source

def localText (k : ValueKind) (op : String) (slot : Nat) : String :=
  k.prefixText ++ op ++ (if slot ≤ 3 then "_" else " ") ++ toString slot

/-- What a call leaves on the stack: one value unless the result is `void`. -/
def Ty.returned (t : Ty) : Int := if t.isVoid then 0 else 1

namespace Instr

def text : Instr → String
  | pushInt v => intPushText v
  | pushFloat v => floatPushText v
  | pushString s => "ldc " ++ Text.quoteAssembly s
  | pushNull => "aconst_null"
  | load k s => localText k "load" s
  | store k s => localText k "store" s
  | getField h n t => "getfield " ++ h ++ "/" ++ n ++ " " ++ t.descriptor
  | putField h n t => "putfield " ++ h ++ "/" ++ n ++ " " ++ t.descriptor
  | getStatic h n t => "getstatic " ++ h ++ "/" ++ n ++ " " ++ t.descriptor
  | putStatic h n t => "putstatic " ++ h ++ "/" ++ n ++ " " ++ t.descriptor
  | invokeStatic g ps r => "invokestatic " ++ g ++ methodDescriptor ps r
  | invokeVirtual g ps r => "invokevirtual " ++ g ++ methodDescriptor ps r
  | invokeSpecial g ps => "invokespecial " ++ g ++ methodDescriptor ps .void
  | new c => "new " ++ c
  | dup => "dup"
  | pop => "pop"
  | newArray e => e.newArrayText
  | arrayLoad e => e.arrayPrefix ++ "aload"
  | arrayStore e => e.arrayPrefix ++ "astore"
  | arith op k => k.prefixText ++ op.name
  | neg k => k.prefixText ++ "neg"
  | i2f => "i2f"
  | f2i => "f2i"
  | ixor => "ixor"
  | iinc s d => "iinc " ++ toString s ++ " " ++ toString d
  | goto l => "goto " ++ l.text
  | ifFalse l => "ifeq " ++ l.text
  | ifZero c l => "if" ++ c.suffix ++ " " ++ l.text
  | ifICmp c l => "if_icmp" ++ c.suffix ++ " " ++ l.text
  | ifACmp c l => "if_acmp" ++ c.suffix ++ " " ++ l.text
  | fcmp g => if g then "fcmpg" else "fcmpl"
  | retValue k => k.prefixText ++ "return"
  | retVoid => "return"
  | raw t _ => t

def delta : Instr → Int
  | pushInt _ | pushFloat _ | pushString _ | pushNull | load .. => 1
  | store .. => -1
  | getField .. => 0
  | putField .. => -2
  | getStatic .. => 1
  | putStatic .. => -1
  | invokeStatic _ ps r => r.returned - ps.length
  | invokeVirtual _ ps r => r.returned - ps.length - 1
  | invokeSpecial _ ps => -(ps.length : Int) - 1
  | new _ | dup => 1
  | pop => -1
  | newArray _ => 0
  | arrayLoad _ => -1
  | arrayStore _ => -3
  | arith .. => -1
  | neg _ | i2f | f2i => 0
  | ixor => -1
  | iinc .. | goto _ => 0
  | ifFalse _ | ifZero .. => -1
  | ifICmp .. | ifACmp .. => -2
  | fcmp _ => -1
  | retValue _ => -1
  | retVoid => 0
  | raw _ d => d

end Instr

/-- A line of a routine's assembly text. -/
inductive Line where
  | instr (i : Instr)
  | label (l : Label)
  | var (slot : Nat) (name : String) (type : Ty) (range : BlockLabels)
  | directive (text : String)
  deriving Repr, Inhabited

def Line.text : Line → String
  | instr i => "\t" ++ i.text ++ "\n"
  | label l => l.text ++ ":\n"
  | var s n t r => ".var " ++ toString s ++ " is " ++ n ++ " " ++ t.descriptor ++ " from " ++
      r.start.text ++ " to " ++ r.stop.text ++ "\n"
  | directive t => t ++ "\n"

def Line.render (ls : List Line) : String := String.join (ls.map Line.text)

def Line.body (ls : List Line) (maxStack : Int) (maxLocals : Nat) : String :=
  Line.render ls ++ ".limit stack " ++ toString maxStack ++ "\n.limit locals " ++
    toString maxLocals ++ "\n.end method\n"

end ClassLang
