import ClassLang.Error
import ClassLang.Types

namespace ClassLang

/-- `x` as a 32-bit two's complement number: the value in `[-2^31, 2^31)` congruent to it
modulo `2^32`. -/
def wrapInt32 (x : Int) : Int := (x + 2147483648) % 4294967296 - 2147483648

/-- A code label, written `LabelN`. -/
structure Label where
  id : Nat
  deriving DecidableEq, Repr, Inhabited

def Label.text (l : Label) : String := "Label" ++ toString l.id

/-- A local variable of the routine: its name, type and slot. -/
structure LocalSym where
  name : String
  type : Ty
  slot : Nat
  deriving Repr, Inhabited

/-- The labels at the start and the end of a block. -/
structure BlockLabels where
  start : Label
  stop : Label
  deriving DecidableEq, Repr, Inhabited

/-- The labels a `continue` and a `break` of a loop jump to. -/
structure LoopLabels where
  cont : Label
  brk : Label
  deriving DecidableEq, Repr, Inhabited

/-- The open loops, innermost first. -/
structure Loops where
  stack : List LoopLabels := []
  deriving Repr, Inhabited

namespace Loops

def enter (ls : Loops) (cont brk : Label) : Loops := ⟨⟨cont, brk⟩ :: ls.stack⟩

def exit (ls : Loops) : Loops := ⟨ls.stack.drop 1⟩

def inLoop (ls : Loops) : Bool := !ls.stack.isEmpty

def depth (ls : Loops) : Nat := ls.stack.length

def contLabel (ls : Loops) : Except CompileError Label :=
  match ls.stack with
  | l :: _ => .ok l.cont
  | [] => .error (.internal "continue outside of a loop")

def brkLabel (ls : Loops) : Except CompileError Label :=
  match ls.stack with
  | l :: _ => .ok l.brk
  | [] => .error (.internal "break outside of a loop")

end Loops

/-- The state of writing one routine. -/
structure Frame where
  name : String
  ret : Ty
  isStatic : Bool
  nextSlot : Nat := 0
  nextLabel : Nat := 0
  depth : Int := 0
  maxDepth : Int := 0
  symbols : List LocalSym := []
  blocks : List (BlockLabels × Nat) := []
  loops : Loops := {}
  deriving Repr, Inhabited

namespace Frame

def create (name : String) (ret : Ty) (isStatic : Bool) : Frame := { name, ret, isStatic }

/-- Hands out the next local slot; the 16-bit counter wraps. -/
def newSlot (f : Frame) : Nat × Frame :=
  (f.nextSlot, { f with nextSlot := (f.nextSlot + 1) % 65536 })

def newLabel (f : Frame) : Label × Frame :=
  (⟨f.nextLabel⟩, { f with nextLabel := (f.nextLabel + 1) % 4294967296 })

/-- Changes the stack depth by `delta`, raising the maximum as needed; refuses to go below zero.
The sum is taken in 32-bit signed arithmetic. -/
def adjust (f : Frame) (delta : Int) : Except CompileError Frame :=
  let d := wrapInt32 (f.depth + delta)
  if d < 0 then
    .error (.internal ("operand stack underflow in " ++ f.name ++ " (depth " ++ toString f.depth ++
      ", delta " ++ toString delta ++ ")"))
  else .ok { f with depth := d, maxDepth := max f.maxDepth d }

def enterBlock (f : Frame) : BlockLabels × Frame :=
  let (s, f) := f.newLabel
  let (e, f) := f.newLabel
  (⟨s, e⟩, { f with blocks := (⟨s, e⟩, f.symbols.length) :: f.blocks })

def exitBlock (f : Frame) : Except CompileError (BlockLabels × Frame) :=
  match f.blocks with
  | (ls, visible) :: rest =>
    .ok (ls, { f with blocks := rest, symbols := f.symbols.drop (f.symbols.length - visible) })
  | [] => .error (.internal "block scope underflow")

def bind (f : Frame) (name : String) (type : Ty) (slot : Nat) : Frame :=
  { f with symbols := ⟨name, type, slot⟩ :: f.symbols }

def lookup (f : Frame) (name : String) : Option LocalSym := f.symbols.find? (·.name == name)

def enterLoop (f : Frame) (cont brk : Label) : Frame := { f with loops := f.loops.enter cont brk }

def exitLoop (f : Frame) : Frame := { f with loops := f.loops.exit }

end Frame

end ClassLang
