import ClassLang.Assembly.Instr

namespace ClassLang

/-- Lines written so far and the frame of the routine. -/
structure Emitter where
  lines : Array Line
  frame : Frame
  deriving Repr, Inhabited

abbrev EmitM := StateT Emitter (Except CompileError)

namespace Emitter

def create (f : Frame) : Emitter := ⟨#[], f⟩

def liftExcept {α : Type} (r : Except CompileError α) : EmitM α :=
  match r with
  | .ok a => pure a
  | .error e => throw e

def emit (i : Instr) : EmitM Unit := do
  let e ← get
  let f ← liftExcept (e.frame.adjust i.delta)
  set { e with frame := f, lines := e.lines.push (.instr i) }

def line (l : Line) : EmitM Unit := modify fun e ↦ { e with lines := e.lines.push l }

def label (l : Label) : EmitM Unit := line (.label l)

def directive (t : String) : EmitM Unit := line (.directive t)

def rewind (d : Int) : EmitM Unit := do
  let e ← get
  let f ← liftExcept (e.frame.adjust d)
  set { e with frame := f }

def mark : EmitM Nat := return (← get).lines.size

def takeFrom (m : Nat) : EmitM (List Line) := do
  let e ← get
  set { e with lines := e.lines.extract 0 m }
  return (e.lines.extract m e.lines.size).toList

def append (ls : List Line) : EmitM Unit :=
  modify fun e ↦ { e with lines := e.lines ++ ls.toArray }

def onFrame (g : Frame → Frame) : EmitM Unit := modify fun e ↦ { e with frame := g e.frame }

/-- A fresh local slot. -/
def newSlot : EmitM Nat := do
  let e ← get
  let (s, f) := e.frame.newSlot
  set { e with frame := f }
  return s

def newLabel : EmitM Label := do
  let e ← get
  let (l, f) := e.frame.newLabel
  set { e with frame := f }
  return l

def enterBlock : EmitM BlockLabels := do
  let e ← get
  let (ls, f) := e.frame.enterBlock
  set { e with frame := f }
  return ls

def exitBlock : EmitM BlockLabels := do
  let e ← get
  let (ls, f) ← liftExcept e.frame.exitBlock
  set { e with frame := f }
  return ls

def arithmetic (op : BinOp) (k : ValueKind) : EmitM Unit :=
  match ArithOp.ofBinOp? op with
  | some a => emit (.arith a k)
  | none => throw (.internal ("`" ++ op.text ++ "` is not an arithmetic operator"))

def newArray (elem : Ty) (size : Nat) : EmitM Unit := do
  emit (.pushInt size)
  emit (.newArray elem)

def pushDefault (t : Ty) : EmitM Unit :=
  match ValueKind.of t with
  | .int => emit (.pushInt 0)
  | .float => emit (.pushFloat (Binary.zero false))
  | .ref => emit .pushNull

def loadLocal (t : Ty) (slot : Nat) : EmitM Unit := emit (.load (ValueKind.of t) slot)

def storeLocal (t : Ty) (slot : Nat) : EmitM Unit := emit (.store (ValueKind.of t) slot)

def finish (e : Emitter) : String := Line.body e.lines.toList e.frame.maxDepth e.frame.nextSlot

end Emitter

end ClassLang
