import ClassLang.Lowering.Stmt
import ClassLang.Assembly.Unit
import ClassLang.Log

namespace ClassLang

/-- What occupies slot 0 of a routine. -/
inductive Receiver where
  | this
  | args
  | none
  deriving DecidableEq, Repr

namespace Lower

def openRoutine (s : Site) (r : Receiver) : EmitM BlockLabels := do
  let ls ← Emitter.enterBlock
  match r with
  | .this =>
    let slot ← Emitter.newSlot
    Emitter.line (.var slot "this" s.thisType ls)
  | .args =>
    let slot ← Emitter.newSlot
    Emitter.line (.var slot "args" (.array .string 0) ls)
  | .none => pure ()
  return ls

def declareParams (ls : BlockLabels) : List Param → EmitM (List Nat)
  | [] => pure []
  | p :: ps => do
    let slot ← Emitter.newSlot
    Emitter.line (.var slot p.name p.type ls)
    let rest ← declareParams ls ps
    return slot :: rest

def bindParams : List Param → List Nat → EmitM Unit
  | p :: ps, slot :: slots => do
    Emitter.onFrame (·.bind p.name p.type slot)
    bindParams ps slots
  | _, _ => pure ()

/-- Writes a routine's body: the locals' `.var` lines, the start label, the prologue, the locals'
initializers and the statements. -/
def lowerBody (s : Site) (ls : BlockLabels) (b : Block) (prologue : EmitM Unit) : EmitM Unit := do
  let ps ← declareLocals ls b.decls
  Emitter.label ls.start
  prologue
  initLocals s ps
  lowerStmts s b.stmts

def endsInReturn : Option Block → Bool
  | some b =>
    match b.stmts.getLast? with
    | some (.ret ..) => true
    | _ => false
  | none => false

/-- Ends a routine: a `return` where a routine without result would fall off its end, then the
end label. -/
def closeRoutine (ls : BlockLabels) (body : Option Block) : EmitM Unit := do
  if (← get).frame.ret.isVoid && !endsInReturn body then Emitter.emit .retVoid
  Emitter.label ls.stop
  let _ ← Emitter.exitBlock
  pure ()

def superCall (s : Site) (parent : String) : EmitM Unit := do
  Emitter.loadLocal s.thisType 0
  Emitter.emit (.invokeSpecial (parent ++ "/<init>") [])

/-- Stores the first value of an attribute of the site's class: its initializer, or a new array
when it has none and is an array; other attributes keep the zero they start with. -/
def initAttribute (s : Site) (a : AttrInfo) : EmitM Unit := do
  if a.init.isSome || a.type.isArray then
    if !a.isStatic then Emitter.loadLocal s.thisType 0
    match a.init with
    | some e =>
      let t ← lowerExpr s e
      widen a.type t
    | none => pushZero a.type
    if a.isStatic then Emitter.emit (.putStatic s.cls a.name a.type)
    else Emitter.emit (.putField s.cls a.name a.type)

def initAttributes (s : Site) : List AttrInfo → EmitM Unit
  | [] => pure ()
  | a :: as => do
    initAttribute s a
    initAttributes s as

/-- The routine with header `h` whose lines `body` writes over a fresh frame, after the line of
slot 0. -/
def routine (s : Site) (h : MethodHeader) (r : Receiver) (body : BlockLabels → EmitM Unit) :
    Logged RoutineCode := do
  Logged.write .trace ("  routine " ++ h.name)
  let run := do
    let ls ← openRoutine s r
    body ls
  match run.run (Emitter.create (Frame.create h.name h.ret h.isStatic)) with
  | .ok (_, e) => pure ⟨h, e.lines.toList, e.frame.maxDepth, e.frame.nextSlot⟩
  | .error err => throw err

end Lower

end ClassLang
