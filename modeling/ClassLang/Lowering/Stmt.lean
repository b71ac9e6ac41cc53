import ClassLang.Lowering.Expr

namespace ClassLang

namespace Lower

/-- A local whose slot and `.var` line exist but which is not in scope yet. -/
structure Pending where
  name : String
  type : Ty
  init : Option Expr
  slot : Nat

def declareVars (t : Ty) (range : BlockLabels) : List Declarator → EmitM (List Pending)
  | [] => pure []
  | d :: ds => do
    let slot ← Emitter.newSlot
    Emitter.line (.var slot d.name t range)
    let rest ← declareVars t range ds
    return ⟨d.name, t, d.init, slot⟩ :: rest

def declareLocals (range : BlockLabels) : List VarDecl → EmitM (List Pending)
  | [] => pure []
  | d :: ds => do
    let ps ← declareVars d.type range d.vars
    let rest ← declareLocals range ds
    return ps ++ rest

def initLocals (s : Site) : List Pending → EmitM Unit
  | [] => pure ()
  | p :: ps => do
    match p.init with
    | some e => do
      let t ← lowerExpr s e
      widen p.type t
    | none => pushZero p.type
    Emitter.storeLocal p.type p.slot
    Emitter.onFrame (·.bind p.name p.type p.slot)
    initLocals s ps

def stepVar (s : Site) (v : String) (d : Direction) : EmitM Unit := do
  match ← resolve s v with
  | .loc l => Emitter.emit (.iinc l.slot (if d == .up then 1 else -1))
  | _ =>
    let p ← identPlace s v
    let _ ← loadIdent s v
    Emitter.emit (.pushInt 1)
    Emitter.arithmetic (if d == .up then .add else .sub) .int
    store p

/-- A `return`: a value is widened to the routine's result type; a routine without result drops
a value it is given. -/
def lowerReturn (s : Site) (v : Option Expr) : EmitM Unit := do
  let rt := (← get).frame.ret
  match v with
  | some e =>
    let t ← lowerExpr s e
    if rt.isVoid then
      if !t.isVoid then Emitter.emit .pop
      Emitter.emit .retVoid
    else
      widen rt t
      Emitter.emit (.retValue (ValueKind.of rt))
  | none => Emitter.emit .retVoid

def targetPlace (s : Site) : Target → EmitM Place
  | .ident n _ => identPlace s n
  | .chain c => chainPlace s c

mutual

def lowerStmt (s : Site) : Stmt → EmitM Unit
  | .assign t rhs _ => do
    let p ← targetPlace s t
    let rt ← lowerExpr s rhs
    widen p.type rt
    store p
  | .cond c th el _ => do
    let elseL ← Emitter.newLabel
    let _ ← lowerExpr s c
    Emitter.emit (.ifFalse elseL)
    lowerStmt s th
    match el with
    | some e => do
      let endL ← Emitter.newLabel
      Emitter.emit (.goto endL)
      Emitter.label elseL
      lowerStmt s e
      Emitter.label endL
    | none => Emitter.label elseL
  | .loop v _ a d b body _ => do
    let condL ← Emitter.newLabel
    let contL ← Emitter.newLabel
    let brkL ← Emitter.newLabel
    let p ← identPlace s v
    let _ ← lowerExpr s a
    store p
    Emitter.label condL
    let _ ← loadIdent s v
    let _ ← lowerExpr s b
    Emitter.emit (.ifICmp (if d == .up then .gt else .lt) brkL)
    Emitter.onFrame (·.enterLoop contL brkL)
    lowerStmt s body
    Emitter.onFrame (·.exitLoop)
    Emitter.label contL
    stepVar s v d
    Emitter.emit (.goto condL)
    Emitter.label brkL
  | .brk _ => do
    let l ← Emitter.liftExcept (← get).frame.loops.brkLabel
    Emitter.emit (.goto l)
  | .cont _ => do
    let l ← Emitter.liftExcept (← get).frame.loops.contLabel
    Emitter.emit (.goto l)
  | .ret v _ => lowerReturn s v
  | .block ds ss _ => do
    let ls ← Emitter.enterBlock
    let ps ← declareLocals ls ds
    Emitter.label ls.start
    initLocals s ps
    lowerStmts s ss
    Emitter.label ls.stop
    let _ ← Emitter.exitBlock
    pure ()
  | .invoke c _ => do
    let t ← lowerExpr s c.toExpr
    if !t.isVoid then Emitter.emit .pop

def lowerStmts (s : Site) : List Stmt → EmitM Unit
  | [] => pure ()
  | st :: sts => do
    lowerStmt s st
    lowerStmts s sts

end

end Lower

end ClassLang
