import ClassLang.Lowering.Basic
import ClassLang.Typing.Operators

namespace ClassLang

namespace Lower

def logical (op : BinOp) (lhs rhs : EmitM Ty) : EmitM Ty := do
  let short ← Emitter.newLabel
  let stop ← Emitter.newLabel
  let (c, v) : Cond × Int := if op == .and then (.eq, 0) else (.ne, 1)
  let _ ← lhs
  Emitter.emit (.ifZero c short)
  let _ ← rhs
  Emitter.emit (.goto stop)
  Emitter.label short
  Emitter.rewind (-1)
  Emitter.emit (.pushInt v)
  Emitter.label stop
  return .bool

/-- A comparison of the left value on the stack with the captured right one. Floats compare
through `fcmpg`/`fcmpl`, chosen so that NaN makes every comparison false. -/
def compare (op : BinOp) (lhs : Ty) (rhs : Captured) : EmitM Unit := do
  let some c := Cond.ofBinOp? op
    | throw (.internal ("`" ++ op.text ++ "` is not a comparison"))
  let yes ← Emitter.newLabel
  let stop ← Emitter.newLabel
  if lhs.isFloat || rhs.type.isFloat then
    widen .float lhs
    replay rhs (some .float)
    Emitter.emit (.fcmp (c == .lt || c == .le))
    Emitter.emit (.ifZero c yes)
  else
    replay rhs none
    match ValueKind.of lhs with
    | .ref => Emitter.emit (.ifACmp c yes)
    | _ => Emitter.emit (.ifICmp c yes)
  Emitter.emit (.pushInt 0)
  Emitter.emit (.goto stop)
  Emitter.label yes
  Emitter.rewind (-1)
  Emitter.emit (.pushInt 1)
  Emitter.label stop

/-- A binary operator other than `&&` and `||`, the left value on the stack and the right one
captured. `/` always divides floats; `\` on floats truncates the quotient and stays a float. -/
def binary (op : BinOp) (lhs : Ty) (rhs : Captured) : EmitM Ty := do
  let some r := op.result lhs rhs.type
    | throw (.internal ("untyped operands in `" ++ op.text ++ "`"))
  if op == .concat then
    replay rhs none
    Emitter.emit (.invokeVirtual (stringClass ++ "/concat") [.string] .string)
    return .string
  else if op.isRelational || op.isEquality then
    compare op lhs rhs
    return .bool
  else if op == .div then
    widen .float lhs
    replay rhs (some .float)
    Emitter.arithmetic .div .float
    return .float
  else
    let k := ValueKind.of r
    widen r lhs
    replay rhs (some r)
    Emitter.arithmetic op k
    if op == .intDiv && k == .float then
      Emitter.emit .f2i
      Emitter.emit .i2f
    return r

def unary (op : UnOp) (t : Ty) : EmitM Unit :=
  match op with
  | .plus => pure ()
  | .neg => Emitter.emit (.neg (ValueKind.of t))
  | .not => do
    Emitter.emit (.pushInt 1)
    Emitter.emit .ixor

def literal : Literal → EmitM Ty
  | .int v => do Emitter.emit (.pushInt v); return .int
  | .float v => do Emitter.emit (.pushFloat v); return .float
  | .bool b => do Emitter.emit (.pushInt (if b then 1 else 0)); return .bool
  | .str v => do Emitter.emit (.pushString v); return .string
  | .nil => do Emitter.emit .pushNull; return .nil

def fillArray (elem : Ty) : Nat → List Captured → EmitM Unit
  | _, [] => pure ()
  | i, c :: cs => do
    Emitter.emit .dup
    Emitter.emit (.pushInt i)
    replay c (some elem)
    Emitter.emit (.arrayStore elem)
    fillArray elem (i + 1) cs

def replayArgs : List (Captured × Ty) → EmitM Unit
  | [] => pure ()
  | (c, p) :: rest => do
    replay c (some p)
    replayArgs rest

/-- The parameter types a `new` of class `c` passes its captured arguments to. -/
def ctorParams (s : Site) (c : String) (args : List Captured) : EmitM (List Ty) :=
  let ts := args.map (·.type)
  match s.table.resolveCtor c ts with
  | some k => pure k.sig.types
  | none =>
    if ts.isEmpty then pure []
    else throw (.internal ("no constructor of " ++ c ++ " accepts " ++ toString ts.length ++
      " arguments"))

/-- The operand a chain starts from: a class named by its base, the console, or else the value
`act` pushes. -/
def chainBase (s : Site) (b : Expr) (act : EmitM Ty) : EmitM Operand := do
  match b.unparen with
  | .ident n _ =>
    match s.resolve (← get).frame n with
    | .ok (.cls c) => return .cls c
    | _ =>
      match ← resolve s n with
      | .console => return .cls Console.className
      | _ => return .value (← act)
  | _ => return .value (← act)

def checkArity (params : List Ty) (args : List Expr) : EmitM Unit :=
  if args.length == params.length then pure ()
  else throw (.internal ("expected " ++ toString params.length ++ " arguments, found " ++
    toString args.length))

def consoleTarget (s : Site) (b : Console.Builtin) : String :=
  match b.target with
  | .runtime m => s.opts.consoleRuntime ++ "/" ++ m
  | .host p => p

mutual

/-- Pushes the value of an expression and returns its type without reference. -/
def lowerExpr (s : Site) : Expr → EmitM Ty
  | .lit l _ => literal l
  | .ident n _ => loadIdent s n
  | .this _ => do
    Emitter.loadLocal s.thisType 0
    return s.thisType
  | .binary op l r _ =>
    if op.isLogical then logical op (lowerExpr s l) (lowerExpr s r)
    else do
      let lt ← lowerExpr s l
      let rc ← capture 0 (lowerExpr s r)
      binary op lt rc
  | .unary op a _ => do
    let t ← lowerExpr s a
    unary op t
    return t
  | .chain b ss _ => do
    let base ← chainBase s b (lowerExpr s b)
    match ← lowerSteps s base ss with
    | .value t => return t
    | .cls c => throw (.internal ("class `" ++ c ++ "` used as a value"))
  | .array es _ => do
    let cs ← captureList s 3 0 es
    let elem := match cs with
      | c :: _ => c.type
      | [] => .void
    Emitter.newArray elem cs.length
    fillArray elem 0 cs
    return .array elem cs.length
  | .new c as _ => do
    let cs ← captureList s 2 1 as
    let ps ← ctorParams s c cs
    Emitter.emit (.new c)
    Emitter.emit .dup
    replayArgs (cs.zip ps)
    Emitter.emit (.invokeSpecial (c ++ "/<init>") ps)
    return .cls c
  | .paren e _ => lowerExpr s e

/-- Captures expressions in order, the first as if `above` values sat over it, each next one
`step` more. -/
def captureList (s : Site) (above step : Int) : List Expr → EmitM (List Captured)
  | [] => pure []
  | e :: es => do
    let c ← capture above (lowerExpr s e)
    let cs ← captureList s (above + step) step es
    return c :: cs

def lowerArgs (s : Site) : List Expr → List Ty → EmitM Unit
  | e :: es, p :: ps => do
    let t ← lowerExpr s e
    widen p t
    lowerArgs s es ps
  | _, _ => pure ()

def lowerSteps (s : Site) : Operand → List Step → EmitM Operand
  | op, [] => pure op
  | op, st :: rest => do
    let next ← match st with
      | .member n _ => do
        let c ← Emitter.liftExcept (accessedClass op)
        match s.table.findAttr c n with
        | none => throw (.internal ("unresolved attribute " ++ c ++ "." ++ n))
        | some (h, a) =>
          if a.isStatic then
            dropReceiver op
            Emitter.emit (.getStatic h.name a.name a.type)
          else Emitter.emit (.getField h.name a.name a.type)
          pure (Operand.value a.type.deref)
      | .index i _ =>
        match op with
        | .cls _ => throw (.internal "indexing a class name")
        | .value t => do
          let elem ← Emitter.liftExcept (elementOf t)
          let _ ← lowerExpr s i
          Emitter.emit (.arrayLoad elem)
          pure (Operand.value elem)
      | .call n as _ => do
        let c ← Emitter.liftExcept (accessedClass op)
        if s.table.isBuiltin c then
          dropReceiver op
          match Console.builtin? n with
          | none => throw (.internal ("unknown I/O method " ++ n))
          | some b =>
            let ps := b.params.map Ty.prim
            checkArity ps as
            lowerArgs s as ps
            Emitter.emit (.invokeStatic (consoleTarget s b) ps (.prim b.ret))
            pure (Operand.value (.prim b.ret))
        else
          match s.table.findMethod c n with
          | none => throw (.internal ("unresolved method " ++ c ++ "." ++ n))
          | some (h, m) => do
            if m.isStatic then dropReceiver op
            checkArity m.params as
            lowerArgs s as m.params
            if m.isStatic then Emitter.emit (.invokeStatic (h.name ++ "/" ++ n) m.params m.ret)
            else Emitter.emit (.invokeVirtual (c ++ "/" ++ n) m.params m.ret)
            pure (Operand.value m.ret.deref)
    lowerSteps s next rest

end

def chainPlace (s : Site) (c : Chain) : EmitM Place := do
  let notAssignable : CompileError := .internal ("`" ++ c.text ++ "` is not assignable")
  match c.steps.getLast? with
  | none => throw notAssignable
  | some last =>
    let base ← chainBase s c.base (lowerExpr s c.base)
    let op ← lowerSteps s base c.steps.dropLast
    match last, op with
    | .member n _, op => do
      let k ← Emitter.liftExcept (accessedClass op)
      match s.table.findAttr k n with
      | none => throw (.internal ("unresolved attribute " ++ k ++ "." ++ n))
      | some (h, a) =>
        if a.isStatic then
          dropReceiver op
          return .static h.name a.name a.type
        else return .field h.name a.name a.type
    | .index i _, .value t => do
      let elem ← Emitter.liftExcept (elementOf t)
      let _ ← lowerExpr s i
      return .element elem
    | _, _ => throw notAssignable

end Lower

end ClassLang
