import ClassLang.Proofs.Machine

namespace ClassLang.Proofs.IntSemantics

open ClassLang Machine

abbrev Scope := List (String × Ty)

def isIntOrBool (t : Ty) : Bool := t == .int || t == .bool

def fitsInt (v : Int) : Bool := -2147483648 ≤ v && v < 2147483648

/-- The type of an expression of the fragment, or `none` outside it: literals within 32 bits,
int and boolean names in scope, `-` and `!`, and the binary operators but `/`, typed by the
checker's own operator rules. -/
def typeOf (Γ : Scope) : Expr → Option Ty
  | .lit (.int v) _ => if fitsInt v then some .int else none
  | .lit (.bool _) _ => some .bool
  | .ident n _ => (Γ.lookup n).filter isIntOrBool
  | .paren e _ => typeOf Γ e
  | .unary op a _ => if op = .plus then none else (typeOf Γ a).bind op.result
  | .binary op l r _ =>
    if op = .div then none else (typeOf Γ l).bind fun tl ↦ (typeOf Γ r).bind (op.result tl)
  | _ => none

/-- The locals declarations introduce, in order, with their types and initializers. -/
def declared (ds : List VarDecl) : List (String × Ty × Option Expr) :=
  ds.flatMap fun d ↦ d.vars.map fun v ↦ (v.name, d.type, v.init)

/-- The scope once locals come into scope one by one, each initializer typed in the scope before
its own local; `none` when a local is not int or boolean or its initializer has another type. -/
def scopeAfter (Γ : Scope) : List (String × Ty × Option Expr) → Option Scope
  | [] => some Γ
  | (n, t, init) :: ls =>
    if isIntOrBool t && init.all (typeOf Γ · == some t) then scopeAfter ((n, t) :: Γ) ls
    else none

mutual

/-- Whether a statement belongs to the fragment, in scope `Γ` of a routine with result type
`rt`. -/
def stmtOk (Γ : Scope) (rt : Ty) : Stmt → Bool
  | .assign (.ident n _) rhs _ => (Γ.lookup n).any fun t ↦ isIntOrBool t && typeOf Γ rhs == some t
  | .cond c th el _ =>
    typeOf Γ c == some .bool && stmtOk Γ rt th &&
      match el with
      | some e => stmtOk Γ rt e
      | none => true
  | .loop v _ a _ b body _ =>
    Γ.lookup v == some .int && typeOf Γ a == some .int && typeOf Γ b == some .int &&
      stmtOk Γ rt body
  | .brk _ | .cont _ => true
  | .ret none _ => rt.isVoid
  | .ret (some e) _ => isIntOrBool rt && typeOf Γ e == some rt
  | .block ds ss _ =>
    match scopeAfter Γ (declared ds) with
    | some Γ' => stmtsOk Γ' rt ss
    | none => false
  | _ => false

def stmtsOk (Γ : Scope) (rt : Ty) : List Stmt → Bool
  | [] => true
  | st :: sts => stmtOk Γ rt st && stmtsOk Γ rt sts

end

def paramsScope (ps : List Param) : Scope := (ps.map fun p ↦ (p.name, p.type)).reverse

/-- Whether a method belongs to the fragment: int or boolean parameters, an int, boolean or void
result, and a body of the fragment. -/
def intMethod (m : MethodDecl) : Bool :=
  m.params.all (isIntOrBool ·.type) && (isIntOrBool m.ret || m.ret.isVoid) &&
    match scopeAfter (paramsScope m.params) (declared m.body.decls) with
    | some Γ => stmtsOk Γ m.ret m.body.stmts
    | none => false

mutual

def stmtSlots : Stmt → Nat
  | .cond _ th el _ =>
    stmtSlots th +
      match el with
      | some e => stmtSlots e
      | none => 0
  | .loop _ _ _ _ _ body _ => stmtSlots body
  | .block ds ss _ => (declared ds).length + stmtsSlots ss
  | _ => 0

def stmtsSlots : List Stmt → Nat
  | [] => 0
  | st :: sts => stmtSlots st + stmtsSlots sts

end

/-- The first slot free for parameters: slot 0 holds `this`, or the argument array of the entry
point, unless the method is static. -/
def firstSlot (m : MethodDecl) : Nat := if m.isStatic && !m.isEntryPoint then 0 else 1

/-- The number of slots a method's routine uses: the first ones, one per parameter, and one per
local declared anywhere in its body. -/
def slotCount (m : MethodDecl) : Nat :=
  firstSlot m + m.params.length + (declared m.body.decls).length + stmtsSlots m.body.stmts

inductive Val where
  | int (w : Word)
  | bool (b : Bool)
  deriving DecidableEq

def Val.word : Val → Word
  | .int w => w
  | .bool b => if b then 1 else 0

/-- How an evaluation goes wrong: a division by zero, or no rule applies, for an operand of the
wrong type or a name out of scope. -/
inductive Fault where
  | divZero
  | stuck
  deriving DecidableEq

def Val.asBool : Val → Except Fault Bool
  | .bool b => .ok b
  | .int _ => .error .stuck

def wrap (x : Int) : Word := BitVec.ofInt 32 x

abbrev Env := List (String × Val)

def assign : Env → String → Val → Env
  | [], _, _ => []
  | (m, u) :: ρ, n, v => if m = n then (m, v) :: ρ else (m, u) :: assign ρ n v

def unaryVal : UnOp → Val → Except Fault Val
  | .neg, .int a => .ok (.int (wrap (-a.toInt)))
  | .not, .bool b => .ok (.bool !b)
  | _, _ => .error .stuck

/-- A binary operator other than `&&` and `||` on two values: arithmetic on the integers the words
stand for, wrapped to 32 bits, `\` and `%` truncating toward zero; comparisons of integers; and
equality of two integers or two booleans. -/
def binaryVal : BinOp → Val → Val → Except Fault Val
  | .add, .int a, .int b => .ok (.int (wrap (a.toInt + b.toInt)))
  | .sub, .int a, .int b => .ok (.int (wrap (a.toInt - b.toInt)))
  | .mul, .int a, .int b => .ok (.int (wrap (a.toInt * b.toInt)))
  | .intDiv, .int a, .int b =>
    if b.toInt = 0 then .error .divZero else .ok (.int (wrap (a.toInt.tdiv b.toInt)))
  | .mod, .int a, .int b =>
    if b.toInt = 0 then .error .divZero else .ok (.int (wrap (a.toInt.tmod b.toInt)))
  | .lt, .int a, .int b => .ok (.bool (decide (a.toInt < b.toInt)))
  | .le, .int a, .int b => .ok (.bool (decide (a.toInt ≤ b.toInt)))
  | .gt, .int a, .int b => .ok (.bool (decide (b.toInt < a.toInt)))
  | .ge, .int a, .int b => .ok (.bool (decide (b.toInt ≤ a.toInt)))
  | .eq, .int a, .int b => .ok (.bool (a == b))
  | .eq, .bool a, .bool b => .ok (.bool (a == b))
  | .ne, .int a, .int b => .ok (.bool (a != b))
  | .ne, .bool a, .bool b => .ok (.bool (a != b))
  | _, _, _ => .error .stuck

def eval (ρ : Env) : Expr → Except Fault Val
  | .lit (.int v) _ => .ok (.int (wrap v))
  | .lit (.bool b) _ => .ok (.bool b)
  | .ident n _ =>
    match ρ.lookup n with
    | some v => .ok v
    | none => .error .stuck
  | .paren e _ => eval ρ e
  | .unary op a _ => (eval ρ a).bind (unaryVal op)
  | .binary op l r _ =>
    if op.isLogical then
      -- the right operand only counts when the left one does not decide
      (eval ρ l).bind fun a ↦ a.asBool.bind fun b ↦
        if b = (op == .or) then .ok (.bool b) else (eval ρ r).bind fun c ↦ c.asBool.map .bool
    else (eval ρ l).bind fun a ↦ (eval ρ r).bind (binaryVal op a)
  | _ => .error .stuck

def zeroOf (t : Ty) : Val := if t = .bool then .bool false else .int 0

def initValue (ρ : Env) (t : Ty) : Option Expr → Except Fault Val
  | some e => eval ρ e
  | none => .ok (zeroOf t)

/-- The variables once locals come into scope one by one, each with its first value in the scope
before it. -/
def declare (ρ : Env) : List (String × Ty × Option Expr) → Except Fault Env
  | [] => .ok ρ
  | (n, t, init) :: ls => (initValue ρ t init).bind fun v ↦ declare ((n, v) :: ρ) ls

/-- Whether a `for` loop runs its body once more: its variable is at most the bound going up,
at least the bound going down. -/
def continues : Direction → Word → Word → Bool
  | .up, x, y => decide (x.toInt ≤ y.toInt)
  | .down, x, y => decide (y.toInt ≤ x.toInt)

def stepped : Direction → Word → Word
  | .up, x => wrap (x.toInt + 1)
  | .down, x => wrap (x.toInt - 1)

inductive Task where
  | stmt (st : Stmt)
  | seq (sts : List Stmt)
  | rounds (v : String) (d : Direction) (bound : Expr) (body : Stmt)

inductive Outcome where
  | normal
  | brk
  | cont
  | ret (v : Option Val)
  | fault
  deriving DecidableEq

def Passes (ρ : Env) (v : String) (d : Direction) (b : Expr) : Prop :=
  ∃ x y, ρ.lookup v = some (.int x) ∧ eval ρ b = .ok (.int y) ∧ continues d x y = true

inductive Exec : Env → Task → Env → Outcome → Prop where
  | assign {ρ : Env} {n : String} {nsp : Span} {rhs : Expr} {sp : Span} {v : Val}
      (hn : (ρ.lookup n).isSome) (hv : eval ρ rhs = .ok v) :
      Exec ρ (.stmt (.assign (.ident n nsp) rhs sp)) (assign ρ n v) .normal
  | assignFault {ρ : Env} {n : String} {nsp : Span} {rhs : Expr} {sp : Span}
      (hv : eval ρ rhs = .error .divZero) :
      Exec ρ (.stmt (.assign (.ident n nsp) rhs sp)) ρ .fault
  | condTrue {ρ ρ' : Env} {c : Expr} {th : Stmt} {el : Option Stmt} {sp : Span} {o : Outcome}
      (hc : eval ρ c = .ok (.bool true)) (h : Exec ρ (.stmt th) ρ' o) :
      Exec ρ (.stmt (.cond c th el sp)) ρ' o
  | condFalse {ρ ρ' : Env} {c : Expr} {th el : Stmt} {sp : Span} {o : Outcome}
      (hc : eval ρ c = .ok (.bool false)) (h : Exec ρ (.stmt el) ρ' o) :
      Exec ρ (.stmt (.cond c th (some el) sp)) ρ' o
  | condSkip {ρ : Env} {c : Expr} {th : Stmt} {sp : Span} (hc : eval ρ c = .ok (.bool false)) :
      Exec ρ (.stmt (.cond c th none sp)) ρ .normal
  | condFault {ρ : Env} {c : Expr} {th : Stmt} {el : Option Stmt} {sp : Span}
      (hc : eval ρ c = .error .divZero) : Exec ρ (.stmt (.cond c th el sp)) ρ .fault
  | loop {ρ ρ' : Env} {v : String} {vsp : Span} {a : Expr} {d : Direction} {b : Expr}
      {body : Stmt} {sp : Span} {w : Word} {o : Outcome} (hn : (ρ.lookup v).isSome)
      (ha : eval ρ a = .ok (.int w)) (h : Exec (assign ρ v (.int w)) (.rounds v d b body) ρ' o) :
      Exec ρ (.stmt (.loop v vsp a d b body sp)) ρ' o
  | loopFault {ρ : Env} {v : String} {vsp : Span} {a : Expr} {d : Direction} {b : Expr}
      {body : Stmt} {sp : Span} (ha : eval ρ a = .error .divZero) :
      Exec ρ (.stmt (.loop v vsp a d b body sp)) ρ .fault
  | brk {ρ : Env} {sp : Span} : Exec ρ (.stmt (.brk sp)) ρ .brk
  | cont {ρ : Env} {sp : Span} : Exec ρ (.stmt (.cont sp)) ρ .cont
  | retVoid {ρ : Env} {sp : Span} : Exec ρ (.stmt (.ret none sp)) ρ (.ret none)
  | ret {ρ : Env} {e : Expr} {sp : Span} {v : Val} (he : eval ρ e = .ok v) :
      Exec ρ (.stmt (.ret (some e) sp)) ρ (.ret (some v))
  | retFault {ρ : Env} {e : Expr} {sp : Span} (he : eval ρ e = .error .divZero) :
      Exec ρ (.stmt (.ret (some e) sp)) ρ .fault
  | block {ρ ρ₁ ρ₂ : Env} {ds : List VarDecl} {ss : List Stmt} {sp : Span} {o : Outcome}
      (hd : declare ρ (declared ds) = .ok ρ₁) (h : Exec ρ₁ (.seq ss) ρ₂ o) :
      Exec ρ (.stmt (.block ds ss sp)) (ρ₂.drop (ρ₂.length - ρ.length)) o
  | blockFault {ρ : Env} {ds : List VarDecl} {ss : List Stmt} {sp : Span}
      (hd : declare ρ (declared ds) = .error .divZero) : Exec ρ (.stmt (.block ds ss sp)) ρ .fault
  | nil {ρ : Env} : Exec ρ (.seq []) ρ .normal
  | next {ρ ρ₁ ρ₂ : Env} {st : Stmt} {sts : List Stmt} {o : Outcome}
      (h : Exec ρ (.stmt st) ρ₁ .normal) (hs : Exec ρ₁ (.seq sts) ρ₂ o) :
      Exec ρ (.seq (st :: sts)) ρ₂ o
  | stop {ρ ρ₁ : Env} {st : Stmt} {sts : List Stmt} {o : Outcome}
      (h : Exec ρ (.stmt st) ρ₁ o) (ho : o ≠ .normal) : Exec ρ (.seq (st :: sts)) ρ₁ o
  | exit {ρ : Env} {v : String} {d : Direction} {b : Expr} {body : Stmt} {x y : Word}
      (hv : ρ.lookup v = some (.int x)) (hb : eval ρ b = .ok (.int y))
      (ht : continues d x y = false) : Exec ρ (.rounds v d b body) ρ .normal
  | boundFault {ρ : Env} {v : String} {d : Direction} {b : Expr} {body : Stmt}
      (hb : eval ρ b = .error .divZero) : Exec ρ (.rounds v d b body) ρ .fault
  | broke {ρ ρ₁ : Env} {v : String} {d : Direction} {b : Expr} {body : Stmt}
      (ht : Passes ρ v d b) (h : Exec ρ (.stmt body) ρ₁ .brk) :
      Exec ρ (.rounds v d b body) ρ₁ .normal
  | left {ρ ρ₁ : Env} {v : String} {d : Direction} {b : Expr} {body : Stmt} {o : Outcome}
      (ht : Passes ρ v d b) (h : Exec ρ (.stmt body) ρ₁ o) (ho : o = .fault ∨ ∃ r, o = .ret r) :
      Exec ρ (.rounds v d b body) ρ₁ o
  | round {ρ ρ₁ ρ₂ : Env} {v : String} {d : Direction} {b : Expr} {body : Stmt} {o o' : Outcome}
      {x : Word} (ht : Passes ρ v d b) (h : Exec ρ (.stmt body) ρ₁ o)
      (ho : o = .normal ∨ o = .cont) (hv : ρ₁.lookup v = some (.int x))
      (hr : Exec (assign ρ₁ v (.int (stepped d x))) (.rounds v d b body) ρ₂ o') :
      Exec ρ (.rounds v d b body) ρ₂ o'

def paramsEnv (ps : List Param) (args : List Val) : Env :=
  ((ps.zip args).map fun (p, v) ↦ (p.name, v)).reverse

/-- How a routine ends: it returns, with a value or none, or raises the exception of a division
by zero. -/
inductive Ending where
  | ret (v : Option Val)
  | fault

/-- How a routine with result type `rt` ends when its body ends with `o`. Falling off the end
returns nothing from a routine without result; falling off a routine with a result, or a `break`
or `continue` outside loops, is no ending. -/
def Outcome.ending (rt : Ty) : Outcome → Option Ending
  | .normal => if rt.isVoid then some (.ret none) else none
  | .ret v => some (.ret v)
  | .fault => some .fault
  | _ => none

/-- A method run on one value per parameter ends with `en`, its parameters and the locals of its
body holding `ρ`. When an initializer of the body's locals fails, only the parameters are
there. -/
inductive MethodRun (m : MethodDecl) (args : List Val) : Env → Ending → Prop where
  | body {ρ₁ ρ₂ : Env} {o : Outcome} {en : Ending} (ha : args.length = m.params.length)
      (hd : declare (paramsEnv m.params args) (declared m.body.decls) = .ok ρ₁)
      (hx : Exec ρ₁ (.seq m.body.stmts) ρ₂ o) (he : o.ending m.ret = some en) :
      MethodRun m args ρ₂ en
  | initFault (ha : args.length = m.params.length)
      (hd : declare (paramsEnv m.params args) (declared m.body.decls) = .error .divZero) :
      MethodRun m args (paramsEnv m.params args) .fault

end ClassLang.Proofs.IntSemantics
