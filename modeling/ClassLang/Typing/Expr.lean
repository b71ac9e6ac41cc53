import ClassLang.Typing.Context
import ClassLang.Typing.Operators

namespace ClassLang

def Literal.type : Literal → Ty
  | .int _ => .int
  | .float _ => .float
  | .bool _ => .bool
  | .str _ => .string
  | .nil => .nil

/-- How a chain reaches the members of the class it is on. -/
inductive Access where
  | static | console | self | value
  deriving DecidableEq, Repr, Inhabited

def Access.allows : Access → Bool → Bool
  | .static, s | .console, s => s
  | .self, _ => true
  | .value, s => !s

/-- What the errors of a chain quote: the chain, its base, and the assignment whose target it
is, if it is one. -/
structure ChainSite where
  text : String
  span : Span
  baseText : String
  baseSpan : Span
  target : Option (String × Span)
  deriving Repr, Inhabited

def ChainSite.of (base : Expr) (steps : List Step) (span : Span)
    (target : Option (String × Span)) : ChainSite :=
  ⟨(Chain.mk base steps span).text, span, base.text, base.span, target⟩

def ChainSite.mismatch (c : ChainSite) : CompileError := .mismatchInExpression c.text c.span

def accessedClass (cur : Ty) (acc : Access) : Option String :=
  if acc = .console then some Console.className else cur.className?

/-- The type and access of a chain base that names a class or the console binding; other bases
are typed as expressions. -/
def baseAccess (cx : Context) (b : Expr) : Option (Ty × Access) :=
  match b.unparen with
  | .ident n _ =>
    match cx.resolve n with
    | some (.cls c) => some (.cls c, .static)
    | some (.scoped bd) =>
      if n == Console.binding && bd.type.className? == some Console.className then
        some (bd.type, .console)
      else none
    | _ => none
  | _ => none

def Expr.isThisBase (b : Expr) : Bool :=
  match b.unparen with
  | .this _ => true
  | _ => false

mutual

/-- The type of an expression, or the first error in it. -/
def checkExpr (cx : Context) : Expr → Except CompileError Ty
  | .lit l _ => .ok l.type
  | e@(.ident n s) =>
    match cx.resolve n with
    | some (.cls _) => .error (.mismatchInExpression e.text e.span)
    | some (.scoped b) => .ok b.type.deref
    | some (.attr _ a) => .ok a.type.deref
    | none => .error (.undeclared .identifier n s)
  | .this s =>
    if cx.inStatic then .error (.illegalMemberAccess "this" s) else .ok cx.classType
  | e@(.binary op l r _) => do
    let lt ← checkExpr cx l
    let rt ← checkExpr cx r
    match op.result lt rt with
    | some t => .ok t
    | none => .error (.mismatchInExpression e.text e.span)
  | e@(.unary op a _) => do
    let t ← checkExpr cx a
    match op.result t with
    | some t => .ok t
    | none => .error (.mismatchInExpression e.text e.span)
  | .chain b ss s => do
    let (cur, acc) ← match baseAccess cx b with
      | some r => pure r
      | none => do
        let t ← checkExpr cx b
        pure (t, if b.isThisBase then Access.self else Access.value)
    walkSteps cx (ChainSite.of b ss s none) cur acc ss
  | e@(.array es s) =>
    match es with
    | [] => .ok (.array .void 0)
    | first :: rest => do
      let ft ← checkExpr cx first
      if ft.isError then .ok .error
      else do
        checkElems cx ft e.text s rest
        .ok (.array ft es.length)
  | e@(.new c as s) =>
    match cx.table.get? c with
    | none => .error (.undeclared .cls c s)
    | some r => do
      let ts ← checkArgs cx as
      let ok := if ts.isEmpty then r.hasDefaultCtor else (cx.table.resolveCtor c ts).isSome
      if ok then .ok (.cls c) else .error (.mismatchInExpression e.text e.span)
  | .paren e _ => checkExpr cx e

def checkArgs (cx : Context) : List Expr → Except CompileError (List Ty)
  | [] => .ok []
  | e :: es => do
    let t ← checkExpr cx e
    let ts ← checkArgs cx es
    .ok (t :: ts)

/-- Checks the later elements of an array literal against the first one's type `ft`; elements
of the error sentinel are passed over. -/
def checkElems (cx : Context) (ft : Ty) (text : String) (span : Span) :
    List Expr → Except CompileError Unit
  | [] => .ok ()
  | e :: es => do
    let t ← checkExpr cx e
    if t.isError || ft.sameAs t then checkElems cx ft text span es
    else .error (.illegalArrayLiteral text span)

def walkSteps (cx : Context) (site : ChainSite) (cur : Ty) (acc : Access) :
    List Step → Except CompileError Ty
  | [] => .ok cur
  | st :: rest =>
    if cur.isError then .ok .error
    else match st with
      | .member n sp => do
        let some c := accessedClass cur acc
          | .error (.mismatchInExpression site.baseText site.baseSpan)
        let some (_, a) := cx.findAttr c n
          | .error (.undeclared .attr n sp)
        if !acc.allows a.isStatic then .error (.illegalMemberAccess site.text site.span)
        else match site.target with
          | some (t, ts) =>
            if rest.isEmpty && a.isFinal then .error (.assignToConstant t ts)
            else walkSteps cx site a.type.deref .value rest
          | none => walkSteps cx site a.type.deref .value rest
      | .index i sp => do
        let it ← checkExpr cx i
        let some el := cur.element? | .error site.mismatch
        if !it.isError && !it.isInt then
          .error (.mismatchInExpression (Step.index i sp).text sp)
        else walkSteps cx site el .value rest
      | .call n as _ => do
        let ts ← checkArgs cx as
        let some c := accessedClass cur acc | .error site.mismatch
        let some (_, m) := cx.table.findMethod c n
          | .error (.undeclared .method n st.span)
        if !acc.allows m.isStatic then .error (.illegalMemberAccess site.text site.span)
        else if m.params.length == ts.length && (m.params.zip ts).all (fun (p, a) ↦ cx.fits p a)
        then walkSteps cx site m.ret.deref .value rest
        else .error site.mismatch

end

/-- Checks a chain that an assignment writes, quoting the assignment `assign` at `aspan`: a
target with a call is a mismatch of the chain. -/
def checkTargetChain (cx : Context) (c : Chain) (assign : String) (aspan : Span) :
    Except CompileError Ty :=
  let site := ChainSite.of c.base c.steps c.span (some (assign, aspan))
  if c.hasCall then .error site.mismatch
  else do
    let (cur, acc) ← match baseAccess cx c.base with
      | some r => pure r
      | none => do
        let t ← checkExpr cx c.base
        pure (t, if c.base.isThisBase then Access.self else Access.value)
    walkSteps cx site cur acc c.steps

def checkChain (cx : Context) (c : Chain) : Except CompileError Ty :=
  checkExpr cx c.toExpr

end ClassLang
