import ClassLang.Typing.Expr
import ClassLang.Typing.Constant

namespace ClassLang

def requireClasses (t : ClassTable) (span : Span) : Ty → Except CompileError Unit
  | .cls n => if t.contains n then .ok () else .error (.undeclared .cls n span)
  | .array e _ => requireClasses t span e
  | .ref i => requireClasses t span i
  | _ => .ok ()

/-- Checks the declarators of a local declaration `d` in order, adding each to the innermost
scope. -/
def checkDeclarators (d : VarDecl) : Context → List Declarator → Except CompileError Context
  | cx, [] => .ok cx
  | cx, v :: vs => do
    if (cx.scopes.lookupCurrent v.name).isSome then
      throw (.redeclared (if d.isFinal then .constant else .localVar) v.name v.span)
    match v.init with
    | some e =>
      if d.isFinal then
        if !isConstant cx e then throw (.illegalConstant e.text e.span)
        let t ← checkExpr cx e
        if !cx.fits d.type t then throw (.mismatchInConstant d.text d.span)
      else
        let t ← checkExpr cx e
        if !cx.fits d.type t then
          if t.isVoid then throw (.mismatchInExpression e.text e.span)
          else throw (.mismatchInStatement d.text d.span)
    | none => pure ()
    let s ← cx.scopes.declareLocal v.name d.type d.isFinal v.span
    checkDeclarators d { cx with scopes := s } vs

def checkVarDecls : Context → List VarDecl → Except CompileError Context
  | cx, [] => .ok cx
  | cx, d :: ds => do
    requireClasses cx.table d.span d.type
    let cx ← checkDeclarators d cx d.vars
    checkVarDecls cx ds

/-- The type of an assignment's target, for the assignment `text` at `span`. -/
def checkTarget (cx : Context) (t : Target) (text : String) (span : Span) :
    Except CompileError Ty :=
  match t with
  | .ident n sp =>
    match cx.resolve n with
    | some (.scoped b) => if b.isFinal then .error (.assignToConstant text span) else .ok b.type.deref
    | some (.attr _ a) => if a.isFinal then .error (.assignToConstant text span) else .ok a.type.deref
    | some (.cls _) => .error (.mismatchInStatement text span)
    | none => .error (.undeclared .identifier n sp)
  | .chain c => checkTargetChain cx c text span

def checkAssign (cx : Context) (t : Target) (rhs : Expr) (text : String) (span : Span) :
    Except CompileError Unit := do
  let (rt, held) ← match checkExpr cx rhs with
    | .ok ty => pure (ty, none)
    | .error e => if e.isPriority then throw e else pure (Ty.error, some e)
  let tt ← checkTarget cx t text span
  if let some e := held then throw e
  if rt.isError || tt.isError then return ()
  if !cx.fits tt rt then throw (.mismatchInStatement text span)

def checkReturn (cx : Context) (value : Option Expr) (text : String) (span : Span) :
    Except CompileError Unit := do
  let actual ← match value with
    | some e => some <$> checkExpr cx e
    | none => pure none
  let some r := cx.routine | return ()
  let bad : CompileError := .mismatchInStatement text span
  match actual with
  | none => if r.ret.isVoid || r.kind == .ctor then return () else throw bad
  | some t =>
    if t.isError then return ()
    else if r.ret.isVoid then throw bad
    else if cx.fits r.ret t then return ()
    else throw bad

def checkLoopVar (cx : Context) (v : String) (vspan : Span) (text : String) (span : Span) :
    Except CompileError Ty :=
  match cx.resolve v with
  | some (.scoped b) => if b.isFinal then .error (.assignToConstant text span) else .ok b.type.deref
  | some (.attr _ a) => if a.isFinal then .error (.assignToConstant text span) else .ok a.type
  | some (.cls _) => .error (.mismatchInStatement text span)
  | none => .error (.undeclared .identifier v vspan)

mutual

/-- Accepts a statement or gives its first error. -/
def checkStmt (cx : Context) : Stmt → Except CompileError Unit
  | .assign t rhs sp => checkAssign cx t rhs (Stmt.assign t rhs sp).text sp
  | .cond c th el sp => do
    let ct ← checkExpr cx c
    if !ct.isError && !ct.isBool then throw (.mismatchInStatement ("if " ++ c.text ++ " then") sp)
    checkStmt cx th
    match el with
    | some e => checkStmt cx e
    | none => pure ()
  | .loop v vsp a d b body sp => do
    let text := (Stmt.loop v vsp a d b body sp).text
    let vt ← checkLoopVar cx v vsp text sp
    if !vt.isInt then throw (.mismatchInStatement text sp)
    let st ← checkExpr cx a
    let bt ← checkExpr cx b
    if (!st.isError && !st.isInt) || (!bt.isError && !bt.isInt) then
      throw (.mismatchInStatement text sp)
    checkStmt { cx with loops := cx.loops + 1 } body
  | .brk sp => if cx.loops = 0 then .error (.mustInLoop "break" sp) else .ok ()
  | .cont sp => if cx.loops = 0 then .error (.mustInLoop "continue" sp) else .ok ()
  | .ret v sp => checkReturn cx v (Stmt.ret v sp).text sp
  | .block ds ss _ => do
    let cx ← checkVarDecls { cx with scopes := cx.scopes.push } ds
    checkStmts cx ss
  | .invoke c sp =>
    match checkChain cx c with
    | .ok _ => .ok ()
    | .error (.mismatchInExpression ..) => .error (.mismatchInStatement c.text sp)
    | .error e => .error e

def checkStmts (cx : Context) : List Stmt → Except CompileError Unit
  | [] => .ok ()
  | s :: ss => do
    checkStmt cx s
    checkStmts cx ss

end

def checkBlockContent (cx : Context) (b : Block) : Except CompileError Unit := do
  let cx ← checkVarDecls cx b.decls
  checkStmts cx b.stmts

end ClassLang
