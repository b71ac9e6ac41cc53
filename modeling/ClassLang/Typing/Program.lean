import ClassLang.Typing.Stmt
import ClassLang.Options
import ClassLang.Log

namespace ClassLang

def checkAttrInit (cx : Context) (d : AttrDecl) (init : Expr) : Except CompileError Unit := do
  if !d.isFinal then
    let t ← checkExpr cx init
    if !cx.fits d.type t then throw (.mismatchInStatement d.text d.span)
  else
    if let .lit .nil _ := init then throw (.illegalConstant init.text init.span)
    if !isAttrConstant cx init then throw (.illegalConstant d.text d.span)
    let t ← match checkExpr cx init with
      | .error (.mismatchInExpression ..) => throw (.mismatchInConstant d.text d.span)
      | r => r
    if !cx.fits d.type t then throw (.mismatchInConstant d.text d.span)

def checkAttrDecl (cx : Context) (d : AttrDecl) : Except CompileError Unit := do
  requireClasses cx.table d.span d.type
  d.vars.forM fun v ↦ match v.init with
    | some init =>
      checkAttrInit { cx.enterRoutine .attrInit d.type d.isStatic with initAttr := some v.name } d init
    | none => pure ()

def checkRoutineBody (cx : Context) (params : List Param) (body : Block) :
    Except CompileError Unit := do
  let cx ← params.foldlM (fun cx p ↦ do
    requireClasses cx.table p.span p.type
    let s ← cx.scopes.declareParam p.name p.type p.span
    pure { cx with scopes := s }) { cx with scopes := cx.scopes.push }
  checkBlockContent cx body

def checkMethod (cx : Context) (m : MethodDecl) : Except CompileError Unit :=
  checkRoutineBody (cx.enterRoutine .method m.ret m.isStatic) m.params m.body

def checkCtor (cx : Context) (c : CtorDecl) : Except CompileError Unit :=
  if cx.classType.className? != some c.name then .error (.mismatchInStatement c.text c.span)
  else checkRoutineBody (cx.enterRoutine .ctor cx.classType false) c.params c.body

def checkDtor (cx : Context) (d : DtorDecl) : Except CompileError Unit :=
  if cx.cls != some d.name then .error (.mismatchInStatement d.text d.span)
  else checkRoutineBody (cx.enterRoutine .dtor .void false) [] d.body

def checkMember (cx : Context) : Member → Logged Unit
  | .attr d => Logged.lift (checkAttrDecl cx d)
  | .method m => do
    Logged.write .trace ("checking method " ++ m.text)
    Logged.lift (checkMethod cx m)
  | .ctor c => do
    Logged.write .trace ("checking constructor " ++ c.text)
    Logged.lift (checkCtor cx c)
  | .dtor d => do
    Logged.write .trace ("checking destructor " ++ d.text)
    Logged.lift (checkDtor cx d)

def Context.enterClass (cx : Context) (c : ClassDecl) : Context :=
  { cx with cls := some c.name, scopes := cx.scopes.push.bind "this" ⟨.cls c.name, true, c.span⟩ }

def checkClass (cx : Context) (c : ClassDecl) : Logged Unit := do
  Logged.write .debug ("checking class " ++ c.name)
  c.members.forM (checkMember (cx.enterClass c))

/-- Checks a program against its class table. -/
def checkProgram (t : ClassTable) (opts : Options) (p : Program) : Logged Unit := do
  p.classes.forM (checkClass (Context.start t))
  if opts.requireEntry && t.entry.isNone then throw .noEntryPoint

end ClassLang
