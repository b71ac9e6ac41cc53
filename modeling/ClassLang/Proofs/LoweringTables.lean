import ClassLang.Proofs.TableViews
import ClassLang.Compiler

namespace ClassLang

structure Site.Twin (s s' : Site) : Prop where
  table : s.table.Agree s'.table
  opts : s.opts = s'.opts
  cls : s.cls = s'.cls

namespace Site.Twin

variable {s s' : Site}

theorem thisType (h : Twin s s') : s.thisType = s'.thisType := by
  unfold Site.thisType
  rw [h.cls]

theorem resolve (h : Twin s s') : s.resolve = s'.resolve := by
  funext f n
  unfold Site.resolve
  rw [h.table.get, h.table.findAttr, h.cls]

theorem consoleTarget (h : Twin s s') : Lower.consoleTarget s = Lower.consoleTarget s' := by
  funext b
  unfold Lower.consoleTarget
  rw [h.opts]

end Site.Twin

namespace Proofs.LoweringTables

open Lower

variable {s s' : Site}

theorem resolve_twin (h : Site.Twin s s') (n : String) : resolve s n = resolve s' n := by
  unfold resolve
  rw [h.resolve]

theorem loadIdent_twin (h : Site.Twin s s') (n : String) : loadIdent s n = loadIdent s' n := by
  unfold loadIdent
  rw [resolve_twin h, h.thisType]

theorem identPlace_twin (h : Site.Twin s s') (n : String) : identPlace s n = identPlace s' n := by
  unfold identPlace
  rw [resolve_twin h, h.thisType]

theorem ctorParams_twin (h : Site.Twin s s') (c : String) (args : List Captured) :
    ctorParams s c args = ctorParams s' c args := by
  unfold ctorParams
  rw [h.table.resolveCtor]

theorem chainBase_twin (h : Site.Twin s s') (b : Expr) (act : EmitM Ty) :
    chainBase s b act = chainBase s' b act := by
  unfold chainBase
  simp only [h.resolve, resolve_twin h]

mutual

theorem lowerExpr_twin (h : Site.Twin s s') : ∀ e : Expr, lowerExpr s e = lowerExpr s' e
  | .lit _ _ => rfl
  | .ident n _ => by rw [lowerExpr, lowerExpr, loadIdent_twin h]
  | .this _ => by rw [lowerExpr, lowerExpr, h.thisType]
  | .binary op l r _ => by rw [lowerExpr, lowerExpr, lowerExpr_twin h l, lowerExpr_twin h r]
  | .unary op a _ => by rw [lowerExpr, lowerExpr, lowerExpr_twin h a]
  | .chain b ss _ => by
    rw [lowerExpr, lowerExpr, lowerExpr_twin h b, chainBase_twin h]
    simp only [lowerSteps_twin h ss]
  | .array es _ => by rw [lowerExpr, lowerExpr, captureList_twin h es]
  | .new c as _ => by
    rw [lowerExpr, lowerExpr, captureList_twin h as]
    simp only [ctorParams_twin h]
  | .paren e _ => by rw [lowerExpr, lowerExpr, lowerExpr_twin h e]

theorem captureList_twin (h : Site.Twin s s') :
    ∀ (es : List Expr) {above step : Int}, captureList s above step es = captureList s' above step es
  | [] => rfl
  | e :: es => by rw [captureList, captureList, lowerExpr_twin h e, captureList_twin h es]

theorem lowerArgs_twin (h : Site.Twin s s') :
    ∀ (es : List Expr) (ps : List Ty), lowerArgs s es ps = lowerArgs s' es ps
  | e :: es, p :: ps => by rw [lowerArgs, lowerArgs, lowerExpr_twin h e, lowerArgs_twin h es ps]
  | [], _ => rfl
  | _ :: _, [] => rfl

theorem lowerSteps_twin (h : Site.Twin s s') :
    ∀ (ss : List Step) (op : Operand), lowerSteps s op ss = lowerSteps s' op ss
  | [], _ => rfl
  | .member n _ :: rest, op => by
    simp only [lowerSteps, lowerSteps_twin h rest]
    rw [h.table.findAttr]
  | .index i _ :: rest, op => by
    simp only [lowerSteps, lowerExpr_twin h i, lowerSteps_twin h rest]
  | .call n as _ :: rest, op => by
    simp only [lowerSteps, lowerArgs_twin h as, lowerSteps_twin h rest]
    rw [h.table.isBuiltin, h.table.findMethod, h.consoleTarget]

end

theorem chainPlace_twin (h : Site.Twin s s') (c : Chain) : chainPlace s c = chainPlace s' c := by
  unfold chainPlace
  simp only [lowerExpr_twin h, chainBase_twin h, lowerSteps_twin h]
  rw [h.table.findAttr]

theorem initLocals_twin (h : Site.Twin s s') :
    ∀ ps : List Pending, initLocals s ps = initLocals s' ps
  | [] => rfl
  | p :: ps => by simp only [initLocals, lowerExpr_twin h, initLocals_twin h ps]

theorem stepVar_twin (h : Site.Twin s s') (v : String) (d : Direction) :
    stepVar s v d = stepVar s' v d := by
  unfold stepVar
  simp only [resolve_twin h, identPlace_twin h, loadIdent_twin h]

theorem lowerReturn_twin (h : Site.Twin s s') (v : Option Expr) :
    lowerReturn s v = lowerReturn s' v := by
  unfold lowerReturn
  simp only [lowerExpr_twin h]

theorem targetPlace_twin (h : Site.Twin s s') (t : Target) : targetPlace s t = targetPlace s' t := by
  cases t with
  | ident n _ => exact identPlace_twin h n
  | chain c => exact chainPlace_twin h c

mutual

theorem lowerStmt_twin (h : Site.Twin s s') : ∀ st : Stmt, lowerStmt s st = lowerStmt s' st
  | .assign t rhs _ => by simp only [Runs.lowerStmt_assign, targetPlace_twin h, lowerExpr_twin h]
  | .cond c th none _ => by
    simp only [Runs.lowerStmt_cond, Option.elim_none, lowerExpr_twin h, lowerStmt_twin h th]
  | .cond c th (some el) _ => by
    simp only [Runs.lowerStmt_cond, Option.elim_some, lowerExpr_twin h, lowerStmt_twin h th,
      lowerStmt_twin h el]
  | .loop v _ a d b body _ => by
    simp only [Runs.lowerStmt_loop, identPlace_twin h, lowerExpr_twin h, loadIdent_twin h,
      lowerStmt_twin h body, stepVar_twin h]
  | .brk _ => rfl
  | .cont _ => rfl
  | .ret v _ => by simp only [Runs.lowerStmt_ret, lowerReturn_twin h]
  | .block ds ss _ => by simp only [Runs.lowerStmt_block, initLocals_twin h, lowerStmts_twin h ss]
  | .invoke c _ => by simp only [Runs.lowerStmt_invoke, lowerExpr_twin h]

theorem lowerStmts_twin (h : Site.Twin s s') : ∀ sts : List Stmt, lowerStmts s sts = lowerStmts s' sts
  | [] => rfl
  | st :: sts => by simp only [lowerStmts, lowerStmt_twin h st, lowerStmts_twin h sts]

end

theorem lowerBody_twin (h : Site.Twin s s') (ls : BlockLabels) (b : Block) (prologue : EmitM Unit) :
    lowerBody s ls b prologue = lowerBody s' ls b prologue := by
  unfold lowerBody
  simp only [initLocals_twin h, lowerStmts_twin h]

theorem superCall_twin (h : Site.Twin s s') (parent : String) :
    superCall s parent = superCall s' parent := by
  unfold superCall
  rw [h.thisType]

theorem initAttributes_twin (h : Site.Twin s s') :
    ∀ as : List AttrInfo, initAttributes s as = initAttributes s' as
  | [] => rfl
  | a :: as => by
    simp only [initAttributes, initAttribute, h.thisType, lowerExpr_twin h, h.cls,
      initAttributes_twin h as]

theorem routine_twin (h : Site.Twin s s') (hd : MethodHeader) (r : Receiver)
    {body body' : BlockLabels → EmitM Unit} (hb : ∀ ls, body ls = body' ls) :
    routine s hd r body = routine s' hd r body' := by
  have ho : openRoutine s r = openRoutine s' r := by
    unfold openRoutine
    rw [h.thisType]
  unfold routine
  rw [ho, funext hb]

theorem lowerMethod_twin (h : Site.Twin s s') (m : MethodDecl) :
    lowerMethod s m = lowerMethod s' m := by
  unfold lowerMethod
  exact routine_twin h _ _ fun ls ↦ by simp only [lowerBody_twin h]

theorem lowerCtor_twin (h : Site.Twin s s') (parent : String) (attrs : List AttrInfo)
    (k : CtorDecl) : lowerCtor s parent attrs k = lowerCtor s' parent attrs k := by
  unfold lowerCtor
  exact routine_twin h _ _ fun ls ↦ by
    simp only [lowerBody_twin h, superCall_twin h, initAttributes_twin h]

theorem lowerDtor_twin (h : Site.Twin s s') (d : DtorDecl) : lowerDtor s d = lowerDtor s' d := by
  unfold lowerDtor
  exact routine_twin h _ _ fun ls ↦ by simp only [lowerBody_twin h]

theorem defaultCtor_twin (h : Site.Twin s s') (parent : String) (attrs : List AttrInfo) :
    defaultCtor s parent attrs = defaultCtor s' parent attrs := by
  unfold defaultCtor
  exact routine_twin h _ _ fun ls ↦ by simp only [superCall_twin h, initAttributes_twin h]

theorem staticInit_twin (h : Site.Twin s s') (attrs : List AttrInfo) :
    staticInit s attrs = staticInit s' attrs := by
  unfold staticInit
  exact routine_twin h _ _ fun ls ↦ by simp only [initAttributes_twin h]

theorem memberRoutine_twin (h : Site.Twin s s') (parent : String) (attrs : List AttrInfo) :
    memberRoutine s parent attrs = memberRoutine s' parent attrs := by
  funext m
  cases m with
  | attr _ => rfl
  | method m => simp only [memberRoutine, lowerMethod_twin h]
  | ctor k => simp only [memberRoutine, lowerCtor_twin h]
  | dtor d => simp only [memberRoutine, lowerDtor_twin h]

/-- A class is lowered to the same unit, with the same log, against two tables that agree. -/
theorem classLower_agree {t t' : ClassTable} (h : t.Agree t') (opts : Options) (c : ClassDecl) :
    c.lower t opts = c.lower t' opts := by
  unfold ClassDecl.lower
  rw [h.get c.name]
  cases t'.get? c.name with
  | none => rfl
  | some r =>
    have hs : Site.Twin ⟨t, opts, r.name⟩ ⟨t', opts, r.name⟩ := ⟨h, rfl, rfl⟩
    simp only [defaultCtor_twin hs, staticInit_twin hs, memberRoutine_twin hs]

end Proofs.LoweringTables

end ClassLang
