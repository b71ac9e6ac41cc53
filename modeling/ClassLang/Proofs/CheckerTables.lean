import ClassLang.Proofs.TableViews
import ClassLang.Proofs.Checked

namespace ClassLang

structure Context.Twin (cx cx' : Context) : Prop where
  table : cx.table.Similar cx'.table
  scopes : cx.scopes = cx'.scopes
  cls : cx.cls = cx'.cls
  routine : cx.routine = cx'.routine
  loops : cx.loops = cx'.loops
  initAttr : cx.initAttr = cx'.initAttr

namespace Context.Twin

variable {cx cx' : Context}

theorem start {t t' : ClassTable} (h : t.Similar t') : Twin (Context.start t) (Context.start t') :=
  ⟨h, rfl, rfl, rfl, rfl, rfl⟩

theorem enterClass (h : Twin cx cx') {c c' : ClassDecl} (hn : c.name = c'.name)
    (hs : c.span = c'.span) : Twin (cx.enterClass c) (cx'.enterClass c') :=
  ⟨h.table, by simp only [Context.enterClass, h.scopes, hn, hs], by simp only [Context.enterClass, hn],
    h.routine, h.loops, h.initAttr⟩

theorem enterRoutine (h : Twin cx cx') (k : RoutineKind) (ret : Ty) (st : Bool) :
    Twin (cx.enterRoutine k ret st) (cx'.enterRoutine k ret st) :=
  ⟨h.table, h.scopes, h.cls, rfl, rfl, h.initAttr⟩

theorem withInitAttr (h : Twin cx cx') (a : Option String) :
    Twin { cx with initAttr := a } { cx' with initAttr := a } :=
  ⟨h.table, h.scopes, h.cls, h.routine, h.loops, rfl⟩

theorem withScopes (h : Twin cx cx') (s : ScopeStack) :
    Twin { cx with scopes := s } { cx' with scopes := s } :=
  ⟨h.table, rfl, h.cls, h.routine, h.loops, h.initAttr⟩

theorem push (h : Twin cx cx') :
    Twin { cx with scopes := cx.scopes.push } { cx' with scopes := cx'.scopes.push } := by
  rw [← h.scopes]
  exact h.withScopes _

theorem enterLoop (h : Twin cx cx') :
    Twin { cx with loops := cx.loops + 1 } { cx' with loops := cx'.loops + 1 } :=
  ⟨h.table, h.scopes, h.cls, h.routine, by rw [h.loops], h.initAttr⟩

theorem inStatic (h : Twin cx cx') : cx.inStatic = cx'.inStatic := by
  unfold Context.inStatic
  rw [h.routine]

theorem classType (h : Twin cx cx') : cx.classType = cx'.classType := by
  unfold Context.classType
  rw [h.cls]

theorem fits (h : Twin cx cx') (e a : Ty) : cx.fits e a = cx'.fits e a := by
  simp only [Context.fits, h.table.compatible]

theorem findAttr (h : Twin cx cx') (c n : String) :
    (cx.findAttr c n).map Prod.snd = (cx'.findAttr c n).map Prod.snd := by
  unfold Context.findAttr
  rw [h.cls, h.initAttr]
  split
  · rfl
  · exact h.table.findAttr c n

theorem resolve (h : Twin cx cx') (n : String) :
    cx.resolve n = cx'.resolve n ∨
      ∃ r r' a, cx.resolve n = some (.attr r a) ∧ cx'.resolve n = some (.attr r' a) := by
  unfold Context.resolve
  rcases h.table.get_cases n with ⟨h₁, h₂⟩ | ⟨r, r', h₁, h₂, hr⟩
  · simp only [h₁, h₂, h.scopes]
    cases cx'.scopes.lookup n with
    | some b => exact .inl rfl
    | none =>
      simp only [h.cls]
      cases cx'.cls with
      | none => exact .inl rfl
      | some c =>
        simp only
        rcases snd_agree_cases (h.findAttr c n) with ⟨h₃, h₄⟩ | ⟨x, x', a, h₃, h₄⟩
        · simp only [h₃, h₄, true_or]
        · simp only [h₃, h₄, h.inStatic]
          split
          · exact .inl rfl
          · exact .inr ⟨x, x', a, rfl, rfl⟩
  · simp only [h₁, h₂, hr.name, true_or]

theorem isFinalAttr (h : Twin cx cx') (n : String) : cx.isFinalAttr n = cx'.isFinalAttr n := by
  unfold Context.isFinalAttr
  rw [h.cls]
  cases cx'.cls with
  | none => rfl
  | some c =>
    rcases snd_agree_cases (h.findAttr c n) with ⟨h₁, h₂⟩ | ⟨_, _, a, h₁, h₂⟩
    · simp only [h₁, h₂]
    · simp only [h₁, h₂]

theorem isFinalName (h : Twin cx cx') (n : String) : cx.isFinalName n = cx'.isFinalName n := by
  unfold Context.isFinalName
  rw [h.scopes, h.isFinalAttr]

theorem baseAccess (h : Twin cx cx') (b : Expr) : ClassLang.baseAccess cx b = ClassLang.baseAccess cx' b := by
  unfold ClassLang.baseAccess
  split
  · next n _ _ =>
    rcases h.resolve n with hr | ⟨_, _, _, h₁, h₂⟩
    · rw [hr]
    · rw [h₁, h₂]
  · rfl

end Context.Twin

namespace Proofs.CheckerTables

open Context

variable {cx cx' : Context}

mutual

theorem checkExpr_twin (h : Twin cx cx') : ∀ e : Expr, checkExpr cx e = checkExpr cx' e
  | .lit _ _ => rfl
  | .ident n s => by
    rw [checkExpr, checkExpr]
    rcases h.resolve n with hr | ⟨_, _, _, h₁, h₂⟩
    · rw [hr]
    · rw [h₁, h₂]
  | .this s => by rw [checkExpr, checkExpr, h.inStatic, h.classType]
  | .binary op l r s => by
    rw [checkExpr, checkExpr, checkExpr_twin h l, checkExpr_twin h r]
  | .unary op a s => by rw [checkExpr, checkExpr, checkExpr_twin h a]
  | .chain b ss s => by
    rw [checkExpr, checkExpr, h.baseAccess b, checkExpr_twin h b]
    simp only [walkSteps_twin h ss]
  | .array [] s => rfl
  | .array (first :: rest) s => by
    rw [checkExpr, checkExpr, checkExpr_twin h first]
    simp only [checkElems_twin h rest]
  | .new c as s => by
    rw [checkExpr, checkExpr]
    rcases h.table.get_cases c with ⟨h₁, h₂⟩ | ⟨r, r', h₁, h₂, hr⟩
    · simp only [h₁, h₂]
    · simp only [h₁, h₂, checkArgs_twin h as, hr.hasDefaultCtor, h.table.resolveCtor_isSome]
  | .paren e _ => by rw [checkExpr, checkExpr, checkExpr_twin h e]

theorem checkArgs_twin (h : Twin cx cx') : ∀ es : List Expr, checkArgs cx es = checkArgs cx' es
  | [] => rfl
  | e :: es => by rw [checkArgs, checkArgs, checkExpr_twin h e, checkArgs_twin h es]

theorem checkElems_twin (h : Twin cx cx') {ft : Ty} {text : String} {sp : Span} :
    ∀ es : List Expr, checkElems cx ft text sp es = checkElems cx' ft text sp es
  | [] => rfl
  | e :: es => by rw [checkElems, checkElems, checkExpr_twin h e, checkElems_twin h es]

theorem walkSteps_twin (h : Twin cx cx') :
    ∀ (ss : List Step) (site : ChainSite) (cur : Ty) (acc : Access),
      walkSteps cx site cur acc ss = walkSteps cx' site cur acc ss
  | [], _, _, _ => rfl
  | .member n sp :: rest, site, cur, acc => by
    rw [walkSteps.eq_2, walkSteps.eq_2]
    split
    · rfl
    cases accessedClass cur acc with
    | none => rfl
    | some c =>
      rcases snd_agree_cases (h.findAttr c n) with ⟨h₁, h₂⟩ | ⟨_, _, a, h₁, h₂⟩
      · simp only [h₁, h₂]
      · simp only [h₁, h₂, walkSteps_twin h rest]
  | .index i sp :: rest, site, cur, acc => by
    rw [walkSteps.eq_3, walkSteps.eq_3]
    split
    · rfl
    rw [checkExpr_twin h i]
    simp only [walkSteps_twin h rest]
  | .call n as sp :: rest, site, cur, acc => by
    rw [walkSteps.eq_4, walkSteps.eq_4]
    split
    · rfl
    rw [checkArgs_twin h as]
    refine bind_congr fun ts ↦ ?_
    cases accessedClass cur acc with
    | none => rfl
    | some c =>
      rcases snd_agree_cases (h.table.findMethod c n) with ⟨h₁, h₂⟩ | ⟨_, _, m, h₁, h₂⟩
      · simp only [h₁, h₂]
      · simp only [h₁, h₂, h.fits, walkSteps_twin h rest]

end

theorem checkTargetChain_twin (h : Twin cx cx') (c : Chain) (assign : String) (aspan : Span) :
    checkTargetChain cx c assign aspan = checkTargetChain cx' c assign aspan := by
  unfold checkTargetChain
  simp only [h.baseAccess, checkExpr_twin h, walkSteps_twin h]

mutual

theorem isConstant_twin (h : Twin cx cx') : ∀ e : Expr, isConstant cx e = isConstant cx' e
  | .lit _ _ => rfl
  | .array es _ => by rw [isConstant, isConstant, allConstant_twin h es]
  | .binary _ l r _ => by rw [isConstant, isConstant, isConstant_twin h l, isConstant_twin h r]
  | .unary _ a _ => by rw [isConstant, isConstant, isConstant_twin h a]
  | .paren e _ => by rw [isConstant, isConstant, isConstant_twin h e]
  | .ident n _ => by rw [isConstant, isConstant, h.isFinalName]
  | .chain (.ident n s) ss _ => by
    rw [isConstant, isConstant, h.scopes, constantIndexes_twin h ss]
  -- of the other chains only `this.K`, one member step, reads the context
  | .chain (.this _) [.member n _] _ => h.isFinalAttr n
  | .chain (.this _) [] _ => rfl
  | .chain (.this _) (.member .. :: _ :: _) _ => rfl
  | .chain (.this _) (.index .. :: _) _ => rfl
  | .chain (.this _) (.call .. :: _) _ => rfl
  | .chain (.lit ..) _ _ | .chain (.binary ..) _ _ | .chain (.unary ..) _ _
  | .chain (.chain ..) _ _ | .chain (.array ..) _ _ | .chain (.new ..) _ _
  | .chain (.paren ..) _ _ => rfl
  | .this _ => rfl
  | .new .. => rfl

theorem allConstant_twin (h : Twin cx cx') : ∀ es : List Expr, allConstant cx es = allConstant cx' es
  | [] => rfl
  | e :: es => by rw [allConstant, allConstant, isConstant_twin h e, allConstant_twin h es]

theorem constantIndexes_twin (h : Twin cx cx') :
    ∀ ss : List Step, constantIndexes cx ss = constantIndexes cx' ss
  | [] => rfl
  | .index i _ :: ss => by
    rw [constantIndexes, constantIndexes, isConstant_twin h i, constantIndexes_twin h ss]
  | .member .. :: _ => rfl
  | .call .. :: _ => rfl

end

mutual

theorem isAttrConstant_twin (h : Twin cx cx') :
    ∀ e : Expr, isAttrConstant cx e = isAttrConstant cx' e
  | .lit _ _ => rfl
  | .new .. => rfl
  | .array es _ => by rw [isAttrConstant, isAttrConstant, allAttrConstant_twin h es]
  | .binary _ l r _ => by
    rw [isAttrConstant, isAttrConstant, isAttrConstant_twin h l, isAttrConstant_twin h r]
  | .unary _ a _ => by rw [isAttrConstant, isAttrConstant, isAttrConstant_twin h a]
  | .paren e _ => by rw [isAttrConstant, isAttrConstant, isAttrConstant_twin h e]
  | .ident n _ => by rw [isAttrConstant, isAttrConstant, h.isFinalName]
  | .chain b [] _ => rfl
  | .chain b (.member n _ :: rest) _ => by
    rw [isAttrConstant, isAttrConstant, h.isFinalAttr, attrConstantIndexes_twin h rest]
  | .chain b (.index .. :: _) _ => rfl
  | .chain b (.call .. :: _) _ => rfl
  | .this _ => rfl

theorem allAttrConstant_twin (h : Twin cx cx') :
    ∀ es : List Expr, allAttrConstant cx es = allAttrConstant cx' es
  | [] => rfl
  | e :: es => by
    rw [allAttrConstant, allAttrConstant, isAttrConstant_twin h e, allAttrConstant_twin h es]

theorem attrConstantIndexes_twin (h : Twin cx cx') :
    ∀ ss : List Step, attrConstantIndexes cx ss = attrConstantIndexes cx' ss
  | [] => rfl
  | .index i _ :: ss => by
    rw [attrConstantIndexes, attrConstantIndexes, isAttrConstant_twin h i,
      attrConstantIndexes_twin h ss]
  | .member .. :: _ => rfl
  | .call .. :: _ => rfl

end

def TwinOutcome : Except CompileError Context → Except CompileError Context → Prop
  | .ok cx, .ok cx' => Twin cx cx'
  | .error e, .error e' => e = e'
  | _, _ => False

theorem TwinOutcome.bind {β : Type} {x x' : Except CompileError Context} (h : TwinOutcome x x')
    {f f' : Context → Except CompileError β} (hf : ∀ c c', Twin c c' → f c = f' c') :
    x >>= f = x' >>= f' := by
  cases x with
  | error e =>
    cases x' with
    | error e' =>
      obtain rfl : e = e' := h
      rfl
    | ok _ => exact (h : False).elim
  | ok c =>
    cases x' with
    | error _ => exact (h : False).elim
    | ok c' => exact hf c c' h

theorem TwinOutcome.bind_twin {x x' : Except CompileError Context} (h : TwinOutcome x x')
    {f f' : Context → Except CompileError Context} (hf : ∀ c c', Twin c c' → TwinOutcome (f c) (f' c')) :
    TwinOutcome (x >>= f) (x' >>= f') := by
  cases x with
  | error e =>
    cases x' with
    | error e' => exact h
    | ok _ => exact (h : False).elim
  | ok c =>
    cases x' with
    | error _ => exact (h : False).elim
    | ok c' => exact hf c c' h

theorem TwinOutcome.same {α : Type} (x : Except CompileError α)
    {f f' : α → Except CompileError Context} (hf : ∀ a, TwinOutcome (f a) (f' a)) :
    TwinOutcome (x >>= f) (x >>= f') := by
  cases x with
  | error e => exact (rfl : e = e)
  | ok a => exact hf a

theorem requireClasses_similar {t t' : ClassTable} (h : t.Similar t') (span : Span) :
    ∀ ty : Ty, requireClasses t span ty = requireClasses t' span ty
  | .cls n => by rw [requireClasses, requireClasses, h.contains]
  | .array e _ => by rw [requireClasses, requireClasses, requireClasses_similar h span e]
  | .ref i => by rw [requireClasses, requireClasses, requireClasses_similar h span i]
  | .prim _ => rfl
  | .nil => rfl
  | .error => rfl

theorem checkDeclarators_twin (d : VarDecl) :
    ∀ (vs : List Declarator) {cx cx' : Context}, Twin cx cx' →
      TwinOutcome (checkDeclarators d cx vs) (checkDeclarators d cx' vs)
  | [], _, _, h => h
  | v :: vs, cx, cx', h => by
    rw [checkDeclarators, checkDeclarators]
    simp only [h.scopes, isConstant_twin h, checkExpr_twin h, h.fits]
    -- the declarator's own checks now agree; every branch that passes them goes on with twins
    have hk : ∀ s, TwinOutcome (checkDeclarators d { cx with scopes := s } vs)
        (checkDeclarators d { cx' with scopes := s } vs) :=
      fun s ↦ checkDeclarators_twin d vs (h.withScopes s)
    split
    · exact rfl
    split
    · split
      · split
        · exact rfl
        · refine TwinOutcome.same _ fun t ↦ ?_
          split
          · exact rfl
          · exact TwinOutcome.same _ hk
      · refine TwinOutcome.same _ fun t ↦ ?_
        split
        · split <;> exact rfl
        · exact TwinOutcome.same _ hk
    · exact TwinOutcome.same _ hk

theorem checkVarDecls_twin :
    ∀ (ds : List VarDecl) {cx cx' : Context}, Twin cx cx' →
      TwinOutcome (checkVarDecls cx ds) (checkVarDecls cx' ds)
  | [], _, _, h => h
  | d :: ds, cx, cx', h => by
    rw [checkVarDecls, checkVarDecls, requireClasses_similar h.table]
    exact TwinOutcome.same _ fun _ ↦
      (checkDeclarators_twin d d.vars h).bind_twin fun _ _ hc ↦ checkVarDecls_twin ds hc

theorem checkTarget_twin (h : Twin cx cx') (t : Target) (text : String) (span : Span) :
    checkTarget cx t text span = checkTarget cx' t text span := by
  cases t with
  | ident n sp =>
    simp only [checkTarget]
    rcases h.resolve n with hr | ⟨_, _, _, h₁, h₂⟩
    · rw [hr]
    · rw [h₁, h₂]
  | chain c => exact checkTargetChain_twin h c text span

theorem checkAssign_twin (h : Twin cx cx') (t : Target) (rhs : Expr) (text : String)
    (span : Span) : checkAssign cx t rhs text span = checkAssign cx' t rhs text span := by
  unfold checkAssign
  simp only [checkExpr_twin h, checkTarget_twin h, h.fits]

theorem checkReturn_twin (h : Twin cx cx') (v : Option Expr) (text : String) (span : Span) :
    checkReturn cx v text span = checkReturn cx' v text span := by
  unfold checkReturn
  simp only [checkExpr_twin h, h.routine, h.fits]

theorem checkLoopVar_twin (h : Twin cx cx') (v : String) (vspan : Span) (text : String)
    (span : Span) : checkLoopVar cx v vspan text span = checkLoopVar cx' v vspan text span := by
  unfold checkLoopVar
  rcases h.resolve v with hr | ⟨_, _, _, h₁, h₂⟩
  · rw [hr]
  · rw [h₁, h₂]

mutual

theorem checkStmt_twin : ∀ (st : Stmt) {cx cx' : Context}, Twin cx cx' →
    checkStmt cx st = checkStmt cx' st
  | .assign t rhs sp, _, _, h => by rw [checkStmt, checkStmt, checkAssign_twin h]
  | .cond c th none sp, _, _, h => by
    rw [checkStmt, checkStmt, checkExpr_twin h, checkStmt_twin th h]
  | .cond c th (some el) sp, _, _, h => by
    rw [checkStmt, checkStmt, checkExpr_twin h, checkStmt_twin th h, checkStmt_twin el h]
  | .loop v vsp a d b body sp, _, _, h => by
    rw [checkStmt, checkStmt, checkLoopVar_twin h, checkExpr_twin h a, checkExpr_twin h b,
      checkStmt_twin body h.enterLoop]
  | .brk sp, _, _, h => by rw [checkStmt, checkStmt, h.loops]
  | .cont sp, _, _, h => by rw [checkStmt, checkStmt, h.loops]
  | .ret v sp, _, _, h => by rw [checkStmt, checkStmt, checkReturn_twin h]
  | .block ds ss _, _, _, h => by
    rw [checkStmt, checkStmt]
    exact (checkVarDecls_twin ds h.push).bind fun _ _ hc ↦ checkStmts_twin ss hc
  | .invoke c sp, _, _, h => by rw [checkStmt, checkStmt, checkChain, checkChain, checkExpr_twin h]

theorem checkStmts_twin : ∀ (ss : List Stmt) {cx cx' : Context}, Twin cx cx' →
    checkStmts cx ss = checkStmts cx' ss
  | [], _, _, _ => rfl
  | st :: ss, _, _, h => by rw [checkStmts, checkStmts, checkStmt_twin st h, checkStmts_twin ss h]

end

theorem checkBlockContent_twin (h : Twin cx cx') (b : Block) :
    checkBlockContent cx b = checkBlockContent cx' b := by
  unfold checkBlockContent
  exact (checkVarDecls_twin b.decls h).bind fun _ _ hc ↦ checkStmts_twin b.stmts hc

theorem checkAttrInit_twin (h : Twin cx cx') (d : AttrDecl) (init : Expr) :
    checkAttrInit cx d init = checkAttrInit cx' d init := by
  unfold checkAttrInit
  simp only [checkExpr_twin h, h.fits, isAttrConstant_twin h]

theorem checkAttrDecl_twin (h : Twin cx cx') (d : AttrDecl) :
    checkAttrDecl cx d = checkAttrDecl cx' d := by
  unfold checkAttrDecl
  rw [requireClasses_similar h.table]
  simp only [checkAttrInit_twin ((h.enterRoutine _ _ _).withInitAttr _)]

theorem foldlM_twin {f : Context → Param → Except CompileError Context}
    (hf : ∀ c c' p, Twin c c' → TwinOutcome (f c p) (f c' p)) :
    ∀ (ps : List Param) {c c' : Context}, Twin c c' →
      TwinOutcome (ps.foldlM f c) (ps.foldlM f c')
  | [], _, _, h => h
  | p :: ps, c, c', h => by
    rw [List.foldlM_cons, List.foldlM_cons]
    exact (hf c c' p h).bind_twin fun _ _ hd ↦ foldlM_twin hf ps hd

theorem paramScope_twin (h : Twin cx cx') (ps : List Param) :
    TwinOutcome (Checked.paramScope cx ps) (Checked.paramScope cx' ps) := by
  refine foldlM_twin (fun c c' p hc ↦ ?_) ps h.push
  rw [requireClasses_similar hc.table, hc.scopes]
  exact TwinOutcome.same _ fun _ ↦ TwinOutcome.same _ fun s ↦ hc.withScopes s

theorem checkRoutineBody_twin (h : Twin cx cx') (ps : List Param) (b : Block) :
    checkRoutineBody cx ps b = checkRoutineBody cx' ps b := by
  rw [Checked.checkRoutineBody_eq, Checked.checkRoutineBody_eq]
  exact (paramScope_twin h ps).bind fun _ _ hc ↦ checkBlockContent_twin hc b

theorem checkMember_twin (h : Twin cx cx') (m : Member) : checkMember cx m = checkMember cx' m := by
  cases m with
  | attr d => rw [checkMember, checkMember, checkAttrDecl_twin h]
  | method m =>
    rw [checkMember, checkMember, checkMethod, checkMethod,
      checkRoutineBody_twin (h.enterRoutine _ _ _)]
  | ctor k =>
    rw [checkMember, checkMember, checkCtor, checkCtor, h.classType,
      checkRoutineBody_twin (h.enterRoutine _ _ _)]
  | dtor d =>
    rw [checkMember, checkMember, checkDtor, checkDtor, h.cls,
      checkRoutineBody_twin (h.enterRoutine _ _ _)]

theorem checkClass_similar {t t' : ClassTable} (h : t.Similar t') (c : ClassDecl) :
    checkClass (Context.start t) c = checkClass (Context.start t') c := by
  unfold checkClass
  rw [funext (checkMember_twin ((Twin.start h).enterClass rfl rfl))]

end Proofs.CheckerTables

end ClassLang
