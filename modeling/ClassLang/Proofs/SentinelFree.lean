import ClassLang.Proofs.FinalInits
import ClassLang.Proofs.StackEffect
import ClassLang.Proofs.CheckerContexts

namespace ClassLang

mutual

def Stmt.localTypes : Stmt → List Ty
  | .assign .. | .brk _ | .cont _ | .ret .. | .invoke .. => []
  | .cond _ th el _ => th.localTypes ++ Stmt.optionLocalTypes el
  | .loop _ _ _ _ _ body _ => body.localTypes
  | .block ds ss _ => ds.map (·.type) ++ Stmt.listLocalTypes ss

def Stmt.optionLocalTypes : Option Stmt → List Ty
  | none => []
  | some s => s.localTypes

def Stmt.listLocalTypes : List Stmt → List Ty
  | [] => []
  | s :: ss => s.localTypes ++ Stmt.listLocalTypes ss

end

def Block.localTypes (b : Block) : List Ty :=
  b.decls.map (·.type) ++ Stmt.listLocalTypes b.stmts

/-- The types a member declares: an attribute declaration's type, and a routine's result type,
parameter types and the types of the locals of its body. -/
def Member.declaredTypes : Member → List Ty
  | .attr d => [d.type]
  | .method m => m.ret :: (m.params.map (·.type) ++ m.body.localTypes)
  | .ctor k => k.params.map (·.type) ++ k.body.localTypes
  | .dtor d => d.body.localTypes

/-- The types a program declares, class by class and member by member. -/
def Program.declaredTypes (p : Program) : List Ty :=
  p.classes.flatMap fun c ↦ c.members.flatMap Member.declaredTypes

def ClassTable.SentinelFree (T : ClassTable) : Prop :=
  ∀ r ∈ T.classes, (∀ a ∈ r.attrs, a.type.hasError = false) ∧
    ∀ m ∈ r.methods, m.ret.hasError = false

def ScopeStack.SentinelFree (s : ScopeStack) : Prop :=
  ∀ fr ∈ s.frames, ∀ b ∈ fr, b.2.type.hasError = false

structure Context.SentinelFree (cx : Context) : Prop where
  table : cx.table.SentinelFree
  scopes : cx.scopes.SentinelFree
  cls : cx.cls.isSome = true

end ClassLang

namespace ClassLang.Proofs.SentinelFree

open ClassLang Checked LoopJumps FinalInits StackEffect Registration CheckerContexts

theorem isError_of_free {t : Ty} (h : t.hasError = false) : t.isError = false := by
  cases t <;> first | rfl | cases h

theorem deref_free {t : Ty} (h : t.hasError = false) : t.deref.hasError = false := by
  cases t <;> exact h

theorem element_free {t e : Ty} (h : t.hasError = false) (he : t.element? = some e) :
    e.hasError = false := by
  cases t with
  | array e' n =>
    cases he
    exact h
  | _ => cases he

theorem Literal.type_free (l : Literal) : l.type.hasError = false := by
  cases l <;> rfl

theorem binary_result_free {op : BinOp} {l r t : Ty} (hl : l.hasError = false)
    (hr : r.hasError = false) (h : op.result l r = some t) : t.hasError = false := by
  unfold BinOp.result at h
  rw [isError_of_free hl, isError_of_free hr, Bool.or_false, if_neg Bool.false_ne_true] at h
  cases op <;> dsimp only at h <;> split_ifs at h <;> cases h <;> rfl

theorem unary_result_free {op : UnOp} {a t : Ty} (ha : a.hasError = false)
    (h : op.result a = some t) : t.hasError = false := by
  unfold UnOp.result at h
  rw [isError_of_free ha, if_neg Bool.false_ne_true] at h
  cases op <;> dsimp only at h <;> split_ifs at h <;> cases h
  · exact ha
  · exact ha
  · rfl

namespace ScopeStackFree

theorem push {s : ScopeStack} (hs : s.SentinelFree) : s.push.SentinelFree := by
  intro fr hfr b hb
  rcases List.mem_cons.mp hfr with rfl | hfr
  · cases hb
  · exact hs fr hfr b hb

theorem bind {s : ScopeStack} (hs : s.SentinelFree) (n : String) {b : Binding}
    (hb : b.type.hasError = false) : (s.bind n b).SentinelFree := by
  unfold ScopeStack.bind ScopeStack.split
  cases hf : s.frames with
  | nil =>
    intro fr hfr x hx
    simp only [List.mem_singleton] at hfr
    subst hfr
    simp only [List.filter_nil, List.mem_singleton] at hx
    subst hx
    exact hb
  | cons f rest =>
    intro fr hfr x hx
    rcases List.mem_cons.mp hfr with rfl | hfr
    · rcases List.mem_cons.mp hx with rfl | hx
      · exact hb
      · exact hs f (by rw [hf]; exact List.mem_cons_self) x (List.mem_filter.mp hx).1
    · exact hs fr (by rw [hf]; exact List.mem_cons_of_mem _ hfr) x hx

theorem declareLocal {s s' : ScopeStack} (hs : s.SentinelFree) {n : String} {t : Ty}
    {isFinal : Bool} {sp : Span} (ht : t.hasError = false)
    (h : s.declareLocal n t isFinal sp = .ok s') : s'.SentinelFree := by
  unfold ScopeStack.declareLocal at h
  split at h
  · cases h
  · cases h
    exact bind hs n ht

theorem declareParam {s s' : ScopeStack} (hs : s.SentinelFree) {n : String} {t : Ty} {sp : Span}
    (ht : t.hasError = false) (h : s.declareParam n t sp = .ok s') : s'.SentinelFree := by
  unfold ScopeStack.declareParam at h
  split at h
  · cases h
  · cases h
    exact bind hs n ht

theorem empty : ({} : ScopeStack).SentinelFree :=
  fun _ hfr ↦ absurd hfr List.not_mem_nil

theorem lookup {s : ScopeStack} (hs : s.SentinelFree) {n : String} {b : Binding}
    (h : s.lookup n = some b) : b.type.hasError = false := by
  obtain ⟨fr, hfr, hb⟩ := List.exists_of_findSome?_eq_some h
  obtain ⟨x, hx, rfl⟩ := Option.map_eq_some_iff.mp hb
  exact hs fr hfr x (List.mem_of_find?_eq_some hx)

end ScopeStackFree

section Lookups

variable {cx : Context}

theorem resolve_some {n : String} {r : NameRef} (h : cx.resolve n = some r) :
    (∃ c, r = .cls c) ∨ (∃ b, cx.scopes.lookup n = some b ∧ r = .scoped b) ∨
      ∃ c h a, cx.cls = some c ∧ cx.findAttr c n = some (h, a) ∧ r = .attr h a := by
  unfold Context.resolve at h
  cases hg : cx.table.get? n with
  | some q =>
    simp only [hg, Option.some.injEq] at h
    exact .inl ⟨_, h.symm⟩
  | none =>
    cases hl : cx.scopes.lookup n with
    | some b =>
      simp only [hg, hl, Option.some.injEq] at h
      exact .inr (.inl ⟨b, rfl, h.symm⟩)
    | none =>
      cases hc : cx.cls with
      | none => simp only [hg, hl, hc, reduceCtorEq] at h
      | some c =>
        cases hf : cx.findAttr c n with
        | none => simp only [hg, hl, hc, hf, reduceCtorEq] at h
        | some ha =>
          obtain ⟨host, a⟩ := ha
          simp only [hg, hl, hc, hf] at h
          split at h
          · cases h
          · cases h
            exact .inr (.inr ⟨c, host, a, rfl, hf, rfl⟩)

theorem findAttr_table {c n : String} {h : ClassInfo} {a : AttrInfo}
    (hf : cx.findAttr c n = some (h, a)) : cx.table.findAttr c n = some (h, a) := by
  unfold Context.findAttr at hf
  split at hf
  · cases hf
  · exact hf

variable (hcx : cx.SentinelFree)
include hcx

theorem attr_free {c n : String} {h : ClassInfo} {a : AttrInfo}
    (hf : cx.findAttr c n = some (h, a)) : a.type.hasError = false := by
  obtain ⟨hh, ha⟩ := findAttr_mem (findAttr_table hf)
  exact (hcx.table h hh).1 a ha

theorem method_free {c n : String} {h : ClassInfo} {m : MethodInfo}
    (hf : cx.table.findMethod c n = some (h, m)) : m.ret.hasError = false := by
  obtain ⟨hh, hm⟩ := findMethod_mem hf
  exact (hcx.table h hh).2 m hm

theorem resolve_scoped_free {n : String} {b : Binding} (h : cx.resolve n = some (.scoped b)) :
    b.type.hasError = false := by
  rcases resolve_some h with ⟨_, he⟩ | ⟨b', hl, he⟩ | ⟨_, _, _, _, _, he⟩
  · cases he
  · cases he
    exact ScopeStackFree.lookup hcx.scopes hl
  · cases he

theorem resolve_attr_free {n : String} {h : ClassInfo} {a : AttrInfo}
    (hr : cx.resolve n = some (.attr h a)) : a.type.hasError = false := by
  rcases resolve_some hr with ⟨_, he⟩ | ⟨_, _, he⟩ | ⟨_, _, _, _, hf, he⟩
  · cases he
  · cases he
  · cases he
    exact attr_free hcx hf

theorem classType_free : cx.classType.hasError = false := by
  unfold Context.classType
  cases hc : cx.cls with
  | none =>
    have h := hcx.cls
    rw [hc] at h
    cases h
  | some c => rfl

end Lookups

theorem baseAccess_isClass {cx : Context} {b : Expr} {t : Ty} {acc : Access}
    (h : baseAccess cx b = some (t, acc)) : ∃ c, t = .cls c := by
  unfold baseAccess at h
  split at h
  · split at h
    · cases h
      exact ⟨_, rfl⟩
    · split at h
      · rename_i bd _ hcond
        cases h
        simp only [Bool.and_eq_true, beq_iff_eq] at hcond
        cases ht : bd.type with
        | cls c => exact ⟨c, rfl⟩
        | _ => simp [ht, Ty.className?] at hcond
      · cases h
    · cases h
  · cases h

section Expressions

variable {cx : Context} (hcx : cx.SentinelFree)
include hcx

theorem walkSteps_free (ss : List Step) {site : ChainSite} {cur : Ty} {acc : Access} {t : Ty}
    (hcur : cur.hasError = false) (h : walkSteps cx site cur acc ss = .ok t) :
    t.hasError = false := by
  induction ss generalizing cur acc with
  | nil =>
    rw [walkSteps.eq_1] at h
    cases h
    exact hcur
  | cons st rest ih =>
    cases st with
    | member n sp =>
      rw [walkSteps.eq_2, isError_of_free hcur, if_neg Bool.false_ne_true] at h
      cases hc : accessedClass cur acc with
      | none => simp only [hc] at h; cases h
      | some c =>
        cases hf : cx.findAttr c n with
        | none => simp only [hc, hf] at h; cases h
        | some ha =>
          obtain ⟨host, a⟩ := ha
          simp only [hc, hf] at h
          have ha : a.type.deref.hasError = false := deref_free (attr_free hcx hf)
          split at h
          · cases h
          · split at h
            · split at h
              · cases h
              · exact ih ha h
            · exact ih ha h
    | index i sp =>
      rw [walkSteps.eq_3, isError_of_free hcur, if_neg Bool.false_ne_true] at h
      obtain ⟨it, -, h⟩ := except_bind_ok h
      cases he : cur.element? with
      | none => simp only [he] at h; cases h
      | some el =>
        simp only [he] at h
        split at h
        · cases h
        · exact ih (element_free hcur he) h
    | call n as sp =>
      rw [walkSteps.eq_4, isError_of_free hcur, if_neg Bool.false_ne_true] at h
      obtain ⟨ts, -, h⟩ := except_bind_ok h
      cases hc : accessedClass cur acc with
      | none => simp only [hc] at h; cases h
      | some c =>
        cases hf : cx.table.findMethod c n with
        | none => simp only [hc, hf] at h; cases h
        | some hm =>
          obtain ⟨host, m⟩ := hm
          simp only [hc, hf] at h
          split at h
          · cases h
          · split at h
            · exact ih (deref_free (method_free hcx hf)) h
            · cases h

theorem checkExpr_free : ∀ (e : Expr) {t : Ty}, checkExpr cx e = .ok t → t.hasError = false
  | .lit l _, t, h => by
    rw [checkExpr] at h
    cases h
    exact Literal.type_free l
  | .ident n s, t, h => by
    rw [checkExpr] at h
    rcases hr : cx.resolve n with _ | c | b | ⟨host, a⟩
    · simp only [hr] at h; cases h
    · simp only [hr] at h; cases h
    · simp only [hr, Except.ok.injEq] at h
      subst h
      exact deref_free (resolve_scoped_free hcx hr)
    · simp only [hr, Except.ok.injEq] at h
      subst h
      exact deref_free (resolve_attr_free hcx hr)
  | .this s, t, h => by
    rw [checkExpr] at h
    split at h
    · cases h
    · cases h
      exact classType_free hcx
  | .binary op l r s, t, h => by
    rw [checkExpr] at h
    obtain ⟨lt, hl, h⟩ := except_bind_ok h
    obtain ⟨rt, hr, h⟩ := except_bind_ok h
    cases hres : op.result lt rt with
    | none => simp only [hres] at h; cases h
    | some u =>
      simp only [hres, Except.ok.injEq] at h
      subst h
      exact binary_result_free (checkExpr_free l hl) (checkExpr_free r hr) hres
  | .unary op a s, t, h => by
    rw [checkExpr] at h
    obtain ⟨at', ha, h⟩ := except_bind_ok h
    cases hres : op.result at' with
    | none => simp only [hres] at h; cases h
    | some u =>
      simp only [hres, Except.ok.injEq] at h
      subst h
      exact unary_result_free (checkExpr_free a ha) hres
  | .chain b ss s, t, h => by
    rw [checkExpr] at h
    -- the base is typed by name, as a class, or else as an expression
    cases hba : baseAccess cx b with
    | some r =>
      obtain ⟨cur, acc⟩ := r
      simp only [hba, pure_bind] at h
      obtain ⟨c, rfl⟩ := baseAccess_isClass hba
      exact walkSteps_free hcx ss rfl h
    | none =>
      simp only [hba] at h
      obtain ⟨bt, hbt, h⟩ := except_bind_ok h
      simp only [pure_bind] at h
      exact walkSteps_free hcx ss (checkExpr_free b hbt) h
  | .array [] s, t, h => by
    rw [checkExpr] at h
    cases h
    rfl
  | .array (first :: rest) s, t, h => by
    rw [checkExpr] at h
    obtain ⟨ft, hft, h⟩ := except_bind_ok h
    have hfree := checkExpr_free first hft
    rw [isError_of_free hfree, if_neg Bool.false_ne_true] at h
    obtain ⟨⟨⟩, -, h⟩ := except_bind_ok h
    cases h
    exact hfree
  | .new c as s, t, h => by
    rw [checkExpr] at h
    split at h
    · cases h
    · obtain ⟨ts, -, h⟩ := except_bind_ok h
      dsimp only at h
      split_ifs at h <;> (cases h; rfl)
  | .paren e _, t, h => by
    rw [checkExpr] at h
    exact checkExpr_free e h

theorem checkTarget_free {tg : Target} {text : String} {span : Span} {t : Ty}
    (h : checkTarget cx tg text span = .ok t) : t.hasError = false := by
  unfold checkTarget at h
  cases tg with
  | ident n sp =>
    rcases hr : cx.resolve n with _ | c | b | ⟨host, a⟩
    · simp only [hr] at h; cases h
    · simp only [hr] at h; cases h
    · simp only [hr] at h
      split at h
      · cases h
      · cases h
        exact deref_free (resolve_scoped_free hcx hr)
    · simp only [hr] at h
      split at h
      · cases h
      · cases h
        exact deref_free (resolve_attr_free hcx hr)
  | chain c =>
    simp only at h
    unfold checkTargetChain at h
    split at h
    · cases h
    · cases hba : baseAccess cx c.base with
      | some r =>
        obtain ⟨cur, acc⟩ := r
        simp only [hba, pure_bind] at h
        obtain ⟨cn, rfl⟩ := baseAccess_isClass hba
        exact walkSteps_free hcx c.steps rfl h
      | none =>
        simp only [hba] at h
        obtain ⟨bt, hbt, h⟩ := except_bind_ok h
        simp only [pure_bind] at h
        exact walkSteps_free hcx c.steps (checkExpr_free hcx c.base hbt) h

end Expressions

section Declared

variable {p : Program}

theorem member_declared {c : ClassDecl} (hc : c ∈ p.classes) {m : Member} (hm : m ∈ c.members)
    {t : Ty} (ht : t ∈ m.declaredTypes) : t ∈ p.declaredTypes :=
  List.mem_flatMap.mpr ⟨c, hc, List.mem_flatMap.mpr ⟨m, hm, ht⟩⟩

theorem routineOf_declared {cx cx₀ : Context} {m : Member} {ps : List Param} {b : Block}
    (hr : RoutineOf cx m cx₀ ps b) :
    (∀ q ∈ ps, q.type ∈ m.declaredTypes) ∧ ∀ t ∈ b.localTypes, t ∈ m.declaredTypes := by
  cases hr with
  | method m =>
    refine ⟨fun q hq ↦ ?_, fun t ht ↦ ?_⟩
    · exact List.mem_cons_of_mem _ (List.mem_append_left _ (List.mem_map.mpr ⟨q, hq, rfl⟩))
    · exact List.mem_cons_of_mem _ (List.mem_append_right _ ht)
  | ctor k =>
    exact ⟨fun q hq ↦ List.mem_append_left _ (List.mem_map.mpr ⟨q, hq, rfl⟩),
      fun t ht ↦ List.mem_append_right _ ht⟩
  | dtor d => exact ⟨fun q hq ↦ absurd hq List.not_mem_nil, fun t ht ↦ ht⟩

theorem decls_localTypes {b : Block} {d : VarDecl} (hd : d ∈ b.decls) :
    d.type ∈ b.localTypes :=
  List.mem_append_left _ (List.mem_map.mpr ⟨d, hd, rfl⟩)

theorem listLocalTypes_mem {s : Stmt} {ss : List Stmt} (hs : s ∈ ss) {t : Ty}
    (ht : t ∈ s.localTypes) : t ∈ Stmt.listLocalTypes ss := by
  induction ss with
  | nil => cases hs
  | cons s' ss ih =>
    rw [Stmt.listLocalTypes]
    rcases List.mem_cons.mp hs with rfl | hs
    · exact List.mem_append_left _ ht
    · exact List.mem_append_right _ (ih hs)

theorem stmts_localTypes {b : Block} {s : Stmt} (hs : s ∈ b.stmts) {t : Ty}
    (ht : t ∈ s.localTypes) : t ∈ b.localTypes :=
  List.mem_append_right _ (listLocalTypes_mem hs ht)

theorem within_localTypes {cx cx' : Context} {st st' : Stmt} (hw : Within cx st cx' st') {t : Ty}
    (ht : t ∈ st'.localTypes) : t ∈ st.localTypes := by
  induction hw with
  | refl => exact ht
  | condThen _ ih =>
    rw [Stmt.localTypes]
    exact List.mem_append_left _ (ih ht)
  | condElse _ ih =>
    rw [Stmt.localTypes, Stmt.optionLocalTypes]
    exact List.mem_append_right _ (ih ht)
  | loop _ ih =>
    rw [Stmt.localTypes]
    exact ih ht
  | block _ hs _ ih =>
    rw [Stmt.localTypes]
    exact List.mem_append_right _ (listLocalTypes_mem hs (ih ht))

theorem table_free (hp : ∀ t ∈ p.declaredTypes, t.hasError = false) {T : ClassTable}
    (hT : (ClassTable.ofProgram p).run.2 = .ok T) : T.SentinelFree := by
  rw [ofProgram_run, registered_ok_iff] at hT
  obtain ⟨-, rfl⟩ := hT
  intro r hr
  rcases List.mem_append.mp hr with hr | hr
  · obtain ⟨c, hc, rfl⟩ := List.mem_map.mp hr
    refine ⟨fun a ha ↦ ?_, fun mi hmi ↦ ?_⟩
    · obtain ⟨m, hm, ha⟩ := List.mem_flatMap.mp ha
      cases m with
      | attr d =>
        obtain ⟨v, -, rfl⟩ := List.mem_map.mp ha
        exact hp _ (member_declared hc hm List.mem_cons_self)
      | _ => cases ha
    · obtain ⟨m, hm, hmi⟩ := List.mem_filterMap.mp hmi
      cases m with
      | method md =>
        cases hmi
        exact hp _ (member_declared hc hm List.mem_cons_self)
      | _ => cases hmi
  · split at hr
    · cases hr
    · rw [List.mem_singleton] at hr
      subst hr
      refine ⟨fun a ha ↦ absurd ha List.not_mem_nil, fun mi hmi ↦ ?_⟩
      obtain ⟨bi, -, rfl⟩ := List.mem_map.mp hmi
      rfl

end Declared

namespace ContextFree

variable {cx : Context}

theorem enterClass (h : cx.table.SentinelFree) (hs : cx.scopes.SentinelFree) (c : ClassDecl) :
    (cx.enterClass c).SentinelFree :=
  ⟨h, ScopeStackFree.bind (ScopeStackFree.push hs) "this" rfl, rfl⟩

theorem start {T : ClassTable} (hT : T.SentinelFree) (c : ClassDecl) :
    ((Context.start T).enterClass c).SentinelFree :=
  enterClass hT (ScopeStackFree.bind (ScopeStackFree.push ScopeStackFree.empty) _ rfl) c

theorem enterRoutine (h : cx.SentinelFree) (k : RoutineKind) (ret : Ty) (st : Bool) :
    (cx.enterRoutine k ret st).SentinelFree :=
  ⟨h.table, h.scopes, h.cls⟩

theorem withScopes (h : cx.SentinelFree) {s : ScopeStack} (hs : s.SentinelFree) :
    ({ cx with scopes := s } : Context).SentinelFree :=
  ⟨h.table, hs, h.cls⟩

theorem checkDeclarators {d : VarDecl} (hd : d.type.hasError = false) :
    ∀ {vs : List Declarator} {cx cx' : Context}, cx.SentinelFree →
      ClassLang.checkDeclarators d cx vs = .ok cx' → cx'.SentinelFree := by
  intro vs
  induction vs with
  | nil =>
    intro cx cx' h hd'
    simp only [ClassLang.checkDeclarators, Except.ok.injEq] at hd'
    subst hd'
    exact h
  | cons v vs ih =>
    intro cx cx' h hd'
    obtain ⟨s, hs, hrest⟩ := checkDeclarators_cons_ok hd'
    exact ih (withScopes h (ScopeStackFree.declareLocal h.scopes hd hs)) hrest

theorem checkVarDecls : ∀ {ds : List VarDecl}, (∀ d ∈ ds, d.type.hasError = false) →
    ∀ {cx cx' : Context}, cx.SentinelFree → ClassLang.checkVarDecls cx ds = .ok cx' →
      cx'.SentinelFree := by
  intro ds
  induction ds with
  | nil =>
    intro _ cx cx' h hds
    simp only [ClassLang.checkVarDecls, Except.ok.injEq] at hds
    subst hds
    exact h
  | cons d ds ih =>
    intro htys cx cx' h hds
    obtain ⟨cx₁, h₁, hds⟩ := checkVarDecls_cons_ok hds
    have hd := htys d List.mem_cons_self
    exact ih (fun d' hd' ↦ htys d' (List.mem_cons_of_mem _ hd')) (checkDeclarators hd h h₁) hds

theorem paramScope {ps : List Param} (hps : ∀ q ∈ ps, q.type.hasError = false)
    (h : cx.SentinelFree) {cx' : Context} (hs : Checked.paramScope cx ps = .ok cx') :
    cx'.SentinelFree := by
  unfold Checked.paramScope at hs
  have h₀ : ({ cx with scopes := cx.scopes.push } : Context).SentinelFree :=
    withScopes h (ScopeStackFree.push h.scopes)
  generalize ({ cx with scopes := cx.scopes.push } : Context) = acc at h₀ hs
  -- each parameter is declared with its own type, free of the sentinel
  induction ps generalizing acc with
  | nil =>
    cases hs
    exact h₀
  | cons q ps ih =>
    rw [List.foldlM_cons] at hs
    obtain ⟨acc₁, h₁, hs⟩ := except_bind_ok hs
    obtain ⟨_, -, h₁⟩ := except_bind_ok h₁
    obtain ⟨s, hq, h₁⟩ := except_bind_ok h₁
    cases h₁
    have hfree := ScopeStackFree.declareParam h₀.scopes (hps q List.mem_cons_self) hq
    exact ih (fun q' hq' ↦ hps q' (List.mem_cons_of_mem _ hq')) _ (withScopes h₀ hfree) hs

theorem routineOf {cx₀ : Context} {m : Member} {ps : List Param} {b : Block}
    (hr : RoutineOf cx m cx₀ ps b) (h : cx.SentinelFree) : cx₀.SentinelFree := by
  cases hr <;> exact enterRoutine h _ _ _

theorem declaratorAt {d : VarDecl} (hd : d.type.hasError = false) {cx' : Context}
    {vs : List Declarator} {v : Declarator} (hat : DeclaratorAt d cx vs cx' v) :
    cx.SentinelFree → cx'.SentinelFree := by
  induction hat with
  | head => exact id
  | tail hs _ ih => exact fun h ↦ ih (withScopes h (ScopeStackFree.declareLocal h.scopes hd hs))

theorem declAt {cx' : Context} {ds : List VarDecl} {d : VarDecl} {v : Declarator}
    (hat : DeclAt cx ds cx' d v) :
    (∀ d ∈ ds, d.type.hasError = false) → cx.SentinelFree → cx'.SentinelFree := by
  induction hat with
  | head hv => exact fun htys h ↦ declaratorAt (htys _ List.mem_cons_self) hv h
  | tail hd _ ih =>
    exact fun htys h ↦ ih (fun d' hd' ↦ htys d' (List.mem_cons_of_mem _ hd'))
      (checkDeclarators (htys _ List.mem_cons_self) h hd)

theorem within {cx' : Context} {st st' : Stmt} (hw : Within cx st cx' st') :
    cx.SentinelFree → (∀ t ∈ st.localTypes, t.hasError = false) → cx'.SentinelFree := by
  induction hw with
  | refl => exact fun h _ ↦ h
  | condThen _ ih =>
    refine fun h htys ↦ ih h fun t ht ↦ htys t ?_
    rw [Stmt.localTypes]
    exact List.mem_append_left _ ht
  | condElse _ ih =>
    refine fun h htys ↦ ih h fun t ht ↦ htys t ?_
    rw [Stmt.localTypes, Stmt.optionLocalTypes]
    exact List.mem_append_right _ ht
  | loop _ ih =>
    refine fun h htys ↦ ih ⟨h.table, h.scopes, h.cls⟩ fun t ht ↦ htys t ?_
    rw [Stmt.localTypes]
    exact ht
  | @block _ _ _ ds _ _ _ _ hds hs _ ih =>
    intro h htys
    -- the block's locals are declared into a new scope, each with its sentinel-free type
    have hdecl : ∀ d ∈ ds, d.type.hasError = false := fun d hd ↦ htys _ (by
      rw [Stmt.localTypes]
      exact List.mem_append_left _ (List.mem_map.mpr ⟨d, hd, rfl⟩))
    refine ih (checkVarDecls hdecl (withScopes h (ScopeStackFree.push h.scopes)) hds)
      fun t ht ↦ htys t ?_
    rw [Stmt.localTypes]
    exact List.mem_append_right _ (listLocalTypes_mem hs ht)

end ContextFree

section Program

variable {p : Program} {T : ClassTable} (hp : ∀ t ∈ p.declaredTypes, t.hasError = false)
  (hT : (ClassTable.ofProgram p).run.2 = .ok T)
include hp hT

theorem routine_free {c : ClassDecl} (hc : c ∈ p.classes) {m : Member} (hm : m ∈ c.members)
    {cx₀ : Context} {ps : List Param} {b : Block}
    (hr : RoutineOf ((Context.start T).enterClass c) m cx₀ ps b) :
    cx₀.SentinelFree ∧ (∀ q ∈ ps, q.type.hasError = false) ∧
      ∀ t ∈ b.localTypes, t.hasError = false := by
  obtain ⟨hps, hbody⟩ := routineOf_declared hr
  exact ⟨ContextFree.routineOf hr (ContextFree.start (table_free hp hT) c),
    fun q hq ↦ hp _ (member_declared hc hm (hps q hq)),
    fun t ht ↦ hp _ (member_declared hc hm (hbody t ht))⟩

theorem checksAt_free {cx : Context} {st : Stmt} (hat : ChecksAt T p cx st) :
    cx.SentinelFree ∧ ∀ t ∈ st.localTypes, t.hasError = false := by
  obtain ⟨c, hc, m, hm, cx₀, ps, b, hr, cx₁, hps, cx₂, hds, s, hs, hw⟩ := hat
  obtain ⟨h₀, hpars, hlocals⟩ := routine_free hp hT hc hm hr
  have h₁ := ContextFree.paramScope hpars h₀ hps
  have h₂ := ContextFree.checkVarDecls (fun d hd ↦ hlocals _ (decls_localTypes hd)) h₁ hds
  have hst : ∀ t ∈ s.localTypes, t.hasError = false :=
    fun t ht ↦ hlocals t (stmts_localTypes hs ht)
  exact ⟨ContextFree.within hw h₂ hst, fun t ht ↦ hst t (within_localTypes hw ht)⟩

end Program

/-- Checking program `p` against the table `T`, the checker types expressions in the context
`cx`: the context of an attribute's initializer, of a local's declarator, or of a statement it
reaches. -/
def TypingContext (T : ClassTable) (p : Program) (cx : Context) : Prop :=
  (∃ c ∈ p.classes, ∃ d, Member.attr d ∈ c.members ∧ ∃ v ∈ d.vars,
    cx = attrInitContext T c d v) ∨
  (∃ d v, DeclaresLocal T p cx d v) ∨ ∃ st, ChecksAt T p cx st

theorem typingContext_free {p : Program} {T : ClassTable}
    (hp : ∀ t ∈ p.declaredTypes, t.hasError = false)
    (hT : (ClassTable.ofProgram p).run.2 = .ok T) {cx : Context} (h : TypingContext T p cx) :
    cx.SentinelFree := by
  rcases h with ⟨c, hc, d, -, v, -, rfl⟩ | ⟨d, v, hd⟩ | ⟨st, hat⟩
  · -- an attribute's initializer
    have h := ContextFree.enterRoutine (ContextFree.start (table_free hp hT) c) .attrInit d.type
      d.isStatic
    exact ⟨h.table, h.scopes, h.cls⟩
  · rcases hd with ⟨c, hc, m, hm, cx₀, ps, b, hr, cx₁, hps, hat⟩ | ⟨cx₀, ds, ss, sp, hat, hdecl⟩
    · -- a local of a routine's body
      obtain ⟨h₀, hpars, hlocals⟩ := routine_free hp hT hc hm hr
      exact ContextFree.declAt hat (fun d hd ↦ hlocals _ (decls_localTypes hd))
        (ContextFree.paramScope hpars h₀ hps)
    · -- a local of a block the checker reaches
      obtain ⟨h₀, hlocals⟩ := checksAt_free hp hT hat
      have hds : ∀ d ∈ ds, d.type.hasError = false := fun d hd ↦
        hlocals _ (by rw [Stmt.localTypes]; exact List.mem_append_left _ (List.mem_map.mpr ⟨d, hd, rfl⟩))
      exact ContextFree.declAt hdecl hds (ContextFree.withScopes h₀ (ScopeStackFree.push h₀.scopes))
  · exact (checksAt_free hp hT hat).1

/-- No type the checker finds while checking a program whose declared attribute, parameter,
local and result types are free of the error sentinel holds the sentinel: not the type of any
expression typed in a context the checker types expressions in, and not the type of any
assignment's target there. So the tests that let the sentinel through never see it. -/
theorem source_types_sentinel_free {p : Program} {T : ClassTable}
    (hp : ∀ t ∈ p.declaredTypes, t.hasError = false)
    (hT : (ClassTable.ofProgram p).run.2 = .ok T) {cx : Context} (hcx : TypingContext T p cx) :
    (∀ (e : Expr) (t : Ty), checkExpr cx e = .ok t → t.hasError = false) ∧
      ∀ (tg : Target) (text : String) (sp : Span) (t : Ty),
        checkTarget cx tg text sp = .ok t → t.hasError = false :=
  ⟨fun e _ he ↦ checkExpr_free (typingContext_free hp hT hcx) e he,
    fun _ _ _ _ ht ↦ checkTarget_free (typingContext_free hp hT hcx) ht⟩

/-- The attribute `xs`, initialized by the array literal `{1, 2}`. -/
def pairXs : Declarator :=
  ⟨"xs", some (.array [.lit (.int 1) default, .lit (.int 2) default] default), default⟩

/-- The declaration of `xs` as an `int[2]`. -/
def pairDecl : AttrDecl := ⟨false, false, .array .int 2, [pairXs], default⟩

/-- A class `Main` with the attribute `xs` and an entry point. -/
def pairMain : ClassDecl :=
  ⟨"Main", none, [.attr pairDecl, .method ⟨true, .void, "main", [], ⟨[], [], default⟩, default⟩],
    default⟩

def pairs : Program := ⟨[pairMain]⟩

/-- The class table registration builds for `pairs`. -/
def pairsTable : ClassTable := ((ClassTable.ofProgram pairs).run.2).toOption.getD .empty

theorem pairs_registered : (ClassTable.ofProgram pairs).run.2 = .ok pairsTable :=
  except_eq_ok_of_isOk _ (by decide +kernel)

theorem pairs_sentinel_free :
    (∀ t ∈ pairs.declaredTypes, t.hasError = false) ∧
      (ClassTable.ofProgram pairs).run.2 = .ok pairsTable ∧
      TypingContext pairsTable pairs (attrInitContext pairsTable pairMain pairDecl pairXs) ∧
      (∀ (e : Expr) (t : Ty),
        checkExpr (attrInitContext pairsTable pairMain pairDecl pairXs) e = .ok t →
          t.hasError = false) ∧
      ∀ (tg : Target) (text : String) (sp : Span) (t : Ty),
        checkTarget (attrInitContext pairsTable pairMain pairDecl pairXs) tg text sp = .ok t →
          t.hasError = false :=
  have hp : ∀ t ∈ pairs.declaredTypes, t.hasError = false := by decide
  have hcx : TypingContext pairsTable pairs (attrInitContext pairsTable pairMain pairDecl pairXs) :=
    .inl ⟨pairMain, List.mem_singleton_self _, pairDecl, List.mem_cons_self, pairXs,
      List.mem_singleton_self _, rfl⟩
  ⟨hp, pairs_registered, hcx, source_types_sentinel_free hp pairs_registered hcx⟩

end ClassLang.Proofs.SentinelFree
