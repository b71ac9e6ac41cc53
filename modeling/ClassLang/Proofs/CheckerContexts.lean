import ClassLang.Proofs.LoopJumps

namespace ClassLang

def VarDecl.bindingOf (d : VarDecl) (v : Declarator) : String × Binding :=
  (v.name, ⟨d.type, d.isFinal, v.span⟩)

def localBindings (ds : List VarDecl) : List (String × Binding) :=
  ds.flatMap fun d ↦ d.vars.map d.bindingOf

def freshNames (f : ScopeFrame) (bs : List (String × Binding)) : Prop :=
  (bs.map Prod.fst).Nodup ∧ ∀ b ∈ bs, b.1 ∉ f.map Prod.fst

/-- `Nested st k st'`: the statement `st'` is `st` or stands in it, inside exactly `k` of the loop
bodies of `st`. -/
inductive Stmt.Nested : Stmt → Nat → Stmt → Prop
  | refl (st : Stmt) : Nested st 0 st
  | condThen {c : Expr} {th st : Stmt} {el : Option Stmt} {sp : Span} {k : Nat} :
      Nested th k st → Nested (.cond c th el sp) k st
  | condElse {c : Expr} {th el st : Stmt} {sp : Span} {k : Nat} :
      Nested el k st → Nested (.cond c th (some el) sp) k st
  | loop {v : String} {vsp : Span} {a : Expr} {d : Direction} {b : Expr} {body st : Stmt}
      {sp : Span} {k : Nat} :
      Nested body k st → Nested (.loop v vsp a d b body sp) (k + 1) st
  | block {ds : List VarDecl} {ss : List Stmt} {sp : Span} {s st : Stmt} {k : Nat} :
      s ∈ ss → Nested s k st → Nested (.block ds ss sp) k st

end ClassLang

namespace ClassLang.Proofs.CheckerContexts

open ClassLang Checked LoopJumps

theorem frameFind?_eq_none_iff {f : ScopeFrame} {n : String} :
    ScopeStack.frameFind? f n = none ↔ n ∉ f.map Prod.fst := by
  simp only [ScopeStack.frameFind?, Option.map_eq_none_iff, List.find?_eq_none, beq_iff_eq,
    List.mem_map, not_exists, not_and]

theorem with_frames {cx : Context} {fs : List ScopeFrame} (hs : cx.scopes.frames = fs) :
    ({ cx with scopes := ⟨fs⟩ } : Context) = cx := by
  rw [← hs]

theorem freshNames_nil (f : ScopeFrame) : freshNames f [] :=
  ⟨List.nodup_nil, fun _ hb ↦ nomatch hb⟩

theorem freshNames_cons {f : ScopeFrame} {b : String × Binding} {bs : List (String × Binding)} :
    freshNames f (b :: bs) ↔ b.1 ∉ f.map Prod.fst ∧ freshNames (b :: f) bs := by
  unfold freshNames
  rw [List.map_cons, List.nodup_cons, List.forall_mem_cons, List.map_cons]
  simp only [List.mem_cons, not_or]
  constructor
  · rintro ⟨⟨hb, hnd⟩, hbf, hbs⟩
    exact ⟨hbf, hnd, fun x hx ↦ ⟨fun h ↦ hb (List.mem_map.mpr ⟨x, hx, h⟩), hbs x hx⟩⟩
  · rintro ⟨hbf, hnd, hbs⟩
    refine ⟨⟨fun h ↦ ?_, hnd⟩, hbf, fun x hx ↦ (hbs x hx).2⟩
    obtain ⟨x, hx, hxb⟩ := List.mem_map.mp h
    exact (hbs x hx).1 hxb

theorem freshNames_append {f : ScopeFrame} {as bs : List (String × Binding)} :
    freshNames f (as ++ bs) ↔ freshNames f as ∧ freshNames (as.reverse ++ f) bs := by
  induction as generalizing f with
  | nil => exact ⟨fun h ↦ ⟨freshNames_nil f, h⟩, fun h ↦ h.2⟩
  | cons a as ih =>
    rw [List.cons_append, freshNames_cons, ih, freshNames_cons, List.reverse_cons,
      List.append_assoc, List.singleton_append, and_assoc]

theorem declareLocal_ok {s s' : ScopeStack} {f : ScopeFrame} {rest : List ScopeFrame}
    (hs : s.frames = f :: rest) {n : String} {t : Ty} {isFinal : Bool} {sp : Span}
    (h : s.declareLocal n t isFinal sp = .ok s') :
    n ∉ f.map Prod.fst ∧ s' = ⟨((n, ⟨t, isFinal, sp⟩) :: f) :: rest⟩ := by
  have hsplit : s.split = (f, rest) := by
    rw [ScopeStack.split, hs]
  unfold ScopeStack.declareLocal at h
  rw [hsplit] at h
  split at h
  · cases h
  · rename_i hfind
    cases h
    have hn : n ∉ f.map Prod.fst :=
      frameFind?_eq_none_iff.mp (Option.not_isSome_iff_eq_none.mp hfind)
    -- the frame has no binding of `n` to drop
    have hkeep : f.filter (·.1 != n) = f := by
      refine List.filter_eq_self.mpr fun x hx ↦ ?_
      have hx' : x.1 ≠ n := fun he ↦ hn (List.mem_map.mpr ⟨x, hx, he⟩)
      simpa using hx'
    refine ⟨hn, ?_⟩
    simp only [ScopeStack.bind, hsplit, hkeep]

section Declarations

variable {cx cx' : Context} {f : ScopeFrame} {rest : List ScopeFrame}

theorem checkDeclarators_init {d : VarDecl} {v : Declarator} {vs : List Declarator} {e : Expr}
    (h : checkDeclarators d cx (v :: vs) = .ok cx') (he : v.init = some e) :
    ∃ t, checkExpr cx e = .ok t ∧ cx.fits d.type t = true := by
  rw [checkDeclarators] at h
  simp only [bind, Except.bind, throw, throwThe, MonadExceptOf.throw, he] at h
  split at h
  · cases h
  cases hf : d.isFinal
  · -- a variable: its initializer is checked and must fit
    simp only [hf, Bool.false_eq_true, if_false] at h
    cases hc : checkExpr cx e with
    | error err => simp only [hc] at h; cases h
    | ok t =>
      simp only [hc] at h
      refine ⟨t, rfl, ?_⟩
      cases hfit : cx.fits d.type t
      · simp only [hfit, Bool.not_false, if_true] at h
        split at h <;> cases h
      · rfl
  · -- a constant: its initializer must be constant, then is checked and must fit
    simp only [hf, if_true] at h
    split at h
    · cases h
    cases hc : checkExpr cx e with
    | error err => simp only [hc] at h; cases h
    | ok t =>
      simp only [hc] at h
      refine ⟨t, rfl, ?_⟩
      cases hfit : cx.fits d.type t
      · simp only [hfit, Bool.not_false, if_true] at h
        cases h
      · rfl

theorem checkDeclarators_cons_frames {d : VarDecl} {v : Declarator} {vs : List Declarator}
    (hs : cx.scopes.frames = f :: rest) (h : checkDeclarators d cx (v :: vs) = .ok cx') :
    v.name ∉ f.map Prod.fst ∧
      checkDeclarators d { cx with scopes := ⟨(d.bindingOf v :: f) :: rest⟩ } vs = .ok cx' := by
  obtain ⟨s, hdecl, h⟩ := checkDeclarators_cons_ok h
  obtain ⟨hn, rfl⟩ := declareLocal_ok hs hdecl
  exact ⟨hn, h⟩

theorem checkVarDecls_cons_ok {d : VarDecl} {ds : List VarDecl}
    (h : checkVarDecls cx (d :: ds) = .ok cx') :
    ∃ cx₁, checkDeclarators d cx d.vars = .ok cx₁ ∧ checkVarDecls cx₁ ds = .ok cx' := by
  rw [checkVarDecls] at h
  obtain ⟨_, -, h⟩ := except_bind_ok h
  exact except_bind_ok h

theorem checkDeclarators_scopes (d : VarDecl) (vs : List Declarator)
    (hs : cx.scopes.frames = f :: rest) (h : checkDeclarators d cx vs = .ok cx') :
    cx' = { cx with scopes := ⟨((vs.map d.bindingOf).reverse ++ f) :: rest⟩ } ∧
      freshNames f (vs.map d.bindingOf) := by
  induction vs generalizing cx f with
  | nil =>
    simp only [checkDeclarators, Except.ok.injEq] at h
    subst h
    exact ⟨(with_frames hs).symm, freshNames_nil f⟩
  | cons v vs ih =>
    obtain ⟨hn, h⟩ := checkDeclarators_cons_frames hs h
    obtain ⟨rfl, hfresh⟩ := ih (f := d.bindingOf v :: f) rfl h
    refine ⟨?_, freshNames_cons.mpr ⟨hn, hfresh⟩⟩
    simp only [List.map_cons, List.reverse_cons, List.append_assoc, List.singleton_append]

theorem checkVarDecls_scopes (ds : List VarDecl) (hs : cx.scopes.frames = f :: rest)
    (h : checkVarDecls cx ds = .ok cx') :
    cx' = { cx with scopes := ⟨((localBindings ds).reverse ++ f) :: rest⟩ } ∧
      freshNames f (localBindings ds) := by
  induction ds generalizing cx f with
  | nil =>
    simp only [checkVarDecls, Except.ok.injEq] at h
    subst h
    exact ⟨(with_frames hs).symm, freshNames_nil f⟩
  | cons d ds ih =>
    obtain ⟨cx₁, h₁, h⟩ := checkVarDecls_cons_ok h
    obtain ⟨rfl, hfresh₁⟩ := checkDeclarators_scopes d d.vars hs h₁
    obtain ⟨rfl, hfresh⟩ := ih rfl h
    have hcons : localBindings (d :: ds) = d.vars.map d.bindingOf ++ localBindings ds :=
      List.flatMap_cons
    refine ⟨?_, by rw [hcons]; exact freshNames_append.mpr ⟨hfresh₁, hfresh⟩⟩
    simp only [hcons, List.reverse_append, List.append_assoc]

theorem checkDeclarators_inits (d : VarDecl) (vpre : List Declarator) {v : Declarator}
    {vpost : List Declarator} {e : Expr} (hs : cx.scopes.frames = f :: rest)
    (h : checkDeclarators d cx (vpre ++ v :: vpost) = .ok cx') (he : v.init = some e) :
    ∃ t, checkExpr { cx with scopes := ⟨((vpre.map d.bindingOf).reverse ++ f) :: rest⟩ } e = .ok t ∧
      cx.fits d.type t = true := by
  induction vpre generalizing cx f with
  | nil =>
    rw [List.map_nil, List.reverse_nil, List.nil_append, with_frames hs]
    exact checkDeclarators_init h he
  | cons w vpre ih =>
    obtain ⟨-, h⟩ := checkDeclarators_cons_frames hs h
    obtain ⟨t, ht, hfit⟩ := ih (f := d.bindingOf w :: f) rfl h
    refine ⟨t, ?_, hfit⟩
    simpa only [List.map_cons, List.reverse_cons, List.append_assoc, List.singleton_append]
      using ht

theorem checkVarDecls_inits (dpre : List VarDecl) {d : VarDecl} {dpost : List VarDecl}
    {vpre : List Declarator} {v : Declarator} {vpost : List Declarator} {e : Expr}
    (hs : cx.scopes.frames = f :: rest) (h : checkVarDecls cx (dpre ++ d :: dpost) = .ok cx')
    (hv : d.vars = vpre ++ v :: vpost) (he : v.init = some e) :
    ∃ t, checkExpr { cx with scopes :=
        ⟨((localBindings dpre ++ vpre.map d.bindingOf).reverse ++ f) :: rest⟩ } e = .ok t ∧
      cx.fits d.type t = true := by
  induction dpre generalizing cx f with
  | nil =>
    obtain ⟨cx₁, h₁, -⟩ := checkVarDecls_cons_ok h
    rw [hv] at h₁
    simpa only [localBindings, List.flatMap_nil, List.nil_append] using
      checkDeclarators_inits d vpre hs h₁ he
  | cons d₀ dpre ih =>
    obtain ⟨cx₁, h₁, h⟩ := checkVarDecls_cons_ok h
    obtain ⟨rfl, -⟩ := checkDeclarators_scopes d₀ d₀.vars hs h₁
    obtain ⟨t, ht, hfit⟩ := ih rfl h
    refine ⟨t, ?_, hfit⟩
    have hcons : localBindings (d₀ :: dpre) = d₀.vars.map d₀.bindingOf ++ localBindings dpre :=
      List.flatMap_cons
    simpa only [hcons, List.reverse_append, List.append_assoc] using ht

end Declarations

section Statements

variable {cx : Context}

theorem checkStmts_ok_iff (ss : List Stmt) :
    checkStmts cx ss = .ok () ↔ ∀ s ∈ ss, checkStmt cx s = .ok () := by
  induction ss with
  | nil => exact ⟨fun _ _ hs ↦ (nomatch hs), fun _ ↦ rfl⟩
  | cons s ss ih =>
    rw [List.forall_mem_cons, ← ih]
    constructor
    · intro h
      rw [checkStmts] at h
      obtain ⟨⟨⟩, hs, hss⟩ := except_bind_ok h
      exact ⟨hs, hss⟩
    · rintro ⟨hs, hss⟩
      rw [checkStmts, hs]
      exact hss

theorem checkBlockContent_ok_iff (b : Block) :
    checkBlockContent cx b = .ok () ↔
      ∃ cx', checkVarDecls cx b.decls = .ok cx' ∧ ∀ s ∈ b.stmts, checkStmt cx' s = .ok () := by
  constructor
  · intro h
    obtain ⟨cx', hds, hss⟩ := except_bind_ok h
    exact ⟨cx', hds, (checkStmts_ok_iff b.stmts).mp hss⟩
  · rintro ⟨cx', hds, hss⟩
    show (checkVarDecls cx b.decls >>= fun cx ↦ checkStmts cx b.stmts) = .ok ()
    rw [hds]
    exact (checkStmts_ok_iff b.stmts).mpr hss

theorem within_nested {cx' : Context} {st st' : Stmt} (h : Within cx st cx' st') :
    ∃ k, st.Nested k st' ∧ cx'.loops = cx.loops + k := by
  induction h with
  | refl cx st => exact ⟨0, .refl st, rfl⟩
  | condThen _ ih =>
    obtain ⟨k, hn, hk⟩ := ih
    exact ⟨k, .condThen hn, hk⟩
  | condElse _ ih =>
    obtain ⟨k, hn, hk⟩ := ih
    exact ⟨k, .condElse hn, hk⟩
  | loop _ ih =>
    obtain ⟨k, hn, hk⟩ := ih
    refine ⟨k + 1, .loop hn, ?_⟩
    rw [hk]
    dsimp only
    omega
  | block hds hs _ ih =>
    obtain ⟨k, hn, hk⟩ := ih
    refine ⟨k, .block hs hn, ?_⟩
    rw [hk, checkVarDecls_loops hds]

theorem within_of_nested {st st' : Stmt} {k : Nat} (hn : st.Nested k st')
    (h : checkStmt cx st = .ok ()) : ∃ cx', Within cx st cx' st' ∧ cx'.loops = cx.loops + k := by
  induction hn generalizing cx with
  | refl st => exact ⟨cx, .refl cx st, rfl⟩
  | condThen _ ih =>
    obtain ⟨cx', hw, hk⟩ := ih (checkStmt_cond_ok h).1
    exact ⟨cx', .condThen hw, hk⟩
  | condElse _ ih =>
    obtain ⟨cx', hw, hk⟩ := ih ((checkStmt_cond_ok h).2 _ rfl)
    exact ⟨cx', .condElse hw, hk⟩
  | loop _ ih =>
    obtain ⟨cx', hw, hk⟩ := ih (checkStmt_loop_ok h)
    refine ⟨cx', .loop hw, ?_⟩
    rw [hk]
    dsimp only
    omega
  | block hs _ ih =>
    obtain ⟨cx₁, hds, hss⟩ := checkStmt_block_ok h
    obtain ⟨cx', hw, hk⟩ := ih (checkStmts_mem hss hs)
    refine ⟨cx', .block hds hs hw, ?_⟩
    rw [hk, checkVarDecls_loops hds]

end Statements

theorem routineOf_loops {cx cx₀ : Context} {m : Member} {ps : List Param} {b : Block}
    (h : RoutineOf cx m cx₀ ps b) : cx₀.loops = 0 := by
  cases h <;> rfl

theorem routine_loops_nested {cx cx₀ cx₁ cx₂ cx' : Context} {m : Member} {ps : List Param}
    {b : Block} {s st : Stmt} (hr : RoutineOf cx m cx₀ ps b) (hps : paramScope cx₀ ps = .ok cx₁)
    (hds : checkVarDecls cx₁ b.decls = .ok cx₂) (hw : Within cx₂ s cx' st) :
    s.Nested cx'.loops st := by
  obtain ⟨k, hn, hk⟩ := within_nested hw
  have h₂ : cx₂.loops = 0 := by
    rw [checkVarDecls_loops hds, paramScope_loops hps, routineOf_loops hr]
  rw [hk, h₂, Nat.zero_add]
  exact hn

/-- How the checker's context goes along a routine. -/
structure ContextDiscipline : Prop where
  stmts : ∀ (cx : Context) (b : Block), checkBlockContent cx b = .ok () ↔
    ∃ cx', checkVarDecls cx b.decls = .ok cx' ∧ ∀ s ∈ b.stmts, checkStmt cx' s = .ok ()
  decls : ∀ (cx cx' : Context) (f : ScopeFrame) (rest : List ScopeFrame) (ds : List VarDecl),
    cx.scopes.frames = f :: rest → checkVarDecls cx ds = .ok cx' →
      cx' = { cx with scopes := ⟨((localBindings ds).reverse ++ f) :: rest⟩ } ∧
        freshNames f (localBindings ds)
  inits : ∀ (cx cx' : Context) (f : ScopeFrame) (rest : List ScopeFrame)
    (dpre : List VarDecl) (d : VarDecl) (dpost : List VarDecl)
    (vpre : List Declarator) (v : Declarator) (vpost : List Declarator) (e : Expr),
    cx.scopes.frames = f :: rest → checkVarDecls cx (dpre ++ d :: dpost) = .ok cx' →
      d.vars = vpre ++ v :: vpost → v.init = some e →
        ∃ t, checkExpr { cx with scopes :=
            ⟨((localBindings dpre ++ vpre.map d.bindingOf).reverse ++ f) :: rest⟩ } e = .ok t ∧
          cx.fits d.type t = true
  loops : ∀ (cx cx' : Context) (st st' : Stmt), Within cx st cx' st' →
    ∃ k, st.Nested k st' ∧ cx'.loops = cx.loops + k
  reached : ∀ (cx : Context) (st st' : Stmt) (k : Nat), checkStmt cx st = .ok () →
    st.Nested k st' → ∃ cx', Within cx st cx' st' ∧ cx'.loops = cx.loops + k
  routines : ∀ (cx cx₀ cx₁ cx₂ cx' : Context) (m : Member) (ps : List Param) (b : Block)
    (s st : Stmt), RoutineOf cx m cx₀ ps b → paramScope cx₀ ps = .ok cx₁ →
      checkVarDecls cx₁ b.decls = .ok cx₂ → Within cx₂ s cx' st → s.Nested cx'.loops st

/-- The checker's context discipline: statements leave the context as they found it,
declarations only add fresh bindings to the innermost frame in order, each after its
initializer is checked, and the loops of the context count the loop bodies around the statement
being checked within its routine. -/
theorem checker_context_discipline : ContextDiscipline where
  stmts _ b := checkBlockContent_ok_iff b
  decls _ _ _ _ ds hs h := checkVarDecls_scopes ds hs h
  inits _ _ _ _ dpre _ _ _ _ _ _ hs h hv he := checkVarDecls_inits dpre hs h hv he
  loops _ _ _ _ hw := within_nested hw
  reached _ _ _ _ h hn := within_of_nested hn h
  routines _ _ _ _ _ _ _ _ _ _ hr hps hds hw := routine_loops_nested hr hps hds hw

end ClassLang.Proofs.CheckerContexts
