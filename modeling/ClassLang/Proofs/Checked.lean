import ClassLang.Proofs.Generation

namespace ClassLang.Proofs.Checked

open ClassLang Generation

variable {α β : Type}

theorem except_bind_ok {x : Except CompileError α} {f : α → Except CompileError β} {b : β}
    (h : (x >>= f) = .ok b) : ∃ a, x = .ok a ∧ f a = .ok b := by
  cases x with
  | error e => cases h
  | ok a => exact ⟨a, rfl, h⟩

theorem except_bind_error {x : Except CompileError α} {f : α → Except CompileError β}
    {e : CompileError} (h : (x >>= f) = .error e) : x = .error e ∨ ∃ a, x = .ok a ∧ f a = .error e := by
  cases x with
  | error e' => cases h; exact .inl rfl
  | ok a => exact .inr ⟨a, rfl, h⟩

theorem foldlM_invariant {step : β → α → Except CompileError β} (P : β → Prop)
    (hstep : ∀ x a y, P x → step x a = .ok y → P y) :
    ∀ (l : List α) (x y : β), P x → l.foldlM step x = .ok y → P y
  | [], x, y, hx, h => by cases h; exact hx
  | a :: l, x, y, hx, h => by
    rw [List.foldlM_cons] at h
    obtain ⟨x₁, h₁, h⟩ := except_bind_ok h
    exact foldlM_invariant P hstep l x₁ y (hstep x a x₁ hx h₁) h

theorem except_eq_ok_of_isOk {x : Except CompileError α} (d : α) (h : x.isOk = true) :
    x = .ok (x.toOption.getD d) := by
  cases x with
  | error e => cases h
  | ok a => rfl

theorem forM_ok_mem {f : α → Logged Unit} :
    ∀ {xs : List α} {l l' : Array LogLine}, runFrom (xs.forM f) l = (.ok (), l') →
      ∀ {x}, x ∈ xs → ∃ l₁ l₂, runFrom (f x) l₁ = (.ok (), l₂)
  | y :: ys, l, l', h, x, hx => by
    rw [List.forM] at h
    obtain ⟨⟨⟩, l₁, hy, h⟩ := runFrom_bind_ok h
    rcases List.mem_cons.mp hx with rfl | hx
    · exact ⟨l, l₁, hy⟩
    · exact forM_ok_mem h hx

/-- Checking `st` in `cx`, the checker comes to check `st'` in `cx'`: the branches of an `if` in
the same context, the body of a loop one loop deeper, and the statements of a block in the
context its declarations leave. -/
inductive Within : Context → Stmt → Context → Stmt → Prop
  | refl (cx : Context) (st : Stmt) : Within cx st cx st
  | condThen {cx cx' : Context} {c : Expr} {th st : Stmt} {el : Option Stmt} {sp : Span} :
      Within cx th cx' st → Within cx (.cond c th el sp) cx' st
  | condElse {cx cx' : Context} {c : Expr} {th el st : Stmt} {sp : Span} :
      Within cx el cx' st → Within cx (.cond c th (some el) sp) cx' st
  | loop {cx cx' : Context} {v : String} {vsp : Span} {a : Expr} {d : Direction} {b : Expr}
      {body st : Stmt} {sp : Span} :
      Within { cx with loops := cx.loops + 1 } body cx' st →
        Within cx (.loop v vsp a d b body sp) cx' st
  | block {cx cx₁ cx' : Context} {ds : List VarDecl} {ss : List Stmt} {sp : Span} {s st : Stmt} :
      checkVarDecls { cx with scopes := cx.scopes.push } ds = .ok cx₁ → s ∈ ss →
        Within cx₁ s cx' st → Within cx (.block ds ss sp) cx' st

section Statements

variable {cx : Context}

theorem checkStmts_mem : ∀ {ss : List Stmt}, checkStmts cx ss = .ok () →
    ∀ {s : Stmt}, s ∈ ss → checkStmt cx s = .ok ()
  | s :: ss, h, t, ht => by
    rw [checkStmts] at h
    obtain ⟨⟨⟩, hs, hss⟩ := except_bind_ok h
    rcases List.mem_cons.mp ht with rfl | ht
    · exact hs
    · exact checkStmts_mem hss ht

theorem checkStmt_cond_ok {c : Expr} {th : Stmt} {el : Option Stmt} {sp : Span}
    (h : checkStmt cx (.cond c th el sp) = .ok ()) :
    checkStmt cx th = .ok () ∧ ∀ e, el = some e → checkStmt cx e = .ok () := by
  cases el with
  | none =>
    rw [checkStmt] at h
    obtain ⟨_, -, h⟩ := except_bind_ok h
    split at h
    · cases h
    · obtain ⟨⟨⟩, hth, -⟩ := except_bind_ok h
      exact ⟨hth, fun e he ↦ nomatch he⟩
  | some el =>
    rw [checkStmt] at h
    obtain ⟨_, -, h⟩ := except_bind_ok h
    split at h
    · cases h
    · obtain ⟨⟨⟩, hth, h⟩ := except_bind_ok h
      exact ⟨hth, fun e he ↦ by cases he; exact h⟩

theorem checkStmt_loop_ok {v : String} {vsp : Span} {a : Expr} {d : Direction} {b : Expr}
    {body : Stmt} {sp : Span} (h : checkStmt cx (.loop v vsp a d b body sp) = .ok ()) :
    checkStmt { cx with loops := cx.loops + 1 } body = .ok () := by
  rw [checkStmt] at h
  obtain ⟨_, -, h⟩ := except_bind_ok h
  split at h
  · cases h
  · obtain ⟨_, -, h⟩ := except_bind_ok h
    obtain ⟨_, -, h⟩ := except_bind_ok h
    split at h
    · cases h
    · exact h

theorem checkStmt_block_ok {ds : List VarDecl} {ss : List Stmt} {sp : Span}
    (h : checkStmt cx (.block ds ss sp) = .ok ()) :
    ∃ cx₁, checkVarDecls { cx with scopes := cx.scopes.push } ds = .ok cx₁ ∧
      checkStmts cx₁ ss = .ok () := by
  rw [checkStmt] at h
  exact except_bind_ok h

theorem checkStmt_of_within {cx' : Context} {st st' : Stmt} (hw : Within cx st cx' st')
    (h : checkStmt cx st = .ok ()) : checkStmt cx' st' = .ok () := by
  induction hw with
  | refl => exact h
  | condThen _ ih => exact ih (checkStmt_cond_ok h).1
  | condElse _ ih => exact ih ((checkStmt_cond_ok h).2 _ rfl)
  | loop _ ih => exact ih (checkStmt_loop_ok h)
  | block hds hs _ ih =>
    obtain ⟨cx₁, hds', hss⟩ := checkStmt_block_ok h
    rw [hds] at hds'
    cases hds'
    exact ih (checkStmts_mem hss hs)

end Statements

/-- The scope a routine's body is checked in: its parameters, declared in order in a new scope
over the routine's context. -/
def paramScope (cx : Context) (params : List Param) : Except CompileError Context :=
  params.foldlM (fun cx p ↦ do
    requireClasses cx.table p.span p.type
    let s ← cx.scopes.declareParam p.name p.type p.span
    pure { cx with scopes := s }) { cx with scopes := cx.scopes.push }

theorem checkRoutineBody_eq (cx : Context) (params : List Param) (body : Block) :
    checkRoutineBody cx params body = paramScope cx params >>= (checkBlockContent · body) :=
  rfl

/-- The routine members of a class, each with the context its body is checked in before its
parameters are declared (the class's context `cx` entered as that routine), its parameters and
its body. -/
inductive RoutineOf (cx : Context) : Member → Context → List Param → Block → Prop
  | method (m : MethodDecl) :
      RoutineOf cx (.method m) (cx.enterRoutine .method m.ret m.isStatic) m.params m.body
  | ctor (k : CtorDecl) :
      RoutineOf cx (.ctor k) (cx.enterRoutine .ctor cx.classType false) k.params k.body
  | dtor (d : DtorDecl) :
      RoutineOf cx (.dtor d) (cx.enterRoutine .dtor .void false) [] d.body

/-- Checking program `p` against the table `T`, the checker checks the statement `st` in the
context `cx`: `st` is reached from a statement of the body of a routine member of one of the
program's classes, checked once the routine's parameters and locals are declared. -/
def ChecksAt (T : ClassTable) (p : Program) (cx : Context) (st : Stmt) : Prop :=
  ∃ c ∈ p.classes, ∃ m ∈ c.members, ∃ cx₀ ps b,
    RoutineOf ((Context.start T).enterClass c) m cx₀ ps b ∧
    ∃ cx₁, paramScope cx₀ ps = .ok cx₁ ∧ ∃ cx₂, checkVarDecls cx₁ b.decls = .ok cx₂ ∧
    ∃ s ∈ b.stmts, Within cx₂ s cx st

section Programs

variable {opts : Options} {p : Program} {T : ClassTable}

theorem check_ok_classes (h : (check opts p).run.2 = .ok T) :
    ∀ c ∈ p.classes, ∃ l₁ l₂, runFrom (checkClass (Context.start T) c) l₁ = (.ok (), l₂) := by
  rw [run_snd] at h
  rcases hr : runFrom (check opts p) #[] with ⟨r, log⟩
  rw [hr] at h
  cases h
  unfold check at hr
  obtain ⟨t, l₁, -, hr⟩ := runFrom_bind_ok hr
  obtain ⟨_, l₂, -, hr⟩ := runFrom_bind_ok hr
  obtain ⟨⟨⟩, l₃, hp, hr⟩ := runFrom_bind_ok hr
  obtain ⟨_, l₄, -, hr⟩ := runFrom_bind_ok hr
  cases runFrom_pure_ok hr
  unfold checkProgram at hp
  obtain ⟨⟨⟩, l₅, hcs, -⟩ := runFrom_bind_ok hp
  intro c hc
  exact forM_ok_mem hcs hc

theorem checkClass_ok_members {cx : Context} {c : ClassDecl} {l l' : Array LogLine}
    (h : runFrom (checkClass cx c) l = (.ok (), l')) :
    ∀ m ∈ c.members, ∃ l₁ l₂, runFrom (checkMember (cx.enterClass c) m) l₁ = (.ok (), l₂) := by
  unfold checkClass at h
  obtain ⟨_, l₁, -, h⟩ := runFrom_bind_ok h
  intro m hm
  exact forM_ok_mem h hm

theorem checkMember_routine {cx cx₀ : Context} {m : Member} {ps : List Param} {b : Block}
    {l l' : Array LogLine} (h : runFrom (checkMember cx m) l = (.ok (), l'))
    (hr : RoutineOf cx m cx₀ ps b) : checkRoutineBody cx₀ ps b = .ok () := by
  cases hr with
  | method m =>
    obtain ⟨_, _, -, h⟩ := runFrom_bind_ok h
    rw [run_lift] at h
    exact (Prod.mk.inj h).1
  | ctor k =>
    obtain ⟨_, _, -, h⟩ := runFrom_bind_ok h
    rw [run_lift] at h
    have hk := (Prod.mk.inj h).1
    unfold checkCtor at hk
    split at hk
    · cases hk
    · exact hk
  | dtor d =>
    obtain ⟨_, _, -, h⟩ := runFrom_bind_ok h
    rw [run_lift] at h
    have hd := (Prod.mk.inj h).1
    unfold checkDtor at hd
    split at hd
    · cases hd
    · exact hd

theorem check_ok_body (h : (check opts p).run.2 = .ok T) {c : ClassDecl} (hc : c ∈ p.classes)
    {m : Member} (hm : m ∈ c.members) {cx₀ : Context} {ps : List Param} {b : Block}
    (hr : RoutineOf ((Context.start T).enterClass c) m cx₀ ps b) :
    ∃ cx₁, paramScope cx₀ ps = .ok cx₁ ∧ ∃ cx₂, checkVarDecls cx₁ b.decls = .ok cx₂ ∧
      checkStmts cx₂ b.stmts = .ok () := by
  obtain ⟨_, _, hcls⟩ := check_ok_classes h c hc
  obtain ⟨_, _, hmem⟩ := checkClass_ok_members hcls m hm
  have hbody := checkMember_routine hmem hr
  rw [checkRoutineBody_eq] at hbody
  obtain ⟨cx₁, hps, hbody⟩ := except_bind_ok hbody
  obtain ⟨cx₂, hds, hss⟩ := except_bind_ok hbody
  exact ⟨cx₁, hps, cx₂, hds, hss⟩

theorem checkStmt_of_checksAt (h : (check opts p).run.2 = .ok T) {cx : Context} {st : Stmt}
    (hat : ChecksAt T p cx st) : checkStmt cx st = .ok () := by
  obtain ⟨c, hc, m, hm, cx₀, ps, b, hr, cx₁, hps, cx₂, hds, s, hs, hw⟩ := hat
  obtain ⟨cx₁', hps', cx₂', hds', hss⟩ := check_ok_body h hc hm hr
  rw [hps] at hps'
  cases hps'
  rw [hds] at hds'
  cases hds'
  exact checkStmt_of_within hw (checkStmts_mem hss hs)

end Programs

end ClassLang.Proofs.Checked
