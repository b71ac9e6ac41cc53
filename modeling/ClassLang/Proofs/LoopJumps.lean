import ClassLang.Proofs.Checked
import ClassLang.Proofs.Linking

namespace ClassLang.Proofs.LoopJumps

open ClassLang Runs Invariants Generation Checked Linking

/-- A `break` or `continue` in a statement that no loop of the statement encloses. -/
inductive UnenclosedJump : Stmt → Prop
  | brk (sp : Span) : UnenclosedJump (.brk sp)
  | cont (sp : Span) : UnenclosedJump (.cont sp)
  | condThen {c : Expr} {th : Stmt} {el : Option Stmt} {sp : Span} :
      UnenclosedJump th → UnenclosedJump (.cond c th el sp)
  | condElse {c : Expr} {th e : Stmt} {sp : Span} :
      UnenclosedJump e → UnenclosedJump (.cond c th (some e) sp)
  | block {ds : List VarDecl} {ss : List Stmt} {sp : Span} {s : Stmt} :
      s ∈ ss → UnenclosedJump s → UnenclosedJump (.block ds ss sp)

/-- The body of a routine member; an attribute has none. -/
def routineBody : Member → Option Block
  | .attr _ => none
  | .method m => some m.body
  | .ctor k => some k.body
  | .dtor d => some d.body

section Checker

theorem checkDeclarators_cons_ok {d : VarDecl} {cx cx' : Context} {v : Declarator}
    {vs : List Declarator} (h : checkDeclarators d cx (v :: vs) = .ok cx') :
    ∃ s, cx.scopes.declareLocal v.name d.type d.isFinal v.span = .ok s ∧
      checkDeclarators d { cx with scopes := s } vs = .ok cx' := by
  rw [checkDeclarators] at h
  simp only [bind, Except.bind, throw, throwThe, MonadExceptOf.throw] at h
  -- each test of the declarator either fails or goes on to declare it
  repeat' split at h
  all_goals first | cases h | exact ⟨_, ‹_›, h⟩

theorem checkDeclarators_loops {d : VarDecl} :
    ∀ {vs : List Declarator} {cx cx' : Context}, checkDeclarators d cx vs = .ok cx' →
      cx'.loops = cx.loops
  | [], _, _, h => by cases h; rfl
  | _ :: _, _, _, h => by
    obtain ⟨_, -, h⟩ := checkDeclarators_cons_ok h
    have hrest := checkDeclarators_loops h
    exact hrest

theorem checkVarDecls_loops : ∀ {cx cx' : Context} {ds : List VarDecl},
    checkVarDecls cx ds = .ok cx' → cx'.loops = cx.loops
  | _, _, [], h => by cases h; rfl
  | _, _, d :: ds, h => by
    rw [checkVarDecls] at h
    obtain ⟨_, -, h⟩ := except_bind_ok h
    obtain ⟨cx₁, h₁, h⟩ := except_bind_ok h
    rw [checkVarDecls_loops h, checkDeclarators_loops h₁]

theorem paramScope_loops {cx cx' : Context} {ps : List Param} (h : paramScope cx ps = .ok cx') :
    cx'.loops = cx.loops := by
  refine foldlM_invariant (fun cx₀ ↦ cx₀.loops = cx.loops) ?_ ps _ _ rfl h
  intro cx₀ p cx₁ h₀ h₁
  obtain ⟨_, -, h₁⟩ := except_bind_ok h₁
  obtain ⟨_, -, h₁⟩ := except_bind_ok h₁
  cases h₁
  exact h₀

theorem checkStmt_unenclosed {cx : Context} {st : Stmt} (h : checkStmt cx st = .ok ())
    (hj : UnenclosedJump st) : 0 < cx.loops := by
  induction hj generalizing cx with
  | brk sp =>
    rw [checkStmt] at h
    split at h
    · cases h
    · omega
  | cont sp =>
    rw [checkStmt] at h
    split at h
    · cases h
    · omega
  | condThen _ ih => exact ih (checkStmt_cond_ok h).1
  | condElse _ ih => exact ih ((checkStmt_cond_ok h).2 _ rfl)
  | block hs _ ih =>
    obtain ⟨cx₁, hds, hss⟩ := checkStmt_block_ok h
    have h₁ := ih (checkStmts_mem hss hs)
    rwa [checkVarDecls_loops hds] at h₁

theorem routineOf_of_routineBody (cx : Context) {m : Member} {b : Block}
    (h : routineBody m = some b) : ∃ cx₀ ps, RoutineOf cx m cx₀ ps b ∧ cx₀.loops = 0 := by
  cases m with
  | attr _ => cases h
  | method d => cases h; exact ⟨_, _, .method d, rfl⟩
  | ctor k => cases h; exact ⟨_, _, .ctor k, rfl⟩
  | dtor d => cases h; exact ⟨_, _, .dtor d, rfl⟩

theorem checked_jumps_enclosed {opts : Options} {p : Program} {T : ClassTable}
    (h : (check opts p).run.2 = .ok T) {c : ClassDecl} (hc : c ∈ p.classes) {m : Member}
    (hm : m ∈ c.members) {b : Block} (hb : routineBody m = some b) {s : Stmt} (hs : s ∈ b.stmts) :
    ¬ UnenclosedJump s := by
  intro hj
  obtain ⟨cx₀, ps, hr, h₀⟩ := routineOf_of_routineBody ((Context.start T).enterClass c) hb
  obtain ⟨cx₁, hps, cx₂, hds, hss⟩ := check_ok_body h hc hm hr
  have hloops : cx₂.loops = 0 := by
    rw [checkVarDecls_loops hds, paramScope_loops hps, h₀]
  have hpos := checkStmt_unenclosed (checkStmts_mem hss hs) hj
  omega

end Checker

mutual

/-- The code of a statement as far as loops and their jumps go, when the loops `ls` are open
around it, innermost first. A `break` is one jump to the break label of the innermost open loop
and a `continue` one jump to its continue label. A loop places its test label, leaves through its
break label when the test fails, lays out its body with itself as the innermost loop, then places
its continue label right before the step of its variable and its break label right after its
jump back to the test. The rest of the code is left open. -/
inductive LoopCode : List LoopLabels → Stmt → List Line → Prop
  | brk {l : LoopLabels} {ls : List LoopLabels} {sp : Span} :
      LoopCode (l :: ls) (.brk sp) [.instr (.goto l.brk)]
  | cont {l : LoopLabels} {ls : List LoopLabels} {sp : Span} :
      LoopCode (l :: ls) (.cont sp) [.instr (.goto l.cont)]
  | loop {ls : List LoopLabels} {v : String} {vsp : Span} {a : Expr} {d : Direction} {b : Expr}
      {body : Stmt} {sp : Span} {condL contL brkL : Label} {c : Cond}
      {init test code step : List Line} :
      LoopCode (⟨contL, brkL⟩ :: ls) body code →
      LoopCode ls (.loop v vsp a d b body sp)
        (init ++ .label condL :: test ++ .instr (.ifICmp c brkL) :: code ++
          .label contL :: step ++ [.instr (.goto condL), .label brkL])
  | cond {ls : List LoopLabels} {c : Expr} {th : Stmt} {sp : Span} {pre code post : List Line} :
      LoopCode ls th code → LoopCode ls (.cond c th none sp) (pre ++ code ++ post)
  | condElse {ls : List LoopLabels} {c : Expr} {th el : Stmt} {sp : Span}
      {pre c₁ mid c₂ post : List Line} :
      LoopCode ls th c₁ → LoopCode ls el c₂ →
      LoopCode ls (.cond c th (some el) sp) (pre ++ c₁ ++ mid ++ c₂ ++ post)
  | block {ls : List LoopLabels} {ds : List VarDecl} {ss : List Stmt} {sp : Span}
      {pre code post : List Line} :
      LoopCodes ls ss code → LoopCode ls (.block ds ss sp) (pre ++ code ++ post)
  | assign {ls : List LoopLabels} {t : Target} {rhs : Expr} {sp : Span} {code : List Line} :
      LoopCode ls (.assign t rhs sp) code
  | ret {ls : List LoopLabels} {v : Option Expr} {sp : Span} {code : List Line} :
      LoopCode ls (.ret v sp) code
  | invoke {ls : List LoopLabels} {c : Chain} {sp : Span} {code : List Line} :
      LoopCode ls (.invoke c sp) code

/-- The code of statements in order: the code of each, one after the other. -/
inductive LoopCodes : List LoopLabels → List Stmt → List Line → Prop
  | nil {ls : List LoopLabels} : LoopCodes ls [] []
  | cons {ls : List LoopLabels} {st : Stmt} {sts : List Stmt} {c cs : List Line} :
      LoopCode ls st c → LoopCodes ls sts cs → LoopCodes ls (st :: sts) (c ++ cs)

end

def Kept (st st' : Emitter) : Prop := st'.frame.loops = st.frame.loops ∧ LinesGrow st st'

theorem adjust_loops {f f' : Frame} {d : Int} (h : f.adjust d = .ok f') : f'.loops = f.loops := by
  obtain ⟨-, rfl⟩ := adjust_ok h
  rfl

theorem kept_steps : Steps Kept fun _ ↦ True where
  refl st := ⟨rfl, List.prefix_refl _⟩
  trans h₁ h₂ := ⟨h₂.1.trans h₁.1, h₁.2.trans h₂.2⟩
  internal _ := trivial
  emit i st st' h := by
    refine ⟨?_, linesGrow_steps.emit i st st' h⟩
    obtain ⟨f, hf, rfl⟩ := emit_ok h
    exact adjust_loops hf
  rewind d st st' h := by
    refine ⟨?_, linesGrow_steps.rewind d st st' h⟩
    obtain ⟨f, hf, rfl⟩ := rewind_ok h
    exact adjust_loops hf
  line l st := ⟨rfl, linesGrow_steps.line l st⟩
  newLabel st := ⟨rfl, linesGrow_steps.newLabel st⟩
  append ls st := ⟨rfl, linesGrow_steps.append ls st⟩
  capture above act h := by
    have hl : Sound LinesGrow (fun _ ↦ True) act :=
      ⟨fun st a st' hr ↦ (h.ok st a st' hr).2, fun _ _ _ ↦ trivial⟩
    refine ⟨fun st c st' hc ↦ ⟨?_, (linesGrow_steps.capture above act hl).ok st c st' hc⟩,
      fun _ _ _ ↦ trivial⟩
    -- the captured code runs over the frame with the operands above, whose loops are the same
    obtain ⟨f₁, st₂, f₃, hf₁, h₂, -, hf₃, rfl⟩ := capture_ok hc
    show f₃.loops = st.frame.loops
    rw [adjust_loops hf₃, (h.ok _ _ _ h₂).1, adjust_loops hf₁]

theorem kept_frameSteps : FrameSteps Kept fun _ ↦ True where
  toSteps := kept_steps
  newSlot st := ⟨rfl, linesGrow_steps.newSlot st⟩
  bind _ _ _ st := ⟨rfl, List.prefix_refl _⟩
  enterBlock st := ⟨rfl, linesGrow_steps.enterBlock st⟩
  exitBlock st p h := by
    refine ⟨?_, List.prefix_refl _⟩
    unfold Frame.exitBlock at h
    split at h
    · cases h
      rfl
    · cases h

def Appends (e e' : Emitter) (code : List Line) : Prop :=
  e'.frame.loops = e.frame.loops ∧ e'.lines.toList = e.lines.toList ++ code

theorem Appends.trans {e e₁ e₂ : Emitter} {c₁ c₂ : List Line} (h₁ : Appends e e₁ c₁)
    (h₂ : Appends e₁ e₂ c₂) : Appends e e₂ (c₁ ++ c₂) :=
  ⟨h₂.1.trans h₁.1, by rw [h₂.2, h₁.2, List.append_assoc]⟩

theorem appends_of_kept {m : EmitM α} (hm : Sound Kept (fun _ ↦ True) m) {e e' : Emitter} {a : α}
    (h : m.run e = .ok (a, e')) : ∃ code, Appends e e' code := by
  obtain ⟨hl, code, hc⟩ := hm.ok e a e' h
  exact ⟨code, hl, hc.symm⟩

theorem appends_emit {i : Instr} {e e' : Emitter} {u : Unit}
    (h : (Emitter.emit i).run e = .ok (u, e')) : Appends e e' [.instr i] := by
  obtain ⟨f, hf, rfl⟩ := emit_ok h
  exact ⟨adjust_loops hf, by simp⟩

theorem appends_newLabel {e e' : Emitter} {l : Label}
    (h : Emitter.newLabel.run e = .ok (l, e')) : Appends e e' [] := by
  cases h
  exact ⟨rfl, (List.append_nil _).symm⟩

theorem appends_label {l : Label} {e e' : Emitter} {u : Unit}
    (h : (Emitter.label l).run e = .ok (u, e')) : Appends e e' [.label l] := by
  cases h
  exact ⟨rfl, by simp⟩

section Generator

variable (s : Site)

def loopInit (v : String) (a : Expr) : EmitM Unit := do
  let p ← Lower.identPlace s v
  let _ ← Lower.lowerExpr s a
  Lower.store p

def loopTest (v : String) (d : Direction) (b : Expr) (brkL : Label) : EmitM Unit := do
  let _ ← Lower.loadIdent s v
  let _ ← Lower.lowerExpr s b
  Emitter.emit (.ifICmp (if d == .up then .gt else .lt) brkL)

def loopBody (contL brkL : Label) (body : Stmt) : EmitM Unit := do
  Emitter.onFrame (·.enterLoop contL brkL)
  Lower.lowerStmt s body
  Emitter.onFrame (·.exitLoop)

theorem lowerStmt_loop_eq (v : String) (vsp : Span) (a : Expr) (d : Direction) (b : Expr)
    (body : Stmt) (sp : Span) :
    Lower.lowerStmt s (.loop v vsp a d b body sp) = (do
      let condL ← Emitter.newLabel
      let contL ← Emitter.newLabel
      let brkL ← Emitter.newLabel
      loopInit s v a
      Emitter.label condL
      loopTest s v d b brkL
      loopBody s contL brkL body
      Emitter.label contL
      Lower.stepVar s v d
      Emitter.emit (.goto condL)
      Emitter.label brkL) := by
  simp only [lowerStmt_loop, loopInit, loopTest, loopBody, bind_assoc]

theorem lowerStmt_loop_run {v : String} {vsp : Span} {a : Expr} {d : Direction} {b : Expr}
    {body : Stmt} {sp : Span} {e e' : Emitter} {u : Unit}
    (h : (Lower.lowerStmt s (.loop v vsp a d b body sp)).run e = .ok (u, e')) :
    ∃ condL contL brkL e₁ e₂ e₃ e₄ e₅ e₆ e₇ e₈ e₉ e₁₀,
      Emitter.newLabel.run e = .ok (condL, e₁) ∧ Emitter.newLabel.run e₁ = .ok (contL, e₂) ∧
      Emitter.newLabel.run e₂ = .ok (brkL, e₃) ∧ (loopInit s v a).run e₃ = .ok ((), e₄) ∧
      (Emitter.label condL).run e₄ = .ok ((), e₅) ∧
      (loopTest s v d b brkL).run e₅ = .ok ((), e₆) ∧
      (loopBody s contL brkL body).run e₆ = .ok ((), e₇) ∧
      (Emitter.label contL).run e₇ = .ok ((), e₈) ∧ (Lower.stepVar s v d).run e₈ = .ok ((), e₉) ∧
      (Emitter.emit (.goto condL)).run e₉ = .ok ((), e₁₀) ∧
      (Emitter.label brkL).run e₁₀ = .ok ((), e') := by
  rw [lowerStmt_loop_eq] at h
  obtain ⟨condL, e₁, h₁, h⟩ := bind_ok h
  obtain ⟨contL, e₂, h₂, h⟩ := bind_ok h
  obtain ⟨brkL, e₃, h₃, h⟩ := bind_ok h
  obtain ⟨_, e₄, h₄, h⟩ := bind_ok h
  obtain ⟨_, e₅, h₅, h⟩ := bind_ok h
  obtain ⟨_, e₆, h₆, h⟩ := bind_ok h
  obtain ⟨_, e₇, h₇, h⟩ := bind_ok h
  obtain ⟨_, e₈, h₈, h⟩ := bind_ok h
  obtain ⟨_, e₉, h₉, h⟩ := bind_ok h
  obtain ⟨_, e₁₀, h₁₀, h⟩ := bind_ok h
  exact ⟨condL, contL, brkL, e₁, e₂, e₃, e₄, e₅, e₆, e₇, e₈, e₉, e₁₀, h₁, h₂, h₃, h₄, h₅, h₆, h₇,
    h₈, h₉, h₁₀, h⟩

theorem loopBody_run {contL brkL : Label} {body : Stmt} {e e' : Emitter} {u : Unit}
    (h : (loopBody s contL brkL body).run e = .ok (u, e')) :
    ∃ e₂, (Lower.lowerStmt s body).run { e with frame := e.frame.enterLoop contL brkL } =
        .ok ((), e₂) ∧ e' = { e₂ with frame := e₂.frame.exitLoop } := by
  unfold loopBody at h
  obtain ⟨_, e₁, h₁, h⟩ := bind_ok h
  obtain ⟨_, e₂, h₂, h₃⟩ := bind_ok h
  rw [onFrame_run] at h₁ h₃
  cases h₁
  cases h₃
  exact ⟨e₂, h₂, rfl⟩

theorem loopTest_appends {v : String} {d : Direction} {b : Expr} {brkL : Label} {e e' : Emitter}
    {u : Unit} (h : (loopTest s v d b brkL).run e = .ok (u, e')) :
    ∃ test c, Appends e e' (test ++ [.instr (.ifICmp c brkL)]) := by
  obtain ⟨_, e₁, h₁, h⟩ := bind_ok h
  obtain ⟨_, e₂, h₂, h⟩ := bind_ok h
  obtain ⟨c₁, a₁⟩ := appends_of_kept (loadIdent_sound kept_steps s v) h₁
  obtain ⟨c₂, a₂⟩ := appends_of_kept (lowerExpr_sound kept_steps s b) h₂
  exact ⟨c₁ ++ c₂, _, (a₁.trans a₂).trans (appends_emit h)⟩

theorem loopInit_kept (v : String) (a : Expr) : Sound Kept (fun _ ↦ True) (loopInit s v a) :=
  Sound.bind kept_steps (identPlace_sound kept_steps s v) fun _ ↦
    Sound.bind kept_steps (lowerExpr_sound kept_steps s a) fun _ ↦ store_sound kept_steps _

theorem loopBody_appends {contL brkL : Label} {body : Stmt}
    (ih : ∀ {e e' : Emitter}, (Lower.lowerStmt s body).run e = .ok ((), e') →
      ∃ code, Appends e e' code ∧ LoopCode e.frame.loops.stack body code)
    {e e' : Emitter} {u : Unit} (h : (loopBody s contL brkL body).run e = .ok (u, e')) :
    ∃ code, Appends e e' code ∧ LoopCode (⟨contL, brkL⟩ :: e.frame.loops.stack) body code := by
  obtain ⟨e₂, h₂, rfl⟩ := loopBody_run s h
  obtain ⟨code, a, hcode⟩ := ih h₂
  refine ⟨code, ⟨?_, a.2⟩, hcode⟩
  show e₂.frame.loops.exit = e.frame.loops
  rw [a.1]
  rfl

theorem brkLabel_run {e e₁ : Emitter} {l : Label}
    (h : (Emitter.liftExcept e.frame.loops.brkLabel).run e = .ok (l, e₁)) :
    e₁ = e ∧ ∃ top rest, e.frame.loops.stack = top :: rest ∧ l = top.brk := by
  rw [liftExcept_run] at h
  unfold Loops.brkLabel at h
  split at h
  · cases h
    exact ⟨rfl, _, _, ‹_›, rfl⟩
  · cases h

theorem contLabel_run {e e₁ : Emitter} {l : Label}
    (h : (Emitter.liftExcept e.frame.loops.contLabel).run e = .ok (l, e₁)) :
    e₁ = e ∧ ∃ top rest, e.frame.loops.stack = top :: rest ∧ l = top.cont := by
  rw [liftExcept_run] at h
  unfold Loops.contLabel at h
  split at h
  · cases h
    exact ⟨rfl, _, _, ‹_›, rfl⟩
  · cases h

theorem lowerStmt_brk_run {sp : Span} {e e' : Emitter} {u : Unit}
    (h : (Lower.lowerStmt s (.brk sp)).run e = .ok (u, e')) :
    ∃ top rest, e.frame.loops.stack = top :: rest ∧
      (Emitter.emit (.goto top.brk)).run e = .ok ((), e') := by
  rw [lowerStmt_brk] at h
  obtain ⟨_, e₁, h₁, h⟩ := bind_ok h
  cases h₁
  obtain ⟨l, e₂, h₂, h⟩ := bind_ok h
  obtain ⟨rfl, top, rest, hs, rfl⟩ := brkLabel_run h₂
  exact ⟨top, rest, hs, h⟩

theorem lowerStmt_cont_run {sp : Span} {e e' : Emitter} {u : Unit}
    (h : (Lower.lowerStmt s (.cont sp)).run e = .ok (u, e')) :
    ∃ top rest, e.frame.loops.stack = top :: rest ∧
      (Emitter.emit (.goto top.cont)).run e = .ok ((), e') := by
  rw [lowerStmt_cont] at h
  obtain ⟨_, e₁, h₁, h⟩ := bind_ok h
  cases h₁
  obtain ⟨l, e₂, h₂, h⟩ := bind_ok h
  obtain ⟨rfl, top, rest, hs, rfl⟩ := contLabel_run h₂
  exact ⟨top, rest, hs, h⟩

mutual

theorem lowerStmt_loopCode : ∀ (st : Stmt) {e e' : Emitter},
    (Lower.lowerStmt s st).run e = .ok ((), e') →
      ∃ code, Appends e e' code ∧ LoopCode e.frame.loops.stack st code
  | .assign t rhs sp, _, _, h => by
    obtain ⟨code, a⟩ := appends_of_kept (assign_sound kept_steps s t rhs sp) h
    exact ⟨code, a, .assign⟩
  | .ret v sp, _, _, h => by
    rw [lowerStmt_ret] at h
    obtain ⟨code, a⟩ := appends_of_kept (lowerReturn_sound kept_steps s v) h
    exact ⟨code, a, .ret⟩
  | .invoke c sp, _, _, h => by
    obtain ⟨code, a⟩ := appends_of_kept (invoke_sound kept_steps s c sp) h
    exact ⟨code, a, .invoke⟩
  | .brk sp, e, _, h => by
    obtain ⟨top, rest, hs, h⟩ := lowerStmt_brk_run s h
    rw [hs]
    exact ⟨_, appends_emit h, .brk⟩
  | .cont sp, e, _, h => by
    obtain ⟨top, rest, hs, h⟩ := lowerStmt_cont_run s h
    rw [hs]
    exact ⟨_, appends_emit h, .cont⟩
  | .cond c th el sp, e, _, h => by
    rw [lowerStmt_cond] at h
    obtain ⟨elseL, e₁, h₁, h⟩ := bind_ok h
    cases h₁
    obtain ⟨_, e₂, h₂, h⟩ := bind_ok h
    obtain ⟨_, e₃, h₃, h⟩ := bind_ok h
    obtain ⟨_, e₄, h₄, h⟩ := bind_ok h
    obtain ⟨test, a₂⟩ := appends_of_kept (lowerExpr_sound kept_steps s c) h₂
    have pre := a₂.trans (appends_emit h₃)
    obtain ⟨c₄, a₄, hth⟩ := lowerStmt_loopCode th h₄
    -- the branches are laid out for the loops open at the statement
    rw [pre.1] at hth
    cases el with
    | none => exact ⟨_, (pre.trans a₄).trans (appends_label h), .cond hth⟩
    | some el =>
      obtain ⟨endL, e₅, h₅, h⟩ := bind_ok h
      cases h₅
      obtain ⟨_, e₆, h₆, h⟩ := bind_ok h
      obtain ⟨_, e₇, h₇, h⟩ := bind_ok h
      obtain ⟨_, e₈, h₈, h⟩ := bind_ok h
      have mid := (appends_emit h₆).trans (appends_label h₇)
      obtain ⟨c₈, a₈, hel⟩ := lowerStmt_loopCode el h₈
      rw [mid.1, a₄.1, pre.1] at hel
      exact ⟨_, (((pre.trans a₄).trans mid).trans a₈).trans (appends_label h), .condElse hth hel⟩
  | .loop v vsp a d b body sp, e, _, h => by
    obtain ⟨condL, contL, brkL, e₁, e₂, e₃, e₄, e₅, e₆, e₇, e₈, e₉, e₁₀, h₁, h₂, h₃, h₄, h₅, h₆, h₇,
      h₈, h₉, h₁₀, h⟩ := lowerStmt_loop_run s h
    -- the three labels are fresh numbers of the frame: no line is written for them yet
    have a₃ := ((appends_newLabel h₁).trans (appends_newLabel h₂)).trans (appends_newLabel h₃)
    obtain ⟨init, a₄⟩ := appends_of_kept (loopInit_kept s v a) h₄
    obtain ⟨test, c, a₆⟩ := loopTest_appends s h₆
    have head := ((a₃.trans a₄).trans (appends_label h₅)).trans a₆
    obtain ⟨code, a₇, hbody⟩ := loopBody_appends s (lowerStmt_loopCode body) h₇
    rw [head.1] at hbody
    obtain ⟨step, a₉⟩ := appends_of_kept (stepVar_sound kept_steps s v d) h₉
    have all := (((head.trans a₇).trans (appends_label h₈)).trans a₉).trans
      ((appends_emit h₁₀).trans (appends_label h))
    exact ⟨_, by simpa only [List.nil_append, List.append_assoc, List.cons_append,
      List.singleton_append] using all,
      @LoopCode.loop _ v vsp a d b body sp condL contL brkL c init test code step hbody⟩
  | .block ds ss sp, e, _, h => by
    obtain ⟨_, _, e₁, e₂, e₃, e₄, e₅, e₆, _, h₁, h₂, h₃, h₄, h₅, h₆, h₇⟩ :=
      lowerStmt_block_run s sp h
    obtain ⟨_, a₁⟩ := appends_of_kept (enterBlock_sound kept_frameSteps) h₁
    obtain ⟨_, a₂⟩ := appends_of_kept (declareLocals_sound kept_frameSteps _ ds) h₂
    obtain ⟨_, a₄⟩ := appends_of_kept (initLocals_sound kept_frameSteps s _) h₄
    have pre := ((a₁.trans a₂).trans (appends_label h₃)).trans a₄
    obtain ⟨code, a₅, hss⟩ := lowerStmts_loopCode ss h₅
    rw [pre.1] at hss
    obtain ⟨_, a₇⟩ := appends_of_kept (exitBlock_sound kept_frameSteps) h₇
    exact ⟨_, (pre.trans a₅).trans ((appends_label h₆).trans a₇), .block hss⟩

theorem lowerStmts_loopCode : ∀ (sts : List Stmt) {e e' : Emitter},
    (Lower.lowerStmts s sts).run e = .ok ((), e') →
      ∃ code, Appends e e' code ∧ LoopCodes e.frame.loops.stack sts code
  | [], _, _, h => by
    rw [Lower.lowerStmts] at h
    cases h
    exact ⟨[], ⟨rfl, (List.append_nil _).symm⟩, .nil⟩
  | st :: sts, _, _, h => by
    rw [Lower.lowerStmts] at h
    obtain ⟨_, e₁, h₁, h⟩ := bind_ok h
    obtain ⟨c, a₁, hst⟩ := lowerStmt_loopCode st h₁
    obtain ⟨cs, a₂, hsts⟩ := lowerStmts_loopCode sts h
    rw [a₁.1] at hsts
    exact ⟨c ++ cs, a₁.trans a₂, .cons hst hsts⟩

end

theorem lowerBody_close_loopCode {ls : BlockLabels} {b : Block} {prologue : EmitM Unit}
    (hp : Sound Kept (fun _ ↦ True) prologue) (ob : Option Block) {e e' : Emitter} {u : Unit}
    (h : (do Lower.lowerBody s ls b prologue; Lower.closeRoutine ls ob).run e = .ok (u, e')) :
    ∃ pre code post, Appends e e' (pre ++ code ++ post) ∧
      LoopCodes e.frame.loops.stack b.stmts code := by
  obtain ⟨_, e₅, h₅, h⟩ := bind_ok h
  obtain ⟨_, e₁, e₂, e₃, e₄, h₁, h₂, h₃, h₄, h₅⟩ := lowerBody_run h₅
  obtain ⟨_, a₁⟩ := appends_of_kept (declareLocals_sound kept_frameSteps _ _) h₁
  obtain ⟨_, a₃⟩ := appends_of_kept hp h₃
  obtain ⟨_, a₄⟩ := appends_of_kept (initLocals_sound kept_frameSteps s _) h₄
  have pre := ((a₁.trans (appends_label h₂)).trans a₃).trans a₄
  obtain ⟨code, a₅, hss⟩ := lowerStmts_loopCode s b.stmts h₅
  rw [pre.1] at hss
  obtain ⟨_, a₆⟩ := appends_of_kept (closeRoutine_sound kept_frameSteps ls ob) h
  exact ⟨_, code, _, (pre.trans a₅).trans a₆, hss⟩

theorem routine_loopCode {h : MethodHeader} {r : Receiver} {body : BlockLabels → EmitM Unit}
    {b : Block}
    (hbody : ∀ ls {e e' : Emitter} {u : Unit}, (body ls).run e = .ok (u, e') →
      ∃ pre code post, Appends e e' (pre ++ code ++ post) ∧
        LoopCodes e.frame.loops.stack b.stmts code)
    {rc : RoutineCode} {log log' : Array LogLine}
    (hr : runFrom (Lower.routine s h r body) log = (.ok rc, log')) :
    ∃ pre code post, rc.lines = pre ++ code ++ post ∧ LoopCodes [] b.stmts code := by
  obtain ⟨-, e', hrun, hl⟩ := routine_ok s hr
  obtain ⟨ls, e₁, h₁, h₂⟩ := bind_ok hrun
  obtain ⟨c₁, a₁⟩ := appends_of_kept (openRoutine_sound kept_frameSteps s r) h₁
  obtain ⟨pre, code, post, a₂, hss⟩ := hbody ls h₂
  -- a fresh frame has no open loop, and opening the routine opens none
  rw [a₁.1] at hss
  refine ⟨c₁ ++ pre, code, post, ?_, hss⟩
  rw [hl, (a₁.trans a₂).2]
  simp [Emitter.create, List.append_assoc]

theorem memberRoutine_loopCode {parent : String} {attrs : List AttrInfo} {m : Member} {b : Block}
    (hb : routineBody m = some b) {o : Option RoutineCode} {log log' : Array LogLine}
    (hr : runFrom (Lower.memberRoutine s parent attrs m) log = (.ok o, log')) :
    ∃ rc, o = some rc ∧ ∃ pre code post, rc.lines = pre ++ code ++ post ∧ LoopCodes [] b.stmts code := by
  cases m with
  | attr _ => cases hb
  | method d =>
    cases hb
    obtain ⟨rc, hrc, rfl⟩ := runFrom_map_ok hr
    refine ⟨rc, rfl, routine_loopCode s (fun ls e e' u h ↦ ?_) hrc⟩
    obtain ⟨_, e₁, h₁, h⟩ := bind_ok h
    obtain ⟨c₁, a₁⟩ := appends_of_kept (declareParams_sound kept_frameSteps ls _) h₁
    obtain ⟨pre, code, post, a₂, hss⟩ :=
      lowerBody_close_loopCode s (bindParams_sound kept_frameSteps _ _) _ h
    rw [a₁.1] at hss
    exact ⟨c₁ ++ pre, code, post, by simpa only [List.append_assoc] using a₁.trans a₂, hss⟩
  | ctor k =>
    cases hb
    obtain ⟨rc, hrc, rfl⟩ := runFrom_map_ok hr
    refine ⟨rc, rfl, routine_loopCode s (fun ls e e' u h ↦ ?_) hrc⟩
    obtain ⟨slots, e₁, h₁, h⟩ := bind_ok h
    obtain ⟨c₁, a₁⟩ := appends_of_kept (declareParams_sound kept_frameSteps ls _) h₁
    have hp : Sound Kept (fun _ ↦ True) (do
        Lower.superCall s parent
        Lower.initAttributes s (attrs.filter (!·.isStatic))
        Lower.bindParams k.params slots) :=
      Sound.bind kept_steps (superCall_sound kept_steps s parent) fun _ ↦
        Sound.bind kept_steps (initAttributes_sound kept_steps s _) fun _ ↦
          bindParams_sound kept_frameSteps k.params slots
    obtain ⟨pre, code, post, a₂, hss⟩ := lowerBody_close_loopCode s hp _ h
    rw [a₁.1] at hss
    exact ⟨c₁ ++ pre, code, post, by simpa only [List.append_assoc] using a₁.trans a₂, hss⟩
  | dtor d =>
    cases hb
    obtain ⟨rc, hrc, rfl⟩ := runFrom_map_ok hr
    exact ⟨rc, rfl, routine_loopCode s (fun _ _ _ _ h ↦
      lowerBody_close_loopCode s (Sound.pure kept_steps ()) _ h) hrc⟩

end Generator

theorem compile_loopCode {opts : Options} {p : Program} {us : List ClassUnit}
    (h : (compile opts p).run.2 = .ok us) :
    List.Forall₂ (fun c u ↦ ∀ m ∈ c.members, ∀ b, routineBody m = some b →
      ∃ rc ∈ u.routines, ∃ pre code post, rc.lines = pre ++ code ++ post ∧
        LoopCodes [] b.stmts code) p.classes us := by
  obtain ⟨T, hT⟩ := compile_ok h
  refine hT.imp fun c u ⟨_, _, hu⟩ m hm b hb ↦ ?_
  obtain ⟨s, attrs, init, routines, clinit, -, hms, -, -, hrs⟩ := classLower_ok hu
  obtain ⟨o, ho, _, _, hr⟩ := Forall₂.exists_of_mem hms hm
  obtain ⟨rc, rfl, hcode⟩ := memberRoutine_loopCode s hb hr
  refine ⟨rc, ?_, hcode⟩
  rw [hrs]
  exact List.mem_append_left _ (List.mem_append_right _ (List.mem_filterMap.mpr ⟨_, ho, rfl⟩))

/-- Breaks and continues bind to the innermost loop around them. The checker accepts a program
only if every `break` and `continue` of a routine lies in one of the routine's loops; and when the
program compiles, every routine with a body holds the code of the body's statements laid out as
`LoopCode` gives for no open loop: each `break` and `continue` is one jump to the break or the
continue label of the innermost loop around it, which that loop places right after its jump back
to its test, or between its body and the step of its variable. -/
theorem jumps_bind_innermost_loop {opts : Options} {p : Program} {T : ClassTable}
    (hc : (check opts p).run.2 = .ok T) :
    (∀ c ∈ p.classes, ∀ m ∈ c.members, ∀ b, routineBody m = some b →
      ∀ st ∈ b.stmts, ¬ UnenclosedJump st) ∧
    ∀ us, (compile opts p).run.2 = .ok us →
      List.Forall₂ (fun c u ↦ ∀ m ∈ c.members, ∀ b, routineBody m = some b →
        ∃ rc ∈ u.routines, ∃ pre code post, rc.lines = pre ++ code ++ post ∧
          LoopCodes [] b.stmts code) p.classes us :=
  ⟨fun _ hcl _ hm _ hb _ hs ↦ checked_jumps_enclosed hc hcl hm hb hs, fun _ h ↦ compile_loopCode h⟩

/-- The class `Main` whose entry point runs two nested loops over locals `i` and `j`; the inner
body continues on one test and breaks on another. -/
def nestedLoops : Program :=
  ⟨[⟨"Main", none, [.method ⟨true, .void, "main", [],
    ⟨[⟨false, .int, [⟨"i", none, default⟩, ⟨"j", none, default⟩], default⟩],
      [.loop "i" default (.lit (.int 1) default) .up (.lit (.int 3) default)
        (.loop "j" default (.lit (.int 1) default) .down (.lit (.int 0) default)
          (.block [] [.cond (.lit (.bool true) default) (.cont default) none default,
            .cond (.lit (.bool false) default) (.brk default) (some (.cont default)) default]
            default) default) default], default⟩,
    default⟩], default⟩]⟩

/-- The class table the checker builds for `nestedLoops`. -/
def nestedLoopsTable : ClassTable := ((check {} nestedLoops).run.2).toOption.getD .empty

theorem nestedLoops_jumps_bound :
    (compile {} nestedLoops).run.2.isOk ∧
      (check {} nestedLoops).run.2 = .ok nestedLoopsTable ∧
      (∀ c ∈ nestedLoops.classes, ∀ m ∈ c.members, ∀ b, routineBody m = some b →
        ∀ st ∈ b.stmts, ¬ UnenclosedJump st) ∧
      ∀ us, (compile {} nestedLoops).run.2 = .ok us →
        List.Forall₂ (fun c u ↦ ∀ m ∈ c.members, ∀ b, routineBody m = some b →
          ∃ rc ∈ u.routines, ∃ pre code post, rc.lines = pre ++ code ++ post ∧
            LoopCodes [] b.stmts code) nestedLoops.classes us := by
  have hT : (check {} nestedLoops).run.2 = .ok nestedLoopsTable :=
    except_eq_ok_of_isOk _ (by decide +kernel)
  exact ⟨by decide +kernel, hT, jumps_bind_innermost_loop hT⟩

end ClassLang.Proofs.LoopJumps
