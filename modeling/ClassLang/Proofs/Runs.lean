import ClassLang.Lowering.Class

namespace ClassLang.Proofs.Runs

open ClassLang

variable {α β : Type}

theorem bind_ok {x : EmitM α} {f : α → EmitM β} {st st' : Emitter} {b : β}
    (h : (x >>= f).run st = .ok (b, st')) :
    ∃ a st₁, x.run st = .ok (a, st₁) ∧ (f a).run st₁ = .ok (b, st') := by
  rw [StateT.run_bind] at h
  cases hx : x.run st with
  | error e => rw [hx] at h; cases h
  | ok p => rw [hx] at h; exact ⟨p.1, p.2, rfl, h⟩

theorem bind_error {x : EmitM α} {f : α → EmitM β} {st : Emitter} {e : CompileError}
    (h : (x >>= f).run st = .error e) :
    x.run st = .error e ∨ ∃ a st₁, x.run st = .ok (a, st₁) ∧ (f a).run st₁ = .error e := by
  rw [StateT.run_bind] at h
  cases hx : x.run st with
  | error e' => rw [hx] at h; cases h; exact .inl rfl
  | ok p => rw [hx] at h; exact .inr ⟨p.1, p.2, rfl, h⟩

theorem run_bind_of_ok {x : EmitM α} {f : α → EmitM β} {st st₁ : Emitter} {a : α}
    (h : x.run st = .ok (a, st₁)) : (x >>= f).run st = (f a).run st₁ := by
  rw [StateT.run_bind, h]
  rfl

theorem run_bind_of_error {x : EmitM α} {f : α → EmitM β} {st : Emitter} {e : CompileError}
    (h : x.run st = .error e) : (x >>= f).run st = .error e := by
  rw [StateT.run_bind, h]
  rfl

@[simp] theorem run_pure (a : α) (st : Emitter) : (pure a : EmitM α).run st = .ok (a, st) := rfl

@[simp] theorem run_throw (e : CompileError) (st : Emitter) :
    (throw e : EmitM α).run st = .error e := rfl

@[simp] theorem run_get (st : Emitter) : (get : EmitM Emitter).run st = .ok (st, st) := rfl

@[simp] theorem liftExcept_run (r : Except CompileError α) (st : Emitter) :
    (Emitter.liftExcept r).run st = r.map (·, st) := by
  cases r <;> rfl

theorem emit_run (i : Instr) (st : Emitter) : (Emitter.emit i).run st =
    (st.frame.adjust i.delta).map fun f ↦ ((), { st with frame := f, lines := st.lines.push (.instr i) }) := by
  show (do
    let f ← Emitter.liftExcept (st.frame.adjust i.delta)
    set { st with frame := f, lines := st.lines.push (.instr i) } : EmitM Unit).run st = _
  cases st.frame.adjust i.delta <;> rfl

theorem rewind_run (d : Int) (st : Emitter) :
    (Emitter.rewind d).run st = (st.frame.adjust d).map fun f ↦ ((), { st with frame := f }) := by
  show (do
    let f ← Emitter.liftExcept (st.frame.adjust d)
    set { st with frame := f } : EmitM Unit).run st = _
  cases st.frame.adjust d <;> rfl

@[simp] theorem line_run (l : Line) (st : Emitter) :
    (Emitter.line l).run st = .ok ((), { st with lines := st.lines.push l }) := rfl

@[simp] theorem newLabel_run (st : Emitter) :
    Emitter.newLabel.run st = .ok (st.frame.newLabel.1, { st with frame := st.frame.newLabel.2 }) :=
  rfl

@[simp] theorem newSlot_run (st : Emitter) :
    Emitter.newSlot.run st = .ok (st.frame.newSlot.1, { st with frame := st.frame.newSlot.2 }) := rfl

@[simp] theorem append_run (ls : List Line) (st : Emitter) :
    (Emitter.append ls).run st = .ok ((), { st with lines := st.lines ++ ls.toArray }) := rfl

@[simp] theorem mark_run (st : Emitter) : Emitter.mark.run st = .ok (st.lines.size, st) := rfl

@[simp] theorem takeFrom_run (m : Nat) (st : Emitter) :
    (Emitter.takeFrom m).run st =
      .ok ((st.lines.extract m st.lines.size).toList, { st with lines := st.lines.extract 0 m }) :=
  rfl

@[simp] theorem onFrame_run (g : Frame → Frame) (st : Emitter) :
    (Emitter.onFrame g).run st = .ok ((), { st with frame := g st.frame }) := rfl

@[simp] theorem enterBlock_run (st : Emitter) :
    Emitter.enterBlock.run st = .ok (st.frame.enterBlock.1, { st with frame := st.frame.enterBlock.2 }) :=
  rfl

theorem exitBlock_run (st : Emitter) :
    Emitter.exitBlock.run st = st.frame.exitBlock.map fun p ↦ (p.1, { st with frame := p.2 }) := by
  show (do
    let p ← Emitter.liftExcept st.frame.exitBlock
    set { st with frame := p.2 }
    return p.1 : EmitM BlockLabels).run st = _
  cases st.frame.exitBlock <;> rfl

theorem adjust_ok {f f' : Frame} {d : Int} (h : f.adjust d = .ok f') :
    0 ≤ wrapInt32 (f.depth + d) ∧
      f' = { f with depth := wrapInt32 (f.depth + d), maxDepth := max f.maxDepth (wrapInt32 (f.depth + d)) } := by
  dsimp only [Frame.adjust] at h
  split at h
  · cases h
  · cases h
    exact ⟨by omega, rfl⟩

theorem adjust_error {f : Frame} {d : Int} {e : CompileError} (h : f.adjust d = .error e) :
    ∃ m, e = .internal m := by
  dsimp only [Frame.adjust] at h
  split at h
  · cases h
    exact ⟨_, rfl⟩
  · cases h

theorem exitBlock_error {f : Frame} {e : CompileError} (h : f.exitBlock = .error e) :
    ∃ m, e = .internal m := by
  unfold Frame.exitBlock at h
  split at h
  · cases h
  · cases h
    exact ⟨_, rfl⟩

theorem emit_ok {i : Instr} {st st' : Emitter} {u : Unit}
    (h : (Emitter.emit i).run st = .ok (u, st')) :
    ∃ f, st.frame.adjust i.delta = .ok f ∧ st' = { st with frame := f, lines := st.lines.push (.instr i) } := by
  rw [emit_run] at h
  cases hf : st.frame.adjust i.delta with
  | ok f => rw [hf] at h; cases h; exact ⟨f, rfl, rfl⟩
  | error e => rw [hf] at h; cases h

theorem rewind_ok {d : Int} {st st' : Emitter} {u : Unit}
    (h : (Emitter.rewind d).run st = .ok (u, st')) :
    ∃ f, st.frame.adjust d = .ok f ∧ st' = { st with frame := f } := by
  rw [rewind_run] at h
  cases hf : st.frame.adjust d with
  | ok f => rw [hf] at h; cases h; exact ⟨f, rfl, rfl⟩
  | error e => rw [hf] at h; cases h

theorem exitBlock_ok {st st' : Emitter} {ls : BlockLabels}
    (h : Emitter.exitBlock.run st = .ok (ls, st')) :
    ∃ f, st.frame.exitBlock = .ok (ls, f) ∧ st' = { st with frame := f } := by
  rw [exitBlock_run] at h
  cases hf : st.frame.exitBlock with
  | ok p => rw [hf] at h; cases h; exact ⟨p.2, rfl, rfl⟩
  | error e => rw [hf] at h; cases h

theorem capture_ok {above : Int} {act : EmitM Ty} {st st' : Emitter} {c : Captured}
    (h : (Lower.capture above act).run st = .ok (c, st')) :
    ∃ f₁ st₂ f₃, st.frame.adjust above = .ok f₁ ∧
      act.run { st with frame := f₁ } = .ok (c.type, st₂) ∧
      c.lines = (st₂.lines.extract st.lines.size st₂.lines.size).toList ∧
      st₂.frame.adjust (-(above + 1)) = .ok f₃ ∧
      st' = { st₂ with lines := st₂.lines.extract 0 st.lines.size, frame := f₃ } := by
  unfold Lower.capture at h
  obtain ⟨_, st₁, h₁, h⟩ := bind_ok h
  obtain ⟨f₁, hf₁, rfl⟩ := rewind_ok h₁
  obtain ⟨m, _, hm, h⟩ := bind_ok h
  cases hm
  obtain ⟨t, st₂, h₂, h⟩ := bind_ok h
  obtain ⟨ls, _, h₃, h⟩ := bind_ok h
  cases h₃
  obtain ⟨_, st₄, h₄, h⟩ := bind_ok h
  obtain ⟨f₃, hf₃, rfl⟩ := rewind_ok h₄
  cases h
  exact ⟨f₁, st₂, f₃, hf₁, h₂, rfl, hf₃, rfl⟩

theorem capture_error {above : Int} {act : EmitM Ty} {st : Emitter} {e : CompileError}
    (h : (Lower.capture above act).run st = .error e) :
    (∃ m, e = .internal m) ∨ ∃ st₁, act.run st₁ = .error e := by
  unfold Lower.capture at h
  rcases bind_error h with h₁ | ⟨_, st₁, -, h⟩
  · rw [rewind_run] at h₁
    cases hf : st.frame.adjust above with
    | ok f => rw [hf] at h₁; cases h₁
    | error e' => rw [hf] at h₁; cases h₁; exact .inl (adjust_error hf)
  rcases bind_error h with h₂ | ⟨_, st₂, -, h⟩
  · cases h₂
  rcases bind_error h with h₃ | ⟨_, st₃, -, h⟩
  · exact .inr ⟨st₂, h₃⟩
  rcases bind_error h with h₄ | ⟨_, st₄, -, h⟩
  · cases h₄
  rcases bind_error h with h₅ | ⟨_, st₅, -, h⟩
  · rw [rewind_run] at h₅
    cases hf : st₄.frame.adjust (-(above + 1)) with
    | ok f => rw [hf] at h₅; cases h₅
    | error e' => rw [hf] at h₅; cases h₅; exact .inl (adjust_error hf)
  · cases h

/-- What a step of the generator does when it succeeds and when it fails: the state after a
success is related to the state before by `R`, and every failure satisfies `P`. -/
structure Sound (R : Emitter → Emitter → Prop) (P : CompileError → Prop) (m : EmitM α) : Prop where
  ok : ∀ st a st', m.run st = .ok (a, st') → R st st'
  error : ∀ st e, m.run st = .error e → P e

/-- The facts a relation and an error predicate need for every step of the generator to be
`Sound`: `R` is a preorder, every failure the generator raises is internal and satisfies `P`,
and the primitive steps keep `R`. -/
structure Steps (R : Emitter → Emitter → Prop) (P : CompileError → Prop) : Prop where
  refl : ∀ st, R st st
  trans : ∀ {a b c}, R a b → R b c → R a c
  internal : ∀ m, P (.internal m)
  emit : ∀ i st st', (Emitter.emit i).run st = .ok ((), st') → R st st'
  rewind : ∀ d st st', (Emitter.rewind d).run st = .ok ((), st') → R st st'
  line : ∀ l st, R st { st with lines := st.lines.push l }
  newLabel : ∀ st, R st { st with frame := st.frame.newLabel.2 }
  append : ∀ (ls : List Line) st, R st { st with lines := st.lines ++ ls.toArray }
  capture : ∀ above (act : EmitM Ty), Sound R P act → Sound R P (Lower.capture above act)

structure StmtSteps (R : Emitter → Emitter → Prop) (P : CompileError → Prop) : Prop extends
    Steps R P where
  newSlot : ∀ st, R st { st with frame := st.frame.newSlot.2 }
  onFrame : ∀ (g : Frame → Frame) st, R st { st with frame := g st.frame }
  enterBlock : ∀ st, R st { st with frame := st.frame.enterBlock.2 }
  exitBlock : ∀ st p, st.frame.exitBlock = .ok p → R st { st with frame := p.2 }

/-- The facts the steps that lay out a routine's slots, blocks and locals need: slots, blocks and
the binding of a local keep `R`. Every `StmtSteps` relation has them, and so may a relation on
the frame that a change of the open loops breaks. -/
structure FrameSteps (R : Emitter → Emitter → Prop) (P : CompileError → Prop) : Prop extends
    Steps R P where
  newSlot : ∀ st, R st { st with frame := st.frame.newSlot.2 }
  bind : ∀ (n : String) (t : Ty) (slot : Nat) st, R st { st with frame := st.frame.bind n t slot }
  enterBlock : ∀ st, R st { st with frame := st.frame.enterBlock.2 }
  exitBlock : ∀ st p, st.frame.exitBlock = .ok p → R st { st with frame := p.2 }

theorem StmtSteps.toFrameSteps {R : Emitter → Emitter → Prop} {P : CompileError → Prop}
    (hT : StmtSteps R P) : FrameSteps R P where
  toSteps := hT.toSteps
  newSlot := hT.newSlot
  bind n t slot := hT.onFrame (·.bind n t slot)
  enterBlock := hT.enterBlock
  exitBlock := hT.exitBlock

namespace Sound

variable {R : Emitter → Emitter → Prop} {P : CompileError → Prop} (hS : Steps R P)
include hS

theorem pure (a : α) : Sound R P (pure a : EmitM α) :=
  ⟨fun st _ _ h ↦ by cases h; exact hS.refl st, fun _ _ h ↦ by cases h⟩

theorem throw (m : String) : Sound R P (throw (.internal m) : EmitM α) :=
  ⟨fun _ _ _ h ↦ (by cases h), fun _ _ h ↦ by cases h; exact hS.internal m⟩

theorem bind {x : EmitM α} {f : α → EmitM β} (hx : Sound R P x) (hf : ∀ a, Sound R P (f a)) :
    Sound R P (x >>= f) where
  ok st b st' h := by
    obtain ⟨a, st₁, h₁, h₂⟩ := bind_ok h
    exact hS.trans (hx.ok _ _ _ h₁) ((hf a).ok _ _ _ h₂)
  error st e h := by
    rcases bind_error h with h₁ | ⟨a, st₁, -, h₂⟩
    · exact hx.error _ _ h₁
    · exact (hf a).error _ _ h₂

theorem get : Sound R P (get : EmitM Emitter) :=
  ⟨fun st _ _ h ↦ by cases h; exact hS.refl st, fun _ _ h ↦ by cases h⟩

theorem liftExcept {r : Except CompileError α} (hr : ∀ m, r = .error m → ∃ s, m = .internal s) :
    Sound R P (Emitter.liftExcept r) where
  ok st a st' h := by
    cases r with
    | ok b => cases h; exact hS.refl st
    | error e => cases h
  error st e h := by
    cases r with
    | ok b => cases h
    | error e' =>
      cases h
      obtain ⟨m, rfl⟩ := hr e rfl
      exact hS.internal m

theorem emit (i : Instr) : Sound R P (Emitter.emit i) where
  ok st _ st' h := hS.emit i st st' h
  error st e h := by
    rw [emit_run] at h
    cases hf : st.frame.adjust i.delta with
    | ok f => rw [hf] at h; cases h
    | error e' =>
      rw [hf] at h
      cases h
      obtain ⟨m, rfl⟩ := adjust_error hf
      exact hS.internal m

theorem rewind (d : Int) : Sound R P (Emitter.rewind d) where
  ok st _ st' h := hS.rewind d st st' h
  error st e h := by
    rw [rewind_run] at h
    cases hf : st.frame.adjust d with
    | ok f => rw [hf] at h; cases h
    | error e' =>
      rw [hf] at h
      cases h
      obtain ⟨m, rfl⟩ := adjust_error hf
      exact hS.internal m

theorem line (l : Line) : Sound R P (Emitter.line l) :=
  ⟨fun st _ _ h ↦ by cases h; exact hS.line l st, fun _ _ h ↦ by cases h⟩

theorem label (l : Label) : Sound R P (Emitter.label l) := line hS _

theorem newLabel : Sound R P Emitter.newLabel :=
  ⟨fun st _ _ h ↦ by cases h; exact hS.newLabel st, fun _ _ h ↦ by cases h⟩

theorem append (ls : List Line) : Sound R P (Emitter.append ls) :=
  ⟨fun st _ _ h ↦ by cases h; exact hS.append ls st, fun _ _ h ↦ by cases h⟩

end Sound

section Statements

variable (s : Site) (sp : Span)

theorem lowerStmt_assign (t : Target) (rhs : Expr) :
    Lower.lowerStmt s (.assign t rhs sp) = (do
      let p ← Lower.targetPlace s t
      let rt ← Lower.lowerExpr s rhs
      Lower.widen p.type rt
      Lower.store p) := rfl

theorem lowerStmt_cond (c : Expr) (th : Stmt) (el : Option Stmt) :
    Lower.lowerStmt s (.cond c th el sp) = (do
      let elseL ← Emitter.newLabel
      let _ ← Lower.lowerExpr s c
      Emitter.emit (.ifFalse elseL)
      Lower.lowerStmt s th
      el.elim (Emitter.label elseL) fun e ↦ do
        let endL ← Emitter.newLabel
        Emitter.emit (.goto endL)
        Emitter.label elseL
        Lower.lowerStmt s e
        Emitter.label endL) := by
  cases el <;> rfl

theorem lowerStmt_loop (v : String) (vsp : Span) (a : Expr) (d : Direction) (b : Expr)
    (body : Stmt) :
    Lower.lowerStmt s (.loop v vsp a d b body sp) = (do
      let condL ← Emitter.newLabel
      let contL ← Emitter.newLabel
      let brkL ← Emitter.newLabel
      let p ← Lower.identPlace s v
      let _ ← Lower.lowerExpr s a
      Lower.store p
      Emitter.label condL
      let _ ← Lower.loadIdent s v
      let _ ← Lower.lowerExpr s b
      Emitter.emit (.ifICmp (if d == .up then .gt else .lt) brkL)
      Emitter.onFrame (·.enterLoop contL brkL)
      Lower.lowerStmt s body
      Emitter.onFrame (·.exitLoop)
      Emitter.label contL
      Lower.stepVar s v d
      Emitter.emit (.goto condL)
      Emitter.label brkL) := rfl

theorem lowerStmt_brk :
    Lower.lowerStmt s (.brk sp) = (do
      let l ← Emitter.liftExcept (← get).frame.loops.brkLabel
      Emitter.emit (.goto l)) := rfl

theorem lowerStmt_cont :
    Lower.lowerStmt s (.cont sp) = (do
      let l ← Emitter.liftExcept (← get).frame.loops.contLabel
      Emitter.emit (.goto l)) := rfl

theorem lowerStmt_ret (v : Option Expr) : Lower.lowerStmt s (.ret v sp) = Lower.lowerReturn s v :=
  rfl

theorem lowerStmt_block (ds : List VarDecl) (ss : List Stmt) :
    Lower.lowerStmt s (.block ds ss sp) = (do
      let ls ← Emitter.enterBlock
      let ps ← Lower.declareLocals ls ds
      Emitter.label ls.start
      Lower.initLocals s ps
      Lower.lowerStmts s ss
      Emitter.label ls.stop
      let _ ← Emitter.exitBlock
      pure ()) := rfl

theorem lowerStmt_invoke (c : Chain) :
    Lower.lowerStmt s (.invoke c sp) = (do
      let t ← Lower.lowerExpr s c.toExpr
      if !t.isVoid then Emitter.emit .pop) := rfl

theorem lowerStmt_block_run {ds : List VarDecl} {ss : List Stmt} {e e' : Emitter} {u : Unit}
    (h : (Lower.lowerStmt s (.block ds ss sp)).run e = .ok (u, e')) :
    ∃ ls ps e₁ e₂ e₃ e₄ e₅ e₆ ls',
      Emitter.enterBlock.run e = .ok (ls, e₁) ∧
      (Lower.declareLocals ls ds).run e₁ = .ok (ps, e₂) ∧
      (Emitter.label ls.start).run e₂ = .ok ((), e₃) ∧
      (Lower.initLocals s ps).run e₃ = .ok ((), e₄) ∧
      (Lower.lowerStmts s ss).run e₄ = .ok ((), e₅) ∧
      (Emitter.label ls.stop).run e₅ = .ok ((), e₆) ∧
      Emitter.exitBlock.run e₆ = .ok (ls', e') := by
  rw [lowerStmt_block] at h
  obtain ⟨ls, e₁, h₁, h⟩ := bind_ok h
  obtain ⟨ps, e₂, h₂, h⟩ := bind_ok h
  obtain ⟨_, e₃, h₃, h⟩ := bind_ok h
  obtain ⟨_, e₄, h₄, h⟩ := bind_ok h
  obtain ⟨_, e₅, h₅, h⟩ := bind_ok h
  obtain ⟨_, e₆, h₆, h⟩ := bind_ok h
  obtain ⟨ls', e₇, h₇, h⟩ := bind_ok h
  cases h
  exact ⟨ls, ps, e₁, e₂, e₃, e₄, e₅, e₆, ls', h₁, h₂, h₃, h₄, h₅, h₆, h₇⟩

end Statements

theorem lowerBody_run {s : Site} {ls : BlockLabels} {b : Block} {prologue : EmitM Unit}
    {e e' : Emitter} {u : Unit} (h : (Lower.lowerBody s ls b prologue).run e = .ok (u, e')) :
    ∃ ps e₁ e₂ e₃ e₄,
      (Lower.declareLocals ls b.decls).run e = .ok (ps, e₁) ∧
      (Emitter.label ls.start).run e₁ = .ok ((), e₂) ∧
      prologue.run e₂ = .ok ((), e₃) ∧
      (Lower.initLocals s ps).run e₃ = .ok ((), e₄) ∧
      (Lower.lowerStmts s b.stmts).run e₄ = .ok ((), e') := by
  unfold Lower.lowerBody at h
  obtain ⟨ps, e₁, h₁, h⟩ := bind_ok h
  obtain ⟨_, e₂, h₂, h⟩ := bind_ok h
  obtain ⟨_, e₃, h₃, h⟩ := bind_ok h
  obtain ⟨_, e₄, h₄, h⟩ := bind_ok h
  exact ⟨ps, e₁, e₂, e₃, e₄, h₁, h₂, h₃, h₄, h⟩

end ClassLang.Proofs.Runs
