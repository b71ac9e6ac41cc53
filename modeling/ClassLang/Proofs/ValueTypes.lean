import ClassLang.Proofs.StmtCode

namespace ClassLang.Proofs.ValueTypes

open ClassLang Runs Invariants IntSemantics IntCode

/-- The scope a frame's locals make: their names and types, innermost first. -/
def frameScope (f : Frame) : Scope := f.symbols.map entry

theorem frameScope_lookup (f : Frame) (n : String) :
    (frameScope f).lookup n = (f.lookup n).map (·.type) :=
  lookup_entries f.symbols n

/-- What a bare name stands for, as far as types go: a class, the console, or a value of a
type. -/
inductive Named where
  | cls (name : String)
  | console
  | value (type : Ty)

/-- What a resolved name stands for: locals and attributes are values of their types without
reference. -/
def namedOf : Resolved → Named
  | .cls c => .cls c
  | .loc l => .value l.type.deref
  | .console => .console
  | .attr _ a => .value a.type.deref

/-- A bare name looked up over the types of the locals in scope, in the generator's order: a
class, then a local, then the console, then an attribute seen from the site's class. -/
def named (s : Site) (Γ : Scope) (n : String) : Option Named :=
  match s.table.get? n with
  | some r => some (.cls r.name)
  | none =>
    match Γ.lookup n with
    | some t => some (.value t.deref)
    | none =>
      if n == Console.binding then some .console
      else (s.table.findAttr s.cls n).map fun p ↦ .value p.2.type.deref

theorem resolve_named {s : Site} {f : Frame} {n : String} {r : Resolved}
    (h : s.resolve f n = .ok r) : named s (frameScope f) n = some (namedOf r) := by
  unfold Site.resolve at h
  unfold named
  rw [frameScope_lookup]
  -- one case per place the name can be found, in the order both functions look
  cases hc : s.table.get? n with
  | some c =>
    simp only [hc, Except.ok.injEq] at h
    subst h
    rfl
  | none =>
    cases hl : f.lookup n with
    | some l =>
      simp only [hc, hl, Except.ok.injEq] at h
      subst h
      rfl
    | none =>
      by_cases hb : (n == Console.binding) = true
      · simp only [hc, hl, hb, if_true, Except.ok.injEq] at h
        subst h
        simp only [Option.map_none, hb, if_true, namedOf]
      · cases hf : s.table.findAttr s.cls n with
        | some p =>
          simp only [hc, hl, hb, hf, Bool.false_eq_true, if_false, Except.ok.injEq] at h
          subst h
          simp only [Option.map_none, hb, Bool.false_eq_true, if_false, Option.map_some, namedOf]
        | none => simp only [hc, hl, hb, hf, Bool.false_eq_true, if_false, reduceCtorEq] at h

def identType : Option Named → Option Ty
  | some (.value t) => some t
  | some .console => some (.cls Console.className)
  | _ => none

/-- The operand a chain starts from, given the type of its base as a value: a class or the
console named by the base, else that value. -/
def chainOperand (s : Site) (Γ : Scope) (b : Expr) (bt : Option Ty) : Option Operand :=
  match b.unparen with
  | .ident n _ =>
    match named s Γ n with
    | some (.cls c) => some (.cls c)
    | some .console => some (.cls Console.className)
    | _ => bt.map .value
  | _ => bt.map .value

def stepType (s : Site) (op : Operand) : Step → Option Operand
  | .member n _ => do
    let c ← (Lower.accessedClass op).toOption
    let p ← s.table.findAttr c n
    pure (.value p.2.type.deref)
  | .index _ _ =>
    match op with
    | .cls _ => none
    | .value t => (Lower.elementOf t).toOption.map .value
  | .call n _ _ => do
    let c ← (Lower.accessedClass op).toOption
    if s.table.isBuiltin c then (Console.builtin? n).map fun b ↦ .value (.prim b.ret)
    else (s.table.findMethod c n).map fun p ↦ .value p.2.ret.deref

def stepsType (s : Site) : Option Operand → List Step → Option Operand
  | op, [] => op
  | op, st :: rest => stepsType s (op.bind (stepType s · st)) rest

/-- The type a binary operator other than `&&` and `||` leaves: a string for `^`, a boolean for a
comparison, a float for `/`, else the operator's own result. -/
def binaryType (op : BinOp) (lt rt : Ty) : Option Ty :=
  (op.result lt rt).map fun r ↦
    if op == .concat then .string
    else if op.isRelational || op.isEquality then .bool
    else if op == .div then .float
    else r

mutual

def exprType (s : Site) (Γ : Scope) : Expr → Option Ty
  | .lit l _ => some l.type
  | .ident n _ => identType (named s Γ n)
  | .this _ => some s.thisType
  | .binary op l r _ =>
    if op.isLogical then some .bool
    else (exprType s Γ l).bind fun lt ↦ (exprType s Γ r).bind (binaryType op lt)
  | .unary _ a _ => exprType s Γ a
  | .chain b ss _ =>
    match stepsType s (chainOperand s Γ b (exprType s Γ b)) ss with
    | some (.value t) => some t
    | _ => none
  | .array es _ => (firstType s Γ es).map fun elem ↦ .array elem es.length
  | .new c _ _ => some (.cls c)
  | .paren e _ => exprType s Γ e

def firstType (s : Site) (Γ : Scope) : List Expr → Option Ty
  | [] => some .void
  | e :: _ => exprType s Γ e

end

/-- The locals in scope, the open blocks, the open loops and the routine's result type are as
they were. -/
structure ScopeKept (st st' : Emitter) : Prop where
  symbols : st'.frame.symbols = st.frame.symbols
  blocks : st'.frame.blocks = st.frame.blocks
  loops : st'.frame.loops = st.frame.loops
  ret : st'.frame.ret = st.frame.ret

theorem ScopeKept.refl (st : Emitter) : ScopeKept st st := ⟨rfl, rfl, rfl, rfl⟩

theorem ScopeKept.trans {st₁ st₂ st₃ : Emitter} (h₁ : ScopeKept st₁ st₂) (h₂ : ScopeKept st₂ st₃) :
    ScopeKept st₁ st₃ :=
  ⟨h₂.symbols.trans h₁.symbols, h₂.blocks.trans h₁.blocks, h₂.loops.trans h₁.loops,
    h₂.ret.trans h₁.ret⟩

theorem adjust_scopeKept {f f' : Frame} {d : Int} {st : Emitter} (h : f.adjust d = .ok f')
    (lines : Array Line) : ScopeKept { st with frame := f } { lines, frame := f' } := by
  obtain ⟨-, rfl⟩ := adjust_ok h
  exact ⟨rfl, rfl, rfl, rfl⟩

theorem scopeKept_steps : Steps ScopeKept fun _ ↦ True where
  refl := ScopeKept.refl
  trans := ScopeKept.trans
  internal _ := trivial
  emit i st st' h := by
    obtain ⟨f, hf, rfl⟩ := emit_ok h
    exact @adjust_scopeKept _ _ _ st hf _
  rewind d st st' h := by
    obtain ⟨f, hf, rfl⟩ := rewind_ok h
    exact @adjust_scopeKept _ _ _ st hf _
  line _ _ := ⟨rfl, rfl, rfl, rfl⟩
  newLabel _ := ⟨rfl, rfl, rfl, rfl⟩
  append _ _ := ⟨rfl, rfl, rfl, rfl⟩
  capture above act h := by
    refine ⟨fun st c st' hc ↦ ?_, fun _ _ _ ↦ trivial⟩
    -- the captured code runs over the frame with the operands above, whose scope is the same
    obtain ⟨f₁, st₂, f₃, hf₁, h₂, -, hf₃, rfl⟩ := capture_ok hc
    exact ((@adjust_scopeKept _ _ _ st hf₁ st.lines).trans (h.ok _ _ _ h₂)).trans
      (@adjust_scopeKept _ _ _ st₂ hf₃ _)

variable {s : Site} {st st' : Emitter}

theorem lowerExpr_scope (e : Expr) {t : Ty} (h : (Lower.lowerExpr s e).run st = .ok (t, st')) :
    frameScope st'.frame = frameScope st.frame := by
  rw [frameScope, ((lowerExpr_sound scopeKept_steps s e).ok _ _ _ h).symbols, frameScope]

theorem literal_type {l : Literal} {t : Ty} (h : (Lower.literal l).run st = .ok (t, st')) :
    t = l.type := by
  cases l <;>
  · obtain ⟨_, st₁, -, h⟩ := bind_ok h
    cases h
    rfl

theorem loadIdent_type {n : String} {t : Ty} (h : (Lower.loadIdent s n).run st = .ok (t, st')) :
    identType (named s (frameScope st.frame) n) = some t := by
  unfold Lower.loadIdent at h
  obtain ⟨r, st₁, h₁, h⟩ := bind_ok h
  obtain ⟨hr, rfl⟩ := IntCode.resolve_run h₁
  rw [resolve_named hr]
  cases r with
  | cls c => cases h
  | loc l | console =>
    obtain ⟨_, st₂, -, h⟩ := bind_ok h
    cases h
    rfl
  | attr hc a =>
    dsimp only at h
    split at h
    · obtain ⟨_, st₂, -, h⟩ := bind_ok h
      cases h
      rfl
    · obtain ⟨_, st₂, -, h⟩ := bind_ok h
      obtain ⟨_, st₃, -, h⟩ := bind_ok h
      cases h
      rfl

theorem binary_type {op : BinOp} {lt t : Ty} {rc : Captured}
    (h : (Lower.binary op lt rc).run st = .ok (t, st')) : binaryType op lt rc.type = some t := by
  unfold Lower.binary at h
  split at h
  · rename_i r hr
    rw [binaryType, hr, Option.map_some]
    dsimp only at h
    split at h
    · rename_i hc
      obtain ⟨_, st₁, -, h⟩ := bind_ok h
      obtain ⟨_, st₂, -, h⟩ := bind_ok h
      cases h
      rw [if_pos hc]
    split at h
    · rename_i hc hrel
      obtain ⟨_, st₁, -, h⟩ := bind_ok h
      cases h
      rw [if_neg hc, if_pos hrel]
    split at h
    · rename_i hc hrel hdiv
      obtain ⟨_, st₁, -, h⟩ := bind_ok h
      obtain ⟨_, st₂, -, h⟩ := bind_ok h
      obtain ⟨_, st₃, -, h⟩ := bind_ok h
      cases h
      rw [if_neg hc, if_neg hrel, if_pos hdiv]
    · rename_i hc hrel hdiv
      obtain ⟨_, st₁, -, h⟩ := bind_ok h
      obtain ⟨_, st₂, -, h⟩ := bind_ok h
      obtain ⟨_, st₃, -, h⟩ := bind_ok h
      rw [if_neg hc, if_neg hrel, if_neg hdiv]
      split at h
      · obtain ⟨_, st₄, -, h⟩ := bind_ok h
        obtain ⟨_, st₅, -, h⟩ := bind_ok h
        cases h
        rfl
      · cases h
        rfl
  · cases h

theorem chainBase_operand {b : Expr} {act : EmitM Ty} {bt : Option Ty} {op : Operand}
    (hb : ∀ t st₁, act.run st = .ok (t, st₁) → bt = some t)
    (h : (Lower.chainBase s b act).run st = .ok (op, st')) :
    chainOperand s (frameScope st.frame) b bt = some op := by
  unfold Lower.chainBase at h
  unfold chainOperand
  -- the generator and the typing look at the same base, without its parentheses
  cases hu : b.unparen
  case ident n sp =>
    simp only [hu] at h ⊢
    obtain ⟨_, st₁, h₁, k₁⟩ := bind_ok h
    cases h₁
    split at k₁
    · rename_i c hr
      cases k₁
      rw [resolve_named hr]
      rfl
    · rename_i hr
      obtain ⟨r, st₂, h₂, k₂⟩ := bind_ok k₁
      obtain ⟨hr', rfl⟩ := IntCode.resolve_run h₂
      rw [resolve_named hr']
      split at k₂
      · cases k₂
        rfl
      · rename_i hcon
        obtain ⟨t, st₃, h₃, k₃⟩ := bind_ok k₂
        rw [hb t st₃ h₃]
        cases k₃
        cases r with
        | cls c => exact absurd hr' (hr c)
        | console => exact absurd rfl hcon
        | loc l | attr _ a => rfl
  all_goals
    simp only [hu] at h ⊢
    obtain ⟨t, st₁, h₁, k₁⟩ := bind_ok h
    rw [hb t st₁ h₁]
    cases k₁
    rfl

/-- What one step of a chain does when it succeeds, from the operand `op` to the operand `next`
it reaches: the runs it is made of. -/
inductive StepRun (s : Site) (op : Operand) : Step → Emitter → Operand → Emitter → Prop
  | static {n : String} {sp : Span} {c : String} {h : ClassInfo} {a : AttrInfo}
      {st st₁ st' : Emitter} (hc : Lower.accessedClass op = .ok c)
      (ha : s.table.findAttr c n = some (h, a)) (hs : a.isStatic = true)
      (h₁ : (Lower.dropReceiver op).run st = .ok ((), st₁))
      (h₂ : (Emitter.emit (.getStatic h.name a.name a.type)).run st₁ = .ok ((), st')) :
      StepRun s op (.member n sp) st (.value a.type.deref) st'
  | field {n : String} {sp : Span} {c : String} {h : ClassInfo} {a : AttrInfo} {st st' : Emitter}
      (hc : Lower.accessedClass op = .ok c) (ha : s.table.findAttr c n = some (h, a))
      (hs : a.isStatic = false)
      (h₁ : (Emitter.emit (.getField h.name a.name a.type)).run st = .ok ((), st')) :
      StepRun s op (.member n sp) st (.value a.type.deref) st'
  | index {i : Expr} {sp : Span} {t elem ti : Ty} {st st₁ st' : Emitter} (hop : op = .value t)
      (he : Lower.elementOf t = .ok elem) (h₁ : (Lower.lowerExpr s i).run st = .ok (ti, st₁))
      (h₂ : (Emitter.emit (.arrayLoad elem)).run st₁ = .ok ((), st')) :
      StepRun s op (.index i sp) st (.value elem) st'
  | builtin {n : String} {as : List Expr} {sp : Span} {c : String} {b : Console.Builtin}
      {st st₁ st₂ st' : Emitter} (hc : Lower.accessedClass op = .ok c)
      (hb : s.table.isBuiltin c = true) (hn : Console.builtin? n = some b)
      (h₁ : (Lower.dropReceiver op).run st = .ok ((), st₁)) (har : as.length = b.params.length)
      (h₂ : (Lower.lowerArgs s as (b.params.map .prim)).run st₁ = .ok ((), st₂))
      (h₃ : (Emitter.emit (.invokeStatic (Lower.consoleTarget s b) (b.params.map .prim)
        (.prim b.ret))).run st₂ = .ok ((), st')) :
      StepRun s op (.call n as sp) st (.value (.prim b.ret)) st'
  | staticCall {n : String} {as : List Expr} {sp : Span} {c : String} {h : ClassInfo}
      {m : MethodInfo} {st st₁ st₂ st' : Emitter} (hc : Lower.accessedClass op = .ok c)
      (hb : s.table.isBuiltin c = false) (hm : s.table.findMethod c n = some (h, m))
      (hs : m.isStatic = true) (h₁ : (Lower.dropReceiver op).run st = .ok ((), st₁))
      (har : as.length = m.params.length)
      (h₂ : (Lower.lowerArgs s as m.params).run st₁ = .ok ((), st₂))
      (h₃ : (Emitter.emit (.invokeStatic (h.name ++ "/" ++ n) m.params m.ret)).run st₂ =
        .ok ((), st')) :
      StepRun s op (.call n as sp) st (.value m.ret.deref) st'
  | virtualCall {n : String} {as : List Expr} {sp : Span} {c : String} {h : ClassInfo}
      {m : MethodInfo} {st st₁ st' : Emitter} (hc : Lower.accessedClass op = .ok c)
      (hb : s.table.isBuiltin c = false) (hm : s.table.findMethod c n = some (h, m))
      (hs : m.isStatic = false) (har : as.length = m.params.length)
      (h₁ : (Lower.lowerArgs s as m.params).run st = .ok ((), st₁))
      (h₂ : (Emitter.emit (.invokeVirtual (c ++ "/" ++ n) m.params m.ret)).run st₁ =
        .ok ((), st')) :
      StepRun s op (.call n as sp) st (.value m.ret.deref) st'

theorem checkArity_ok {ps : List Ty} {as : List Expr} {u : Unit}
    (h : (Lower.checkArity ps as).run st = .ok (u, st')) : as.length = ps.length ∧ st' = st := by
  unfold Lower.checkArity at h
  split at h
  · rename_i hl
    cases h
    exact ⟨by simpa using hl, rfl⟩
  · cases h

theorem liftExcept_ok {α : Type} {r : Except CompileError α} {a : α}
    (h : (Emitter.liftExcept r).run st = .ok (a, st')) : r = .ok a ∧ st' = st := by
  rw [liftExcept_run] at h
  cases r with
  | ok b => cases h; exact ⟨rfl, rfl⟩
  | error e => cases h

theorem lowerSteps_cons {op op' : Operand} {step : Step} {rest : List Step}
    (h : (Lower.lowerSteps s op (step :: rest)).run st = .ok (op', st')) :
    ∃ next st₁, StepRun s op step st next st₁ ∧
      (Lower.lowerSteps s next rest).run st₁ = .ok (op', st') := by
  cases step with
  | member n sp =>
    rw [Lower.lowerSteps] at h
    obtain ⟨c, st₁, h₁, k₁⟩ := bind_ok h
    obtain ⟨hc, rfl⟩ := liftExcept_ok h₁
    split at k₁
    · obtain ⟨_, _, h₂, -⟩ := bind_ok k₁
      cases h₂
    · rename_i hd a ha
      dsimp only at k₁
      split at k₁
      · rename_i hs
        obtain ⟨_, st₂, h₂, k₂⟩ := bind_ok k₁
        obtain ⟨_, st₃, h₃, k₃⟩ := bind_ok k₂
        obtain ⟨_, st₄, h₄, k₄⟩ := bind_ok k₃
        cases h₄
        exact ⟨_, _, .static hc ha hs h₂ h₃, k₄⟩
      · rename_i hs
        obtain ⟨_, st₂, h₂, k₂⟩ := bind_ok k₁
        obtain ⟨_, st₃, h₃, k₃⟩ := bind_ok k₂
        cases h₃
        exact ⟨_, _, .field hc ha (by simpa using hs) h₂, k₃⟩
  | index i sp =>
    cases op with
    | cls c =>
      rw [Lower.lowerSteps] at h
      obtain ⟨_, _, h₁, -⟩ := bind_ok h
      cases h₁
    | value t =>
      rw [Lower.lowerSteps] at h
      obtain ⟨elem, st₁, h₁, k₁⟩ := bind_ok h
      obtain ⟨he, rfl⟩ := liftExcept_ok h₁
      obtain ⟨ti, st₂, h₂, k₂⟩ := bind_ok k₁
      obtain ⟨_, st₃, h₃, k₃⟩ := bind_ok k₂
      obtain ⟨_, st₄, h₄, k₄⟩ := bind_ok k₃
      cases h₄
      exact ⟨_, _, .index rfl he h₂ h₃, k₄⟩
  | call n as sp =>
    rw [Lower.lowerSteps] at h
    obtain ⟨c, st₁, h₁, k₁⟩ := bind_ok h
    obtain ⟨hc, rfl⟩ := liftExcept_ok h₁
    split at k₁
    · rename_i hb
      obtain ⟨_, st₂, h₂, k₂⟩ := bind_ok k₁
      split at k₂
      · obtain ⟨_, _, h₃, -⟩ := bind_ok k₂
        cases h₃
      · rename_i b hn
        dsimp only at k₂
        obtain ⟨_, st₃, h₃, k₃⟩ := bind_ok k₂
        obtain ⟨har, rfl⟩ := checkArity_ok h₃
        obtain ⟨_, st₄, h₄, k₄⟩ := bind_ok k₃
        obtain ⟨_, st₅, h₅, k₅⟩ := bind_ok k₄
        obtain ⟨_, st₆, h₆, k₆⟩ := bind_ok k₅
        cases h₆
        exact ⟨_, _, .builtin hc hb hn h₂ (by simpa using har) h₄ h₅, k₆⟩
    · rename_i hb
      split at k₁
      · obtain ⟨_, _, h₂, -⟩ := bind_ok k₁
        cases h₂
      · rename_i hd m hm
        dsimp only at k₁
        split at k₁
        · rename_i hs
          obtain ⟨_, st₂, h₂, k₂⟩ := bind_ok k₁
          obtain ⟨_, st₃, h₃, k₃⟩ := bind_ok k₂
          obtain ⟨har, rfl⟩ := checkArity_ok h₃
          obtain ⟨_, st₄, h₄, k₄⟩ := bind_ok k₃
          obtain ⟨_, st₅, h₅, k₅⟩ := bind_ok k₄
          obtain ⟨_, st₆, h₆, k₆⟩ := bind_ok k₅
          cases h₆
          exact ⟨_, _, .staticCall hc (by simpa using hb) hm hs h₂ har h₄ h₅, k₆⟩
        · rename_i hs
          obtain ⟨_, st₃, h₃, k₃⟩ := bind_ok k₁
          obtain ⟨har, rfl⟩ := checkArity_ok h₃
          obtain ⟨_, st₄, h₄, k₄⟩ := bind_ok k₃
          obtain ⟨_, st₅, h₅, k₅⟩ := bind_ok k₄
          obtain ⟨_, st₆, h₆, k₆⟩ := bind_ok k₅
          cases h₆
          exact ⟨_, _, .virtualCall hc (by simpa using hb) hm (by simpa using hs) har h₄ h₅, k₆⟩

theorem StepRun.stepType_eq {op next : Operand} {step : Step}
    (h : StepRun s op step st next st') : stepType s op step = some next := by
  cases h with
  | static hc ha => simp [stepType, hc, ha, Except.toOption]
  | field hc ha => simp [stepType, hc, ha, Except.toOption]
  | index hop he =>
    subst hop
    simp [stepType, he, Except.toOption]
  | builtin hc hb hn => simp [stepType, hc, hb, hn, Except.toOption]
  | staticCall hc hb hm => simp [stepType, hc, hb, hm, Except.toOption]
  | virtualCall hc hb hm => simp [stepType, hc, hb, hm, Except.toOption]

theorem lowerSteps_operand (ss : List Step) :
    ∀ {op op' : Operand} {st st' : Emitter},
      (Lower.lowerSteps s op ss).run st = .ok (op', st') → stepsType s (some op) ss = some op' := by
  induction ss with
  | nil =>
    intro op op' st st' h
    cases h
    rfl
  | cons step rest ih =>
    intro op op' st st' h
    obtain ⟨next, st₁, hstep, k₁⟩ := lowerSteps_cons h
    rw [stepsType, Option.bind_some, hstep.stepType_eq]
    exact ih k₁

theorem logical_type {op : BinOp} {lhs rhs : EmitM Ty} {t : Ty}
    (h : (Lower.logical op lhs rhs).run st = .ok (t, st')) : t = .bool := by
  unfold Lower.logical at h
  obtain ⟨_, st₁, -, k₁⟩ := bind_ok h
  obtain ⟨_, st₂, -, k₂⟩ := bind_ok k₁
  obtain ⟨_, st₃, -, k₃⟩ := bind_ok k₂
  obtain ⟨_, st₄, -, k₄⟩ := bind_ok k₃
  obtain ⟨_, st₅, -, k₅⟩ := bind_ok k₄
  obtain ⟨_, st₆, -, k₆⟩ := bind_ok k₅
  obtain ⟨_, st₇, -, k₇⟩ := bind_ok k₆
  obtain ⟨_, st₈, -, k₈⟩ := bind_ok k₇
  obtain ⟨_, st₉, -, k₉⟩ := bind_ok k₈
  obtain ⟨_, st₁₀, -, k₁₀⟩ := bind_ok k₉
  cases k₁₀
  rfl

theorem frameScope_capture {d : Int} {f₁ : Frame} (hf : st.frame.adjust d = .ok f₁) :
    frameScope { st with frame := f₁ }.frame = frameScope st.frame := by
  obtain ⟨-, rfl⟩ := adjust_ok hf
  rfl

mutual

theorem lowerExpr_type : ∀ (e : Expr) {st st' : Emitter} {t : Ty},
    (Lower.lowerExpr s e).run st = .ok (t, st') → exprType s (frameScope st.frame) e = some t
  | .lit l _, st, st', t, h => by
    rw [Lower.lowerExpr] at h
    rw [exprType, literal_type h]
  | .ident n _, st, st', t, h => by
    rw [Lower.lowerExpr] at h
    rw [exprType]
    exact loadIdent_type h
  | .this _, st, st', t, h => by
    rw [Lower.lowerExpr] at h
    obtain ⟨_, st₁, -, k₁⟩ := bind_ok h
    cases k₁
    rfl
  | .binary op l r _, st, st', t, h => by
    rw [Lower.lowerExpr] at h
    rw [exprType]
    split at h
    · rename_i hop
      rw [if_pos hop, logical_type h]
    · rename_i hop
      rw [if_neg hop]
      obtain ⟨lt, st₁, h₁, k₁⟩ := bind_ok h
      obtain ⟨rc, st₂, h₂, k₂⟩ := bind_ok k₁
      obtain ⟨f₁, st₃, f₃, hf₁, h₃, -, -, -⟩ := capture_ok h₂
      -- the right operand is compiled over the locals the left one leaves, which are the same
      have hr := lowerExpr_type r h₃
      rw [frameScope_capture hf₁, lowerExpr_scope l h₁] at hr
      rw [lowerExpr_type l h₁, Option.bind_some, hr, Option.bind_some]
      exact binary_type k₂
  | .unary op a _, st, st', t, h => by
    rw [Lower.lowerExpr] at h
    obtain ⟨ta, st₁, h₁, k₁⟩ := bind_ok h
    obtain ⟨_, st₂, -, k₂⟩ := bind_ok k₁
    cases k₂
    rw [exprType]
    exact lowerExpr_type a h₁
  | .chain b ss _, st, st', t, h => by
    rw [Lower.lowerExpr] at h
    obtain ⟨base, st₁, h₁, k₁⟩ := bind_ok h
    obtain ⟨op, st₂, h₂, k₂⟩ := bind_ok k₁
    have hbase := chainBase_operand (fun t' st'' hb ↦ lowerExpr_type b hb) h₁
    rw [exprType, hbase, lowerSteps_operand ss h₂]
    cases op with
    | cls c => cases k₂
    | value t' =>
      cases k₂
      rfl
  | .array es _, st, st', t, h => by
    rw [Lower.lowerExpr] at h
    obtain ⟨cs, st₁, h₁, k₁⟩ := bind_ok h
    have hcs := captureList_type 3 0 es h₁
    dsimp only at k₁
    obtain ⟨_, st₂, -, k₂⟩ := bind_ok k₁
    obtain ⟨_, st₃, -, k₃⟩ := bind_ok k₂
    cases k₃
    rw [exprType, hcs.length_eq]
    cases hcs with
    | nil => rfl
    | cons he _ =>
      rw [firstType, he]
      rfl
  | .new c as _, st, st', t, h => by
    rw [Lower.lowerExpr] at h
    obtain ⟨_, st₁, -, k₁⟩ := bind_ok h
    obtain ⟨_, st₂, -, k₂⟩ := bind_ok k₁
    obtain ⟨_, st₃, -, k₃⟩ := bind_ok k₂
    obtain ⟨_, st₄, -, k₄⟩ := bind_ok k₃
    obtain ⟨_, st₅, -, k₅⟩ := bind_ok k₄
    obtain ⟨_, st₆, -, k₆⟩ := bind_ok k₅
    cases k₆
    rfl
  | .paren e _, st, st', t, h => by
    rw [Lower.lowerExpr] at h
    rw [exprType]
    exact lowerExpr_type e h

theorem captureList_type (above step : Int) : ∀ (es : List Expr) {st st' : Emitter}
    {cs : List Captured}, (Lower.captureList s above step es).run st = .ok (cs, st') →
    List.Forall₂ (fun e c ↦ exprType s (frameScope st.frame) e = some c.type) es cs
  | [], st, st', cs, h => by
    rw [Lower.captureList] at h
    cases h
    exact .nil
  | e :: es, st, st', cs, h => by
    rw [Lower.captureList] at h
    obtain ⟨c, st₁, h₁, k₁⟩ := bind_ok h
    obtain ⟨cs', st₂, h₂, k₂⟩ := bind_ok k₁
    cases k₂
    obtain ⟨f₁, st₃, f₃, hf₁, h₃, -, hf₃, rfl⟩ := capture_ok h₁
    have he := lowerExpr_type e h₃
    rw [frameScope_capture hf₁] at he
    have hes := captureList_type (above + step) step es h₂
    -- the later elements are captured over the locals the first one leaves, which are the same
    have hkeep : frameScope
        { st₃ with lines := st₃.lines.extract 0 st.lines.size, frame := f₃ }.frame =
        frameScope st.frame := by
      rw [← frameScope_capture hf₁, ← lowerExpr_scope e h₃]
      exact frameScope_capture hf₃
    rw [hkeep] at hes
    exact .cons he hes

end

end ClassLang.Proofs.ValueTypes
