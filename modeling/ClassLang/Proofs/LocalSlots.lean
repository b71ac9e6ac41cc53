import ClassLang.Proofs.SlotlessCode
import ClassLang.Proofs.RoutineLabels
import ClassLang.Proofs.Lineage

namespace ClassLang.Proofs.LocalSlots

open ClassLang Runs Invariants Generation Linking LoopJumps FreshLabels IntSemantics StmtCode
  RoutineLabels SlotlessCode Checked

def localsOf (ds : List VarDecl) : List (String × Ty) :=
  ds.flatMap fun d ↦ d.vars.map fun v ↦ (v.name, d.type)

mutual

def blockLocals : Stmt → List (String × Ty)
  | .cond _ th none _ => blockLocals th
  | .cond _ th (some el) _ => blockLocals th ++ blockLocals el
  | .loop _ _ _ _ _ body _ => blockLocals body
  | .block ds ss _ => localsOf ds ++ blockLocalsOf ss
  | .assign .. | .brk _ | .cont _ | .ret .. | .invoke .. => []

def blockLocalsOf : List Stmt → List (String × Ty)
  | [] => []
  | st :: sts => blockLocals st ++ blockLocalsOf sts

end

theorem localsOf_declared (ds : List VarDecl) :
    (declared ds).map (fun x ↦ (x.1, x.2.1)) = localsOf ds := by
  simp [declared, localsOf, List.map_flatMap, Function.comp_def]

def varLines (r : BlockLabels) : Nat → List (String × Ty) → List Line
  | _, [] => []
  | a, (n, t) :: L => .var a n t r :: varLines r (a + 1) L

def numbered : Nat → List (String × Ty) → List (Nat × String × Ty)
  | _, [] => []
  | a, x :: L => (a, x) :: numbered (a + 1) L

theorem varEntries_varLines (r : BlockLabels) (a : Nat) (L : List (String × Ty)) :
    varEntries (varLines r a L) = numbered a L := by
  induction L generalizing a with
  | nil => rfl
  | cons x L ih => simp [varLines, numbered, ih]

theorem varLines_append (r : BlockLabels) (a : Nat) (L L' : List (String × Ty)) :
    varLines r a (L ++ L') = varLines r a L ++ varLines r (a + L.length) L' := by
  induction L generalizing a with
  | nil => rfl
  | cons x L ih =>
    simp only [List.cons_append, varLines, ih, List.length_cons]
    rw [Nat.add_assoc, Nat.add_comm 1]

theorem numbered_append (a : Nat) (L L' : List (String × Ty)) :
    numbered a (L ++ L') = numbered a L ++ numbered (a + L.length) L' := by
  induction L generalizing a with
  | nil => rfl
  | cons x L ih =>
    simp only [List.cons_append, numbered, ih, List.length_cons]
    rw [Nat.add_assoc, Nat.add_comm 1]

theorem numbered_slots (a : Nat) (L : List (String × Ty)) :
    (numbered a L).map Prod.fst = List.range' a L.length := by
  induction L generalizing a with
  | nil => rfl
  | cons x L ih => simp [numbered, ih, List.range'_succ]

theorem numbered_locals (a : Nat) (L : List (String × Ty)) : (numbered a L).map Prod.snd = L := by
  induction L generalizing a with
  | nil => rfl
  | cons x L ih => simp [numbered, ih]

theorem pending_varLines (r : BlockLabels) :
    ∀ {ps : List Lower.Pending} {a : Nat} {L : List (String × Ty)},
      ps.map (fun p ↦ (p.name, p.type)) = L → ps.map (·.slot) = List.range' a ps.length →
        ps.map (fun p ↦ Line.var p.slot p.name p.type r) = varLines r a L
  | [], _, L, hL, _ => by
    rw [← hL]
    rfl
  | p :: ps, a, L, hL, hs => by
    rw [List.map_cons] at hL
    rw [List.map_cons, List.length_cons, List.range'_succ, List.cons.injEq] at hs
    rw [← hL, List.map_cons, varLines, hs.1, pending_varLines r rfl hs.2]

mutual

/-- Where the `.var` lines of the code of a statement stand, when the locals of its blocks take
the slots from `a` on. A block writes the `.var` lines of its own locals, in the slots from `a`
on and over the two labels it then places around the rest of its code: its start label, the
initializers of its locals, the code of its statements, whose blocks take the slots after its
own locals, and its end label. The branches of an `if` take their slots one after the other, the
body of a loop its own. No other code has a `.var` line. -/
inductive SlotCode : Nat → Stmt → List Line → Prop
  | block {a : Nat} {ds : List VarDecl} {ss : List Stmt} {sp : Span} {r : BlockLabels}
      {init code : List Line} :
      varEntries init = [] → SlotCodes (a + (localsOf ds).length) ss code →
      SlotCode a (.block ds ss sp)
        (varLines r a (localsOf ds) ++ .label r.start :: init ++ code ++ [.label r.stop])
  | cond {a : Nat} {c : Expr} {th : Stmt} {sp : Span} {pre code post : List Line} :
      varEntries pre = [] → varEntries post = [] → SlotCode a th code →
      SlotCode a (.cond c th none sp) (pre ++ code ++ post)
  | condElse {a : Nat} {c : Expr} {th el : Stmt} {sp : Span} {pre c₁ mid c₂ post : List Line} :
      varEntries pre = [] → varEntries mid = [] → varEntries post = [] → SlotCode a th c₁ →
      SlotCode (a + (blockLocals th).length) el c₂ →
      SlotCode a (.cond c th (some el) sp) (pre ++ c₁ ++ mid ++ c₂ ++ post)
  | loop {a : Nat} {v : String} {vsp : Span} {x : Expr} {d : Direction} {b : Expr} {body : Stmt}
      {sp : Span} {pre code post : List Line} :
      varEntries pre = [] → varEntries post = [] → SlotCode a body code →
      SlotCode a (.loop v vsp x d b body sp) (pre ++ code ++ post)
  | assign {a : Nat} {t : Target} {rhs : Expr} {sp : Span} {code : List Line} :
      varEntries code = [] → SlotCode a (.assign t rhs sp) code
  | brk {a : Nat} {sp : Span} {code : List Line} :
      varEntries code = [] → SlotCode a (.brk sp) code
  | cont {a : Nat} {sp : Span} {code : List Line} :
      varEntries code = [] → SlotCode a (.cont sp) code
  | ret {a : Nat} {v : Option Expr} {sp : Span} {code : List Line} :
      varEntries code = [] → SlotCode a (.ret v sp) code
  | invoke {a : Nat} {c : Chain} {sp : Span} {code : List Line} :
      varEntries code = [] → SlotCode a (.invoke c sp) code

/-- Where the `.var` lines of the code of statements in order stand: each statement's blocks take
the slots after those of the statements before it. -/
inductive SlotCodes : Nat → List Stmt → List Line → Prop
  | nil {a : Nat} : SlotCodes a [] []
  | cons {a : Nat} {st : Stmt} {sts : List Stmt} {c cs : List Line} :
      SlotCode a st c → SlotCodes (a + (blockLocals st).length) sts cs →
      SlotCodes a (st :: sts) (c ++ cs)

end

mutual

theorem SlotCode.entries : ∀ {a : Nat} {st : Stmt} {code : List Line}, SlotCode a st code →
    varEntries code = numbered a (blockLocals st)
  | _, _, _, .block hi hss => by
    simp [varEntries_varLines, hi, SlotCodes.entries hss, blockLocals, numbered_append]
  | _, _, _, .cond hpre hpost hth => by simp [hpre, hpost, SlotCode.entries hth, blockLocals]
  | a, _, _, .condElse hpre hmid hpost hth hel => by
    simp [hpre, hmid, hpost, SlotCode.entries hth, SlotCode.entries hel, blockLocals,
      numbered_append]
  | _, _, _, .loop hpre hpost hbody => by simp [hpre, hpost, SlotCode.entries hbody, blockLocals]
  | _, _, _, .assign h | _, _, _, .brk h | _, _, _, .cont h | _, _, _, .ret h
  | _, _, _, .invoke h => by rw [h]; rfl

theorem SlotCodes.entries : ∀ {a : Nat} {sts : List Stmt} {code : List Line}, SlotCodes a sts code →
    varEntries code = numbered a (blockLocalsOf sts)
  | _, _, _, .nil => rfl
  | a, _, _, .cons hst hsts => by
    rw [varEntries_append, SlotCode.entries hst, SlotCodes.entries hsts, blockLocalsOf,
      numbered_append]

end

/-- A run from `e` to `e'` that writes `code` after the lines it starts from and moves the slot
counter on by `n`. -/
structure SlotRun (e e' : Emitter) (code : List Line) (n : Nat) : Prop where
  lines : e'.lines.toList = e.lines.toList ++ code
  slot : e'.frame.nextSlot = e.frame.nextSlot + n

namespace SlotRun

variable {e e₁ e₂ : Emitter} {c₁ c₂ : List Line} {n₁ n₂ : Nat}

theorem trans (h₁ : SlotRun e e₁ c₁ n₁) (h₂ : SlotRun e₁ e₂ c₂ n₂) :
    SlotRun e e₂ (c₁ ++ c₂) (n₁ + n₂) :=
  ⟨by rw [h₂.lines, h₁.lines, List.append_assoc], by rw [h₂.slot, h₁.slot, Nat.add_assoc]⟩

theorem of_unslotted (h : Unslotted e e₁ c₁) : SlotRun e e₁ c₁ 0 := ⟨h.lines, h.slot⟩

theorem of_eq {c : List Line} {n : Nat} (h : SlotRun e e₁ c₁ n₁) (hc : c₁ = c) (hn : n₁ = n) :
    SlotRun e e₁ c n :=
  hc ▸ hn ▸ h

theorem enterBlock {ls : BlockLabels} (h : Emitter.enterBlock.run e = .ok (ls, e₁)) :
    SlotRun e e₁ [] 0 := by
  rw [enterBlock_run] at h
  cases h
  exact ⟨by simp, rfl⟩

theorem exitBlock {ls : BlockLabels} (h : Emitter.exitBlock.run e = .ok (ls, e₁)) :
    SlotRun e e₁ [] 0 := by
  obtain ⟨f, hf, rfl⟩ := exitBlock_ok h
  refine ⟨by simp, ?_⟩
  unfold Frame.exitBlock at hf
  split at hf
  · cases hf
    rfl
  · cases hf

theorem line {l : Line} {u : Unit} (h : (Emitter.line l).run e = .ok (u, e₁)) :
    SlotRun e e₁ [l] 0 := by
  rw [line_run] at h
  cases h
  exact ⟨by simp, rfl⟩

theorem label {l : Label} {u : Unit} (h : (Emitter.label l).run e = .ok (u, e₁)) :
    SlotRun e e₁ [.label l] 0 :=
  line h

theorem newSlot {slot : Nat} (h : Emitter.newSlot.run e = .ok (slot, e₁))
    (hn : e.frame.nextSlot + 1 < 65536) : slot = e.frame.nextSlot ∧ SlotRun e e₁ [] 1 := by
  rw [newSlot_run] at h
  cases h
  exact ⟨rfl, by simp, Nat.mod_eq_of_lt hn⟩

end SlotRun

theorem declareLocals_slotRun {r : BlockLabels} {ds : List VarDecl} {e e' : Emitter}
    {ps : List Lower.Pending} (hn : e.frame.nextSlot + (localsOf ds).length < 65536)
    (h : (Lower.declareLocals r ds).run e = .ok (ps, e')) :
    SlotRun e e' (varLines r e.frame.nextSlot (localsOf ds)) (localsOf ds).length := by
  have hlen : (declared ds).length = (localsOf ds).length := by
    rw [← localsOf_declared, List.length_map]
  obtain ⟨hent, hslots, k⟩ := declareLocals_run (by omega) h
  have hL : ps.map (fun p ↦ (p.name, p.type)) = localsOf ds := by
    rw [← localsOf_declared, ← hent, List.map_map]
    rfl
  have hps : ps.length = (localsOf ds).length := by rw [← hL, List.length_map]
  exact ⟨by rw [k.lines, pending_varLines r hL hslots], by rw [k.slots, hps]⟩

section Statements

variable (s : Site)

theorem loopInit_slotless (v : String) (a : Expr) : Slotless (loopInit s v a) :=
  .bind (identPlace_slotless s v) fun _ ↦ .bind (lowerExpr_slotless s a) fun _ ↦ store_slotless _

theorem loopTest_slotless (v : String) (d : Direction) (b : Expr) (brkL : Label) :
    Slotless (loopTest s v d b brkL) :=
  .bind (loadIdent_slotless s v) fun _ ↦ .bind (lowerExpr_slotless s b) fun _ ↦ .emit _

mutual

theorem lowerStmt_slotCode : ∀ (st : Stmt) {e e' : Emitter},
    e.frame.nextSlot + (blockLocals st).length < 65536 →
    (Lower.lowerStmt s st).run e = .ok ((), e') →
      ∃ code, SlotRun e e' code (blockLocals st).length ∧ SlotCode e.frame.nextSlot st code
  | .assign t rhs sp, e, e', _, h => by
    obtain ⟨code, u⟩ := assign_slotless s t rhs sp e _ e' h
    exact ⟨code, .of_unslotted u, .assign u.vars⟩
  | .brk sp, e, e', _, h => by
    obtain ⟨code, u⟩ := brk_slotless s sp e _ e' h
    exact ⟨code, .of_unslotted u, .brk u.vars⟩
  | .cont sp, e, e', _, h => by
    obtain ⟨code, u⟩ := cont_slotless s sp e _ e' h
    exact ⟨code, .of_unslotted u, .cont u.vars⟩
  | .ret v sp, e, e', _, h => by
    obtain ⟨code, u⟩ := ret_slotless s v sp e _ e' h
    exact ⟨code, .of_unslotted u, .ret u.vars⟩
  | .invoke c sp, e, e', _, h => by
    obtain ⟨code, u⟩ := invoke_slotless s c sp e _ e' h
    exact ⟨code, .of_unslotted u, .invoke u.vars⟩
  | .cond c th el sp, e, e', hn, h => by
    rw [lowerStmt_cond] at h
    obtain ⟨elseL, e₁, h₁, h⟩ := bind_ok h
    obtain ⟨_, e₂, h₂, h⟩ := bind_ok h
    obtain ⟨_, e₃, h₃, h⟩ := bind_ok h
    obtain ⟨_, e₄, h₄, h⟩ := bind_ok h
    obtain ⟨_, u₁⟩ := Slotless.newLabel e _ e₁ h₁
    obtain ⟨_, u₂⟩ := lowerExpr_slotless s c e₁ _ e₂ h₂
    obtain ⟨_, u₃⟩ := Slotless.emit _ e₂ _ e₃ h₃
    have pre := (u₁.trans u₂).trans u₃
    cases el with
    | none =>
      obtain ⟨_, r₄, hth⟩ := lowerStmt_slotCode th (by rw [pre.slot]; exact hn) h₄
      obtain ⟨_, u₅⟩ := Slotless.label _ e₄ _ e' h
      rw [pre.slot] at hth
      exact ⟨_, (((SlotRun.of_unslotted pre).trans r₄).trans (.of_unslotted u₅)).of_eq rfl
        (by simp [blockLocals]), .cond pre.vars u₅.vars hth⟩
    | some el =>
      have hlen : (blockLocals (.cond c th (some el) sp)).length =
          (blockLocals th).length + (blockLocals el).length := by
        simp [blockLocals]
      obtain ⟨_, r₄, hth⟩ := lowerStmt_slotCode th (by rw [pre.slot]; omega) h₄
      obtain ⟨endL, e₅, h₅, h⟩ := bind_ok h
      obtain ⟨_, e₆, h₆, h⟩ := bind_ok h
      obtain ⟨_, e₇, h₇, h⟩ := bind_ok h
      obtain ⟨_, u₅⟩ := Slotless.newLabel e₄ _ e₅ h₅
      obtain ⟨_, u₆⟩ := Slotless.emit _ e₅ _ e₆ h₆
      obtain ⟨_, u₇⟩ := Slotless.label _ e₆ _ e₇ h₇
      have mid := (u₅.trans u₆).trans u₇
      -- the else branch takes its slots after those of the then branch
      have hs₇ : e₇.frame.nextSlot = e.frame.nextSlot + (blockLocals th).length := by
        rw [mid.slot, r₄.slot, pre.slot]
      obtain ⟨_, e₈, h₈, h⟩ := bind_ok h
      obtain ⟨_, r₈, hel⟩ := lowerStmt_slotCode el (by rw [hs₇]; omega) h₈
      obtain ⟨_, u₉⟩ := Slotless.label _ e₈ _ e' h
      rw [pre.slot] at hth
      rw [hs₇] at hel
      refine ⟨_, ?_, .condElse pre.vars mid.vars u₉.vars hth hel⟩
      exact (((((SlotRun.of_unslotted pre).trans r₄).trans (.of_unslotted mid)).trans r₈).trans
        (.of_unslotted u₉)).of_eq rfl (by rw [hlen]; omega)
  | .loop v vsp x d b body sp, e, e', hn, h => by
    obtain ⟨condL, contL, brkL, e₁, e₂, e₃, e₄, e₅, e₆, e₇, e₁₁, e₁₂, e₁₃, h₁, h₂, h₃, h₄, h₅, h₆,
      h₇, h₁₁, h₁₂, h₁₃, h⟩ := lowerStmt_loop_run s h
    obtain ⟨_, u₁⟩ := Slotless.newLabel e _ e₁ h₁
    obtain ⟨_, u₂⟩ := Slotless.newLabel e₁ _ e₂ h₂
    obtain ⟨_, u₃⟩ := Slotless.newLabel e₂ _ e₃ h₃
    obtain ⟨_, u₄⟩ := loopInit_slotless s v x e₃ _ e₄ h₄
    obtain ⟨_, u₅⟩ := Slotless.label _ e₄ _ e₅ h₅
    obtain ⟨_, u₆⟩ := loopTest_slotless s v d b brkL e₅ _ e₆ h₆
    -- the body runs with the loop open, which keeps the counter
    obtain ⟨e₉, h₉, rfl⟩ := loopBody_run s h₇
    obtain ⟨_, u₈⟩ :=
      Slotless.onFrame (g := (·.enterLoop contL brkL)) (fun _ ↦ rfl) e₆ _ _ (onFrame_run _ e₆)
    have pre := (((((u₁.trans u₂).trans u₃).trans u₄).trans u₅).trans u₆).trans u₈
    obtain ⟨_, r₉, hbody⟩ := lowerStmt_slotCode body (by rw [pre.slot]; exact hn) h₉
    obtain ⟨_, u₁₀⟩ := Slotless.onFrame (g := (·.exitLoop)) (fun _ ↦ rfl) e₉ _ _ (onFrame_run _ e₉)
    obtain ⟨_, u₁₁⟩ := Slotless.label _ _ _ e₁₁ h₁₁
    obtain ⟨_, u₁₂⟩ := stepVar_slotless s v d e₁₁ _ e₁₂ h₁₂
    obtain ⟨_, u₁₃⟩ := Slotless.emit _ e₁₂ _ e₁₃ h₁₃
    obtain ⟨_, u₁₄⟩ := Slotless.label _ e₁₃ _ e' h
    have post := (((u₁₀.trans u₁₁).trans u₁₂).trans u₁₃).trans u₁₄
    rw [pre.slot] at hbody
    exact ⟨_, (((SlotRun.of_unslotted pre).trans r₉).trans (.of_unslotted post)).of_eq rfl
      (by simp [blockLocals]), .loop pre.vars post.vars hbody⟩
  | .block ds ss sp, e, e', hn, h => by
    obtain ⟨ls, ps, e₁, e₂, e₃, e₄, e₅, e₆, _, h₁, h₂, h₃, h₄, h₅, h₆, h₇⟩ :=
      lowerStmt_block_run s sp h
    have hlen : (blockLocals (.block ds ss sp)).length =
        (localsOf ds).length + (blockLocalsOf ss).length := by
      simp [blockLocals]
    have r₁ := SlotRun.enterBlock h₁
    have hs₁ : e₁.frame.nextSlot = e.frame.nextSlot := r₁.slot
    -- the block's own locals take the next slots, the blocks of its statements the ones after
    have r₂ := declareLocals_slotRun (by rw [hs₁]; omega) h₂
    have r₃ := SlotRun.label h₃
    obtain ⟨_, u₄⟩ := initLocals_slotless s _ e₃ _ e₄ h₄
    have hs₄ : e₄.frame.nextSlot = e.frame.nextSlot + (localsOf ds).length := by
      rw [u₄.slot, r₃.slot, r₂.slot, hs₁, Nat.add_zero]
    obtain ⟨_, r₅, hss⟩ := lowerStmts_slotCode ss (by rw [hs₄]; omega) h₅
    have r₆ := SlotRun.label h₆
    have r₇ := SlotRun.exitBlock h₇
    rw [hs₁] at r₂
    rw [hs₄] at hss
    have run := (((((r₁.trans r₂).trans r₃).trans (.of_unslotted u₄)).trans r₅).trans r₆).trans r₇
    exact ⟨_, run.of_eq (by simp) (by rw [hlen]; omega), .block (r := ls) u₄.vars hss⟩

theorem lowerStmts_slotCode : ∀ (sts : List Stmt) {e e' : Emitter},
    e.frame.nextSlot + (blockLocalsOf sts).length < 65536 →
    (Lower.lowerStmts s sts).run e = .ok ((), e') →
      ∃ code, SlotRun e e' code (blockLocalsOf sts).length ∧ SlotCodes e.frame.nextSlot sts code
  | [], e, e', _, h => by
    rw [Lower.lowerStmts] at h
    cases h
    exact ⟨[], ⟨by simp, rfl⟩, .nil⟩
  | st :: sts, e, e', hn, h => by
    rw [Lower.lowerStmts] at h
    obtain ⟨_, e₁, h₁, h⟩ := bind_ok h
    have hlen : (blockLocalsOf (st :: sts)).length =
        (blockLocals st).length + (blockLocalsOf sts).length := by
      simp [blockLocalsOf]
    obtain ⟨_, r₁, hst⟩ := lowerStmt_slotCode st (by omega) h₁
    obtain ⟨_, r₂, hsts⟩ := lowerStmts_slotCode sts (by rw [r₁.slot]; omega) h
    rw [r₁.slot] at hsts
    exact ⟨_, (r₁.trans r₂).of_eq rfl hlen.symm, .cons hst hsts⟩

end

end Statements

/-- What slot 0 of a routine holds: the object in instance routines, the argument array in the
entry point, nothing in other static routines. -/
def receiverLocals (cls : String) : Receiver → List (String × Ty)
  | .this => [("this", .cls cls)]
  | .args => [("args", .array .string 0)]
  | .none => []

def paramLocals (ps : List Param) : List (String × Ty) := ps.map fun p ↦ (p.name, p.type)

def memberReceiver : Member → Receiver
  | .method m => if m.isEntryPoint then .args else if m.isStatic then .none else .this
  | _ => .this

def memberParams : Member → List Param
  | .method m => m.params
  | .ctor k => k.params
  | _ => []

/-- The locals that take the first slots of a member's routine, each with a `.var` line over the
routine's range: its receiver, its parameters, the locals its body declares. -/
def routineLocals (cls : String) (m : Member) (b : Block) : List (String × Ty) :=
  receiverLocals cls (memberReceiver m) ++ paramLocals (memberParams m) ++ localsOf b.decls

/-- How a routine's lines `lines` lay out its slots, `n` of them, when the locals `top` take the
first ones and its statements are `sts`: the `.var` lines of `top` in the slots from 0 on over the
routine's range, its start label, code with no `.var` line, the code of the statements, laid out as
`SlotCodes` says from the slot after `top`, code with no `.var` line again and its end label. Each
slot below `n` then has exactly one `.var` line, the slots go to the locals in source order, and
`n` counts them all. -/
structure SlotLayout (top : List (String × Ty)) (sts : List Stmt) (lines : List Line) (n : Nat) :
    Prop where
  code : ∃ pre code post, lines = varLines routineRange 0 top ++ .label routineRange.start ::
      pre ++ code ++ post ++ [.label routineRange.stop] ∧
    varEntries pre = [] ∧ varEntries post = [] ∧ SlotCodes top.length sts code
  slots : (varEntries lines).map Prod.fst = List.range n
  locals : (varEntries lines).map Prod.snd = top ++ blockLocalsOf sts
  limit : n = top.length + (blockLocalsOf sts).length

theorem SlotLayout.of_code {top : List (String × Ty)} {sts : List Stmt} {lines : List Line}
    {n : Nat} {pre code post : List Line}
    (hl : lines = varLines routineRange 0 top ++ .label routineRange.start :: pre ++ code ++ post ++
      [.label routineRange.stop])
    (hpre : varEntries pre = []) (hpost : varEntries post = []) (hc : SlotCodes top.length sts code)
    (hn : n = top.length + (blockLocalsOf sts).length) : SlotLayout top sts lines n := by
  have entries : varEntries lines = numbered 0 (top ++ blockLocalsOf sts) := by
    simp [hl, varEntries_varLines, hpre, hpost, SlotCodes.entries hc, numbered_append]
  refine ⟨⟨pre, code, post, hl, hpre, hpost, hc⟩, ?_, ?_, hn⟩
  · rw [entries, numbered_slots, List.length_append, ← hn, List.range_eq_range']
  · rw [entries, numbered_locals]

/-- A routine's run once the locals `top` have their `.var` lines, in the slots from 0 on over the
routine's range, and nothing else is written: the counter stands past them. -/
structure Declared (top : List (String × Ty)) (e : Emitter) : Prop where
  lines : e.lines.toList = varLines routineRange 0 top
  slot : e.frame.nextSlot = top.length

theorem openRoutine_declared {s : Site} {r : Receiver} {n : String} {rt : Ty} {st : Bool}
    {ls : BlockLabels} {e : Emitter}
    (h : (Lower.openRoutine s r).run (Emitter.create (Frame.create n rt st)) = .ok (ls, e)) :
    Declared (receiverLocals s.cls r) e := by
  unfold Lower.openRoutine at h
  obtain ⟨ls₀, e₁, h₁, h⟩ := bind_ok h
  cases h₁
  cases r with
  | this =>
    obtain ⟨_, e₂, h₂, h⟩ := bind_ok h
    obtain ⟨_, e₃, h₃, h⟩ := bind_ok h
    cases h₂
    cases h₃
    cases h
    exact ⟨rfl, rfl⟩
  | args =>
    obtain ⟨_, e₂, h₂, h⟩ := bind_ok h
    obtain ⟨_, e₃, h₃, h⟩ := bind_ok h
    cases h₂
    cases h₃
    cases h
    exact ⟨rfl, rfl⟩
  | none =>
    cases h
    exact ⟨rfl, rfl⟩

theorem declareParams_slotRun {r : BlockLabels} :
    ∀ {ps : List Param} {e e' : Emitter} {slots : List Nat},
    e.frame.nextSlot + ps.length < 65536 → (Lower.declareParams r ps).run e = .ok (slots, e') →
    SlotRun e e' (varLines r e.frame.nextSlot (paramLocals ps)) ps.length
  | [], e, e', slots, _, h => by
    cases h
    exact ⟨by simp [paramLocals, varLines], rfl⟩
  | p :: ps, e, e', slots, hn, h => by
    rw [Lower.declareParams] at h
    obtain ⟨slot, e₁, h₁, h⟩ := bind_ok h
    obtain ⟨_, e₂, h₂, h⟩ := bind_ok h
    obtain ⟨rest, e₃, h₃, h⟩ := bind_ok h
    cases h
    rw [List.length_cons] at hn
    obtain ⟨rfl, r₁⟩ := SlotRun.newSlot h₁ (by omega)
    have r₂ := SlotRun.line h₂
    have hs₂ : e₂.frame.nextSlot = e.frame.nextSlot + 1 := by rw [r₂.slot, r₁.slot]
    have r₃ := declareParams_slotRun (by rw [hs₂]; omega) h₃
    rw [hs₂] at r₃
    exact ((r₁.trans r₂).trans r₃).of_eq (by simp [paramLocals, varLines])
      (by rw [List.length_cons]; omega)

theorem Declared.params {top : List (String × Ty)} {ps : List Param} {e e' : Emitter}
    {slots : List Nat} (hd : Declared top e) (hn : top.length + ps.length < 65536)
    (h : (Lower.declareParams routineRange ps).run e = .ok (slots, e')) :
    Declared (top ++ paramLocals ps) e' := by
  have r := declareParams_slotRun (by rw [hd.slot]; exact hn) h
  rw [hd.slot] at r
  exact ⟨by rw [r.lines, hd.lines, varLines_append, Nat.zero_add],
    by rw [r.slot, hd.slot, List.length_append, paramLocals, List.length_map]⟩

theorem Declared.locals {top : List (String × Ty)} {ds : List VarDecl} {e e' : Emitter}
    {ps : List Lower.Pending} (hd : Declared top e) (hn : top.length + (localsOf ds).length < 65536)
    (h : (Lower.declareLocals routineRange ds).run e = .ok (ps, e')) :
    Declared (top ++ localsOf ds) e' := by
  have r := declareLocals_slotRun (by rw [hd.slot]; exact hn) h
  rw [hd.slot] at r
  exact ⟨by rw [r.lines, hd.lines, varLines_append, Nat.zero_add],
    by rw [r.slot, hd.slot, List.length_append]⟩

theorem Declared.layout {top : List (String × Ty)} {sts : List Stmt} {e e' : Emitter}
    {pre code post : List Line} {n : Nat} (hd : Declared top e)
    (r : SlotRun e e' (.label routineRange.start :: pre ++ code ++ post ++
      [.label routineRange.stop]) n)
    (hpre : varEntries pre = []) (hpost : varEntries post = []) (hc : SlotCodes top.length sts code)
    (hn : n = (blockLocalsOf sts).length) :
    SlotLayout top sts e'.lines.toList e'.frame.nextSlot :=
  .of_code (by rw [r.lines, hd.lines]; simp only [List.append_assoc, List.cons_append]) hpre hpost
    hc (by rw [r.slot, hd.slot, hn])

theorem closeRoutine_slotRun {ls : BlockLabels} {ob : Option Block} {e e' : Emitter} {u : Unit}
    (h : (Lower.closeRoutine ls ob).run e = .ok (u, e')) :
    ∃ post, varEntries post = [] ∧ SlotRun e e' (post ++ [.label ls.stop]) 0 := by
  -- both ends of the branch on the added `return` place the end label and close the range
  have tail : ∀ {e₂ : Emitter} {u : Unit},
      (do Emitter.label ls.stop; let _ ← Emitter.exitBlock; pure ()).run e₂ = .ok (u, e') →
        SlotRun e₂ e' [.label ls.stop] 0 := by
    intro e₂ u h
    obtain ⟨_, e₃, h₃, h⟩ := bind_ok h
    obtain ⟨_, e₄, h₄, h⟩ := bind_ok h
    cases h
    exact (SlotRun.label h₃).trans (.exitBlock h₄)
  unfold Lower.closeRoutine at h
  obtain ⟨_, e₁, h₁, h⟩ := bind_ok h
  obtain ⟨_, u₁⟩ := Slotless.get e _ e₁ h₁
  dsimp only at h
  split at h
  · obtain ⟨_, e₂, h₂, h⟩ := bind_ok h
    obtain ⟨_, u₂⟩ := Slotless.emit _ e₁ _ e₂ h₂
    exact ⟨_, (u₁.trans u₂).vars, (SlotRun.of_unslotted (u₁.trans u₂)).trans (tail h)⟩
  · exact ⟨_, u₁.vars, (SlotRun.of_unslotted u₁).trans (tail h)⟩

section Routines

variable (s : Site)

theorem bindParams_slotless (ps : List Param) (slots : List Nat) :
    Slotless (Lower.bindParams ps slots) := by
  induction ps generalizing slots with
  | nil =>
    simp only [Lower.bindParams]
    exact .pure _
  | cons p ps ih =>
    cases slots with
    | nil =>
      simp only [Lower.bindParams]
      exact .pure _
    | cons slot slots =>
      rw [Lower.bindParams]
      exact .bind (.onFrame fun _ ↦ rfl) fun _ ↦ ih slots

theorem Declared.body {top : List (String × Ty)} {b : Block} {prologue : EmitM Unit}
    (hp : Slotless prologue) {e e' : Emitter} {u : Unit} (hd : Declared top e)
    (hn : (top ++ localsOf b.decls).length + (blockLocalsOf b.stmts).length < 65536)
    (h : (do Lower.lowerBody s routineRange b prologue; Lower.closeRoutine routineRange (some b)).run
      e = .ok (u, e')) :
    SlotLayout (top ++ localsOf b.decls) b.stmts e'.lines.toList e'.frame.nextSlot := by
  obtain ⟨_, e₅, h₅, h⟩ := bind_ok h
  obtain ⟨ps, e₁, e₂, e₃, e₄, h₁, h₂, h₃, h₄, h₅⟩ := lowerBody_run h₅
  have hd₁ := hd.locals (by rw [List.length_append] at hn; omega) h₁
  obtain ⟨_, u₃⟩ := hp e₂ _ e₃ h₃
  obtain ⟨_, u₄⟩ := initLocals_slotless s _ e₃ _ e₄ h₄
  have pre := (SlotRun.label h₂).trans (.of_unslotted (u₃.trans u₄))
  obtain ⟨_, r₅, hss⟩ := lowerStmts_slotCode s b.stmts (by rw [pre.slot, hd₁.slot]; exact hn) h₅
  obtain ⟨_, hpost, r₆⟩ := closeRoutine_slotRun h
  rw [pre.slot, hd₁.slot] at hss
  exact hd₁.layout (((pre.trans r₅).trans r₆).of_eq (by simp) rfl) (u₃.trans u₄).vars hpost hss
    (by omega)

theorem Declared.paramsBody {top : List (String × Ty)} {ps : List Param} {b : Block}
    {prologue : List Nat → EmitM Unit} {e e' : Emitter} {u : Unit} (hd : Declared top e)
    (h : (do
      let slots ← Lower.declareParams routineRange ps
      Lower.lowerBody s routineRange b (prologue slots)
      Lower.closeRoutine routineRange (some b)).run e = .ok (u, e'))
    (hp : ∀ slots, Slotless (prologue slots))
    (hn : (top ++ paramLocals ps ++ localsOf b.decls).length + (blockLocalsOf b.stmts).length <
      65536) :
    SlotLayout (top ++ paramLocals ps ++ localsOf b.decls) b.stmts e'.lines.toList
      e'.frame.nextSlot := by
  obtain ⟨slots, e₁, h₁, h⟩ := bind_ok h
  have hlen : (top ++ paramLocals ps ++ localsOf b.decls).length =
      top.length + ps.length + (localsOf b.decls).length := by
    simp only [paramLocals, List.length_append, List.length_map]
  exact (hd.params (by omega) h₁).body s (hp slots) hn h

theorem routine_slots {h : MethodHeader} {r : Receiver} {body : BlockLabels → EmitM Unit}
    {top : List (String × Ty)} {sts : List Stmt} {rc : RoutineCode} {log log' : Array LogLine}
    (hb : ∀ {e e' : Emitter} {u : Unit}, Declared (receiverLocals s.cls r) e →
      (body routineRange).run e = .ok (u, e') →
        SlotLayout top sts e'.lines.toList e'.frame.nextSlot)
    (hr : runFrom (Lower.routine s h r body) log = (.ok rc, log')) :
    SlotLayout top sts rc.lines rc.maxLocals := by
  rw [routine_run] at hr
  split at hr
  · next e he =>
    simp only [Prod.mk.injEq, Except.ok.injEq] at hr
    rw [← hr.1]
    obtain ⟨ls, e₁, h₁, h₂⟩ := bind_ok he
    obtain ⟨rfl, -⟩ := openRoutine_opened h₁
    exact hb (openRoutine_declared h₁) h₂
  · simp at hr

theorem defaultCtor_slots {parent : String} {attrs : List AttrInfo} {rc : RoutineCode}
    {log log' : Array LogLine} (hr : runFrom (Lower.defaultCtor s parent attrs) log = (.ok rc, log')) :
    SlotLayout (receiverLocals s.cls .this) [] rc.lines rc.maxLocals := by
  refine routine_slots s (fun hd h ↦ ?_) hr
  obtain ⟨_, e₁, h₁, h⟩ := bind_ok h
  obtain ⟨_, e₂, h₂, h⟩ := bind_ok h
  obtain ⟨_, e₃, h₃, h⟩ := bind_ok h
  obtain ⟨_, u₂⟩ := superCall_slotless s parent e₁ _ e₂ h₂
  obtain ⟨_, u₃⟩ := initAttributes_slotless s _ e₂ _ e₃ h₃
  obtain ⟨_, hpost, r⟩ := closeRoutine_slotRun h
  exact hd.layout ((((SlotRun.label h₁).trans (.of_unslotted (u₂.trans u₃))).trans r).of_eq
    (by simp) rfl) (u₂.trans u₃).vars hpost .nil rfl

theorem staticInit_slots {attrs : List AttrInfo} {rc : RoutineCode} {log log' : Array LogLine}
    (hr : runFrom (Lower.staticInit s attrs) log = (.ok rc, log')) :
    SlotLayout [] [] rc.lines rc.maxLocals := by
  refine routine_slots s (fun hd h ↦ ?_) hr
  obtain ⟨_, e₁, h₁, h⟩ := bind_ok h
  obtain ⟨_, e₂, h₂, h⟩ := bind_ok h
  obtain ⟨_, u₂⟩ := initAttributes_slotless s _ e₁ _ e₂ h₂
  obtain ⟨_, hpost, r⟩ := closeRoutine_slotRun h
  exact hd.layout ((((SlotRun.label h₁).trans (.of_unslotted u₂)).trans r).of_eq (by simp) rfl)
    u₂.vars hpost .nil rfl

/-- How the routine `o` of a member lays out its slots: a member with a body has one, laid out for
its receiver, parameters and locals as `SlotLayout` says unless that takes 65536 slots or more. -/
def MemberSlots (cls : String) (m : Member) (o : Option RoutineCode) : Prop :=
  ∀ b, routineBody m = some b → ∃ rc, o = some rc ∧
    ((routineLocals cls m b).length + (blockLocalsOf b.stmts).length < 65536 →
      SlotLayout (routineLocals cls m b) b.stmts rc.lines rc.maxLocals)

theorem memberRoutine_slots {parent : String} {attrs : List AttrInfo} {m : Member}
    {o : Option RoutineCode} {log log' : Array LogLine}
    (hr : runFrom (Lower.memberRoutine s parent attrs m) log = (.ok o, log')) :
    MemberSlots s.cls m o := by
  cases m with
  | attr _ => exact fun _ h ↦ nomatch h
  | method d =>
    obtain ⟨rc, hrc, rfl⟩ := runFrom_map_ok hr
    rintro b ⟨⟩
    exact ⟨rc, rfl, fun hn ↦ routine_slots s (fun hd h ↦
      hd.paramsBody s h (fun _ ↦ bindParams_slotless _ _) hn) hrc⟩
  | ctor k =>
    obtain ⟨rc, hrc, rfl⟩ := runFrom_map_ok hr
    rintro b ⟨⟩
    -- the parameters come into scope only after the parent's constructor and the attributes
    have hp : ∀ slots, Slotless (do
        Lower.superCall s parent
        Lower.initAttributes s (attrs.filter (!·.isStatic))
        Lower.bindParams k.params slots) := fun _ ↦
      .bind (superCall_slotless s parent) fun _ ↦
        .bind (initAttributes_slotless s _) fun _ ↦ bindParams_slotless _ _
    exact ⟨rc, rfl, fun hn ↦ routine_slots s (fun hd h ↦ hd.paramsBody s h hp hn) hrc⟩
  | dtor d =>
    obtain ⟨rc, hrc, rfl⟩ := runFrom_map_ok hr
    rintro b ⟨⟩
    refine ⟨rc, rfl, fun hn ↦ routine_slots s (fun hd h ↦ ?_) hrc⟩
    simp only [routineLocals, memberReceiver, memberParams, paramLocals, List.map_nil,
      List.append_nil] at hn ⊢
    exact hd.body s (.pure ()) hn h

end Routines

/-- How the routines of a class's unit lay out their slots: the constructor it may start with
has only the object, the static initializer it may end with no local, and the routine of each
member with a body is laid out for its receiver, parameters and locals. -/
def ClassSlots (c : ClassDecl) (u : ClassUnit) : Prop :=
  ∃ init rs clinit, u.routines = init ++ rs.filterMap id ++ clinit ∧
    (∀ rc ∈ init, SlotLayout (receiverLocals c.name .this) [] rc.lines rc.maxLocals) ∧
    List.Forall₂ (MemberSlots c.name) c.members rs ∧
    ∀ rc ∈ clinit, SlotLayout [] [] rc.lines rc.maxLocals

theorem classLower_slots {T : ClassTable} {opts : Options} {c : ClassDecl} {u : ClassUnit}
    (h : ∃ l₁ l₂, runFrom (c.lower T opts) l₁ = (.ok u, l₂)) : ClassSlots c u := by
  obtain ⟨l, l', h⟩ := h
  cases hr : T.get? c.name with
  | none =>
    unfold ClassDecl.lower at h
    simp [run_bind, hr] at h
  | some r =>
    -- the site's class is the class's own name, as the table records it
    have hname : r.name = c.name := (Lineage.get?_some hr).2
    rw [classLower_of_get hr] at h
    obtain ⟨_, l₁, -, h⟩ := runFrom_bind_ok h
    obtain ⟨attrs, l₂, -, h⟩ := runFrom_bind_ok h
    obtain ⟨init, l₃, hi, h⟩ := runFrom_bind_ok h
    obtain ⟨routines, l₄, hm, h⟩ := runFrom_bind_ok h
    obtain ⟨clinit, l₅, hcl, h⟩ := runFrom_bind_ok h
    rw [← runFrom_pure_ok h]
    refine ⟨init, routines, clinit, rfl, ?_, ?_, ?_⟩
    · unfold initRoutines at hi
      split at hi
      · obtain ⟨rc, hrc, rfl⟩ := runFrom_map_ok hi
        intro _ hmem
        rw [List.mem_singleton.mp hmem, ← hname]
        exact defaultCtor_slots _ hrc
      · rw [← runFrom_pure_ok hi]
        exact fun _ hmem ↦ nomatch hmem
    · rw [← hname]
      exact (mapM_ok_forall₂ hm).imp fun _ _ ⟨_, _, hr⟩ ↦ memberRoutine_slots _ hr
    · unfold clinitRoutines at hcl
      split at hcl
      · obtain ⟨rc, hrc, rfl⟩ := runFrom_map_ok hcl
        intro _ hmem
        rw [List.mem_singleton.mp hmem]
        exact staticInit_slots _ hrc
      · rw [← runFrom_pure_ok hcl]
        exact fun _ hmem ↦ nomatch hmem

/-- In a compiled program, every routine of every unit hands out its local slots once each, from
0 up: to the object or the argument array when it has one, then to its parameters and the locals
of its body in order, then to the locals of its nested blocks in source order, never reusing the
slot of a closed block. Each slot has exactly one `.var` line, over the routine's range or that of
the block declaring it, and `.limit locals` is the number of slots taken; this holds of every
routine that takes fewer than 65536 slots, past which the 16-bit counter wraps. -/
theorem local_slots_taken_once {opts : Options} {p : Program} {us : List ClassUnit}
    (h : (compile opts p).run.2 = .ok us) : List.Forall₂ ClassSlots p.classes us := by
  obtain ⟨T, hT⟩ := compile_ok h
  exact hT.imp fun _ _ ↦ classLower_slots

/-- The class `Main` with an instance method `int twice(int n)` whose body declares `r` and whose
`if` opens a block declaring `k` in one branch and one declaring `z` in the other, and an entry
point whose loop body opens a block declaring `j`. -/
def nestedLocals : Program :=
  ⟨[⟨"Main", none, [
    .method ⟨false, .int, "twice", [⟨"n", .int, default⟩],
      ⟨[⟨false, .int, [⟨"r", none, default⟩], default⟩],
        [.cond (.binary .gt (.ident "n" default) (.lit (.int 0) default) default)
          (.block [⟨false, .int, [⟨"k", some (.ident "n" default), default⟩], default⟩]
            [.assign (.ident "r" default)
              (.binary .add (.ident "k" default) (.ident "k" default) default) default] default)
          (some (.block [⟨false, .int, [⟨"z", none, default⟩], default⟩]
            [.assign (.ident "r" default) (.ident "z" default) default] default)) default,
        .ret (some (.ident "r" default)) default], default⟩, default⟩,
    .method ⟨true, .void, "main", [],
      ⟨[⟨false, .int, [⟨"i", none, default⟩], default⟩],
        [.loop "i" default (.lit (.int 1) default) .up (.lit (.int 3) default)
          (.block [⟨false, .int, [⟨"j", some (.ident "i" default), default⟩], default⟩] [] default)
          default], default⟩, default⟩], default⟩]⟩

/-- The units the compiler makes of `nestedLocals`. -/
def nestedLocalsUnits : List ClassUnit := ((compile {} nestedLocals).run.2).toOption.getD []

theorem nestedLocals_slots_taken_once :
    (compile {} nestedLocals).run.2 = .ok nestedLocalsUnits ∧
      List.Forall₂ ClassSlots nestedLocals.classes nestedLocalsUnits := by
  have hc : (compile {} nestedLocals).run.2 = .ok nestedLocalsUnits :=
    except_eq_ok_of_isOk _ (by decide +kernel)
  exact ⟨hc, local_slots_taken_once hc⟩

end ClassLang.Proofs.LocalSlots
