import ClassLang.Proofs.StmtCode

namespace ClassLang.Proofs.SlotlessCode

open ClassLang Runs Invariants FreshLabels

variable {α β : Type}

def varEntry : Line → Option (Nat × String × Ty)
  | .var slot n t _ => some (slot, n, t)
  | _ => none

def varEntries (code : List Line) : List (Nat × String × Ty) := code.filterMap varEntry

@[simp] theorem varEntries_nil : varEntries [] = [] := rfl

@[simp] theorem varEntries_append (x y : List Line) :
    varEntries (x ++ y) = varEntries x ++ varEntries y :=
  List.filterMap_append

@[simp] theorem varEntries_label (l : Label) (code : List Line) :
    varEntries (.label l :: code) = varEntries code := rfl

@[simp] theorem varEntries_instr (i : Instr) (code : List Line) :
    varEntries (.instr i :: code) = varEntries code := rfl

@[simp] theorem varEntries_var (slot : Nat) (n : String) (t : Ty) (r : BlockLabels)
    (code : List Line) : varEntries (.var slot n t r :: code) = (slot, n, t) :: varEntries code :=
  rfl

theorem varEntries_of_refLabels {code : List Line} (h : refLabels code = []) :
    varEntries code = [] := by
  induction code with
  | nil => rfl
  | cons x code ih =>
    rw [refLabels, List.flatMap_cons, List.append_eq_nil_iff] at h
    cases x with
    | instr i => exact ih h.2
    | label l => exact ih h.2
    | var slot n t r => simp [lineRefs] at h
    | directive t => exact ih h.2

def SlotKept (e e' : Emitter) : Prop := e'.frame.nextSlot = e.frame.nextSlot

theorem adjust_nextSlot {f f' : Frame} {d : Int} (h : f.adjust d = .ok f') :
    f'.nextSlot = f.nextSlot := by
  obtain ⟨-, rfl⟩ := adjust_ok h
  rfl

theorem slotKept_steps : Steps SlotKept fun _ ↦ True where
  refl _ := rfl
  trans h₁ h₂ := h₂.trans h₁
  internal _ := trivial
  emit i st st' h := by
    obtain ⟨f, hf, rfl⟩ := emit_ok h
    exact adjust_nextSlot hf
  rewind d st st' h := by
    obtain ⟨f, hf, rfl⟩ := rewind_ok h
    exact adjust_nextSlot hf
  line _ _ := rfl
  newLabel _ := rfl
  append _ _ := rfl
  capture above act h := by
    refine ⟨fun st c st' hc ↦ ?_, fun _ _ _ ↦ trivial⟩
    obtain ⟨f₁, st₂, f₃, hf₁, h₂, -, hf₃, rfl⟩ := capture_ok hc
    show f₃.nextSlot = st.frame.nextSlot
    rw [adjust_nextSlot hf₃, h.ok _ _ _ h₂]
    exact adjust_nextSlot hf₁

/-- A run from `e` to `e'` that writes `code`, with no `.var` line, after the lines it starts
from, and takes no slot. -/
structure Unslotted (e e' : Emitter) (code : List Line) : Prop where
  lines : e'.lines.toList = e.lines.toList ++ code
  vars : varEntries code = []
  slot : e'.frame.nextSlot = e.frame.nextSlot

theorem Unslotted.trans {e e₁ e₂ : Emitter} {c₁ c₂ : List Line} (h₁ : Unslotted e e₁ c₁)
    (h₂ : Unslotted e₁ e₂ c₂) : Unslotted e e₂ (c₁ ++ c₂) where
  lines := by rw [h₂.lines, h₁.lines, List.append_assoc]
  vars := by rw [varEntries_append, h₁.vars, h₂.vars, List.append_nil]
  slot := h₂.slot.trans h₁.slot

def Slotless (m : EmitM α) : Prop := ∀ e a e', m.run e = .ok (a, e') → ∃ code, Unslotted e e' code

namespace Slotless

theorem pure (a : α) : Slotless (pure a : EmitM α) := by
  intro e _ _ h
  cases h
  exact ⟨[], by simp, rfl, rfl⟩

theorem throw (m : CompileError) : Slotless (throw m : EmitM α) := by
  intro _ _ _ h
  cases h

theorem bind {x : EmitM α} {f : α → EmitM β} (hx : Slotless x) (hf : ∀ a, Slotless (f a)) :
    Slotless (x >>= f) := by
  intro e b e' h
  obtain ⟨a, e₁, h₁, h₂⟩ := bind_ok h
  obtain ⟨c₁, u₁⟩ := hx e a e₁ h₁
  obtain ⟨c₂, u₂⟩ := hf a e₁ b e' h₂
  exact ⟨c₁ ++ c₂, u₁.trans u₂⟩

theorem of_quiet {m : EmitM α} (hq : Quiet m) (hs : Sound SlotKept (fun _ ↦ True) m) :
    Slotless m := by
  intro e a e' h
  obtain ⟨code, hp⟩ := hq e a e' h
  exact ⟨code, hp.appends.2, varEntries_of_refLabels hp.refs, hs.ok e a e' h⟩

theorem emit (i : Instr) : Slotless (Emitter.emit i) := by
  intro e _ e' h
  obtain ⟨f, hf, rfl⟩ := emit_ok h
  exact ⟨[.instr i], by simp, rfl, adjust_nextSlot hf⟩

theorem rewind (d : Int) : Slotless (Emitter.rewind d) := by
  intro e _ e' h
  obtain ⟨f, hf, rfl⟩ := rewind_ok h
  exact ⟨[], by simp, rfl, adjust_nextSlot hf⟩

theorem label (l : Label) : Slotless (Emitter.label l) := by
  intro e _ e' h
  cases h
  exact ⟨[.label l], by simp, rfl, rfl⟩

theorem newLabel : Slotless Emitter.newLabel := by
  intro e _ e' h
  cases h
  exact ⟨[], by simp, rfl, rfl⟩

theorem get : Slotless (get : EmitM Emitter) := by
  intro e _ e' h
  cases h
  exact ⟨[], by simp, rfl, rfl⟩

theorem liftExcept (r : Except CompileError α) : Slotless (Emitter.liftExcept r) := by
  intro e _ e' h
  rw [liftExcept_run] at h
  cases r with
  | error => cases h
  | ok => cases h; exact ⟨[], by simp, rfl, rfl⟩

theorem onFrame {g : Frame → Frame} (hg : ∀ f, (g f).nextSlot = f.nextSlot) :
    Slotless (Emitter.onFrame g) := by
  intro e _ e' h
  cases h
  exact ⟨[], by simp, rfl, hg e.frame⟩

end Slotless

theorem capture_slotless {above : Int} {act : EmitM Ty} (ha : Slotless act) {e e' : Emitter}
    {c : Captured} (h : (Lower.capture above act).run e = .ok (c, e')) :
    Unslotted e e' [] ∧ varEntries c.lines = [] := by
  obtain ⟨f₁, e₂, f₃, hf₁, h₂, hlines, hf₃, rfl⟩ := capture_ok h
  obtain ⟨code, u⟩ := ha { e with frame := f₁ } _ e₂ h₂
  obtain ⟨hcode, hrest⟩ := extract_of_toList u.lines
  refine ⟨⟨by simp [hrest], rfl, ?_⟩, by rw [hlines, hcode]; exact u.vars⟩
  show f₃.nextSlot = e.frame.nextSlot
  rw [adjust_nextSlot hf₃, u.slot]
  exact adjust_nextSlot hf₁

theorem replay_slotless {c : Captured} (hc : varEntries c.lines = []) (target : Option Ty) :
    Slotless (Lower.replay c target) := by
  intro e _ e' h
  obtain ⟨_, e₁, h₁, h⟩ := bind_ok h
  cases h₁
  obtain ⟨_, e₂, h₂, h⟩ := bind_ok h
  obtain ⟨f, hf, rfl⟩ := rewind_ok h₂
  have u : Unslotted e { e with lines := e.lines ++ c.lines.toArray, frame := f } c.lines :=
    ⟨by simp, hc, adjust_nextSlot hf⟩
  cases target with
  | none => cases h; exact ⟨_, u⟩
  | some t =>
    obtain ⟨code, u'⟩ := Slotless.of_quiet (widen_quiet t c.type)
      (widen_sound slotKept_steps t c.type) _ _ _ h
    exact ⟨_, u.trans u'⟩

section Expressions

variable (s : Site)

theorem resolve_slotless (n : String) : Slotless (Lower.resolve s n) :=
  .of_quiet (resolve_quiet s n) (resolve_sound slotKept_steps s n)

theorem widen_slotless (target actual : Ty) : Slotless (Lower.widen target actual) :=
  .of_quiet (widen_quiet target actual) (widen_sound slotKept_steps target actual)

theorem pushZero_slotless (t : Ty) : Slotless (Lower.pushZero t) :=
  .of_quiet (pushZero_quiet t) (pushZero_sound slotKept_steps t)

theorem store_slotless (p : Place) : Slotless (Lower.store p) :=
  .of_quiet (store_quiet p) (store_sound slotKept_steps p)

theorem dropReceiver_slotless (op : Operand) : Slotless (Lower.dropReceiver op) :=
  .of_quiet (dropReceiver_quiet op) (dropReceiver_sound slotKept_steps op)

theorem loadIdent_slotless (n : String) : Slotless (Lower.loadIdent s n) :=
  .of_quiet (loadIdent_quiet s n) (loadIdent_sound slotKept_steps s n)

theorem identPlace_slotless (n : String) : Slotless (Lower.identPlace s n) :=
  .of_quiet (identPlace_quiet s n) (identPlace_sound slotKept_steps s n)

theorem checkArity_slotless (params : List Ty) (args : List Expr) :
    Slotless (Lower.checkArity params args) :=
  .of_quiet (checkArity_quiet params args) (checkArity_sound slotKept_steps params args)

theorem stepVar_slotless (v : String) (d : Direction) : Slotless (Lower.stepVar s v d) :=
  .of_quiet (stepVar_quiet s v d) (stepVar_sound slotKept_steps s v d)

theorem superCall_slotless (parent : String) : Slotless (Lower.superCall s parent) :=
  .of_quiet (superCall_quiet s parent) (superCall_sound slotKept_steps s parent)

theorem logical_slotless (op : BinOp) {lhs rhs : EmitM Ty} (hl : Slotless lhs)
    (hr : Slotless rhs) : Slotless (Lower.logical op lhs rhs) := by
  unfold Lower.logical
  exact .bind .newLabel fun _ ↦ .bind .newLabel fun _ ↦ .bind hl fun _ ↦ .bind (.emit _) fun _ ↦
    .bind hr fun _ ↦ .bind (.emit _) fun _ ↦ .bind (.label _) fun _ ↦ .bind (.rewind _) fun _ ↦
    .bind (.emit _) fun _ ↦ .bind (.label _) fun _ ↦ .pure _

theorem compare_slotless (op : BinOp) (lhs : Ty) {rhs : Captured}
    (hr : varEntries rhs.lines = []) : Slotless (Lower.compare op lhs rhs) := by
  unfold Lower.compare
  split
  · refine .bind .newLabel fun yes ↦ .bind .newLabel fun stop ↦ ?_
    -- both tests end in the same two values and the label after them
    have tail : Slotless (do
        Emitter.emit (.pushInt 0)
        Emitter.emit (.goto stop)
        Emitter.label yes
        Emitter.rewind (-1)
        Emitter.emit (.pushInt 1)
        Emitter.label stop) :=
      .bind (.emit _) fun _ ↦ .bind (.emit _) fun _ ↦ .bind (.label _) fun _ ↦
        .bind (.rewind _) fun _ ↦ .bind (.emit _) fun _ ↦ .label _
    dsimp only
    split
    · exact .bind (widen_slotless _ _) fun _ ↦ .bind (replay_slotless hr _) fun _ ↦
        .bind (.emit _) fun _ ↦ .bind (.emit _) fun _ ↦ tail
    · refine .bind (replay_slotless hr _) fun _ ↦ ?_
      split <;> exact .bind (.emit _) fun _ ↦ tail
  · exact .throw _

theorem binary_slotless (op : BinOp) (lhs : Ty) {rhs : Captured}
    (hr : varEntries rhs.lines = []) : Slotless (Lower.binary op lhs rhs) := by
  unfold Lower.binary
  split
  · rename_i r _
    dsimp only
    split
    · exact .bind (replay_slotless hr _) fun _ ↦ .bind (.emit _) fun _ ↦ .pure _
    split
    · exact .bind (compare_slotless op lhs hr) fun _ ↦ .pure _
    split
    · exact .bind (widen_slotless _ _) fun _ ↦ .bind (replay_slotless hr _) fun _ ↦
        .bind (.of_quiet (arithmetic_quiet _ _) (arithmetic_sound slotKept_steps _ _)) fun _ ↦
        .pure _
    refine .bind (widen_slotless _ _) fun _ ↦ .bind (replay_slotless hr _) fun _ ↦
      .bind (.of_quiet (arithmetic_quiet _ _) (arithmetic_sound slotKept_steps _ _)) fun _ ↦ ?_
    split
    · exact .bind (.emit _) fun _ ↦ .bind (.emit _) fun _ ↦ .pure _
    · exact .pure _
  · exact .throw _

theorem fillArray_slotless (elem : Ty) :
    ∀ (i : Nat) (cs : List Captured), (∀ c ∈ cs, varEntries c.lines = []) →
      Slotless (Lower.fillArray elem i cs)
  | _, [], _ => .pure _
  | i, c :: cs, hcs => by
    rw [Lower.fillArray]
    exact .bind (.emit _) fun _ ↦ .bind (.emit _) fun _ ↦
      .bind (replay_slotless (hcs c List.mem_cons_self) _) fun _ ↦ .bind (.emit _) fun _ ↦
      fillArray_slotless elem (i + 1) cs fun c' hc' ↦ hcs c' (List.mem_cons_of_mem _ hc')

theorem replayArgs_slotless :
    ∀ args : List (Captured × Ty), (∀ a ∈ args, varEntries a.1.lines = []) →
      Slotless (Lower.replayArgs args)
  | [], _ => .pure _
  | (c, p) :: rest, hargs => by
    rw [Lower.replayArgs]
    exact .bind (replay_slotless (hargs (c, p) List.mem_cons_self) _) fun _ ↦
      replayArgs_slotless rest fun a ha ↦ hargs a (List.mem_cons_of_mem _ ha)

theorem chainBase_slotless (b : Expr) {act : EmitM Ty} (ha : Slotless act) :
    Slotless (Lower.chainBase s b act) := by
  unfold Lower.chainBase
  have hv : Slotless (do let t ← act; pure (Operand.value t)) := .bind ha fun _ ↦ .pure _
  split
  · refine .bind .get fun st ↦ ?_
    split
    · exact .pure _
    · refine .bind (resolve_slotless s _) fun r ↦ ?_
      split
      · exact .pure _
      · exact hv
  · exact hv

mutual

theorem lowerExpr_slotless : ∀ e : Expr, Slotless (Lower.lowerExpr s e)
  | .lit l _ => by
    rw [Lower.lowerExpr]
    exact .of_quiet (literal_quiet l) (literal_sound slotKept_steps l)
  | .ident n _ => by rw [Lower.lowerExpr]; exact loadIdent_slotless s n
  | .this _ => by
    rw [Lower.lowerExpr]
    exact .bind (.emit _) fun _ ↦ .pure _
  | .binary op l r _ => by
    rw [Lower.lowerExpr]
    split
    · exact logical_slotless op (lowerExpr_slotless l) (lowerExpr_slotless r)
    · -- the right operand is compiled ahead without `.var` line and written after the left one
      intro e t e' h
      obtain ⟨lt, e₁, h₁, h⟩ := bind_ok h
      obtain ⟨rc, e₂, h₂, h₃⟩ := bind_ok h
      obtain ⟨c₁, u₁⟩ := lowerExpr_slotless l e lt e₁ h₁
      obtain ⟨u₂, hrc⟩ := capture_slotless (lowerExpr_slotless r) h₂
      obtain ⟨c₃, u₃⟩ := binary_slotless op lt hrc e₂ t e' h₃
      exact ⟨_, (u₁.trans u₂).trans u₃⟩
  | .unary op a _ => by
    rw [Lower.lowerExpr]
    exact .bind (lowerExpr_slotless a) fun _ ↦
      .bind (.of_quiet (unary_quiet _ _) (unary_sound slotKept_steps _ _)) fun _ ↦ .pure _
  | .chain b ss _ => by
    rw [Lower.lowerExpr]
    refine .bind (chainBase_slotless s b (lowerExpr_slotless b)) fun base ↦
      .bind (lowerSteps_slotless base ss) fun op ↦ ?_
    cases op
    · exact .throw _
    · exact .pure _
  | .array es _ => by
    rw [Lower.lowerExpr]
    intro e t e' h
    obtain ⟨cs, e₁, h₁, h⟩ := bind_ok h
    obtain ⟨u₁, hcs⟩ := captureList_slotless 3 0 es h₁
    obtain ⟨code, u⟩ := (Slotless.bind
      (.of_quiet (newArray_quiet _ _) (newArray_sound slotKept_steps _ _)) fun _ ↦
      .bind (fillArray_slotless _ 0 cs hcs) fun _ ↦ .pure _) e₁ t e' h
    exact ⟨_, u₁.trans u⟩
  | .new c as _ => by
    rw [Lower.lowerExpr]
    intro e t e' h
    obtain ⟨cs, e₁, h₁, h⟩ := bind_ok h
    obtain ⟨u₁, hcs⟩ := captureList_slotless 2 1 as h₁
    -- each argument written comes from the captured ones
    have hargs : ∀ ps : List Ty, ∀ a ∈ cs.zip ps, varEntries a.1.lines = [] :=
      fun ps a ha ↦ hcs a.1 (List.of_mem_zip ha).1
    obtain ⟨code, u⟩ := (Slotless.bind
      (.of_quiet (ctorParams_quiet s _ _) (ctorParams_sound slotKept_steps s _ _)) fun ps ↦
      .bind (.emit _) fun _ ↦ .bind (.emit _) fun _ ↦ .bind (replayArgs_slotless _ (hargs ps))
        fun _ ↦ .bind (.emit _) fun _ ↦ .pure _) e₁ t e' h
    exact ⟨_, u₁.trans u⟩
  | .paren e _ => by rw [Lower.lowerExpr]; exact lowerExpr_slotless e

theorem captureList_slotless (above step : Int) :
    ∀ (es : List Expr) {e e' : Emitter} {cs : List Captured},
      (Lower.captureList s above step es).run e = .ok (cs, e') →
        Unslotted e e' [] ∧ ∀ c ∈ cs, varEntries c.lines = []
  | [], e, e', cs, h => by
    rw [Lower.captureList] at h
    cases h
    exact ⟨⟨by simp, rfl, rfl⟩, fun _ hc ↦ nomatch hc⟩
  | x :: es, e, e', cs, h => by
    rw [Lower.captureList] at h
    obtain ⟨c, e₁, h₁, h⟩ := bind_ok h
    obtain ⟨rest, e₂, h₂, h⟩ := bind_ok h
    cases h
    obtain ⟨u₁, hc⟩ := capture_slotless (lowerExpr_slotless x) h₁
    obtain ⟨u₂, hrest⟩ := captureList_slotless (above + step) step es h₂
    refine ⟨u₁.trans u₂, fun c' hc' ↦ ?_⟩
    rcases List.mem_cons.mp hc' with rfl | hc'
    · exact hc
    · exact hrest c' hc'

theorem lowerArgs_slotless : ∀ (es : List Expr) (ps : List Ty), Slotless (Lower.lowerArgs s es ps)
  | e :: es, p :: ps => by
    rw [Lower.lowerArgs]
    exact .bind (lowerExpr_slotless e) fun _ ↦ .bind (widen_slotless _ _) fun _ ↦
      lowerArgs_slotless es ps
  | [], _ => by simp only [Lower.lowerArgs]; exact .pure _
  | _ :: _, [] => by simp only [Lower.lowerArgs]; exact .pure _

theorem lowerSteps_slotless : ∀ (op : Operand) (ss : List Step), Slotless (Lower.lowerSteps s op ss)
  | op, [] => by rw [Lower.lowerSteps]; exact .pure _
  | op, .member n _ :: rest => by
    rw [Lower.lowerSteps]
    refine .bind (.liftExcept _) fun c ↦ ?_
    split
    · exact .throw _
    · dsimp only
      split
      · exact .bind (dropReceiver_slotless _) fun _ ↦ .bind (.emit _) fun _ ↦
          lowerSteps_slotless _ rest
      · exact .bind (.emit _) fun _ ↦ lowerSteps_slotless _ rest
  | op, .index i _ :: rest => by
    cases op with
    | cls c => rw [Lower.lowerSteps]; exact .throw _
    | value t =>
      rw [Lower.lowerSteps]
      exact .bind (.liftExcept _) fun _ ↦ .bind (lowerExpr_slotless i) fun _ ↦
        .bind (.emit _) fun _ ↦ lowerSteps_slotless _ rest
  | op, .call n as _ :: rest => by
    rw [Lower.lowerSteps]
    refine .bind (.liftExcept _) fun c ↦ ?_
    split
    · refine .bind (dropReceiver_slotless _) fun _ ↦ ?_
      split
      · exact .throw _
      · exact .bind (checkArity_slotless _ _) fun _ ↦ .bind (lowerArgs_slotless as _) fun _ ↦
          .bind (.emit _) fun _ ↦ lowerSteps_slotless _ rest
    · split
      · exact .throw _
      · rename_i h m _
        dsimp only
        have tail : ∀ i : Instr, Slotless (do
            Lower.checkArity m.params as
            Lower.lowerArgs s as m.params
            Emitter.emit i
            let next ← pure (Operand.value m.ret.deref)
            Lower.lowerSteps s next rest) := fun _ ↦
          .bind (checkArity_slotless _ _) fun _ ↦ .bind (lowerArgs_slotless as _) fun _ ↦
            .bind (.emit _) fun _ ↦ .bind (.pure _) fun _ ↦ lowerSteps_slotless _ rest
        split
        · exact .bind (dropReceiver_slotless _) fun _ ↦ tail _
        · exact tail _

end

theorem chainPlace_slotless (c : Chain) : Slotless (Lower.chainPlace s c) := by
  unfold Lower.chainPlace
  dsimp only
  split
  · exact .throw _
  · refine .bind (chainBase_slotless s _ (lowerExpr_slotless s _)) fun _ ↦
      .bind (lowerSteps_slotless s _ _) fun _ ↦ ?_
    split
    · refine .bind (.liftExcept _) fun _ ↦ ?_
      split
      · exact .throw _
      · split
        · exact .bind (dropReceiver_slotless _) fun _ ↦ .pure _
        · exact .pure _
    · exact .bind (.liftExcept _) fun _ ↦ .bind (lowerExpr_slotless s _) fun _ ↦ .pure _
    · exact .throw _

theorem targetPlace_slotless (t : Target) : Slotless (Lower.targetPlace s t) := by
  cases t with
  | ident n _ => exact identPlace_slotless s n
  | chain c => exact chainPlace_slotless s c

theorem lowerReturn_slotless (v : Option Expr) : Slotless (Lower.lowerReturn s v) := by
  unfold Lower.lowerReturn
  refine .bind .get fun _ ↦ ?_
  split
  · refine .bind (lowerExpr_slotless s _) fun _ ↦ ?_
    dsimp only
    split
    · split
      · exact .bind (.emit _) fun _ ↦ .emit _
      · exact .emit _
    · exact .bind (widen_slotless _ _) fun _ ↦ .emit _
  · exact .emit _

theorem initAttribute_slotless (a : AttrInfo) : Slotless (Lower.initAttribute s a) := by
  unfold Lower.initAttribute
  have store : Slotless (if a.isStatic = true then Emitter.emit (.putStatic s.cls a.name a.type)
      else Emitter.emit (.putField s.cls a.name a.type)) := by
    split <;> exact .emit _
  have receiver : ∀ {v : EmitM Unit}, Slotless v → Slotless
      (if (!a.isStatic) = true then Emitter.loadLocal s.thisType 0 >>= fun _ ↦ v else v) := by
    intro v hv
    split
    · exact .bind (.emit _) fun _ ↦ hv
    · exact hv
  split
  · dsimp only
    refine receiver ?_
    split
    · exact .bind (lowerExpr_slotless s _) fun _ ↦ .bind (widen_slotless _ _) fun _ ↦ store
    · exact .bind (pushZero_slotless _) fun _ ↦ store
  · exact .pure _

theorem initAttributes_slotless : ∀ as : List AttrInfo, Slotless (Lower.initAttributes s as)
  | [] => .pure _
  | a :: as => by
    rw [Lower.initAttributes]
    exact .bind (initAttribute_slotless s a) fun _ ↦ initAttributes_slotless as

theorem initLocals_slotless : ∀ ps : List Lower.Pending, Slotless (Lower.initLocals s ps)
  | [] => .pure _
  | p :: ps => by
    rw [Lower.initLocals]
    have tail : Slotless (do
        Emitter.storeLocal p.type p.slot
        Emitter.onFrame fun f ↦ f.bind p.name p.type p.slot
        Lower.initLocals s ps) :=
      .bind (.emit _) fun _ ↦ .bind (.onFrame fun _ ↦ rfl) fun _ ↦ initLocals_slotless ps
    split
    · exact .bind (lowerExpr_slotless s _) fun _ ↦ .bind (widen_slotless _ _) fun _ ↦ tail
    · exact .bind (pushZero_slotless _) fun _ ↦ tail

theorem assign_slotless (t : Target) (rhs : Expr) (sp : Span) :
    Slotless (Lower.lowerStmt s (.assign t rhs sp)) := by
  rw [lowerStmt_assign]
  exact .bind (targetPlace_slotless s t) fun _ ↦ .bind (lowerExpr_slotless s rhs) fun _ ↦
    .bind (widen_slotless _ _) fun _ ↦ store_slotless _

theorem brk_slotless (sp : Span) : Slotless (Lower.lowerStmt s (.brk sp)) := by
  rw [lowerStmt_brk]
  exact .bind .get fun _ ↦ .bind (.liftExcept _) fun _ ↦ .emit _

theorem cont_slotless (sp : Span) : Slotless (Lower.lowerStmt s (.cont sp)) := by
  rw [lowerStmt_cont]
  exact .bind .get fun _ ↦ .bind (.liftExcept _) fun _ ↦ .emit _

theorem ret_slotless (v : Option Expr) (sp : Span) : Slotless (Lower.lowerStmt s (.ret v sp)) := by
  rw [lowerStmt_ret]
  exact lowerReturn_slotless s v

theorem invoke_slotless (c : Chain) (sp : Span) : Slotless (Lower.lowerStmt s (.invoke c sp)) := by
  rw [lowerStmt_invoke]
  refine .bind (lowerExpr_slotless s _) fun _ ↦ ?_
  split
  · exact .emit _
  · exact .pure _

end Expressions

end ClassLang.Proofs.SlotlessCode
