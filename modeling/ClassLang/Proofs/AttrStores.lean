import ClassLang.Proofs.FreshLabels

namespace ClassLang.Proofs.AttrStores

open ClassLang Runs FreshLabels

variable {α β : Type}

def attrStore : Line → Option (Bool × String × String)
  | .instr (.putField h n _) => some (false, h, n)
  | .instr (.putStatic h n _) => some (true, h, n)
  | _ => none

def attrStores (code : List Line) : List (Bool × String × String) := code.filterMap attrStore

@[simp] theorem attrStores_nil : attrStores [] = [] := rfl

@[simp] theorem attrStores_append (x y : List Line) :
    attrStores (x ++ y) = attrStores x ++ attrStores y :=
  List.filterMap_append

@[simp] theorem attrStores_label (l : Label) (code : List Line) :
    attrStores (.label l :: code) = attrStores code := rfl

/-- A run from `e` to `e'` that writes `code` after the lines it starts from and stores into no
attribute. -/
structure Unstored (e e' : Emitter) (code : List Line) : Prop where
  lines : e'.lines.toList = e.lines.toList ++ code
  stores : attrStores code = []

theorem Unstored.refl (e : Emitter) : Unstored e e [] := ⟨by simp, rfl⟩

theorem Unstored.trans {e e₁ e₂ : Emitter} {c₁ c₂ : List Line} (h₁ : Unstored e e₁ c₁)
    (h₂ : Unstored e₁ e₂ c₂) : Unstored e e₂ (c₁ ++ c₂) where
  lines := by rw [h₂.lines, h₁.lines, List.append_assoc]
  stores := by rw [attrStores_append, h₁.stores, h₂.stores, List.append_nil]

def StoreFree (m : EmitM α) : Prop := ∀ e a e', m.run e = .ok (a, e') → ∃ code, Unstored e e' code

namespace StoreFree

theorem pure (a : α) : StoreFree (pure a : EmitM α) := by
  intro e _ _ h
  cases h
  exact ⟨[], .refl e⟩

theorem throw (m : CompileError) : StoreFree (throw m : EmitM α) := by
  intro _ _ _ h
  cases h

theorem bind {x : EmitM α} {f : α → EmitM β} (hx : StoreFree x) (hf : ∀ a, StoreFree (f a)) :
    StoreFree (x >>= f) := by
  intro e b e' h
  obtain ⟨a, e₁, h₁, h₂⟩ := bind_ok h
  obtain ⟨c₁, u₁⟩ := hx e a e₁ h₁
  obtain ⟨c₂, u₂⟩ := hf a e₁ b e' h₂
  exact ⟨c₁ ++ c₂, u₁.trans u₂⟩

theorem emit {i : Instr} (hi : attrStore (.instr i) = none) : StoreFree (Emitter.emit i) := by
  intro e _ e' h
  obtain ⟨f, -, rfl⟩ := emit_ok h
  exact ⟨[.instr i], by simp, by simp [attrStores, hi]⟩

theorem rewind (d : Int) : StoreFree (Emitter.rewind d) := by
  intro e _ e' h
  obtain ⟨f, -, rfl⟩ := rewind_ok h
  exact ⟨[], by simp, rfl⟩

theorem label (l : Label) : StoreFree (Emitter.label l) := by
  intro e _ e' h
  cases h
  exact ⟨[.label l], by simp, rfl⟩

theorem newLabel : StoreFree Emitter.newLabel := by
  intro e _ e' h
  cases h
  exact ⟨[], by simp, rfl⟩

theorem get : StoreFree (get : EmitM Emitter) := by
  intro e _ e' h
  cases h
  exact ⟨[], .refl e⟩

theorem liftExcept (r : Except CompileError α) : StoreFree (Emitter.liftExcept r) := by
  intro e _ e' h
  rw [liftExcept_run] at h
  cases r with
  | error => cases h
  | ok => cases h; exact ⟨[], .refl e⟩

theorem exitBlock : StoreFree Emitter.exitBlock := by
  intro e _ e' h
  obtain ⟨f, -, rfl⟩ := exitBlock_ok h
  exact ⟨[], by simp, rfl⟩

end StoreFree

section Expressions

variable (s : Site)

theorem resolve_storeFree (n : String) : StoreFree (Lower.resolve s n) :=
  .bind .get fun _ ↦ .liftExcept _

theorem widen_storeFree (target actual : Ty) : StoreFree (Lower.widen target actual) := by
  unfold Lower.widen
  split
  · exact .emit rfl
  · exact .pure _

theorem newArray_storeFree (elem : Ty) (size : Nat) : StoreFree (Emitter.newArray elem size) :=
  .bind (.emit rfl) fun _ ↦ .emit rfl

theorem dropReceiver_storeFree (op : Operand) : StoreFree (Lower.dropReceiver op) := by
  cases op
  · exact .pure _
  · exact .emit rfl

theorem loadIdent_storeFree (n : String) : StoreFree (Lower.loadIdent s n) := by
  unfold Lower.loadIdent
  refine .bind (resolve_storeFree s n) fun r ↦ ?_
  cases r <;> dsimp only
  case cls c => exact .throw _
  case loc l => exact .bind (.emit rfl) fun _ ↦ .pure _
  case console => exact .bind (.emit rfl) fun _ ↦ .pure _
  case attr h a =>
    split
    · exact .bind (.emit rfl) fun _ ↦ .pure _
    · exact .bind (.emit rfl) fun _ ↦ .bind (.emit rfl) fun _ ↦ .pure _

theorem arithmetic_storeFree (op : BinOp) (k : ValueKind) :
    StoreFree (Emitter.arithmetic op k) := by
  unfold Emitter.arithmetic
  split
  · exact .emit rfl
  · exact .throw _

theorem unary_storeFree (op : UnOp) (t : Ty) : StoreFree (Lower.unary op t) := by
  cases op
  · exact .pure _
  · exact .emit rfl
  · exact .bind (.emit rfl) fun _ ↦ .emit rfl

theorem literal_storeFree (l : Literal) : StoreFree (Lower.literal l) := by
  cases l <;> exact .bind (.emit rfl) fun _ ↦ .pure _

theorem checkArity_storeFree (params : List Ty) (args : List Expr) :
    StoreFree (Lower.checkArity params args) := by
  unfold Lower.checkArity
  split
  · exact .pure _
  · exact .throw _

theorem ctorParams_storeFree (c : String) (args : List Captured) :
    StoreFree (Lower.ctorParams s c args) := by
  unfold Lower.ctorParams
  dsimp only
  split
  · exact .pure _
  · split
    · exact .pure _
    · exact .throw _

theorem capture_storeFree {above : Int} {act : EmitM Ty} (ha : StoreFree act) {e e' : Emitter}
    {c : Captured} (h : (Lower.capture above act).run e = .ok (c, e')) :
    Unstored e e' [] ∧ attrStores c.lines = [] := by
  obtain ⟨f₁, e₂, f₃, -, h₂, hlines, -, rfl⟩ := capture_ok h
  obtain ⟨code, u⟩ := ha { e with frame := f₁ } _ e₂ h₂
  obtain ⟨hcode, hrest⟩ := extract_of_toList u.lines
  exact ⟨⟨by simp [hrest], rfl⟩, by rw [hlines, hcode]; exact u.stores⟩

theorem replay_storeFree {c : Captured} (hc : attrStores c.lines = []) (target : Option Ty) :
    StoreFree (Lower.replay c target) := by
  intro e _ e' h
  obtain ⟨_, e₁, h₁, h⟩ := bind_ok h
  cases h₁
  obtain ⟨_, e₂, h₂, h⟩ := bind_ok h
  obtain ⟨f, -, rfl⟩ := rewind_ok h₂
  have u : Unstored e { e with lines := e.lines ++ c.lines.toArray, frame := f } c.lines :=
    ⟨by simp, hc⟩
  cases target with
  | none => cases h; exact ⟨_, u⟩
  | some t =>
    obtain ⟨code, u'⟩ := widen_storeFree t c.type _ _ _ h
    exact ⟨_, u.trans u'⟩

theorem logical_storeFree (op : BinOp) {lhs rhs : EmitM Ty} (hl : StoreFree lhs)
    (hr : StoreFree rhs) : StoreFree (Lower.logical op lhs rhs) := by
  unfold Lower.logical
  exact .bind .newLabel fun _ ↦ .bind .newLabel fun _ ↦ .bind hl fun _ ↦ .bind (.emit rfl) fun _ ↦
    .bind hr fun _ ↦ .bind (.emit rfl) fun _ ↦ .bind (.label _) fun _ ↦ .bind (.rewind _) fun _ ↦
    .bind (.emit rfl) fun _ ↦ .bind (.label _) fun _ ↦ .pure _

theorem compare_storeFree (op : BinOp) (lhs : Ty) {rhs : Captured}
    (hr : attrStores rhs.lines = []) : StoreFree (Lower.compare op lhs rhs) := by
  unfold Lower.compare
  split
  · refine .bind .newLabel fun yes ↦ .bind .newLabel fun stop ↦ ?_
    -- both tests end in the same two values and the label after them
    have tail : StoreFree (do
        Emitter.emit (.pushInt 0)
        Emitter.emit (.goto stop)
        Emitter.label yes
        Emitter.rewind (-1)
        Emitter.emit (.pushInt 1)
        Emitter.label stop) :=
      .bind (.emit rfl) fun _ ↦ .bind (.emit rfl) fun _ ↦ .bind (.label _) fun _ ↦
        .bind (.rewind _) fun _ ↦ .bind (.emit rfl) fun _ ↦ .label _
    dsimp only
    split
    · exact .bind (widen_storeFree _ _) fun _ ↦ .bind (replay_storeFree hr _) fun _ ↦
        .bind (.emit rfl) fun _ ↦ .bind (.emit rfl) fun _ ↦ tail
    · refine .bind (replay_storeFree hr _) fun _ ↦ ?_
      split <;> exact .bind (.emit rfl) fun _ ↦ tail
  · exact .throw _

theorem binary_storeFree (op : BinOp) (lhs : Ty) {rhs : Captured}
    (hr : attrStores rhs.lines = []) : StoreFree (Lower.binary op lhs rhs) := by
  unfold Lower.binary
  split
  · dsimp only
    split
    · exact .bind (replay_storeFree hr _) fun _ ↦ .bind (.emit rfl) fun _ ↦ .pure _
    split
    · exact .bind (compare_storeFree op lhs hr) fun _ ↦ .pure _
    split
    · exact .bind (widen_storeFree _ _) fun _ ↦ .bind (replay_storeFree hr _) fun _ ↦
        .bind (arithmetic_storeFree _ _) fun _ ↦ .pure _
    refine .bind (widen_storeFree _ _) fun _ ↦ .bind (replay_storeFree hr _) fun _ ↦
      .bind (arithmetic_storeFree _ _) fun _ ↦ ?_
    split
    · exact .bind (.emit rfl) fun _ ↦ .bind (.emit rfl) fun _ ↦ .pure _
    · exact .pure _
  · exact .throw _

theorem fillArray_storeFree (elem : Ty) :
    ∀ (i : Nat) (cs : List Captured), (∀ c ∈ cs, attrStores c.lines = []) →
      StoreFree (Lower.fillArray elem i cs)
  | _, [], _ => .pure _
  | i, c :: cs, hcs => by
    rw [Lower.fillArray]
    exact .bind (.emit rfl) fun _ ↦ .bind (.emit rfl) fun _ ↦
      .bind (replay_storeFree (hcs c List.mem_cons_self) _) fun _ ↦ .bind (.emit rfl) fun _ ↦
      fillArray_storeFree elem (i + 1) cs fun c' hc' ↦ hcs c' (List.mem_cons_of_mem _ hc')

theorem replayArgs_storeFree :
    ∀ args : List (Captured × Ty), (∀ a ∈ args, attrStores a.1.lines = []) →
      StoreFree (Lower.replayArgs args)
  | [], _ => .pure _
  | (c, p) :: rest, hargs => by
    rw [Lower.replayArgs]
    exact .bind (replay_storeFree (hargs (c, p) List.mem_cons_self) _) fun _ ↦
      replayArgs_storeFree rest fun a ha ↦ hargs a (List.mem_cons_of_mem _ ha)

theorem chainBase_storeFree (b : Expr) {act : EmitM Ty} (ha : StoreFree act) :
    StoreFree (Lower.chainBase s b act) := by
  unfold Lower.chainBase
  have hv : StoreFree (do let t ← act; pure (Operand.value t)) := .bind ha fun _ ↦ .pure _
  split
  · refine .bind .get fun st ↦ ?_
    split
    · exact .pure _
    · refine .bind (resolve_storeFree s _) fun r ↦ ?_
      split
      · exact .pure _
      · exact hv
  · exact hv

mutual

/-- The code of an expression stores into no attribute. -/
theorem lowerExpr_storeFree : ∀ e : Expr, StoreFree (Lower.lowerExpr s e)
  | .lit l _ => by rw [Lower.lowerExpr]; exact literal_storeFree l
  | .ident n _ => by rw [Lower.lowerExpr]; exact loadIdent_storeFree s n
  | .this _ => by
    rw [Lower.lowerExpr]
    exact .bind (.emit rfl) fun _ ↦ .pure _
  | .binary op l r _ => by
    rw [Lower.lowerExpr]
    split
    · exact logical_storeFree op (lowerExpr_storeFree l) (lowerExpr_storeFree r)
    · -- the right operand is compiled ahead and written after the left one
      intro e t e' h
      obtain ⟨lt, e₁, h₁, h⟩ := bind_ok h
      obtain ⟨rc, e₂, h₂, h₃⟩ := bind_ok h
      obtain ⟨c₁, u₁⟩ := lowerExpr_storeFree l e lt e₁ h₁
      obtain ⟨u₂, hrc⟩ := capture_storeFree (lowerExpr_storeFree r) h₂
      obtain ⟨c₃, u₃⟩ := binary_storeFree op lt hrc e₂ t e' h₃
      exact ⟨_, (u₁.trans u₂).trans u₃⟩
  | .unary op a _ => by
    rw [Lower.lowerExpr]
    exact .bind (lowerExpr_storeFree a) fun _ ↦ .bind (unary_storeFree _ _) fun _ ↦ .pure _
  | .chain b ss _ => by
    rw [Lower.lowerExpr]
    refine .bind (chainBase_storeFree s b (lowerExpr_storeFree b)) fun base ↦
      .bind (lowerSteps_storeFree base ss) fun op ↦ ?_
    cases op
    · exact .throw _
    · exact .pure _
  | .array es _ => by
    rw [Lower.lowerExpr]
    intro e t e' h
    obtain ⟨cs, e₁, h₁, h⟩ := bind_ok h
    obtain ⟨u₁, hcs⟩ := captureList_storeFree 3 0 es h₁
    obtain ⟨code, u⟩ := (StoreFree.bind (newArray_storeFree _ _) fun _ ↦
      .bind (fillArray_storeFree _ 0 cs hcs) fun _ ↦ .pure _) e₁ t e' h
    exact ⟨_, u₁.trans u⟩
  | .new c as _ => by
    rw [Lower.lowerExpr]
    intro e t e' h
    obtain ⟨cs, e₁, h₁, h⟩ := bind_ok h
    obtain ⟨u₁, hcs⟩ := captureList_storeFree 2 1 as h₁
    -- each argument written comes from the captured ones
    have hargs : ∀ ps : List Ty, ∀ a ∈ cs.zip ps, attrStores a.1.lines = [] :=
      fun ps a ha ↦ hcs a.1 (List.of_mem_zip ha).1
    obtain ⟨code, u⟩ := (StoreFree.bind (ctorParams_storeFree s _ _) fun ps ↦
      .bind (.emit rfl) fun _ ↦ .bind (.emit rfl) fun _ ↦ .bind (replayArgs_storeFree _ (hargs ps))
        fun _ ↦ .bind (.emit rfl) fun _ ↦ .pure _) e₁ t e' h
    exact ⟨_, u₁.trans u⟩
  | .paren e _ => by rw [Lower.lowerExpr]; exact lowerExpr_storeFree e

theorem captureList_storeFree (above step : Int) :
    ∀ (es : List Expr) {e e' : Emitter} {cs : List Captured},
      (Lower.captureList s above step es).run e = .ok (cs, e') →
        Unstored e e' [] ∧ ∀ c ∈ cs, attrStores c.lines = []
  | [], e, e', cs, h => by
    rw [Lower.captureList] at h
    cases h
    exact ⟨.refl e, fun _ hc ↦ nomatch hc⟩
  | x :: es, e, e', cs, h => by
    rw [Lower.captureList] at h
    obtain ⟨c, e₁, h₁, h⟩ := bind_ok h
    obtain ⟨rest, e₂, h₂, h⟩ := bind_ok h
    cases h
    obtain ⟨u₁, hc⟩ := capture_storeFree (lowerExpr_storeFree x) h₁
    obtain ⟨u₂, hrest⟩ := captureList_storeFree (above + step) step es h₂
    refine ⟨u₁.trans u₂, fun c' hc' ↦ ?_⟩
    rcases List.mem_cons.mp hc' with rfl | hc'
    · exact hc
    · exact hrest c' hc'

theorem lowerArgs_storeFree :
    ∀ (es : List Expr) (ps : List Ty), StoreFree (Lower.lowerArgs s es ps)
  | e :: es, p :: ps => by
    rw [Lower.lowerArgs]
    exact .bind (lowerExpr_storeFree e) fun _ ↦ .bind (widen_storeFree _ _) fun _ ↦
      lowerArgs_storeFree es ps
  | [], _ => by simp only [Lower.lowerArgs]; exact .pure _
  | _ :: _, [] => by simp only [Lower.lowerArgs]; exact .pure _

theorem lowerSteps_storeFree :
    ∀ (op : Operand) (ss : List Step), StoreFree (Lower.lowerSteps s op ss)
  | op, [] => by rw [Lower.lowerSteps]; exact .pure _
  | op, .member n _ :: rest => by
    rw [Lower.lowerSteps]
    refine .bind (.liftExcept _) fun c ↦ ?_
    split
    · exact .throw _
    · dsimp only
      split
      · exact .bind (dropReceiver_storeFree _) fun _ ↦ .bind (.emit rfl) fun _ ↦
          lowerSteps_storeFree _ rest
      · exact .bind (.emit rfl) fun _ ↦ lowerSteps_storeFree _ rest
  | op, .index i _ :: rest => by
    cases op with
    | cls c => rw [Lower.lowerSteps]; exact .throw _
    | value t =>
      rw [Lower.lowerSteps]
      exact .bind (.liftExcept _) fun _ ↦ .bind (lowerExpr_storeFree i) fun _ ↦
        .bind (.emit rfl) fun _ ↦ lowerSteps_storeFree _ rest
  | op, .call n as _ :: rest => by
    rw [Lower.lowerSteps]
    refine .bind (.liftExcept _) fun c ↦ ?_
    split
    · refine .bind (dropReceiver_storeFree _) fun _ ↦ ?_
      split
      · exact .throw _
      · exact .bind (checkArity_storeFree _ _) fun _ ↦ .bind (lowerArgs_storeFree as _) fun _ ↦
          .bind (.emit rfl) fun _ ↦ lowerSteps_storeFree _ rest
    · split
      · exact .throw _
      · rename_i h m _
        dsimp only
        have tail : ∀ i : Instr, attrStore (.instr i) = none → StoreFree (do
            Lower.checkArity m.params as
            Lower.lowerArgs s as m.params
            Emitter.emit i
            let next ← pure (Operand.value m.ret.deref)
            Lower.lowerSteps s next rest) := fun _ hi ↦
          .bind (checkArity_storeFree _ _) fun _ ↦ .bind (lowerArgs_storeFree as _) fun _ ↦
            .bind (.emit hi) fun _ ↦ .bind (.pure _) fun _ ↦ lowerSteps_storeFree _ rest
        split
        · exact .bind (dropReceiver_storeFree _) fun _ ↦ tail _ rfl
        · exact tail _ rfl

end

end Expressions

theorem closeRoutine_storeFree (ls : BlockLabels) (b : Option Block) :
    StoreFree (Lower.closeRoutine ls b) := by
  unfold Lower.closeRoutine
  refine .bind .get fun _ ↦ ?_
  have tail : StoreFree (do
      Emitter.label ls.stop
      let _ ← Emitter.exitBlock
      pure ()) :=
    .bind (.label _) fun _ ↦ .bind .exitBlock fun _ ↦ .pure _
  dsimp only
  split
  · exact .bind (.emit rfl) fun _ ↦ tail
  · exact tail

end ClassLang.Proofs.AttrStores
