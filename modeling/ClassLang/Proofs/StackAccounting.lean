import ClassLang.Proofs.Runs

namespace ClassLang.Proofs.StackAccounting

open ClassLang Runs

/-- An operation of the emitter: one instruction, an array of a given size, the instruction of
an arithmetic operator, a change of the depth alone, or a line that is no instruction. The
default value of a type and the load or store of a local are single instructions. -/
inductive EmitOp where
  | instr (i : Instr)
  | newArray (elem : Ty) (size : Nat)
  | arithmetic (op : BinOp) (k : ValueKind)
  | rewind (d : Int)
  | line (l : Line)

namespace EmitOp

def run : EmitOp → EmitM Unit
  | instr i => Emitter.emit i
  | newArray e n => Emitter.newArray e n
  | arithmetic op k => Emitter.arithmetic op k
  | rewind d => Emitter.rewind d
  | line l => Emitter.line l

def effect : EmitOp → Int
  | instr i => i.delta
  | newArray .. => 1
  | arithmetic .. => -1
  | rewind d => d
  | line _ => 0

def written : EmitOp → List Line
  | instr i => [.instr i]
  | newArray e n => [.instr (.pushInt n), .instr (.newArray e)]
  | arithmetic op k => (ArithOp.ofBinOp? op).toList.map fun a ↦ .instr (.arith a k)
  | rewind _ => []
  | line l => [l]

/-- Whether an operation is refused whatever the depth: the instruction of an operator that is
not arithmetic. -/
def refused : EmitOp → Bool
  | arithmetic op _ => (ArithOp.ofBinOp? op).isNone
  | _ => false

def step (e : Emitter) (op : EmitOp) : Emitter :=
  match op.run.run e with
  | .ok (_, e') => e'
  | .error _ => e

/-- Runs operations in order, going on after one that fails. -/
def runAll (ops : List EmitOp) (e : Emitter) : Emitter := ops.foldl step e

def trace : List EmitOp → Emitter → List Emitter
  | [], e => [e]
  | op :: ops, e => e :: trace ops (step e op)

/-- The emitter after an operation that succeeds: its lines written, the depth moved by its
effect in 32-bit arithmetic, and the maximum raised to the new depth. -/
def after (op : EmitOp) (e : Emitter) : Emitter :=
  { e with
    lines := e.lines ++ op.written.toArray
    frame := { e.frame with
      depth := wrapInt32 (e.frame.depth + op.effect)
      maxDepth := max e.frame.maxDepth (wrapInt32 (e.frame.depth + op.effect)) } }

end EmitOp

theorem wrapInt32_lt (x : Int) : wrapInt32 x < 2147483648 := by
  unfold wrapInt32
  omega

theorem wrapInt32_of_bounds {x : Int} (h₀ : -2147483648 ≤ x) (h₁ : x < 2147483648) :
    wrapInt32 x = x := by
  unfold wrapInt32
  omega

theorem wrapInt32_nonneg_iff {d δ : Int} (hd₀ : 0 ≤ d) (hd₁ : d < 2147483648)
    (hδ₀ : -2147483648 ≤ δ) (hδ₁ : δ < 2147483648) :
    0 ≤ wrapInt32 (d + δ) ↔ 0 ≤ d + δ ∧ d + δ < 2147483648 := by
  unfold wrapInt32
  omega

theorem adjust_ok_iff {f f' : Frame} {δ : Int} :
    f.adjust δ = .ok f' ↔ 0 ≤ wrapInt32 (f.depth + δ) ∧
      f' = { f with
        depth := wrapInt32 (f.depth + δ)
        maxDepth := max f.maxDepth (wrapInt32 (f.depth + δ)) } := by
  dsimp only [Frame.adjust]
  split
  · next h =>
    simp only [reduceCtorEq, false_iff, not_and]
    omega
  · next h =>
    simp only [Except.ok.injEq]
    constructor
    · rintro rfl
      exact ⟨by omega, rfl⟩
    · rintro ⟨-, rfl⟩
      rfl

theorem foldr_max_nonneg (l : List Int) : 0 ≤ l.foldr max 0 := by
  induction l with
  | nil => exact Int.le_refl 0
  | cons x l ih =>
    rw [List.foldr_cons]
    omega

/-- What the emitter keeps along every run: the depth is a 32-bit number between zero and its
maximum. -/
structure Counted (e : Emitter) : Prop where
  nonneg : 0 ≤ e.frame.depth
  fits : e.frame.depth < 2147483648
  le_max : e.frame.depth ≤ e.frame.maxDepth

variable {e e' : Emitter}

namespace EmitOp

theorem emit_ok_iff (i : Instr) :
    (Emitter.emit i).run e = .ok ((), e') ↔
      0 ≤ wrapInt32 (e.frame.depth + i.delta) ∧ e' = (instr i).after e := by
  rw [emit_run]
  cases ha : e.frame.adjust i.delta with
  | error err =>
    have hw : ¬0 ≤ wrapInt32 (e.frame.depth + i.delta) := fun hw ↦ by
      have := adjust_ok_iff.mpr ⟨hw, rfl⟩
      rw [ha] at this
      cases this
    simp only [Except.map, reduceCtorEq, false_iff, not_and]
    exact fun h ↦ absurd h hw
  | ok f =>
    obtain ⟨hw, rfl⟩ := adjust_ok_iff.mp ha
    simp only [Except.map, Except.ok.injEq, Prod.mk.injEq, true_and]
    constructor
    · rintro rfl
      exact ⟨hw, by simp [after, written, effect]⟩
    · rintro ⟨-, rfl⟩
      simp [after, written, effect]

theorem rewind_ok_iff (d : Int) :
    (Emitter.rewind d).run e = .ok ((), e') ↔
      0 ≤ wrapInt32 (e.frame.depth + d) ∧ e' = (rewind d).after e := by
  rw [rewind_run]
  cases ha : e.frame.adjust d with
  | error err =>
    have hw : ¬0 ≤ wrapInt32 (e.frame.depth + d) := fun hw ↦ by
      have := adjust_ok_iff.mpr ⟨hw, rfl⟩
      rw [ha] at this
      cases this
    simp only [Except.map, reduceCtorEq, false_iff, not_and]
    exact fun h ↦ absurd h hw
  | ok f =>
    obtain ⟨hw, rfl⟩ := adjust_ok_iff.mp ha
    simp only [Except.map, Except.ok.injEq, Prod.mk.injEq, true_and]
    constructor
    · rintro rfl
      exact ⟨hw, by simp [after, written, effect]⟩
    · rintro ⟨-, rfl⟩
      simp [after, written, effect]

theorem newArray_ok_iff (elem : Ty) (n : Nat) :
    (Emitter.newArray elem n).run e = .ok ((), e') ↔
      0 ≤ wrapInt32 (e.frame.depth + 1) ∧ e' = (newArray elem n).after e := by
  by_cases hw : 0 ≤ wrapInt32 (e.frame.depth + 1)
  · have h₁ : (Emitter.emit (.pushInt n)).run e = .ok ((), (instr (.pushInt n)).after e) :=
      (emit_ok_iff _).mpr ⟨hw, rfl⟩
    -- the allocation itself moves nothing: the depth after the push is already a 32-bit number
    have hW : wrapInt32 (wrapInt32 (e.frame.depth + 1)) = wrapInt32 (e.frame.depth + 1) := by
      have := wrapInt32_lt (e.frame.depth + 1)
      exact wrapInt32_of_bounds (by omega) (by omega)
    have h₂ : (Emitter.emit (.newArray elem)).run ((instr (.pushInt n)).after e) =
        .ok ((), (newArray elem n).after e) := by
      refine (emit_ok_iff _).mpr ⟨?_, ?_⟩
      · simpa [after, effect, Instr.delta, hW] using hw
      · simp only [after, written, effect, Instr.delta, Int.add_zero, hW, Int.max_assoc,
          Int.max_self, Array.append_assoc]
        rfl
    rw [Emitter.newArray, run_bind_of_ok h₁, h₂]
    simp only [Except.ok.injEq, Prod.mk.injEq, true_and]
    exact ⟨fun h ↦ ⟨hw, h.symm⟩, fun h ↦ h.2.symm⟩
  · constructor
    · intro h
      obtain ⟨_, e₁, h₁, -⟩ := bind_ok h
      exact absurd ((emit_ok_iff _).mp h₁).1 (by simpa [Instr.delta] using hw)
    · exact fun h ↦ absurd h.1 hw

theorem line_ok_iff (l : Line) (hc : Counted e) :
    (Emitter.line l).run e = .ok ((), e') ↔
      0 ≤ wrapInt32 (e.frame.depth + 0) ∧ e' = (line l).after e := by
  have hw : wrapInt32 (e.frame.depth + 0) = e.frame.depth := by
    have := hc.nonneg
    have := hc.fits
    exact (wrapInt32_of_bounds (by omega) (by omega)).trans (Int.add_zero _)
  have hm : max e.frame.maxDepth e.frame.depth = e.frame.maxDepth := Int.max_eq_left hc.le_max
  rw [line_run]
  simp only [after, effect, written, hw, hm, Except.ok.injEq, Prod.mk.injEq, true_and,
    Array.push_eq_append, hc.nonneg]
  exact eq_comm

theorem run_ok_iff (op : EmitOp) (hc : Counted e) :
    op.run.run e = .ok ((), e') ↔
      op.refused = false ∧ 0 ≤ wrapInt32 (e.frame.depth + op.effect) ∧ e' = op.after e := by
  cases op with
  | instr i => simpa [run, refused, effect] using emit_ok_iff i
  | newArray elem n => simpa [run, refused, effect] using newArray_ok_iff elem n
  | rewind d => simpa [run, refused, effect] using rewind_ok_iff d
  | line l => simpa only [run, refused, effect, true_and] using line_ok_iff l hc
  | arithmetic op k =>
    simp only [run, refused, effect, Emitter.arithmetic]
    cases ha : ArithOp.ofBinOp? op with
    | none =>
      simp only [Option.isNone_none, Bool.true_eq_false, false_and, iff_false]
      intro h
      rw [run_throw] at h
      cases h
    | some a =>
      simp only [Option.isNone_some, true_and]
      rw [emit_ok_iff]
      simp [after, written, effect, Instr.delta, ha]

theorem after_counted (op : EmitOp) (hw : 0 ≤ wrapInt32 (e.frame.depth + op.effect)) :
    Counted (op.after e) where
  nonneg := hw
  fits := wrapInt32_lt _
  le_max := Int.le_max_right _ _

theorem step_counted (op : EmitOp) (hc : Counted e) : Counted (step e op) := by
  unfold step
  split
  · next e' h =>
    obtain ⟨-, hw, rfl⟩ := (run_ok_iff op hc).mp h
    exact after_counted op hw
  · exact hc

theorem step_maxDepth (op : EmitOp) (hc : Counted e) :
    (step e op).frame.maxDepth = max e.frame.maxDepth (step e op).frame.depth := by
  unfold step
  split
  · next e' h =>
    obtain ⟨-, -, rfl⟩ := (run_ok_iff op hc).mp h
    rfl
  · exact (Int.max_eq_left hc.le_max).symm

end EmitOp

open EmitOp

/-- What an operation does from an emitter: it succeeds exactly when it is not refused and the
depth moved by its effect in 32-bit arithmetic is not negative, which for an effect within 32
bits is when the sum is neither negative nor past the largest 32-bit number; a success writes
the operation's lines, moves the depth so, raises the maximum to it and takes no slot; a failure
leaves the emitter as it was. -/
structure Acts (op : EmitOp) (e : Emitter) : Prop where
  ok_iff : (∃ e', op.run.run e = .ok ((), e')) ↔
    op.refused = false ∧ 0 ≤ wrapInt32 (e.frame.depth + op.effect)
  bounds : -2147483648 ≤ op.effect → op.effect < 2147483648 →
    (0 ≤ wrapInt32 (e.frame.depth + op.effect) ↔
      0 ≤ e.frame.depth + op.effect ∧ e.frame.depth + op.effect < 2147483648) ∧
    (0 ≤ wrapInt32 (e.frame.depth + op.effect) →
      wrapInt32 (e.frame.depth + op.effect) = e.frame.depth + op.effect)
  ok : ∀ e', op.run.run e = .ok ((), e') →
    e'.lines.toList = e.lines.toList ++ op.written ∧
    e'.frame.depth = wrapInt32 (e.frame.depth + op.effect) ∧
    e'.frame.maxDepth = max e.frame.maxDepth e'.frame.depth ∧
    e'.frame.nextSlot = e.frame.nextSlot
  error : (∀ e', op.run.run e ≠ .ok ((), e')) → step e op = e

theorem acts (op : EmitOp) (hc : Counted e) : Acts op e where
  ok_iff := by
    constructor
    · rintro ⟨e', h⟩
      obtain ⟨hr, hw, -⟩ := (run_ok_iff op hc).mp h
      exact ⟨hr, hw⟩
    · rintro ⟨hr, hw⟩
      exact ⟨_, (run_ok_iff op hc).mpr ⟨hr, hw, rfl⟩⟩
  bounds hδ₀ hδ₁ := by
    have hb := wrapInt32_nonneg_iff hc.nonneg hc.fits hδ₀ hδ₁
    refine ⟨hb, fun hw ↦ ?_⟩
    obtain ⟨h₀, h₁⟩ := hb.mp hw
    exact wrapInt32_of_bounds (by omega) h₁
  ok e' h := by
    obtain ⟨-, -, rfl⟩ := (run_ok_iff op hc).mp h
    simp [after]
  error h := by
    unfold step
    split
    · next e' h' => exact absurd h' (h e')
    · rfl

theorem runAll_cons (op : EmitOp) (ops : List EmitOp) (e : Emitter) :
    runAll (op :: ops) e = runAll ops (step e op) := rfl

theorem runAll_counted (ops : List EmitOp) (hc : Counted e) : Counted (runAll ops e) := by
  induction ops generalizing e with
  | nil => exact hc
  | cons op ops ih => exact ih (step_counted op hc)

theorem runAll_maxDepth (ops : List EmitOp) (hc : Counted e) :
    (runAll ops e).frame.maxDepth =
      max e.frame.maxDepth (((trace ops e).map (·.frame.depth)).foldr max 0) := by
  induction ops generalizing e with
  | nil =>
    have := hc.nonneg
    have := hc.le_max
    simp only [runAll, List.foldl_nil, trace, List.map_cons, List.map_nil, List.foldr_cons,
      List.foldr_nil]
    omega
  | cons op ops ih =>
    -- the step's depth is among those the rest of the run passes through
    have hs := step_maxDepth op hc
    have hd : (step e op).frame.depth ≤
        ((trace ops (step e op)).map (·.frame.depth)).foldr max 0 := by
      cases ops <;> simp only [trace, List.map_cons, List.foldr_cons, List.map_nil,
        List.foldr_nil] <;> omega
    have := hc.le_max
    rw [runAll_cons, ih (step_counted op hc), hs]
    simp only [trace, List.map_cons, List.foldr_cons]
    omega

theorem fresh_counted (name : String) (ret : Ty) (isStatic : Bool) :
    Counted (Emitter.create (Frame.create name ret isStatic)) :=
  ⟨Int.le_refl 0, show (0 : Int) < 2147483648 by decide, Int.le_refl 0⟩

/-- Every sequence of emitter operations run from a fresh frame keeps the depth between zero
and its maximum, and the maximum is the largest depth the run reached, zero at the start. After
any such sequence every operation acts as `Acts` says: it is refused exactly when it is the
instruction of an operator that is not arithmetic or its effect moves the depth, in 32-bit
arithmetic, below zero, which for an effect within 32 bits happens when the sum is negative or
past the largest 32-bit number; a refused operation leaves the emitter as it was, and one that
succeeds writes its lines, moves the depth by its effect, raises the maximum to it and takes no
slot. -/
theorem emitter_stack_accounting (name : String) (ret : Ty) (isStatic : Bool)
    (ops : List EmitOp) :
    (0 ≤ (runAll ops (Emitter.create (Frame.create name ret isStatic))).frame.depth ∧
      (runAll ops (Emitter.create (Frame.create name ret isStatic))).frame.depth ≤
        (runAll ops (Emitter.create (Frame.create name ret isStatic))).frame.maxDepth) ∧
    (runAll ops (Emitter.create (Frame.create name ret isStatic))).frame.maxDepth =
      ((trace ops (Emitter.create (Frame.create name ret isStatic))).map
        (·.frame.depth)).foldr max 0 ∧
    ∀ op : EmitOp, Acts op (runAll ops (Emitter.create (Frame.create name ret isStatic))) := by
  have h₀ := fresh_counted name ret isStatic
  have hc := runAll_counted ops h₀
  refine ⟨⟨hc.nonneg, hc.le_max⟩, ?_, fun op ↦ acts op hc⟩
  rw [runAll_maxDepth ops h₀]
  -- the fresh maximum is zero, and the depths of the run start from zero
  have hz : (Emitter.create (Frame.create name ret isStatic)).frame.maxDepth = 0 := rfl
  rw [hz]
  exact Int.max_eq_right (foldr_max_nonneg _)

/-- After a text whose effect takes the depth to the largest 32-bit number, a push is refused:
the moved depth comes out negative. -/
theorem push_past_int32_refused :
    ¬∃ e', (EmitOp.instr (.pushInt 1)).run.run
      (runAll [.instr (.raw "big" 2147483647)] (Emitter.create (Frame.create "deep" .int true))) =
        .ok ((), e') := by
  rw [((emitter_stack_accounting "deep" .int true [.instr (.raw "big" 2147483647)]).2.2 _).ok_iff]
  decide

end ClassLang.Proofs.StackAccounting
