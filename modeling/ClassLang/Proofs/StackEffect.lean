import ClassLang.Proofs.ValueTypes
import ClassLang.Proofs.Lineage
import ClassLang.Proofs.StackAccounting
import ClassLang.Proofs.SelfName

namespace ClassLang.Proofs.StackEffect

open ClassLang Runs Invariants IntSemantics IntCode ValueTypes

variable {α β : Type}

/-- A depth within 32 bits, as every frame the generator makes has. -/
def InRange (st : Emitter) : Prop := 0 ≤ st.frame.depth ∧ st.frame.depth < 2147483648

theorem wrapInt32_add_wrapInt32 (x y : Int) : wrapInt32 (wrapInt32 x + y) = wrapInt32 (x + y) := by
  unfold wrapInt32
  omega

theorem wrapInt32_wrapInt32 (x : Int) : wrapInt32 (wrapInt32 x) = wrapInt32 x := by
  unfold wrapInt32
  omega

/-- A run that moves the depth by `k` in 32-bit arithmetic, keeps a depth within 32 bits within
them and keeps the routine's result type. -/
structure Moves (k : Int) (st st' : Emitter) : Prop where
  depth : wrapInt32 (st.frame.depth + k) = wrapInt32 st'.frame.depth
  range : InRange st → InRange st'
  ret : st'.frame.ret = st.frame.ret

structure Shift (k : Int) (st st' : Emitter) : Prop extends Moves k st st' where
  symbols : st'.frame.symbols = st.frame.symbols

namespace Moves

variable {k k₁ k₂ : Int} {st st₁ st₂ : Emitter}

theorem refl (st : Emitter) : Moves 0 st st := ⟨by rw [Int.add_zero], id, rfl⟩

theorem trans (h₁ : Moves k₁ st st₁) (h₂ : Moves k₂ st₁ st₂) : Moves (k₁ + k₂) st st₂ where
  depth := by
    rw [← Int.add_assoc, ← wrapInt32_add_wrapInt32, h₁.depth, wrapInt32_add_wrapInt32, h₂.depth]
  range h := h₂.range (h₁.range h)
  ret := h₂.ret.trans h₁.ret

theorem of_eq (h : Moves k₁ st st₁) (hk : k₁ = k₂) : Moves k₂ st st₁ := hk ▸ h

theorem of_frame (hd : st₁.frame.depth = st.frame.depth) (hr : st₁.frame.ret = st.frame.ret) :
    Moves 0 st st₁ where
  depth := by rw [Int.add_zero, hd]
  range h := by
    unfold InRange
    rw [hd]
    exact h
  ret := hr

theorem of_adjust {f : Frame} (h : st.frame.adjust k = .ok f) (hst : st₁.frame = f) :
    Moves k st st₁ := by
  obtain ⟨h₀, rfl⟩ := adjust_ok h
  refine ⟨?_, fun _ ↦ ?_, by rw [hst]⟩
  · rw [hst]
    exact (wrapInt32_wrapInt32 _).symm
  · unfold InRange
    rw [hst]
    exact ⟨h₀, StackAccounting.wrapInt32_lt _⟩

theorem exact (h : Moves k st st₁) (hk₀ : 0 ≤ k) (hk₁ : k ≤ 1) (hr : InRange st) :
    st₁.frame.depth = st.frame.depth + k := by
  have h₁ := h.range hr
  have hd := h.depth
  unfold InRange at hr h₁
  unfold wrapInt32 at hd
  omega

end Moves

namespace Shift

variable {k k₁ k₂ : Int} {st st₁ st₂ : Emitter}

theorem refl (st : Emitter) : Shift 0 st st := ⟨Moves.refl st, rfl⟩

theorem trans (h₁ : Shift k₁ st st₁) (h₂ : Shift k₂ st₁ st₂) : Shift (k₁ + k₂) st st₂ :=
  ⟨h₁.toMoves.trans h₂.toMoves, h₂.symbols.trans h₁.symbols⟩

theorem of_eq (h : Shift k₁ st st₁) (hk : k₁ = k₂) : Shift k₂ st st₁ := hk ▸ h

theorem of_frame (hd : st₁.frame.depth = st.frame.depth) (hr : st₁.frame.ret = st.frame.ret)
    (hs : st₁.frame.symbols = st.frame.symbols) : Shift 0 st st₁ :=
  ⟨Moves.of_frame hd hr, hs⟩

theorem of_adjust {f : Frame} (h : st.frame.adjust k = .ok f) (hst : st₁.frame = f) :
    Shift k st st₁ := by
  refine ⟨Moves.of_adjust h hst, ?_⟩
  obtain ⟨-, rfl⟩ := adjust_ok h
  rw [hst]

theorem scope (h : Shift k st st₁) : frameScope st₁.frame = frameScope st.frame := by
  rw [frameScope, h.symbols, frameScope]

end Shift

/-- Every successful run of `m` from a state whose locals make the scope `Γ` leaves `n` more
values on the stack and keeps the locals. -/
def Pushes (Γ : Scope) (n : Int) (m : EmitM α) : Prop :=
  ∀ st a st', frameScope st.frame = Γ → m.run st = .ok (a, st') → Shift n st st'

namespace Pushes

variable {Γ : Scope} {n n₁ n₂ : Int}

theorem pure (a : α) : Pushes Γ 0 (pure a : EmitM α) := by
  intro st _ _ _ h
  cases h
  exact Shift.refl st

theorem bind {x : EmitM α} {f : α → EmitM β} (hx : Pushes Γ n₁ x) (hf : ∀ a, Pushes Γ n₂ (f a)) :
    Pushes Γ (n₁ + n₂) (x >>= f) := by
  intro st b st' hs h
  obtain ⟨a, st₁, h₁, h₂⟩ := bind_ok h
  have k₁ := hx _ _ _ hs h₁
  exact k₁.trans (hf a _ _ _ (k₁.scope.trans hs) h₂)

theorem of_eq {m : EmitM α} (h : Pushes Γ n₁ m) (hn : n₁ = n₂) : Pushes Γ n₂ m := hn ▸ h

theorem bind_of {x : EmitM α} {f : α → EmitM β} {p : α → Prop} (hx : Pushes Γ n₁ x)
    (hp : ∀ st a st', x.run st = .ok (a, st') → p a) (hf : ∀ a, p a → Pushes Γ n₂ (f a)) :
    Pushes Γ (n₁ + n₂) (x >>= f) := by
  intro st b st'' hs h
  obtain ⟨a, st', h₁, h₂⟩ := bind_ok h
  have k₁ := hx _ _ _ hs h₁
  exact k₁.trans (hf a (hp _ _ _ h₁) _ _ _ (k₁.scope.trans hs) h₂)

theorem throw (e : CompileError) : Pushes Γ n (throw e : EmitM α) := by
  intro _ _ _ _ h
  cases h

theorem emit (i : Instr) : Pushes Γ i.delta (Emitter.emit i) := by
  intro st _ st' _ h
  obtain ⟨f, hf, rfl⟩ := emit_ok h
  exact Shift.of_adjust hf rfl

theorem rewind (d : Int) : Pushes Γ d (Emitter.rewind d) := by
  intro st _ st' _ h
  obtain ⟨f, hf, rfl⟩ := rewind_ok h
  exact Shift.of_adjust hf rfl

theorem line (l : Line) : Pushes Γ 0 (Emitter.line l) := by
  intro st _ st' _ h
  cases h
  exact Shift.of_frame rfl rfl rfl

theorem label (l : Label) : Pushes Γ 0 (Emitter.label l) := line _

theorem newLabel : Pushes Γ 0 Emitter.newLabel := by
  intro st _ st' _ h
  cases h
  exact Shift.of_frame rfl rfl rfl

theorem append (ls : List Line) : Pushes Γ 0 (Emitter.append ls) := by
  intro st _ st' _ h
  cases h
  exact Shift.of_frame rfl rfl rfl

theorem get : Pushes Γ 0 (get : EmitM Emitter) := by
  intro st _ st' _ h
  cases h
  exact Shift.refl st

theorem liftExcept (r : Except CompileError α) : Pushes Γ 0 (Emitter.liftExcept r) := by
  intro st _ st' _ h
  obtain ⟨-, rfl⟩ := liftExcept_ok h
  exact Shift.refl _

end Pushes

section Pieces

variable {Γ : Scope} (s : Site)

theorem resolve_pushes (n : String) : Pushes Γ 0 (Lower.resolve s n) :=
  (Pushes.get.bind fun _ ↦ Pushes.liftExcept _).of_eq (by simp)

theorem widen_pushes (target actual : Ty) : Pushes Γ 0 (Lower.widen target actual) := by
  unfold Lower.widen
  split
  · exact Pushes.emit _
  · exact Pushes.pure _

theorem loadLocal_pushes (t : Ty) (slot : Nat) : Pushes Γ 1 (Emitter.loadLocal t slot) :=
  Pushes.emit _

theorem arithmetic_pushes (op : BinOp) (k : ValueKind) :
    Pushes Γ (-1) (Emitter.arithmetic op k) := by
  unfold Emitter.arithmetic
  split
  · exact Pushes.emit _
  · exact Pushes.throw _

theorem newArray_pushes (elem : Ty) (size : Nat) : Pushes Γ 1 (Emitter.newArray elem size) :=
  ((Pushes.emit _).bind fun _ ↦ Pushes.emit _).of_eq (by simp [Instr.delta])

theorem literal_pushes (l : Literal) : Pushes Γ 1 (Lower.literal l) := by
  cases l <;> exact ((Pushes.emit _).bind fun _ ↦ Pushes.pure _).of_eq (by simp [Instr.delta])

theorem unary_pushes (op : UnOp) (t : Ty) : Pushes Γ 0 (Lower.unary op t) := by
  cases op
  · exact Pushes.pure _
  · exact Pushes.emit _
  · exact ((Pushes.emit _).bind fun _ ↦ Pushes.emit _).of_eq (by simp [Instr.delta])

theorem replay_pushes (c : Captured) (target : Option Ty) : Pushes Γ 1 (Lower.replay c target) := by
  unfold Lower.replay
  cases target with
  | none =>
    exact ((Pushes.append _).bind fun _ ↦ (Pushes.rewind 1).bind fun _ ↦ Pushes.pure _).of_eq
      (by simp)
  | some t =>
    exact ((Pushes.append _).bind fun _ ↦ (Pushes.rewind 1).bind fun _ ↦
      widen_pushes _ _).of_eq (by simp)

theorem capture_pushes (above : Int) {act : EmitM Ty} (h : Pushes Γ 1 act) :
    Pushes Γ 0 (Lower.capture above act) := by
  intro st c st' hs hc
  obtain ⟨f₁, st₂, f₃, hf₁, h₂, -, hf₃, rfl⟩ := capture_ok hc
  have k₁ : Shift above st { st with frame := f₁ } := Shift.of_adjust hf₁ rfl
  have k₂ : Shift 1 { st with frame := f₁ } st₂ := h _ _ _ (k₁.scope.trans hs) h₂
  exact ((k₁.trans k₂).trans (Shift.of_adjust hf₃ rfl)).of_eq (by omega)

theorem logical_pushes (op : BinOp) {lhs rhs : EmitM Ty} (hl : Pushes Γ 1 lhs)
    (hr : Pushes Γ 1 rhs) : Pushes Γ 1 (Lower.logical op lhs rhs) := by
  unfold Lower.logical
  refine (Pushes.newLabel.bind fun short ↦ Pushes.newLabel.bind fun stop ↦
    (?_ : Pushes Γ 1 _)).of_eq (by simp)
  split
  -- the right operand's value and the one pushed after the jump are counted at the same depth
  exact (hl.bind fun _ ↦ (Pushes.emit _).bind fun _ ↦ hr.bind fun _ ↦ (Pushes.emit _).bind fun _ ↦
    (Pushes.label _).bind fun _ ↦ (Pushes.rewind _).bind fun _ ↦ (Pushes.emit _).bind fun _ ↦
    (Pushes.label _).bind fun _ ↦ Pushes.pure _).of_eq (by simp [Instr.delta])

theorem compare_pushes (op : BinOp) (lt : Ty) (rc : Captured) :
    Pushes Γ 0 (Lower.compare op lt rc) := by
  unfold Lower.compare
  split
  · refine (Pushes.newLabel.bind fun yes ↦ Pushes.newLabel.bind fun stop ↦
      (?_ : Pushes Γ 0 _)).of_eq (by simp)
    have tail : Pushes Γ 1 (do
        Emitter.emit (.pushInt 0)
        Emitter.emit (.goto stop)
        Emitter.label yes
        Emitter.rewind (-1)
        Emitter.emit (.pushInt 1)
        Emitter.label stop) :=
      ((Pushes.emit _).bind fun _ ↦ (Pushes.emit _).bind fun _ ↦ (Pushes.label _).bind fun _ ↦
        (Pushes.rewind _).bind fun _ ↦ (Pushes.emit _).bind fun _ ↦ Pushes.label _).of_eq
        (by simp [Instr.delta])
    dsimp only
    split
    · exact ((widen_pushes _ _).bind fun _ ↦ (replay_pushes _ _).bind fun _ ↦
        (Pushes.emit _).bind fun _ ↦ (Pushes.emit _).bind fun _ ↦ tail).of_eq
        (by simp [Instr.delta])
    · refine ((replay_pushes _ _).bind fun _ ↦ (?_ : Pushes Γ (-1) _)).of_eq (by simp)
      split <;> exact ((Pushes.emit _).bind fun _ ↦ tail).of_eq (by simp [Instr.delta])
  · exact Pushes.throw _

theorem binary_pushes (op : BinOp) (lt : Ty) (rc : Captured) :
    Pushes Γ 0 (Lower.binary op lt rc) := by
  unfold Lower.binary
  split
  · dsimp only
    split
    · exact ((replay_pushes _ _).bind fun _ ↦ (Pushes.emit _).bind fun _ ↦ Pushes.pure _).of_eq
        (by simp [Instr.delta, Ty.returned, Ty.isVoid])
    split
    · exact ((compare_pushes _ _ _).bind fun _ ↦ Pushes.pure _).of_eq (by simp)
    split
    · exact ((widen_pushes _ _).bind fun _ ↦ (replay_pushes _ _).bind fun _ ↦
        (arithmetic_pushes _ _).bind fun _ ↦ Pushes.pure _).of_eq (by simp)
    refine ((widen_pushes _ _).bind fun _ ↦ (replay_pushes _ _).bind fun _ ↦
      (arithmetic_pushes _ _).bind fun _ ↦ (?_ : Pushes Γ 0 _)).of_eq (by simp)
    split
    · exact ((Pushes.emit _).bind fun _ ↦ (Pushes.emit _).bind fun _ ↦ Pushes.pure _).of_eq
        (by simp [Instr.delta])
    · exact Pushes.pure _
  · exact Pushes.throw _

theorem fillArray_pushes (elem : Ty) :
    ∀ (i : Nat) (cs : List Captured), Pushes Γ 0 (Lower.fillArray elem i cs)
  | _, [] => Pushes.pure _
  | i, c :: cs => by
    rw [Lower.fillArray]
    -- each element: the array, its index and its value, all three taken by the store
    exact ((Pushes.emit _).bind fun _ ↦ (Pushes.emit _).bind fun _ ↦
      (replay_pushes _ _).bind fun _ ↦ (Pushes.emit _).bind fun _ ↦
      fillArray_pushes elem (i + 1) cs).of_eq (by simp [Instr.delta])

theorem replayArgs_pushes : ∀ args : List (Captured × Ty),
    Pushes Γ args.length (Lower.replayArgs args)
  | [] => Pushes.pure _
  | (c, p) :: rest => by
    rw [Lower.replayArgs]
    exact ((replay_pushes _ _).bind fun _ ↦ replayArgs_pushes rest).of_eq
      (by simp only [List.length_cons]; omega)

theorem ctorParams_pushes (c : String) (args : List Captured) :
    Pushes Γ 0 (Lower.ctorParams s c args) := by
  unfold Lower.ctorParams
  dsimp only
  split
  · exact Pushes.pure _
  · split
    · exact Pushes.pure _
    · exact Pushes.throw _

theorem loadIdent_pushes (n : String) : Pushes Γ 1 (Lower.loadIdent s n) := by
  unfold Lower.loadIdent
  refine ((resolve_pushes s n).bind fun r ↦ (?_ : Pushes Γ 1 _)).of_eq (by simp)
  cases r with
  | loc l => exact ((loadLocal_pushes _ _).bind fun _ ↦ Pushes.pure _).of_eq (by simp)
  | attr h a =>
    dsimp only
    split
    · exact ((Pushes.emit _).bind fun _ ↦ Pushes.pure _).of_eq (by simp [Instr.delta])
    · exact ((loadLocal_pushes _ _).bind fun _ ↦ (Pushes.emit _).bind fun _ ↦
        Pushes.pure _).of_eq (by simp [Instr.delta])
  | console => exact ((Pushes.emit _).bind fun _ ↦ Pushes.pure _).of_eq (by simp [Instr.delta])
  | cls c => exact Pushes.throw _

end Pieces

def mentionsVoid : Ty → Bool
  | .prim p => p == .void
  | .array e _ => mentionsVoid e
  | .ref t => mentionsVoid t
  | _ => false

/-- The table's types hold `void` only as the whole result type of a method. -/
def VoidOnlyReturned (T : ClassTable) : Prop :=
  ∀ r ∈ T.classes, (∀ a ∈ r.attrs, mentionsVoid a.type = false) ∧
    ∀ m ∈ r.methods, m.ret = .void ∨ mentionsVoid m.ret = false

def VoidFreeScope (Γ : Scope) : Prop := ∀ p ∈ Γ, mentionsVoid p.2 = false

instance (T : ClassTable) : Decidable (VoidOnlyReturned T) := by
  unfold VoidOnlyReturned
  infer_instance

instance (Γ : Scope) : Decidable (VoidFreeScope Γ) := by
  unfold VoidFreeScope
  infer_instance

/-- The values an operand has on the stack: none for a class reached by name, one for a value
unless its type is `void`. -/
def weight : Operand → Int
  | .cls _ => 0
  | .value t => t.returned

theorem returned_eq_one {t : Ty} (h : t.isVoid = false) : t.returned = 1 := by
  simp [Ty.returned, h]

theorem isVoid_deref {t : Ty} (h : mentionsVoid t = false) : t.deref.isVoid = false := by
  cases t with
  | prim p => cases p <;> simp_all [mentionsVoid, Ty.deref, Ty.isVoid]
  | ref u =>
    cases u with
    | prim p => cases p <;> simp_all [mentionsVoid, Ty.deref, Ty.isVoid]
    | _ => rfl
  | _ => rfl

theorem returned_of_accessedClass {t : Ty} {c : String}
    (h : Lower.accessedClass (.value t) = .ok c) : t.returned = 1 := by
  cases t with
  | prim p =>
    unfold Lower.accessedClass at h
    cases h
  | _ => rfl

theorem returned_of_elementOf {t e : Ty} (h : Lower.elementOf t = .ok e) : t.returned = 1 := by
  cases t with
  | prim p =>
    unfold Lower.elementOf at h
    cases h
  | _ => rfl

theorem literal_returned (l : Literal) : l.type.returned = 1 := by
  cases l <;> rfl

theorem result_returned {op : BinOp} {l r t : Ty} (h : op.result l r = some t) : t.returned = 1 := by
  apply returned_eq_one
  unfold BinOp.result at h
  by_cases he : (l.isError || r.isError) = true
  · rw [if_pos he] at h
    cases h
    rfl
  · rw [if_neg he] at h
    cases op <;> dsimp only at h <;> split_ifs at h <;> cases h <;> rfl

theorem binaryType_returned {op : BinOp} {lt rt t : Ty} (h : binaryType op lt rt = some t) :
    t.returned = 1 := by
  unfold binaryType at h
  obtain ⟨r, hr, rfl⟩ := Option.map_eq_some_iff.mp h
  split_ifs
  · rfl
  · rfl
  · rfl
  · exact result_returned hr

theorem lookup_mem {Γ : Scope} {n : String} {t : Ty} (h : Γ.lookup n = some t) :
    ∃ m, (m, t) ∈ Γ := by
  induction Γ with
  | nil => cases h
  | cons p Γ ih =>
    obtain ⟨m, u⟩ := p
    rw [List.lookup_cons] at h
    split at h
    · cases h
      exact ⟨m, List.mem_cons_self⟩
    · obtain ⟨m', hm⟩ := ih h
      exact ⟨m', List.mem_cons_of_mem _ hm⟩

theorem lineage_mem {T : ClassTable} {c : String} {r : ClassInfo} (h : r ∈ T.lineage c) :
    r ∈ T.classes :=
  ((Lineage.climb_distinct _ [] (T.get? c) fun _ hx ↦ (Lineage.get?_some hx).1).2 r h).1

theorem findAttr_mem {T : ClassTable} {c n : String} {h : ClassInfo} {a : AttrInfo}
    (hf : T.findAttr c n = some (h, a)) : h ∈ T.classes ∧ a ∈ h.attrs := by
  unfold ClassTable.findAttr at hf
  obtain ⟨x, hx, hxa⟩ := List.exists_of_findSome?_eq_some hf
  obtain ⟨a', ha', he⟩ := Option.map_eq_some_iff.mp hxa
  cases he
  exact ⟨lineage_mem hx, List.mem_of_find?_eq_some ha'⟩

theorem findMethod_mem {T : ClassTable} {c n : String} {h : ClassInfo} {m : MethodInfo}
    (hf : T.findMethod c n = some (h, m)) : h ∈ T.classes ∧ m ∈ h.methods := by
  unfold ClassTable.findMethod at hf
  obtain ⟨x, hx, hxm⟩ := List.exists_of_findSome?_eq_some hf
  obtain ⟨m', hm', he⟩ := Option.map_eq_some_iff.mp hxm
  cases he
  exact ⟨lineage_mem hx, List.mem_of_find?_eq_some hm'⟩

namespace VoidOnlyReturned

variable {T : ClassTable} (hT : VoidOnlyReturned T)
include hT

theorem attr_returned {c n : String} {h : ClassInfo} {a : AttrInfo}
    (hf : T.findAttr c n = some (h, a)) : a.type.deref.returned = 1 := by
  obtain ⟨hh, ha⟩ := findAttr_mem hf
  exact returned_eq_one (isVoid_deref ((hT h hh).1 a ha))

theorem ret_returned {c n : String} {h : ClassInfo} {m : MethodInfo}
    (hf : T.findMethod c n = some (h, m)) : m.ret.deref.returned = m.ret.returned := by
  obtain ⟨hh, hm⟩ := findMethod_mem hf
  rcases (hT h hh).2 m hm with hv | hv
  · rw [hv]
    rfl
  · rw [returned_eq_one (isVoid_deref hv)]
    cases hr : m.ret with
    | prim p =>
      rw [hr] at hv
      cases p <;> first | rfl | cases hv
    | _ => rfl

end VoidOnlyReturned

theorem identType_returned {s : Site} {Γ : Scope} (hT : VoidOnlyReturned s.table)
    (hΓ : VoidFreeScope Γ) {n : String} {t : Ty} (h : identType (named s Γ n) = some t) :
    t.returned = 1 := by
  unfold named at h
  split at h
  · cases h
  · split at h
    · rename_i u hu
      cases h
      obtain ⟨m, hm⟩ := lookup_mem hu
      exact returned_eq_one (isVoid_deref (hΓ _ hm))
    · split at h
      · cases h
        rfl
      · cases hf : s.table.findAttr s.cls n with
        | none => rw [hf] at h; cases h
        | some p =>
          rw [hf] at h
          cases h
          exact hT.attr_returned hf

def givesValue (s : Site) (Γ : Scope) (e : Expr) : Bool := !(exprType s Γ e).any Ty.isVoid

/-- A step a chain may take from the operand reached before it: no instance member through a
class name or the console, and no `void` element out of an array. -/
def reaches (s : Site) : Option Operand → Step → Bool
  | some (.cls c), .member n _ => (s.table.findAttr c n).all (·.2.isStatic)
  | some (.cls c), .call n _ _ =>
    s.table.isBuiltin c || (s.table.findMethod c n).all (·.2.isStatic)
  | some (.value t), .index _ _ => !(Lower.elementOf t).toOption.any Ty.isVoid
  | _, _ => true

theorem reaches_member_isStatic {s : Site} {c n : String} {sp : Span} {h : ClassInfo}
    {a : AttrInfo} (hr : reaches s (some (.cls c)) (.member n sp) = true)
    (ha : s.table.findAttr c n = some (h, a)) : a.isStatic = true := by
  simpa [reaches, ha] using hr

theorem reaches_call_isStatic {s : Site} {c n : String} {as : List Expr} {sp : Span}
    {h : ClassInfo} {m : MethodInfo} (hr : reaches s (some (.cls c)) (.call n as sp) = true)
    (hb : s.table.isBuiltin c = false) (hm : s.table.findMethod c n = some (h, m)) :
    m.isStatic = true := by
  simpa [reaches, hb, hm] using hr

mutual

/-- An expression every operand of which leaves a value: the operands of operators, indexes,
arguments and the elements of an array literal have types other than `void`, and every step of
a chain `reaches` from the operand before it. -/
def valued (s : Site) (Γ : Scope) : Expr → Bool
  | .lit .. | .ident .. | .this _ => true
  | .binary _ l r _ => valued s Γ l && givesValue s Γ l && valued s Γ r && givesValue s Γ r
  | .unary _ a _ => valued s Γ a && givesValue s Γ a
  | .chain b ss _ => valued s Γ b && stepsValued s Γ (chainOperand s Γ b (exprType s Γ b)) ss
  | .array es _ => operands s Γ es
  | .new _ as _ => operands s Γ as
  | .paren e _ => valued s Γ e

def operands (s : Site) (Γ : Scope) : List Expr → Bool
  | [] => true
  | e :: es => valued s Γ e && givesValue s Γ e && operands s Γ es

/-- Steps each of which `reaches` from the operand before it, with valued indexes and arguments
that leave values. -/
def stepsValued (s : Site) (Γ : Scope) : Option Operand → List Step → Bool
  | _, [] => true
  | op, .member n sp :: rest =>
    reaches s op (.member n sp) && stepsValued s Γ (op.bind (stepType s · (.member n sp))) rest
  | op, .index i sp :: rest =>
    valued s Γ i && givesValue s Γ i && reaches s op (.index i sp) &&
      stepsValued s Γ (op.bind (stepType s · (.index i sp))) rest
  | op, .call n as sp :: rest =>
    operands s Γ as && reaches s op (.call n as sp) &&
      stepsValued s Γ (op.bind (stepType s · (.call n as sp))) rest

end

theorem returned_of_givesValue {s : Site} {Γ : Scope} {e : Expr} {t : Ty}
    (hg : givesValue s Γ e = true) (he : exprType s Γ e = some t) : t.returned = 1 := by
  unfold givesValue at hg
  rw [he, Option.any_some, Bool.not_eq_true'] at hg
  exact returned_eq_one hg

/-- Every run of the generator on `e` from a frame over `Γ` moves the depth by what its result
leaves: one value, or nothing for `void`. -/
def Leaves (s : Site) (Γ : Scope) (e : Expr) : Prop :=
  ∀ st t st', frameScope st.frame = Γ → (Lower.lowerExpr s e).run st = .ok (t, st') →
    Shift t.returned st st'

namespace Leaves

variable {s : Site} {Γ : Scope} {e : Expr}

theorem pushes_one (h : Leaves s Γ e) (hg : givesValue s Γ e = true) :
    Pushes Γ 1 (Lower.lowerExpr s e) := by
  intro st t st' hsc hrun
  have ht := lowerExpr_type e hrun
  rw [hsc] at ht
  rw [← returned_of_givesValue hg ht]
  exact h _ _ _ hsc hrun

theorem of_pushes (hp : Pushes Γ 1 (Lower.lowerExpr s e))
    (ht : ∀ {t}, exprType s Γ e = some t → t.returned = 1) : Leaves s Γ e := by
  intro st t st' hsc hrun
  have he := lowerExpr_type e hrun
  rw [hsc] at he
  rw [ht he]
  exact hp _ _ _ hsc hrun

theorem bind {f : Ty → EmitM β} {n : Int} (h : Leaves s Γ e)
    (hf : ∀ t, exprType s Γ e = some t → Pushes Γ (n - t.returned) (f t)) :
    Pushes Γ n (Lower.lowerExpr s e >>= f) := by
  intro st b st'' hsc hrun
  obtain ⟨t, st', h₁, h₂⟩ := bind_ok hrun
  have k₁ := h _ _ _ hsc h₁
  have ht := lowerExpr_type e h₁
  rw [hsc] at ht
  exact (k₁.trans (hf t ht _ _ _ (k₁.scope.trans hsc) h₂)).of_eq (by omega)

end Leaves

theorem dropReceiver_pushes {Γ : Scope} {op : Operand} {c : String}
    (hc : Lower.accessedClass op = .ok c) : Pushes Γ (-weight op) (Lower.dropReceiver op) := by
  cases op with
  | cls c' => exact (Pushes.pure _).of_eq (by simp [weight])
  | value t =>
    rw [weight, returned_of_accessedClass hc]
    exact Pushes.emit _

section Steps

variable {s : Site} {Γ : Scope} {op next : Operand} {st st₁ : Emitter}

theorem chainBase_shift {b : Expr} (hb : Leaves s Γ b) (hsc : frameScope st.frame = Γ)
    (h : (Lower.chainBase s b (Lower.lowerExpr s b)).run st = .ok (op, st₁)) :
    Shift (weight op) st st₁ := by
  have hv : ∀ {st₂ : Emitter}, frameScope st₂.frame = Γ →
      (do let t ← Lower.lowerExpr s b; pure (Operand.value t) : EmitM Operand).run st₂ =
        .ok (op, st₁) → Shift (weight op) st₂ st₁ := by
    intro st₂ hs₂ h₂
    obtain ⟨t, st₃, h₃, k₃⟩ := bind_ok h₂
    cases k₃
    exact hb _ _ _ hs₂ h₃
  unfold Lower.chainBase at h
  split at h
  · obtain ⟨_, st₂, h₂, k₂⟩ := bind_ok h
    cases h₂
    split at k₂
    · cases k₂
      exact Shift.refl _
    · obtain ⟨r, st₃, h₃, k₃⟩ := bind_ok k₂
      obtain ⟨-, rfl⟩ := IntCode.resolve_run h₃
      split at k₃
      · cases k₃
        exact Shift.refl _
      · exact hv hsc k₃
  · exact hv hsc h

theorem member_shift (hT : VoidOnlyReturned s.table) {n : String} {sp : Span}
    (hr : reaches s (some op) (.member n sp) = true)
    (hrun : StepRun s op (.member n sp) st next st₁) (hsc : frameScope st.frame = Γ) :
    Shift (weight next - weight op) st st₁ := by
  cases hrun with
  | static hc ha hs h₁ h₂ =>
    have k₁ := dropReceiver_pushes hc _ _ _ hsc h₁
    have k₂ := Pushes.emit (Γ := Γ) _ _ _ _ (k₁.scope.trans hsc) h₂
    exact (k₁.trans k₂).of_eq (by simp [weight, hT.attr_returned ha, Instr.delta]; omega)
  | field hc ha hs h₁ =>
    cases op with
    | cls c' =>
      -- a class reached by name has no object for an instance attribute
      cases hc
      rw [reaches_member_isStatic hr ha] at hs
      cases hs
    | value t =>
      exact (Pushes.emit (Γ := Γ) _ _ _ _ hsc h₁).of_eq
        (by simp [weight, hT.attr_returned ha, returned_of_accessedClass hc, Instr.delta])

theorem index_shift {i : Expr} {sp : Span} (hr : reaches s (some op) (.index i sp) = true)
    (hpi : Pushes Γ 1 (Lower.lowerExpr s i)) (hrun : StepRun s op (.index i sp) st next st₁)
    (hsc : frameScope st.frame = Γ) : Shift (weight next - weight op) st st₁ := by
  cases hrun with
  | @index _ _ t elem _ _ _ _ hop he h₁ h₂ =>
    subst hop
    have k₁ := hpi _ _ _ hsc h₁
    have k₂ := Pushes.emit (Γ := Γ) _ _ _ _ (k₁.scope.trans hsc) h₂
    -- the element read is not `void`: one value in place of the array and the index
    have helem : elem.returned = 1 := by
      simp only [reaches, he, Except.toOption, Option.any_some, Bool.not_eq_true'] at hr
      exact returned_eq_one hr
    exact (k₁.trans k₂).of_eq (by simp [weight, helem, returned_of_elementOf he, Instr.delta])

theorem call_shift (hT : VoidOnlyReturned s.table) {n : String} {as : List Expr} {sp : Span}
    (hr : reaches s (some op) (.call n as sp) = true)
    (hpa : ∀ ps : List Ty, as.length = ps.length → Pushes Γ as.length (Lower.lowerArgs s as ps))
    (hrun : StepRun s op (.call n as sp) st next st₁) (hsc : frameScope st.frame = Γ) :
    Shift (weight next - weight op) st st₁ := by
  cases hrun with
  | builtin hc hb hn h₁ har h₂ h₃ =>
    have k₁ := dropReceiver_pushes hc _ _ _ hsc h₁
    have k₂ := hpa _ (by simpa using har) _ _ _ (k₁.scope.trans hsc) h₂
    have k₃ := Pushes.emit (Γ := Γ) _ _ _ _ (k₂.scope.trans (k₁.scope.trans hsc)) h₃
    exact ((k₁.trans k₂).trans k₃).of_eq (by simp [weight, Instr.delta, har]; omega)
  | staticCall hc hb hm hs h₁ har h₂ h₃ =>
    have k₁ := dropReceiver_pushes hc _ _ _ hsc h₁
    have k₂ := hpa _ har _ _ _ (k₁.scope.trans hsc) h₂
    have k₃ := Pushes.emit (Γ := Γ) _ _ _ _ (k₂.scope.trans (k₁.scope.trans hsc)) h₃
    exact ((k₁.trans k₂).trans k₃).of_eq
      (by simp [weight, Instr.delta, har, hT.ret_returned hm]; omega)
  | virtualCall hc hb hm hs har h₁ h₂ =>
    cases op with
    | cls c' =>
      -- a class reached by name has no object to call an instance method on
      cases hc
      rw [reaches_call_isStatic hr hb hm] at hs
      cases hs
    | value t =>
      have k₁ := hpa _ har _ _ _ hsc h₁
      have k₂ := Pushes.emit (Γ := Γ) _ _ _ _ (k₁.scope.trans hsc) h₂
      exact (k₁.trans k₂).of_eq (by
        simp [weight, Instr.delta, har, hT.ret_returned hm, returned_of_accessedClass hc]; omega)

theorem Shift.step {op' : Operand} {st' : Emitter} (h₁ : Shift (weight next - weight op) st st₁)
    (h₂ : Shift (weight op' - weight next) st₁ st') : Shift (weight op' - weight op) st st' :=
  (h₁.trans h₂).of_eq (by omega)

theorem binary_returned {op : BinOp} {l r : Expr} {sp : Span} {t : Ty}
    (h : exprType s Γ (.binary op l r sp) = some t) : t.returned = 1 := by
  rw [exprType] at h
  split_ifs at h
  · cases h
    rfl
  · obtain ⟨lt, -, h⟩ := Option.bind_eq_some_iff.mp h
    obtain ⟨rt, -, h⟩ := Option.bind_eq_some_iff.mp h
    exact binaryType_returned h

end Steps

section Depth

variable {s : Site} {Γ : Scope} (hT : VoidOnlyReturned s.table) (hΓ : VoidFreeScope Γ)
include hT hΓ

-- the operand lists need the table and the scope only through the expressions in them
set_option linter.unusedSectionVars false

mutual

theorem lowerExpr_shift : ∀ e : Expr, valued s Γ e = true → Leaves s Γ e
  | .lit l _, _ => by
    refine Leaves.of_pushes ?_ fun ht ↦ ?_
    · rw [Lower.lowerExpr]
      exact literal_pushes l
    · rw [exprType, Option.some.injEq] at ht
      rw [← ht]
      exact literal_returned l
  | .ident n _, _ => by
    refine Leaves.of_pushes ?_ fun ht ↦ ?_
    · rw [Lower.lowerExpr]
      exact loadIdent_pushes s n
    · rw [exprType] at ht
      exact identType_returned hT hΓ ht
  | .this _, _ => by
    refine Leaves.of_pushes ?_ fun ht ↦ ?_
    · rw [Lower.lowerExpr]
      exact ((loadLocal_pushes _ _).bind fun _ ↦ Pushes.pure _).of_eq (by simp)
    · rw [exprType, Option.some.injEq] at ht
      rw [← ht]
      exact returned_eq_one rfl
  | .binary op l r _, hv => by
    simp only [valued, Bool.and_eq_true] at hv
    obtain ⟨⟨⟨hl, hgl⟩, hr⟩, hgr⟩ := hv
    have pl := (lowerExpr_shift l hl).pushes_one hgl
    have pr := (lowerExpr_shift r hr).pushes_one hgr
    refine Leaves.of_pushes ?_ binary_returned
    rw [Lower.lowerExpr]
    split
    · exact logical_pushes op pl pr
    · exact (pl.bind fun _ ↦ (capture_pushes 0 pr).bind fun rc ↦ binary_pushes op _ rc).of_eq
        (by simp)
  | .unary op a _, hv => by
    simp only [valued, Bool.and_eq_true] at hv
    obtain ⟨ha, hga⟩ := hv
    refine Leaves.of_pushes ?_ fun ht ↦ returned_of_givesValue hga (by rwa [exprType] at ht)
    rw [Lower.lowerExpr]
    exact (((lowerExpr_shift a ha).pushes_one hga).bind fun _ ↦ (unary_pushes _ _).bind fun _ ↦
      Pushes.pure _).of_eq (by simp)
  | .chain b ss _, hv => by
    simp only [valued, Bool.and_eq_true] at hv
    obtain ⟨hb, hss⟩ := hv
    intro st t st' hsc h
    rw [Lower.lowerExpr] at h
    obtain ⟨base, st₁, h₁, k₁⟩ := bind_ok h
    obtain ⟨op, st₂, h₂, k₂⟩ := bind_ok k₁
    have hbase := chainBase_operand (fun t' st'' hb ↦ lowerExpr_type b hb) h₁
    rw [hsc] at hbase
    rw [hbase] at hss
    have s₁ := chainBase_shift (lowerExpr_shift b hb) hsc h₁
    have s₂ := lowerSteps_shift base ss hss _ _ _ (s₁.scope.trans hsc) h₂
    cases op with
    | cls c => cases k₂
    | value t' =>
      cases k₂
      exact (s₁.trans s₂).of_eq (by show weight base + (Ty.returned _ - weight base) = _; omega)
  | .array es _, hv => by
    rw [valued] at hv
    refine Leaves.of_pushes ?_ fun ht ↦ ?_
    · rw [Lower.lowerExpr]
      exact ((captureList_pushes 3 0 es hv).bind fun cs ↦ (newArray_pushes _ _).bind fun _ ↦
        (fillArray_pushes _ _ _).bind fun _ ↦ Pushes.pure _).of_eq (by simp)
    · rw [exprType] at ht
      obtain ⟨elem, -, rfl⟩ := Option.map_eq_some_iff.mp ht
      exact returned_eq_one rfl
  | .new c as _, hv => by
    rw [valued] at hv
    refine Leaves.of_pushes ?_ fun ht ↦ ?_
    · rw [Lower.lowerExpr]
      refine ((captureList_pushes 2 1 as hv).bind fun cs ↦ ((ctorParams_pushes s c cs).bind_of
        (fun _ _ _ ↦ FreshLabels.ctorParams_length) fun ps hps ↦ (?_ : Pushes Γ 1 _))).of_eq
        (by simp)
      -- the constructor takes as many parameters as there are arguments: only the object stays
      have hz : ((cs.zip ps).length : Int) = ps.length := by simp [hps]
      exact ((Pushes.emit _).bind fun _ ↦ (Pushes.emit _).bind fun _ ↦
        (replayArgs_pushes _).bind fun _ ↦ (Pushes.emit _).bind fun _ ↦ Pushes.pure _).of_eq
        (by simp only [Instr.delta, hz]; omega)
    · rw [exprType, Option.some.injEq] at ht
      rw [← ht]
      exact returned_eq_one rfl
  | .paren e _, hv => by
    rw [valued] at hv
    intro st t st' hsc h
    rw [Lower.lowerExpr] at h
    exact lowerExpr_shift e hv _ _ _ hsc h

theorem captureList_pushes (above step : Int) : ∀ es : List Expr, operands s Γ es = true →
    Pushes Γ 0 (Lower.captureList s above step es)
  | [], _ => by
    rw [Lower.captureList]
    exact Pushes.pure _
  | e :: es, h => by
    simp only [operands, Bool.and_eq_true] at h
    obtain ⟨⟨he, hg⟩, hes⟩ := h
    rw [Lower.captureList]
    exact ((capture_pushes above ((lowerExpr_shift e he).pushes_one hg)).bind fun _ ↦
      (captureList_pushes (above + step) step es hes).bind fun _ ↦ Pushes.pure _).of_eq
      (by simp)

theorem lowerArgs_pushes : ∀ (es : List Expr) (ps : List Ty), es.length = ps.length →
    operands s Γ es = true → Pushes Γ es.length (Lower.lowerArgs s es ps)
  | e :: es, p :: ps, hl, h => by
    simp only [operands, Bool.and_eq_true] at h
    obtain ⟨⟨he, hg⟩, hes⟩ := h
    rw [Lower.lowerArgs]
    exact (((lowerExpr_shift e he).pushes_one hg).bind fun _ ↦ (widen_pushes _ _).bind fun _ ↦
      lowerArgs_pushes es ps (by simpa using hl) hes).of_eq
      (by simp only [List.length_cons]; omega)
  | [], _, _, _ => by
    simp only [Lower.lowerArgs]
    exact Pushes.pure _
  | _ :: _, [], hl, _ => by simp at hl

theorem lowerSteps_shift : ∀ (op : Operand) (ss : List Step),
    stepsValued s Γ (some op) ss = true → ∀ st op' st', frameScope st.frame = Γ →
      (Lower.lowerSteps s op ss).run st = .ok (op', st') → Shift (weight op' - weight op) st st'
  | op, [], _, st, op', st', _, h => by
    rw [Lower.lowerSteps] at h
    cases h
    exact (Shift.refl _).of_eq (by simp)
  | op, .member n sp :: rest, hv, st, op', st', hsc, h => by
    simp only [stepsValued, Bool.and_eq_true] at hv
    obtain ⟨hr, hrest⟩ := hv
    obtain ⟨next, st₁, hstep, k₁⟩ := lowerSteps_cons h
    simp only [Option.bind_some, hstep.stepType_eq] at hrest
    have s₁ := member_shift hT hr hstep hsc
    exact s₁.step (lowerSteps_shift next rest hrest _ _ _ (s₁.scope.trans hsc) k₁)
  | op, .index i sp :: rest, hv, st, op', st', hsc, h => by
    simp only [stepsValued, Bool.and_eq_true] at hv
    obtain ⟨⟨⟨hi, hgi⟩, hr⟩, hrest⟩ := hv
    obtain ⟨next, st₁, hstep, k₁⟩ := lowerSteps_cons h
    simp only [Option.bind_some, hstep.stepType_eq] at hrest
    have s₁ := index_shift hr ((lowerExpr_shift i hi).pushes_one hgi) hstep hsc
    exact s₁.step (lowerSteps_shift next rest hrest _ _ _ (s₁.scope.trans hsc) k₁)
  | op, .call n as sp :: rest, hv, st, op', st', hsc, h => by
    simp only [stepsValued, Bool.and_eq_true] at hv
    obtain ⟨⟨has, hr⟩, hrest⟩ := hv
    obtain ⟨next, st₁, hstep, k₁⟩ := lowerSteps_cons h
    simp only [Option.bind_some, hstep.stepType_eq] at hrest
    have s₁ := call_shift hT hr (fun ps hl ↦ lowerArgs_pushes as ps hl has) hstep hsc
    exact s₁.step (lowerSteps_shift next rest hrest _ _ _ (s₁.scope.trans hsc) k₁)

end

end Depth

theorem returned_nonneg (t : Ty) : 0 ≤ t.returned := by
  unfold Ty.returned
  split <;> decide

theorem returned_le_one (t : Ty) : t.returned ≤ 1 := by
  unfold Ty.returned
  split <;> decide

theorem returned_of_isVoid {t : Ty} (h : t.isVoid = true) : t.returned = 0 := by
  simp [Ty.returned, h]

theorem not_void {t : Ty} (h : t.returned = 1) (hv : t.isVoid = true) : False := by
  rw [returned_of_isVoid hv] at h
  cases h

def Bounded (st st' : Emitter) : Prop :=
  st.frame.depth ≤ st.frame.maxDepth → st'.frame.depth ≤ st'.frame.maxDepth

theorem adjust_bounded {f f' : Frame} {d : Int} (h : f.adjust d = .ok f') :
    f'.depth ≤ f'.maxDepth := by
  obtain ⟨-, rfl⟩ := adjust_ok h
  exact Int.le_max_right _ _

theorem bounded_steps : Steps Bounded fun _ ↦ True where
  refl _ := id
  trans h₁ h₂ := h₂ ∘ h₁
  internal _ := trivial
  emit i st st' h := by
    obtain ⟨f, hf, rfl⟩ := emit_ok h
    exact fun _ ↦ adjust_bounded hf
  rewind d st st' h := by
    obtain ⟨f, hf, rfl⟩ := rewind_ok h
    exact fun _ ↦ adjust_bounded hf
  line _ _ := id
  newLabel _ := id
  append _ _ := id
  capture above act h := by
    refine ⟨fun st c st' hc ↦ ?_, fun _ _ _ ↦ trivial⟩
    obtain ⟨f₁, st₂, f₃, -, -, -, hf₃, rfl⟩ := capture_ok hc
    exact fun _ ↦ adjust_bounded hf₃

theorem extract_of_prefix {a b : Array Line} (h : a.toList <+: b.toList) :
    b.extract 0 a.size = a ∧ b.toList = a.toList ++ (b.extract a.size b.size).toList := by
  obtain ⟨r, hr⟩ := h
  constructor
  · apply Array.toList_inj.mp
    rw [Array.toList_extract, List.extract_eq_take_drop, List.drop_zero, Nat.sub_zero, ← hr,
      ← Array.length_toList, List.take_left]
  · rw [Array.toList_extract, List.extract_eq_take_drop, ← Array.length_toList,
      ← Array.length_toList, ← hr, List.drop_left]
    simp

def raise (st : Emitter) (k : Int) : Emitter where
  lines := st.lines
  frame := { st.frame with
    depth := st.frame.depth + k
    maxDepth := max st.frame.maxDepth (st.frame.depth + k) }

theorem replay_depth {c : Captured} {target : Option Ty} {st st' : Emitter} (hr : InRange st)
    (h : (Lower.replay c target).run st = .ok ((), st')) : st'.frame.depth = st.frame.depth + 1 :=
  (replay_pushes c target _ _ _ rfl h).toMoves.exact (by decide) (Int.le_refl 1) hr

section Effects

variable {s : Site} {st st' : Emitter} (hT : VoidOnlyReturned s.table)
  (hΓ : VoidFreeScope (frameScope st.frame))
include hT hΓ

theorem lowerExpr_depth {e : Expr} {t : Ty} (hv : valued s (frameScope st.frame) e = true)
    (hr : InRange st) (h : (Lower.lowerExpr s e).run st = .ok (t, st')) :
    st'.frame.depth = st.frame.depth + t.returned :=
  (lowerExpr_shift hT hΓ e hv _ _ _ rfl h).toMoves.exact (returned_nonneg t) (returned_le_one t) hr

theorem capture_effect {e : Expr} {k : Int} {c : Captured}
    (hv : valued s (frameScope st.frame) e = true) (hg : givesValue s (frameScope st.frame) e = true)
    (hr : InRange st) (hk : 0 ≤ k) (hk' : st.frame.depth + k < 2147483648)
    (h : (Lower.capture k (Lower.lowerExpr s e)).run st = .ok (c, st')) :
    st'.frame.depth = st.frame.depth ∧ st'.lines = st.lines ∧
      ∃ st₂, (Lower.lowerExpr s e).run (raise st k) = .ok (c.type, st₂) ∧
        st₂.lines.toList = st.lines.toList ++ c.lines ∧ st'.frame.maxDepth = st₂.frame.maxDepth := by
  obtain ⟨f₁, st₂, f₃, hf₁, h₂, hc, hf₃, rfl⟩ := capture_ok h
  have hd : 0 ≤ st.frame.depth := hr.1
  rw [SelfName.adjust_of_bounds (by omega) hk'] at hf₁
  cases hf₁
  change (Lower.lowerExpr s e).run (raise st k) = _ at h₂
  -- the expression runs `k` values higher and leaves its one value there
  have hr₂ : InRange (raise st k) := ⟨by dsimp only [raise]; omega, hk'⟩
  have hd₂ : st₂.frame.depth = st.frame.depth + k + 1 :=
    (((lowerExpr_shift hT hΓ e hv).pushes_one hg) (raise st k) _ _ rfl h₂).toMoves.exact (by decide)
      (Int.le_refl 1) hr₂
  have hb₂ : st₂.frame.depth ≤ st₂.frame.maxDepth :=
    (lowerExpr_sound bounded_steps s e).ok _ _ _ h₂ (Int.le_max_right _ _)
  obtain ⟨-, rfl⟩ := adjust_ok hf₃
  have hw : wrapInt32 (st₂.frame.depth + -(k + 1)) = st.frame.depth := by
    rw [hd₂]
    unfold wrapInt32
    obtain ⟨h₀, h₁⟩ := hr
    omega
  obtain ⟨hcut, hlines⟩ :=
    extract_of_prefix ((lowerExpr_sound linesGrow_steps.toSteps s e).ok _ _ _ h₂)
  refine ⟨hw, hcut, st₂, h₂, by rw [hc]; exact hlines, ?_⟩
  show max st₂.frame.maxDepth (wrapInt32 (st₂.frame.depth + -(k + 1))) = st₂.frame.maxDepth
  rw [hw]
  omega

end Effects

/-- An expression whose value is what a call returns: a chain whose last step is a call, or a
chain without steps over such an expression, under parentheses. -/
def callResult : Expr → Bool
  | .paren e _ => callResult e
  | .chain b [] _ => callResult b
  | .chain b ss sp => Chain.endsInCall ⟨b, ss, sp⟩
  | _ => false

theorem chainOperand_value {s : Site} {Γ : Scope} {b : Expr} {bt : Option Ty} {t : Ty}
    (h : chainOperand s Γ b bt = some (.value t)) : bt = some t := by
  unfold chainOperand at h
  split at h
  · split at h
    · cases h
    · cases h
    · obtain ⟨u, hu, hut⟩ := Option.map_eq_some_iff.mp h
      cases hut
      exact hu
  · obtain ⟨u, hu, hut⟩ := Option.map_eq_some_iff.mp h
    cases hut
    exact hu

section VoidResults

variable {s : Site} {Γ : Scope} (hT : VoidOnlyReturned s.table)
include hT

theorem stepType_void {op : Operand} {step : Step} {t : Ty}
    (hr : reaches s (some op) step = true) (h : stepType s op step = some (.value t))
    (hv : t.isVoid = true) : ∃ n as sp, step = .call n as sp := by
  cases step with
  | member n sp =>
    cases hc : (Lower.accessedClass op).toOption with
    | none => simp [stepType, hc] at h
    | some c =>
      cases ha : s.table.findAttr c n with
      | none => simp [stepType, hc, ha] at h
      | some p =>
        obtain ⟨hh, a⟩ := p
        have ht : a.type.deref = t := by simpa [stepType, hc, ha] using h
        have ha' := hT.attr_returned ha
        rw [ht, returned_of_isVoid hv] at ha'
        cases ha'
  | index i sp =>
    cases op with
    | cls c => simp [stepType] at h
    | value u =>
      cases he : (Lower.elementOf u).toOption with
      | none => simp [stepType, he] at h
      | some el =>
        simp only [stepType, he, Option.map_some, Option.some.injEq, Operand.value.injEq] at h
        subst h
        simp [reaches, he, hv] at hr
  | call n as sp => exact ⟨n, as, sp, rfl⟩

theorem stepsType_void : ∀ (ss : List Step) {op : Option Operand} {t : Ty},
    stepsValued s Γ op ss = true → stepsType s op ss = some (.value t) → t.isVoid = true →
      (ss = [] ∧ op = some (.value t)) ∨ ∃ pre n as sp, ss = pre ++ [.call n as sp] := by
  intro ss
  induction ss with
  | nil =>
    intro op t _ h _
    exact .inl ⟨rfl, h⟩
  | cons step rest ih =>
    intro op t hs h hv
    have hr : reaches s op step = true ∧ stepsValued s Γ (op.bind (stepType s · step)) rest = true := by
      cases step <;> simp_all [stepsValued]
    rcases ih hr.2 h hv with ⟨rfl, hop⟩ | ⟨pre, n, as, sp, rfl⟩
    · -- the last step is this one, and it reached the `void` value
      obtain ⟨o, rfl, ho⟩ := Option.bind_eq_some_iff.mp hop
      obtain ⟨n, as, sp, rfl⟩ := stepType_void hT hr.1 ho hv
      exact .inr ⟨[], n, as, sp, rfl⟩
    · exact .inr ⟨step :: pre, n, as, sp, rfl⟩

theorem callResult_of_void (hΓ : VoidFreeScope Γ) : ∀ (e : Expr) {t : Ty},
    valued s Γ e = true → exprType s Γ e = some t → t.isVoid = true → callResult e = true
  | .lit l _, t, _, h, hv => by
    rw [exprType, Option.some.injEq] at h
    subst h
    exact (not_void (literal_returned l) hv).elim
  | .ident n _, t, _, h, hv => (not_void (identType_returned hT hΓ h) hv).elim
  | .this _, t, _, h, hv => by
    rw [exprType, Option.some.injEq] at h
    subst h
    cases hv
  | .binary op l r _, t, _, h, hv => (not_void (binary_returned h) hv).elim
  | .unary op a _, t, hva, h, hv => by
    simp only [valued, Bool.and_eq_true] at hva
    exact (not_void (returned_of_givesValue hva.2 h) hv).elim
  | .chain b ss sp, t, hva, h, hv => by
    simp only [valued, Bool.and_eq_true] at hva
    obtain ⟨hb, hss⟩ := hva
    rw [exprType] at h
    split at h
    · rename_i t' hst
      cases h
      rcases stepsType_void hT ss hss hst hv with ⟨rfl, hop⟩ | ⟨pre, n, as, sp', rfl⟩
      · -- no steps: the chain is its base, whose type is `void`
        rw [callResult]
        exact callResult_of_void hΓ b hb (chainOperand_value hop) hv
      · cases pre <;> simp [callResult, Chain.endsInCall, Step.isCall, List.getLast?_cons, List.getLast?_append]
    · cases h
  | .array es _, t, _, h, hv => by
    rw [exprType] at h
    obtain ⟨_, -, rfl⟩ := Option.map_eq_some_iff.mp h
    cases hv
  | .new c as _, t, _, h, hv => by
    rw [exprType, Option.some.injEq] at h
    subst h
    cases hv
  | .paren e _, t, hva, h, hv => by
    rw [valued] at hva
    rw [exprType] at h
    rw [callResult]
    exact callResult_of_void hΓ e hva h hv

end VoidResults

end ClassLang.Proofs.StackEffect
