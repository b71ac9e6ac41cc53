import ClassLang.Proofs.IntSemantics

namespace ClassLang.Proofs.IntCode

open ClassLang Runs FreshLabels Machine IntSemantics

def symbolOf (σ : List LocalSym) (n : String) : Option LocalSym := σ.find? (·.name == n)

def entry (x : LocalSym) : String × Ty := (x.name, x.type)

def shortTest (op : BinOp) : Cond × Int := if op == .and then (.eq, 0) else (.ne, 1)

inductive ExprCode (σ : List LocalSym) : Expr → List Line → Prop where
  | int {v : Int} {sp : Span} : ExprCode σ (.lit (.int v) sp) [.instr (.pushInt v)]
  | bool {b : Bool} {sp : Span} :
      ExprCode σ (.lit (.bool b) sp) [.instr (.pushInt (if b then 1 else 0))]
  | ident {n : String} {sp : Span} {x : LocalSym} (hx : symbolOf σ n = some x) :
      ExprCode σ (.ident n sp) [.instr (.load .int x.slot)]
  | paren {e : Expr} {sp : Span} {c : List Line} (h : ExprCode σ e c) : ExprCode σ (.paren e sp) c
  | neg {a : Expr} {sp : Span} {c : List Line} (h : ExprCode σ a c) :
      ExprCode σ (.unary .neg a sp) (c ++ [.instr (.neg .int)])
  | not {a : Expr} {sp : Span} {c : List Line} (h : ExprCode σ a c) :
      ExprCode σ (.unary .not a sp) (c ++ [.instr (.pushInt 1), .instr .ixor])
  | arith {op : BinOp} {l r : Expr} {sp : Span} {cl cr : List Line} {k : ArithOp}
      (hk : ArithOp.ofBinOp? op = some k) (hd : op ≠ .div) (hl : ExprCode σ l cl)
      (hr : ExprCode σ r cr) :
      ExprCode σ (.binary op l r sp) (cl ++ cr ++ [.instr (.arith k .int)])
  | compare {op : BinOp} {l r : Expr} {sp : Span} {cl cr : List Line} {c : Cond}
      (yes stop : Label) (hc : Cond.ofBinOp? op = some c) (hl : ExprCode σ l cl)
      (hr : ExprCode σ r cr) :
      ExprCode σ (.binary op l r sp) (cl ++ cr ++ [.instr (.ifICmp c yes), .instr (.pushInt 0),
        .instr (.goto stop), .label yes, .instr (.pushInt 1), .label stop])
  | logical {op : BinOp} {l r : Expr} {sp : Span} {cl cr : List Line} (short stop : Label)
      (hop : op.isLogical = true) (hl : ExprCode σ l cl) (hr : ExprCode σ r cr) :
      ExprCode σ (.binary op l r sp)
        (cl ++ .instr (.ifZero (shortTest op).1 short) :: cr ++
          [.instr (.goto stop), .label short, .instr (.pushInt (shortTest op).2), .label stop])

/-- What expressions leave alone: the locals in scope, the slot counter, the open blocks and
loops, and the routine's result type. -/
def scopeOf (f : Frame) : List LocalSym × Nat × List (BlockLabels × Nat) × Loops × Ty :=
  (f.symbols, f.nextSlot, f.blocks, f.loops, f.ret)

structure Emits (e e' : Emitter) (code : List Line) : Prop where
  lines : e'.lines.toList = e.lines.toList ++ code
  scope : scopeOf e'.frame = scopeOf e.frame

namespace Emits

variable {e e₁ e₂ : Emitter} {c₁ c₂ : List Line}

theorem refl (e : Emitter) : Emits e e [] := ⟨by simp, rfl⟩

theorem trans (h₁ : Emits e e₁ c₁) (h₂ : Emits e₁ e₂ c₂) : Emits e e₂ (c₁ ++ c₂) :=
  ⟨by rw [h₂.lines, h₁.lines, List.append_assoc], h₂.scope.trans h₁.scope⟩

theorem symbols (h : Emits e e₁ c₁) : e₁.frame.symbols = e.frame.symbols :=
  congrArg Prod.fst h.scope

theorem of_eq {c : List Line} (h : Emits e e₁ c₁) (hc : c₁ = c) : Emits e e₁ c := hc ▸ h

end Emits

section Primitives

variable {e e' : Emitter} {u : Unit}

theorem scopeOf_adjust {f f' : Frame} {d : Int} (h : f.adjust d = .ok f') : scopeOf f' = scopeOf f := by
  obtain ⟨-, rfl⟩ := adjust_ok h
  rfl

theorem emits_emit {i : Instr} (h : (Emitter.emit i).run e = .ok (u, e')) :
    Emits e e' [.instr i] := by
  obtain ⟨f, hf, rfl⟩ := emit_ok h
  exact ⟨by simp, scopeOf_adjust hf⟩

theorem emits_label {l : Label} (h : (Emitter.label l).run e = .ok (u, e')) :
    Emits e e' [.label l] := by
  cases h
  exact ⟨by simp, rfl⟩

theorem emits_rewind {d : Int} (h : (Emitter.rewind d).run e = .ok (u, e')) : Emits e e' [] := by
  obtain ⟨f, hf, rfl⟩ := rewind_ok h
  exact ⟨by simp, scopeOf_adjust hf⟩

theorem emits_newLabel {l : Label} (h : Emitter.newLabel.run e = .ok (l, e')) : Emits e e' [] := by
  cases h
  exact ⟨by simp, rfl⟩

theorem widen_nothing {t a : Ty} (ht : isIntOrBool t = true)
    (h : (Lower.widen t a).run e = .ok (u, e')) : e' = e := by
  have hw : Ty.needsWidening t a = false := by
    simp only [Ty.needsWidening, Bool.and_eq_false_iff]
    left
    simp only [isIntOrBool, Bool.or_eq_true, beq_iff_eq] at ht
    rcases ht with rfl | rfl <;> rfl
  unfold Lower.widen at h
  rw [if_neg (by simp [hw])] at h
  cases h
  rfl

theorem valueKind_of {t : Ty} (ht : isIntOrBool t = true) : ValueKind.of t = .int := by
  simp only [isIntOrBool, Bool.or_eq_true, beq_iff_eq] at ht
  rcases ht with rfl | rfl <;> rfl

theorem resolve_run {s : Site} {n : String} {r : Resolved} (h : (Lower.resolve s n).run e = .ok (r, e')) :
    s.resolve e.frame n = .ok r ∧ e' = e := by
  unfold Lower.resolve at h
  obtain ⟨_, e₁, h₁, h⟩ := bind_ok h
  cases h₁
  rw [liftExcept_run] at h
  cases hr : s.resolve e.frame n with
  | ok r' =>
    rw [hr] at h
    cases h
    exact ⟨rfl, rfl⟩
  | error err =>
    rw [hr] at h
    cases h

theorem resolve_local {s : Site} {f : Frame} {n : String} {x : LocalSym} {r : Resolved}
    (hx : f.lookup n = some x) (h : s.resolve f n = .ok r) : (∃ c, r = .cls c) ∨ r = .loc x := by
  unfold Site.resolve at h
  split at h
  · exact .inl ⟨_, (Except.ok.inj h).symm⟩
  · rw [hx] at h
    exact .inr (Except.ok.inj h).symm

end Primitives

section Names

variable {s : Site} {e e' : Emitter} {n : String} {x : LocalSym}

theorem lookup_entries (σ : List LocalSym) (n : String) :
    (σ.map entry).lookup n = (symbolOf σ n).map (·.type) := by
  induction σ with
  | nil => rfl
  | cons y σ ih =>
    by_cases hy : y.name = n
    · simp [symbolOf, entry, hy]
    · have hn : (n == y.name) = false := beq_eq_false_iff_ne.mpr fun h ↦ hy h.symm
      have hf : (y.name == n) = false := by simpa using hy
      show List.lookup n ((y.name, y.type) :: σ.map entry) = _
      rw [List.lookup_cons, hn, ih]
      simp [symbolOf, hf]

theorem loadIdent_local {t : Ty} (hx : e.frame.lookup n = some x) (ht : isIntOrBool x.type = true)
    (h : (Lower.loadIdent s n).run e = .ok (t, e')) :
    t = x.type ∧ Emits e e' [.instr (.load .int x.slot)] := by
  unfold Lower.loadIdent at h
  obtain ⟨r, e₁, h₁, h⟩ := bind_ok h
  obtain ⟨hr, rfl⟩ := resolve_run h₁
  rcases resolve_local hx hr with ⟨c, rfl⟩ | rfl
  · cases h
  · obtain ⟨_, e₂, h₂, h⟩ := bind_ok h
    cases h
    have hk : ValueKind.of x.type = .int := valueKind_of ht
    simp only [isIntOrBool, Bool.or_eq_true, beq_iff_eq] at ht
    refine ⟨by rcases ht with ht | ht <;> rw [ht] <;> rfl, ?_⟩
    rw [← hk]
    exact emits_emit h₂

theorem identPlace_local {p : Place} (hx : e.frame.lookup n = some x)
    (h : (Lower.identPlace s n).run e = .ok (p, e')) : p = .loc x.slot x.type ∧ e' = e := by
  unfold Lower.identPlace at h
  obtain ⟨r, e₁, h₁, h⟩ := bind_ok h
  obtain ⟨hr, rfl⟩ := resolve_run h₁
  rcases resolve_local hx hr with ⟨c, rfl⟩ | rfl
  · cases h
  · cases h
    exact ⟨rfl, rfl⟩

theorem stepVar_local {d : Direction} {u : Unit} (hx : e.frame.lookup n = some x)
    (h : (Lower.stepVar s n d).run e = .ok (u, e')) :
    Emits e e' [.instr (.iinc x.slot (if d == .up then 1 else -1))] := by
  unfold Lower.stepVar at h
  obtain ⟨r, e₁, h₁, h⟩ := bind_ok h
  obtain ⟨hr, rfl⟩ := resolve_run h₁
  rcases resolve_local hx hr with ⟨c, rfl⟩ | rfl
  · -- a class name is no place to store into
    obtain ⟨p, e₂, h₂, -⟩ := bind_ok h
    obtain ⟨r', e₃, h₃, h₂⟩ := bind_ok h₂
    obtain ⟨hr', rfl⟩ := resolve_run h₃
    rw [hr] at hr'
    cases hr'
    cases h₂
  · exact emits_emit h

end Names

section Types

theorem isIntOrBool_cases {t : Ty} (h : isIntOrBool t = true) : t = .int ∨ t = .bool := by
  simpa only [isIntOrBool, Bool.or_eq_true, beq_iff_eq] using h

theorem result_intOrBool {op : BinOp} {tl tr t : Ty} (hl : isIntOrBool tl = true)
    (hr : isIntOrBool tr = true) (hd : op ≠ .div) (h : op.result tl tr = some t) :
    isIntOrBool t = true := by
  -- finitely many cases, read off the checker's rules
  have key : op ≠ .div → (op.result tl tr).all isIntOrBool = true := by
    rcases isIntOrBool_cases hl with rfl | rfl <;> rcases isIntOrBool_cases hr with rfl | rfl <;>
      cases op <;> decide
  simpa [h] using key hd

theorem result_bool {op : BinOp} {tl tr t : Ty} (hl : isIntOrBool tl = true)
    (hr : isIntOrBool tr = true) (hc : (op.isRelational || op.isEquality || op.isLogical) = true)
    (h : op.result tl tr = some t) : t = .bool := by
  have key : (op.isRelational || op.isEquality || op.isLogical) = true →
      (op.result tl tr).all (· == .bool) = true := by
    rcases isIntOrBool_cases hl with rfl | rfl <;> rcases isIntOrBool_cases hr with rfl | rfl <;>
      cases op <;> decide
  simpa [h] using key hc

theorem result_ne_concat {op : BinOp} {tl tr t : Ty} (hl : isIntOrBool tl = true)
    (hr : isIntOrBool tr = true) (h : op.result tl tr = some t) : op ≠ .concat := by
  have key : (op.result tl tr).isSome = true → op ≠ .concat := by
    rcases isIntOrBool_cases hl with rfl | rfl <;> rcases isIntOrBool_cases hr with rfl | rfl <;>
      cases op <;> decide
  exact key (by simp [h])

theorem unaryResult_eq {op : UnOp} {ta t : Ty} (ha : isIntOrBool ta = true)
    (h : op.result ta = some t) : t = ta := by
  have key : (op.result ta).all (· == ta) = true := by
    rcases isIntOrBool_cases ha with rfl | rfl <;> cases op <;> decide
  simpa [h] using key

theorem typeOf_intOrBool {Γ : Scope} : ∀ {e : Expr} {t : Ty}, typeOf Γ e = some t →
    isIntOrBool t = true
  | .lit (.int v) _, t, h => by
    simp only [typeOf] at h
    split at h
    · cases h
      rfl
    · cases h
  | .lit (.bool _) _, t, h => by
    cases h
    rfl
  | .ident n _, t, h => (Option.filter_eq_some_iff.mp h).2
  | .paren e _, t, h => typeOf_intOrBool (e := e) h
  | .unary op a _, t, h => by
    simp only [typeOf] at h
    split at h
    · cases h
    · obtain ⟨ta, ha, hr⟩ := Option.bind_eq_some_iff.mp h
      have hta := typeOf_intOrBool ha
      rw [unaryResult_eq hta hr]
      exact hta
  | .binary op l r _, t, h => by
    simp only [typeOf] at h
    split at h
    · cases h
    · obtain ⟨tl, hl, h⟩ := Option.bind_eq_some_iff.mp h
      obtain ⟨tr, hr, h⟩ := Option.bind_eq_some_iff.mp h
      exact result_intOrBool (typeOf_intOrBool hl) (typeOf_intOrBool hr) ‹_› h
  | .lit (.float _) _, _, h | .lit (.str _) _, _, h | .lit .nil _, _, h | .this _, _, h
  | .chain .., _, h | .array .., _, h | .new .., _, h => by simp [typeOf] at h

end Types

def Compiles (Γ : Scope) (e : Expr) (t : Ty) (m : EmitM Ty) : Prop :=
  ∀ e₀ t' e₁, e₀.frame.symbols.map entry = Γ → m.run e₀ = .ok (t', e₁) →
    t' = t ∧ ∃ c, ExprCode e₀.frame.symbols e c ∧ Emits e₀ e₁ c

section Operators

variable {e e' : Emitter}

theorem replay_emits {c : Captured} {target : Option Ty} {u : Unit}
    (ht : ∀ t, target = some t → isIntOrBool t = true) (h : (Lower.replay c target).run e = .ok (u, e')) :
    Emits e e' c.lines := by
  unfold Lower.replay at h
  obtain ⟨_, e₁, h₁, h⟩ := bind_ok h
  cases h₁
  obtain ⟨_, e₂, h₂, h⟩ := bind_ok h
  have k : Emits e e₂ c.lines :=
    ((⟨by simp, rfl⟩ : Emits e { e with lines := e.lines ++ c.lines.toArray } c.lines).trans
      (emits_rewind h₂)).of_eq (List.append_nil _)
  cases target with
  | none =>
    cases h
    exact k
  | some t =>
    obtain rfl := widen_nothing (ht t rfl) h
    exact k

theorem compare_tail {yes stop : Label} {u : Unit}
    (h : (do
      Emitter.emit (.pushInt 0)
      Emitter.emit (.goto stop)
      Emitter.label yes
      Emitter.rewind (-1)
      Emitter.emit (.pushInt 1)
      Emitter.label stop : EmitM Unit).run e = .ok (u, e')) :
    Emits e e' [.instr (.pushInt 0), .instr (.goto stop), .label yes, .instr (.pushInt 1),
      .label stop] := by
  obtain ⟨_, e₁, h₁, h⟩ := bind_ok h
  obtain ⟨_, e₂, h₂, h⟩ := bind_ok h
  obtain ⟨_, e₃, h₃, h⟩ := bind_ok h
  obtain ⟨_, e₄, h₄, h⟩ := bind_ok h
  obtain ⟨_, e₅, h₅, h⟩ := bind_ok h
  exact ((emits_emit h₁).trans ((emits_emit h₂).trans ((emits_label h₃).trans
    ((emits_rewind h₄).trans ((emits_emit h₅).trans (emits_label h)))))).of_eq (by simp)

theorem compare_code {op : BinOp} {lt : Ty} {rc : Captured} {u : Unit}
    (hl : isIntOrBool lt = true) (hr : isIntOrBool rc.type = true)
    (h : (Lower.compare op lt rc).run e = .ok (u, e')) :
    ∃ c yes stop, Cond.ofBinOp? op = some c ∧
      Emits e e' (rc.lines ++ [.instr (.ifICmp c yes), .instr (.pushInt 0), .instr (.goto stop),
        .label yes, .instr (.pushInt 1), .label stop]) := by
  unfold Lower.compare at h
  split at h
  · rename_i c hc
    obtain ⟨yes, e₁, h₁, h⟩ := bind_ok h
    obtain ⟨stop, e₂, h₂, h⟩ := bind_ok h
    have hf : (lt.isFloat || rc.type.isFloat) = false := by
      rcases isIntOrBool_cases hl with rfl | rfl <;> rcases isIntOrBool_cases hr with h' | h' <;>
        simp [h', Ty.isFloat]
    rw [if_neg (by simp [hf])] at h
    obtain ⟨_, e₃, h₃, h⟩ := bind_ok h
    rw [valueKind_of hl] at h
    obtain ⟨_, e₄, h₄, h⟩ := bind_ok h
    refine ⟨c, yes, stop, hc, ?_⟩
    exact (((emits_newLabel h₁).trans (emits_newLabel h₂)).trans ((replay_emits (by simp) h₃).trans
      ((emits_emit h₄).trans (compare_tail h)))).of_eq (by simp)
  · cases h

theorem binary_code {op : BinOp} {lt : Ty} {rc : Captured} {t t' : Ty}
    (hl : isIntOrBool lt = true) (hr : isIntOrBool rc.type = true) (hd : op ≠ .div)
    (ht : op.result lt rc.type = some t) (h : (Lower.binary op lt rc).run e = .ok (t', e')) :
    t' = t ∧ ((∃ c yes stop, Cond.ofBinOp? op = some c ∧
      Emits e e' (rc.lines ++ [.instr (.ifICmp c yes), .instr (.pushInt 0), .instr (.goto stop),
        .label yes, .instr (.pushInt 1), .label stop])) ∨
      ∃ k, ArithOp.ofBinOp? op = some k ∧ op ≠ .div ∧ Emits e e' (rc.lines ++ [.instr (.arith k .int)])) := by
  have htt := result_intOrBool hl hr hd ht
  unfold Lower.binary at h
  rw [ht] at h
  dsimp only at h
  split at h
  · exact absurd (by simpa using ‹(op == .concat) = true›) (result_ne_concat hl hr ht)
  split at h
  · rename_i hc
    obtain ⟨_, e₁, h₁, h⟩ := bind_ok h
    cases h
    exact ⟨(result_bool hl hr (by rw [hc, Bool.true_or]) ht).symm, .inl (compare_code hl hr h₁)⟩
  split at h
  · exact absurd (by simpa using ‹(op == .div) = true›) hd
  obtain ⟨_, e₁, h₁, h⟩ := bind_ok h
  obtain ⟨_, e₂, h₂, h⟩ := bind_ok h
  obtain ⟨_, e₃, h₃, h⟩ := bind_ok h
  rw [widen_nothing htt h₁] at h₂
  rw [valueKind_of htt] at h₃ h
  unfold Emitter.arithmetic at h₃
  split at h₃
  · rename_i k hk
    rw [if_neg (by simp)] at h
    cases h
    exact ⟨rfl, .inr ⟨k, hk, hd, (replay_emits (by simp [htt]) h₂).trans (emits_emit h₃)⟩⟩
  · cases h₃

end Operators

section Expressions

variable (s : Site) {Γ : Scope} {sp : Span}

theorem literal_compiles {l : Literal} {t : Ty} (ht : typeOf Γ (.lit l sp) = some t) :
    Compiles Γ (.lit l sp) t (Lower.lowerExpr s (.lit l sp)) := by
  intro e₀ t' e₁ _ h
  rw [Lower.lowerExpr] at h
  cases l with
  | int v =>
    simp only [typeOf] at ht
    split at ht
    · cases ht
      rw [Lower.literal] at h
      obtain ⟨_, e₂, h₂, h⟩ := bind_ok h
      cases h
      exact ⟨rfl, _, .int, (emits_emit h₂).of_eq rfl⟩
    · cases ht
  | bool b =>
    cases ht
    rw [Lower.literal] at h
    obtain ⟨_, e₂, h₂, h⟩ := bind_ok h
    cases h
    exact ⟨rfl, _, .bool, emits_emit h₂⟩
  | float _ | str _ | nil => simp [typeOf] at ht

theorem ident_compiles {n : String} {t : Ty} (ht : typeOf Γ (.ident n sp) = some t) :
    Compiles Γ (.ident n sp) t (Lower.lowerExpr s (.ident n sp)) := by
  intro e₀ t' e₁ hΓ h
  rw [Lower.lowerExpr] at h
  obtain ⟨hn, hti⟩ := Option.filter_eq_some_iff.mp ht
  rw [← hΓ, lookup_entries] at hn
  obtain ⟨x, hx, rfl⟩ := Option.map_eq_some_iff.mp hn
  obtain ⟨rfl, k⟩ := loadIdent_local hx hti h
  exact ⟨rfl, _, .ident hx, k⟩

theorem unary_compiles {op : UnOp} {a : Expr} {ta t : Ty} (hop : op ≠ .plus)
    (hta : isIntOrBool ta = true) (hr : op.result ta = some t)
    (ha : Compiles Γ a ta (Lower.lowerExpr s a)) :
    Compiles Γ (.unary op a sp) t (Lower.lowerExpr s (.unary op a sp)) := by
  intro e₀ t' e₁ hΓ h
  rw [Lower.lowerExpr] at h
  obtain ⟨t₁, e₂, h₂, h⟩ := bind_ok h
  obtain ⟨rfl, c, hc, k₂⟩ := ha e₀ t₁ e₂ hΓ h₂
  obtain ⟨_, e₃, h₃, h⟩ := bind_ok h
  cases h
  have htt := unaryResult_eq hta hr
  subst htt
  cases op with
  | plus => exact absurd rfl hop
  | neg =>
    rw [Lower.unary, valueKind_of hta] at h₃
    exact ⟨rfl, _, .neg hc, k₂.trans (emits_emit h₃)⟩
  | not =>
    rw [Lower.unary] at h₃
    obtain ⟨_, e₄, h₄, h₃⟩ := bind_ok h₃
    exact ⟨rfl, _, .not hc, (k₂.trans ((emits_emit h₄).trans (emits_emit h₃))).of_eq (by simp)⟩

theorem logical_compiles {op : BinOp} {l r : Expr} {tl tr : Ty} (hop : op.isLogical = true)
    (hl : Compiles Γ l tl (Lower.lowerExpr s l)) (hr : Compiles Γ r tr (Lower.lowerExpr s r)) :
    Compiles Γ (.binary op l r sp) .bool (Lower.lowerExpr s (.binary op l r sp)) := by
  intro e₀ t' e₁ hΓ h
  rw [Lower.lowerExpr, if_pos hop] at h
  unfold Lower.logical at h
  obtain ⟨short, e₂, h₂, h⟩ := bind_ok h
  obtain ⟨stop, e₃, h₃, h⟩ := bind_ok h
  have k₃ := (emits_newLabel h₂).trans (emits_newLabel h₃)
  obtain ⟨_, e₄, h₄, h⟩ := bind_ok h
  obtain ⟨-, cl, hcl, k₄⟩ := hl e₃ _ e₄ (by rw [k₃.symbols, hΓ]) h₄
  obtain ⟨_, e₅, h₅, h⟩ := bind_ok h
  obtain ⟨_, e₆, h₆, h⟩ := bind_ok h
  obtain ⟨-, cr, hcr, k₆⟩ := hr e₅ _ e₆
    (by rw [(k₄.trans (emits_emit h₅)).symbols, k₃.symbols, hΓ]) h₆
  obtain ⟨_, e₇, h₇, h⟩ := bind_ok h
  obtain ⟨_, e₈, h₈, h⟩ := bind_ok h
  obtain ⟨_, e₉, h₉, h⟩ := bind_ok h
  obtain ⟨_, e₁₀, h₁₀, h⟩ := bind_ok h
  obtain ⟨_, e₁₁, h₁₁, h⟩ := bind_ok h
  cases h
  -- the test and the pushed value are those of the operator
  have h₅' : (Emitter.emit (.ifZero (shortTest op).1 short)).run e₄ = .ok (_, e₅) := h₅
  have h₁₀' : (Emitter.emit (.pushInt (shortTest op).2)).run e₉ = .ok (_, e₁₀) := h₁₀
  rw [k₃.symbols] at hcl
  rw [(k₄.trans (emits_emit h₅)).symbols, k₃.symbols] at hcr
  refine ⟨rfl, _, .logical short stop hop hcl hcr, ?_⟩
  exact (k₃.trans (k₄.trans ((emits_emit h₅').trans (k₆.trans ((emits_emit h₇).trans
    ((emits_label h₈).trans ((emits_rewind h₉).trans ((emits_emit h₁₀').trans
      (emits_label h₁₁))))))))).of_eq (by simp)

theorem binary_compiles {op : BinOp} {l r : Expr} {tl tr t : Ty} (hop : op.isLogical = false)
    (hd : op ≠ .div) (htl : isIntOrBool tl = true) (htr : isIntOrBool tr = true)
    (ht : op.result tl tr = some t)
    (hl : Compiles Γ l tl (Lower.lowerExpr s l)) (hr : Compiles Γ r tr (Lower.lowerExpr s r)) :
    Compiles Γ (.binary op l r sp) t (Lower.lowerExpr s (.binary op l r sp)) := by
  intro e₀ t' e₁ hΓ h
  rw [Lower.lowerExpr, if_neg (by simp [hop])] at h
  obtain ⟨lt, e₂, h₂, h⟩ := bind_ok h
  obtain ⟨rfl, cl, hcl, k₂⟩ := hl e₀ lt e₂ hΓ h₂
  obtain ⟨rc, e₃, h₃, h⟩ := bind_ok h
  -- the right operand is compiled ahead over the same locals, and its lines cut out
  obtain ⟨f₁, st₂, f₃, hf₁, hin, hlines, hf₃, rfl⟩ := capture_ok h₃
  have hs₁ : ({ e₂ with frame := f₁ } : Emitter).frame.symbols = e₀.frame.symbols := by
    rw [← k₂.symbols]
    exact congrArg Prod.fst (scopeOf_adjust hf₁)
  obtain ⟨hrt, cr, hcr, kin⟩ := hr _ _ _ (by rw [hs₁, hΓ]) hin
  obtain ⟨hcode, hrest⟩ := extract_of_toList kin.lines
  rw [← hlines] at hcode
  have k₃ : Emits e₂ { st₂ with lines := st₂.lines.extract 0 e₂.lines.size, frame := f₃ } [] :=
    ⟨by simp [hrest], (scopeOf_adjust hf₃).trans (kin.scope.trans (scopeOf_adjust hf₁))⟩
  rw [hs₁] at hcr
  rw [← hrt] at htr ht
  obtain ⟨rfl, hb⟩ := binary_code htl htr hd ht h
  rcases hb with ⟨c, yes, stop, hc, kb⟩ | ⟨k, hk, -, kb⟩
  · rw [hcode] at kb
    exact ⟨rfl, _, .compare yes stop hc hcl hcr, (k₂.trans (k₃.trans kb)).of_eq (by simp)⟩
  · rw [hcode] at kb
    exact ⟨rfl, _, .arith hk hd hcl hcr, (k₂.trans (k₃.trans kb)).of_eq (by simp)⟩

theorem lowerExpr_compiles : ∀ (e : Expr) {Γ : Scope} {t : Ty}, typeOf Γ e = some t →
    Compiles Γ e t (Lower.lowerExpr s e)
  | .lit l sp, _, _, ht => literal_compiles s ht
  | .ident n sp, _, _, ht => ident_compiles s ht
  | .paren e sp, _, _, ht => by
    intro e₀ t' e₁ hΓ h
    rw [Lower.lowerExpr] at h
    obtain ⟨rfl, c, hc, k⟩ := lowerExpr_compiles e ht e₀ t' e₁ hΓ h
    exact ⟨rfl, c, .paren hc, k⟩
  | .unary op a sp, Γ, t, ht => by
    simp only [typeOf] at ht
    split at ht
    · cases ht
    · obtain ⟨ta, ha, hr⟩ := Option.bind_eq_some_iff.mp ht
      exact unary_compiles s ‹_› (typeOf_intOrBool ha) hr (lowerExpr_compiles a ha)
  | .binary op l r sp, Γ, t, ht => by
    simp only [typeOf] at ht
    split at ht
    · cases ht
    · obtain ⟨tl, hl, ht⟩ := Option.bind_eq_some_iff.mp ht
      obtain ⟨tr, hr, ht⟩ := Option.bind_eq_some_iff.mp ht
      cases hop : op.isLogical
      · exact binary_compiles s hop ‹_› (typeOf_intOrBool hl) (typeOf_intOrBool hr) ht
          (lowerExpr_compiles l hl) (lowerExpr_compiles r hr)
      · -- `&&` and `||` give booleans
        obtain rfl : t = .bool :=
          result_bool (typeOf_intOrBool hl) (typeOf_intOrBool hr) (by simp [hop]) ht
        exact logical_compiles s hop (lowerExpr_compiles l hl) (lowerExpr_compiles r hr)
  | .this _, _, _, ht | .chain .., _, _, ht | .array .., _, _, ht | .new .., _, _, ht => by
    simp [typeOf] at ht

end Expressions

end ClassLang.Proofs.IntCode
