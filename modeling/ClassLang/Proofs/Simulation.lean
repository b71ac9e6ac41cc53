import ClassLang.Proofs.StmtCode

namespace ClassLang.Proofs.Simulation

open ClassLang Machine IntSemantics IntCode StmtCode

section Values

theorem toInt_eq_zero {w : Word} : w.toInt = 0 ↔ w = 0 := by
  rw [← BitVec.toInt_zero, BitVec.toInt_inj]
  rfl

theorem word_bool (b : Bool) : (Val.bool b).word = BitVec.ofInt 32 (if b then 1 else 0) := by
  cases b <;> rfl

theorem word_not (b : Bool) : (Val.bool (!b)).word = (Val.bool b).word ^^^ BitVec.ofInt 32 1 := by
  cases b <;> decide

theorem asBool_ok {v : Val} {b : Bool} (h : v.asBool = .ok b) : v = .bool b := by
  cases v with
  | int w => cases h
  | bool c => cases h; rfl

theorem unaryVal_neg {a v : Val} (h : unaryVal .neg a = .ok v) : ∃ w, a = .int w ∧ v = .int (-w) := by
  cases a with
  | int w =>
    cases h
    exact ⟨w, rfl, by rw [wrap, BitVec.ofInt_neg, BitVec.ofInt_toInt]⟩
  | bool b => cases h

theorem unaryVal_not {a v : Val} (h : unaryVal .not a = .ok v) : ∃ b, a = .bool b ∧ v = .bool !b := by
  cases a with
  | int w => cases h
  | bool b =>
    cases h
    exact ⟨b, rfl, rfl⟩

theorem unaryVal_error {op : UnOp} {a : Val} : unaryVal op a ≠ .error .divZero := by
  cases op <;> cases a <;> simp [unaryVal]

theorem binaryVal_arith {op : BinOp} {k : ArithOp} {a b v : Val}
    (hk : ArithOp.ofBinOp? op = some k) (h : binaryVal op a b = .ok v) :
    arith? k a.word b.word = some v.word := by
  cases a <;> cases b <;> cases op <;>
    simp only [ArithOp.ofBinOp?, reduceCtorEq, Option.some.injEq] at hk <;> subst hk <;>
    simp only [binaryVal, reduceCtorEq] at h
  case int.int.add x y =>
    cases h
    simp only [Val.word, arith?, wrap, BitVec.ofInt_add, BitVec.ofInt_toInt]
  case int.int.sub x y =>
    cases h
    simp only [Val.word, arith?, wrap, Option.some.injEq]
    apply BitVec.eq_of_toInt_eq
    rw [BitVec.toInt_sub, BitVec.toInt_ofInt]
  case int.int.mul x y =>
    cases h
    simp only [Val.word, arith?, wrap, BitVec.ofInt_mul, BitVec.ofInt_toInt]
  case int.int.intDiv x y =>
    split at h
    · cases h
    · rename_i hy
      cases h
      rw [arith?, if_neg (show (Val.int y).word ≠ 0 from mt toInt_eq_zero.mpr hy)]
      simp only [Val.word, wrap, Option.some.injEq]
      apply BitVec.eq_of_toInt_eq
      rw [BitVec.toInt_sdiv, BitVec.toInt_ofInt]
  case int.int.mod x y =>
    split at h
    · cases h
    · rename_i hy
      cases h
      rw [arith?, if_neg (show (Val.int y).word ≠ 0 from mt toInt_eq_zero.mpr hy)]
      simp only [Val.word, wrap, ← BitVec.toInt_srem, BitVec.ofInt_toInt]

theorem binaryVal_divZero {op : BinOp} {a b : Val} (h : binaryVal op a b = .error .divZero)
    {k : ArithOp} (hk : ArithOp.ofBinOp? op = some k) : arith? k a.word b.word = none := by
  cases a <;> cases b <;> cases op <;> simp only [binaryVal, reduceCtorEq, Except.error.injEq] at h
  all_goals
    split at h
    · simp only [ArithOp.ofBinOp?, Option.some.injEq] at hk
      subst hk
      rw [arith?, if_pos (toInt_eq_zero.mp ‹_›)]
    · cases h

theorem binaryVal_compare {op : BinOp} {c : Cond} {a b v : Val} (hc : Cond.ofBinOp? op = some c)
    (h : binaryVal op a b = .ok v) : v = .bool (holds c a.word b.word) := by
  cases a <;> cases b <;> cases op <;>
    simp only [Cond.ofBinOp?, reduceCtorEq, Option.some.injEq] at hc <;> subst hc <;>
    simp only [binaryVal, reduceCtorEq] at h <;> cases h <;> congr 1
  -- booleans are equal exactly when their words are
  all_goals rename_i b c; cases b <;> cases c <;> decide

theorem holds_shortTest {op : BinOp} (hop : op.isLogical = true) (b : Bool) :
    holds (shortTest op).1 (Val.bool b).word 0 = decide (b = (op == .or)) := by
  cases op <;> simp only [BinOp.isLogical, reduceCtorEq] at hop <;> cases b <;> decide

theorem pushed_shortTest {op : BinOp} (hop : op.isLogical = true) :
    BitVec.ofInt 32 (shortTest op).2 = (Val.bool (op == .or)).word := by
  cases op <;> simp only [BinOp.isLogical, reduceCtorEq] at hop <;> decide

end Values

section Evaluation

variable {α : Type} {ρ : Env}

theorem bind_eq_ok {β : Type} {x : Except Fault α} {f : α → Except Fault β} {v : β}
    (h : x.bind f = .ok v) : ∃ a, x = .ok a ∧ f a = .ok v := by
  cases x with
  | error e => cases h
  | ok a => exact ⟨a, rfl, h⟩

theorem bind_eq_error {β : Type} {x : Except Fault α} {f : α → Except Fault β} {e : Fault}
    (h : x.bind f = .error e) : x = .error e ∨ ∃ a, x = .ok a ∧ f a = .error e := by
  cases x with
  | error e' => cases h; exact .inl rfl
  | ok a => exact .inr ⟨a, rfl, h⟩

theorem asBool_ne_divZero (v : Val) : v.asBool ≠ .error .divZero := by
  cases v <;> simp [Val.asBool]

theorem isLogical_of_arith {op : BinOp} {k : ArithOp} (hk : ArithOp.ofBinOp? op = some k) :
    op.isLogical = false := by
  cases op <;> simp_all [ArithOp.ofBinOp?, BinOp.isLogical]

theorem isLogical_of_compare {op : BinOp} {c : Cond} (hc : Cond.ofBinOp? op = some c) :
    op.isLogical = false := by
  cases op <;> simp_all [Cond.ofBinOp?, BinOp.isLogical]

theorem binaryVal_compare_ne {op : BinOp} {c : Cond} (hc : Cond.ofBinOp? op = some c)
    (a b : Val) : binaryVal op a b ≠ .error .divZero := by
  cases op <;> simp only [Cond.ofBinOp?, reduceCtorEq] at hc <;> cases a <;> cases b <;>
    simp [binaryVal]

theorem eval_binary {op : BinOp} {l r : Expr} {sp : Span} (hop : op.isLogical = false) :
    eval ρ (.binary op l r sp) = (eval ρ l).bind fun a ↦ (eval ρ r).bind (binaryVal op a) := by
  simp [eval, hop]

theorem eval_logical {op : BinOp} {l r : Expr} {sp : Span} (hop : op.isLogical = true) :
    eval ρ (.binary op l r sp) = (eval ρ l).bind fun a ↦ a.asBool.bind fun b ↦
      if b = (op == .or) then .ok (.bool b) else (eval ρ r).bind fun c ↦ c.asBool.map .bool := by
  simp [eval, hop]

end Evaluation

section Holding

variable {σ : List LocalSym} {ρ : Env} {L : Locals}

/-- The locals `σ` in scope name the variables `ρ` in order, and each one's slot holds the word of
its variable's value. -/
def Holds (σ : List LocalSym) (ρ : Env) (L : Locals) : Prop :=
  List.Forall₂ (fun x nv ↦ x.name = nv.1 ∧ L x.slot = nv.2.word) σ ρ

theorem Holds.length (h : Holds σ ρ L) : σ.length = ρ.length :=
  List.Forall₂.length_eq h

theorem Holds.find (h : Holds σ ρ L) (n : String) :
    (symbolOf σ n).map (fun x ↦ L x.slot) = (ρ.lookup n).map Val.word := by
  induction h with
  | nil => rfl
  | @cons x nv σ ρ hx _ ih =>
    obtain ⟨m, v⟩ := nv
    obtain ⟨hm, hv⟩ := hx
    simp only at hm hv
    subst hm
    by_cases hn : x.name = n
    · simp [symbolOf, hn, hv]
    · have hn' : (n == x.name) = false := beq_false_of_ne (Ne.symm hn)
      simpa [symbolOf, List.lookup_cons, hn, hn'] using ih

theorem Holds.lookup {n : String} {x : LocalSym} {v : Val} (h : Holds σ ρ L)
    (hx : symbolOf σ n = some x) (hv : ρ.lookup n = some v) : L x.slot = v.word := by
  simpa [hx, hv] using h.find n

theorem Holds.update_of_not_mem {k : Nat} {w : Word} (h : Holds σ ρ L)
    (hk : k ∉ σ.map (·.slot)) : Holds σ ρ (Function.update L k w) := by
  induction h with
  | nil => exact List.Forall₂.nil
  | @cons x nv σ ρ hx _ ih =>
    simp only [List.map_cons, List.mem_cons, not_or] at hk
    refine List.Forall₂.cons ⟨hx.1, ?_⟩ (ih hk.2)
    rw [Function.update_of_ne (Ne.symm hk.1), hx.2]

theorem Holds.cons {x : LocalSym} {v : Val} (h : Holds σ ρ L) (hk : x.slot ∉ σ.map (·.slot)) :
    Holds (x :: σ) ((x.name, v) :: ρ) (Function.update L x.slot v.word) :=
  List.Forall₂.cons ⟨rfl, Function.update_self ..⟩ (h.update_of_not_mem hk)

theorem Holds.tail {x : LocalSym} {nv : String × Val} (h : Holds (x :: σ) (nv :: ρ) L) :
    Holds σ ρ L :=
  (List.forall₂_cons.mp h).2

theorem Holds.assign {n : String} {x : LocalSym} {v : Val} (h : Holds σ ρ L)
    (hd : (σ.map (·.slot)).Nodup) (hx : symbolOf σ n = some x) :
    Holds σ (assign ρ n v) (Function.update L x.slot v.word) := by
  induction h with
  | nil => cases hx
  | @cons y nv σ ρ hy hrest ih =>
    obtain ⟨m, u⟩ := nv
    obtain ⟨hm, hu⟩ := hy
    simp only at hm hu
    subst hm
    simp only [List.map_cons, List.nodup_cons] at hd
    by_cases hn : y.name = n
    · -- the innermost local of the name is the head
      have hxy : x = y := by simpa [symbolOf, hn] using hx.symm
      subst hxy
      rw [IntSemantics.assign, if_pos hn]
      exact Holds.cons hrest hd.1
    · have hx' : symbolOf σ n = some x := by simpa [symbolOf, hn] using hx
      have hmem : x.slot ∈ σ.map (·.slot) :=
        List.mem_map_of_mem (List.mem_of_find?_eq_some hx')
      have hne : y.slot ≠ x.slot := fun he ↦ hd.1 (he ▸ hmem)
      rw [IntSemantics.assign, if_neg hn]
      refine List.Forall₂.cons ⟨rfl, ?_⟩ (ih hd.2 hx')
      rw [Function.update_of_ne hne, hu]

theorem Holds.words (h : Holds σ ρ L) : σ.map (fun x ↦ L x.slot) = ρ.map (·.2.word) := by
  induction h with
  | nil => rfl
  | cons hx _ ih => simp [hx.2, ih]

theorem Holds.words_range {k n : Nat} (h : Holds σ ρ L)
    (hs : σ.map (·.slot) = (List.range' k n).reverse) :
    (List.range' k ρ.length).map L = ρ.reverse.map (·.2.word) := by
  have hn : n = ρ.length := by
    rw [← h.length]
    simpa using (congrArg List.length hs).symm
  subst hn
  have hw := h.words
  rw [show σ.map (fun x ↦ L x.slot) = (σ.map (·.slot)).map L by simp, hs, List.map_reverse] at hw
  rw [List.map_reverse, ← hw, List.reverse_reverse]

theorem Holds.drop_bindAll {ps : List Lower.Pending} {ρ₀ ρ₂ : Env} (h : Holds (bindAll σ ps) ρ₂ L)
    (hl : σ.length = ρ₀.length) : Holds σ (ρ₂.drop (ρ₂.length - ρ₀.length)) L := by
  have hlen : ρ₂.length - ρ₀.length = ps.length := by
    rw [← h.length, ← hl]
    simp [bindAll]
  have hd := List.forall₂_drop ps.length h
  rwa [bindAll, List.drop_left' (by simp), ← hlen] at hd

end Holding

section Expressions

variable {code : List Line} {σ : List LocalSym} {ρ : Env} {L : Locals} {s : List Word}

theorem runs_to {a : Conf} {q q' : Nat} (h : Runs code a (.run q s L)) (hq : q = q') :
    Runs code a (.run q' s L) :=
  hq ▸ h

theorem effect_ifZero (c : Cond) (l : Label) (a : Word) :
    effect (.ifZero c l) (a :: s) L = some (if holds c a 0 then .jump l s L else .next s L) :=
  rfl

theorem shortcut_effect {op : BinOp} (hop : op.isLogical = true) (b : Bool) (short : Label) :
    effect (.ifZero (shortTest op).1 short) ((Val.bool b).word :: s) L =
      some (if b = (op == .or) then .jump short s L else .next s L) := by
  rw [effect_ifZero, holds_shortTest hop]
  simp

theorem At.shift {p p' : Nat} {cs : List Line} (h : At code p cs) (hp : p = p') : At code p' cs :=
  hp ▸ h

theorem At.parts {p : Nat} {c₁ c₂ c₃ : List Line} (h : At code p (c₁ ++ c₂ ++ c₃)) :
    At code p c₁ ∧ At code (p + c₁.length) c₂ ∧ At code (p + c₁.length + c₂.length) c₃ := by
  have h₃ := h.right
  rw [List.length_append, ← Nat.add_assoc] at h₃
  exact ⟨h.left.left, h.left.right, h₃⟩

theorem compare_tail_runs {q : Nat} {t : Cond} {yes stop : Label} (x y : Word)
    (h : At code q [.instr (.ifICmp t yes), .instr (.pushInt 0), .instr (.goto stop), .label yes,
      .instr (.pushInt 1), .label stop]) :
    Runs code (.run q (y :: x :: s) L) (.run (q + 6) ((Val.bool (holds t x y)).word :: s) L) := by
  rw [word_bool]
  cases ht : holds t x y
  · -- zero, then the jump over the true case
    have he : effect (.ifICmp t yes) (y :: x :: s) L = some (.next s L) := by simp [effect, ht]
    exact (((Relation.ReflTransGen.single (.next (h.getElem (i := 0) rfl) he)).tail
      (.next (h.getElem (i := 1) rfl) rfl)).tail
      (.jump (h.getElem (i := 2) rfl) rfl (h.getElem (i := 5) rfl))).tail
      (.pass (h.getElem (i := 5) rfl) rfl)
  · have he : effect (.ifICmp t yes) (y :: x :: s) L = some (.jump yes s L) := by simp [effect, ht]
    exact (((Relation.ReflTransGen.single (.jump (h.getElem (i := 0) rfl) he
      (h.getElem (i := 3) rfl))).tail (.pass (h.getElem (i := 3) rfl) rfl)).tail
      (.next (h.getElem (i := 4) rfl) rfl)).tail (.pass (h.getElem (i := 5) rfl) rfl)

/-- The code of an expression with a value pushes the value's word and goes on after itself. -/
theorem expr_value_runs (hH : Holds σ ρ L) {e : Expr} {c : List Line} (hc : ExprCode σ e c) :
    ∀ {p : Nat} {s : List Word} {v : Val}, At code p c → eval ρ e = .ok v →
      Runs code (.run p s L) (.run (p + c.length) (v.word :: s) L) := by
  induction hc with
  | @int k sp =>
    intro p s v hat hv
    cases hv
    exact .single (.next hat.head rfl)
  | @bool b sp =>
    intro p s v hat hv
    cases hv
    exact .single (.next hat.head (by rw [word_bool]; rfl))
  | @ident n sp x hx =>
    intro p s v hat hv
    simp only [eval] at hv
    split at hv
    · rename_i u hu
      cases hv
      rw [← hH.lookup hx hu]
      exact .single (.next hat.head rfl)
    · cases hv
  | @paren e sp c h ih =>
    intro p s v hat hv
    exact ih hat hv
  | @neg a sp c h ih =>
    intro p s v hat hv
    obtain ⟨u, hu, hneg⟩ := bind_eq_ok hv
    obtain ⟨w, rfl, rfl⟩ := unaryVal_neg hneg
    exact runs_to ((ih hat.left hu).tail (.next hat.right.head rfl)) (by grind)
  | @not a sp c h ih =>
    intro p s v hat hv
    obtain ⟨u, hu, hnot⟩ := bind_eq_ok hv
    obtain ⟨b, rfl, rfl⟩ := unaryVal_not hnot
    have he : effect .ixor (BitVec.ofInt 32 1 :: (Val.bool b).word :: s) L =
        some (.next ((Val.bool !b).word :: s) L) := by
      rw [word_not]
      rfl
    exact runs_to (((ih hat.left hu).tail (.next hat.right.head rfl)).tail
      (.next hat.right.tail.head he)) (by grind)
  | @arith op l r sp cl cr k hk hd hl hr ihl ihr =>
    intro p s v hat hv
    rw [eval_binary (isLogical_of_arith hk)] at hv
    obtain ⟨a, ha, hv⟩ := bind_eq_ok hv
    obtain ⟨b, hb, hv⟩ := bind_eq_ok hv
    obtain ⟨h₁, h₂, h₃⟩ := At.parts hat
    have he : effect (.arith k .int) (b.word :: a.word :: s) L = some (.next (v.word :: s) L) := by
      simp only [effect, binaryVal_arith hk hv]
      rfl
    exact runs_to (((ihl h₁ ha).trans (ihr h₂ hb)).tail (.next h₃.head he)) (by grind)
  | @compare op l r sp cl cr t yes stop hc hl hr ihl ihr =>
    intro p s v hat hv
    rw [eval_binary (isLogical_of_compare hc)] at hv
    obtain ⟨a, ha, hv⟩ := bind_eq_ok hv
    obtain ⟨b, hb, hv⟩ := bind_eq_ok hv
    obtain rfl := binaryVal_compare hc hv
    obtain ⟨h₁, h₂, h₃⟩ := At.parts hat
    exact runs_to (((ihl h₁ ha).trans (ihr h₂ hb)).trans (compare_tail_runs a.word b.word h₃))
      (by grind)
  | @logical op l r sp cl cr short stop hop hl hr ihl ihr =>
    intro p s v hat hv
    rw [eval_logical hop] at hv
    obtain ⟨a, ha, hv₁⟩ := bind_eq_ok hv
    obtain ⟨b, hb, hv₂⟩ := bind_eq_ok hv₁
    obtain rfl := asBool_ok hb
    obtain ⟨h₁, h₂, h₃⟩ := At.parts hat
    have r₁ := ihl h₁ ha (s := s)
    split at hv₂
    · -- the left operand decides: jump to the deciding value
      rename_i hdec
      cases hv₂
      have he : effect (.ifZero (shortTest op).1 short) ((Val.bool b).word :: s) L =
          some (.jump short s L) := by
        rw [shortcut_effect hop, if_pos hdec]
      have hpush : effect (.pushInt (shortTest op).2) s L =
          some (.next ((Val.bool b).word :: s) L) := by
        rw [hdec, ← pushed_shortTest hop]
        rfl
      have r₂ := r₁.tail (.jump h₂.head he (h₃.getElem (i := 1) rfl))
      have r₃ := (r₂.tail (.pass (h₃.getElem (i := 1) rfl) rfl)).tail
        (.next (h₃.getElem (i := 2) rfl) hpush)
      exact runs_to (r₃.tail (.pass (h₃.getElem (i := 3) rfl) rfl)) (by grind)
    · -- the right operand's value is the result
      rename_i hdec
      obtain ⟨u, hu, hv₃⟩ := bind_eq_ok hv₂
      obtain ⟨b', hb', rfl⟩ : ∃ b', u.asBool = .ok b' ∧ v = .bool b' := by
        cases hc : u.asBool with
        | error e => rw [hc] at hv₃; cases hv₃
        | ok b' => rw [hc] at hv₃; cases hv₃; exact ⟨b', rfl, rfl⟩
      obtain rfl := asBool_ok hb'
      have he : effect (.ifZero (shortTest op).1 short) ((Val.bool b).word :: s) L =
          some (.next s L) := by
        rw [shortcut_effect hop, if_neg hdec]
      have r₂ := (r₁.tail (.next h₂.head he)).trans (ihr h₂.tail hu (s := s))
      have h₄ := At.shift h₃ (show _ = p + cl.length + 1 + cr.length by simp; omega)
      have r₃ := r₂.tail (.jump (h₄.getElem (i := 0) rfl) rfl (h₄.getElem (i := 3) rfl))
      exact runs_to (r₃.tail (.pass (h₄.getElem (i := 3) rfl) rfl)) (by simp; omega)

theorem expr_fault_runs (hH : Holds σ ρ L) {e : Expr} {c : List Line} (hc : ExprCode σ e c) :
    ∀ {p : Nat} {s : List Word}, At code p c → eval ρ e = .error .divZero →
      Runs code (.run p s L) (.threw L) := by
  induction hc with
  | int | bool =>
    intro p s hat hv
    cases hv
  | @ident n sp x hx =>
    intro p s hat hv
    simp only [eval] at hv
    split at hv <;> cases hv
  | @paren e sp c h ih =>
    intro p s hat hv
    exact ih hat hv
  | @neg a sp c h ih | @not a sp c h ih =>
    intro p s hat hv
    rcases bind_eq_error hv with hu | ⟨u, -, hu⟩
    · exact ih hat.left hu
    · exact absurd hu unaryVal_error
  | @arith op l r sp cl cr k hk hd hl hr ihl ihr =>
    intro p s hat hv
    rw [eval_binary (isLogical_of_arith hk)] at hv
    obtain ⟨h₁, h₂, h₃⟩ := At.parts hat
    rcases bind_eq_error hv with ha | ⟨a, ha, hv₁⟩
    · exact ihl h₁ ha
    have r₁ := expr_value_runs hH hl h₁ ha (s := s)
    rcases bind_eq_error hv₁ with hb | ⟨b, hb, hv₂⟩
    · exact r₁.trans (ihr h₂ hb)
    -- both operands have values: the instruction divides by zero
    have he : effect (.arith k .int) (b.word :: a.word :: s) L = some .threw := by
      simp only [effect, binaryVal_divZero hv₂ hk]
      rfl
    exact (r₁.trans (expr_value_runs hH hr h₂ hb)).tail (.threw h₃.head he)
  | @compare op l r sp cl cr t yes stop hc hl hr ihl ihr =>
    intro p s hat hv
    rw [eval_binary (isLogical_of_compare hc)] at hv
    obtain ⟨h₁, h₂, -⟩ := At.parts hat
    rcases bind_eq_error hv with ha | ⟨a, ha, hv₁⟩
    · exact ihl h₁ ha
    rcases bind_eq_error hv₁ with hb | ⟨b, -, hv₂⟩
    · exact (expr_value_runs hH hl h₁ ha).trans (ihr h₂ hb)
    · exact absurd hv₂ (binaryVal_compare_ne hc a b)
  | @logical op l r sp cl cr short stop hop hl hr ihl ihr =>
    intro p s hat hv
    rw [eval_logical hop] at hv
    obtain ⟨h₁, h₂, -⟩ := At.parts hat
    rcases bind_eq_error hv with ha | ⟨a, ha, hv₁⟩
    · exact ihl h₁ ha
    rcases bind_eq_error hv₁ with hb | ⟨b, hb, hv₂⟩
    · exact absurd hb (asBool_ne_divZero a)
    obtain rfl := asBool_ok hb
    split at hv₂
    · cases hv₂
    · -- the left operand does not decide, and the right one divides by zero
      rename_i hdec
      rcases bind_eq_error hv₂ with hu | ⟨u, -, hu⟩
      · have he : effect (.ifZero (shortTest op).1 short) ((Val.bool b).word :: s) L =
            some (.next s L) := by
          rw [shortcut_effect hop, if_neg hdec]
        exact ((expr_value_runs hH hl h₁ ha).tail (.next h₂.head he)).trans (ihr h₂.tail hu)
      · cases hb' : u.asBool with
        | ok b' =>
          rw [hb'] at hu
          cases hu
        | error e =>
          rw [hb'] at hu
          cases hu
          exact absurd hb' (asBool_ne_divZero u)

end Expressions

section Loops

theorem holds_exitTest (d : Direction) (x y : Word) :
    holds (exitTest d) x y = !continues d x y := by
  cases d with
  | up =>
    show holds .gt x y = !continues .up x y
    simp only [holds, continues, BitVec.slt, ← decide_not, Int.not_le]
  | down =>
    show holds .lt x y = !continues .down x y
    simp only [holds, continues, BitVec.slt, ← decide_not, Int.not_le]

theorem stepped_eq (d : Direction) (x : Word) : stepped d x = x + BitVec.ofInt 32 (stepBy d) := by
  cases d with
  | up => simp only [stepped, wrap, stepBy, BitVec.ofInt_add, BitVec.ofInt_toInt]; rfl
  | down =>
    simp only [stepped, wrap, stepBy, Int.sub_eq_add_neg, BitVec.ofInt_add, BitVec.ofInt_toInt]
    rfl

end Loops

/-- Where the code of a task, run from `start` with the stack `s`, gets to when the task ends with
outcome `o` and the locals hold `L`: on to `q`, the line after the code, when it ends normally; to
any line placing the break or continue label of the innermost open loop; returned with the word
of the returned value; or stopped by the exception. -/
def Finishes (code : List Line) (start : Conf) (q : Nat) (ls : List LoopLabels) (s : List Word)
    (L : Locals) : Outcome → Prop
  | .normal => Runs code start (.run q s L)
  | .brk => ∃ l ∈ ls.head?, ∀ j, code[j]? = some (.label l.brk) → Runs code start (.run j s L)
  | .cont => ∃ l ∈ ls.head?, ∀ j, code[j]? = some (.label l.cont) → Runs code start (.run j s L)
  | .ret v => Runs code start (.ret (v.map Val.word) L)
  | .fault => Runs code start (.threw L)

namespace Finishes

variable {code : List Line} {a b : Conf} {q q' : Nat} {ls : List LoopLabels} {s : List Word}
  {L : Locals} {o : Outcome}

theorem head (h : Runs code a b) (hf : Finishes code b q ls s L o) :
    Finishes code a q ls s L o := by
  cases o with
  | normal | ret _ | fault => exact h.trans hf
  | brk | cont =>
    obtain ⟨l, hl, hj⟩ := hf
    exact ⟨l, hl, fun j hlj ↦ h.trans (hj j hlj)⟩

theorem tail (hf : Finishes code a q ls s L o) (h : Runs code (.run q s L) (.run q' s L)) :
    Finishes code a q' ls s L o := by
  cases o with
  | normal => exact hf.trans h
  | brk | cont | ret _ | fault => exact hf

theorem of_eq (hf : Finishes code a q ls s L o) (hq : q = q') : Finishes code a q' ls s L o :=
  hq ▸ hf

theorem retarget (ho : o ≠ .normal) (hf : Finishes code a q ls s L o) :
    Finishes code a q' ls s L o := by
  cases o with
  | normal => exact absurd rfl ho
  | brk | cont | ret _ | fault => exact hf

theorem escape {ls' : List LoopLabels} (ho : o = .fault ∨ ∃ r, o = .ret r)
    (hf : Finishes code a q ls s L o) : Finishes code a q' ls' s L o := by
  rcases ho with rfl | ⟨r, rfl⟩ <;> exact hf

end Finishes

section Statements

variable {code : List Line} {σ : List LocalSym} {ρ : Env} {L : Locals} {s : List Word}

theorem zeroOf_word (t : Ty) : (zeroOf t).word = BitVec.ofInt 32 0 := by
  unfold zeroOf
  split <;> rfl

theorem runs_goto {q j : Nat} {l : Label} (h : code[q]? = some (.instr (.goto l)))
    (hj : code[j]? = some (.label l)) : Runs code (.run q s L) (.run (j + 1) s L) :=
  (Relation.ReflTransGen.single (.jump h rfl hj)).tail (.pass hj rfl)

theorem runs_ifFalse_true {q : Nat} {l : Label} (h : code[q]? = some (.instr (.ifFalse l))) :
    Runs code (.run q ((Val.bool true).word :: s) L) (.run (q + 1) s L) :=
  .single (.next h rfl)

theorem runs_ifFalse_false {q j : Nat} {l : Label} (h : code[q]? = some (.instr (.ifFalse l)))
    (hj : code[j]? = some (.label l)) :
    Runs code (.run q ((Val.bool false).word :: s) L) (.run (j + 1) s L) :=
  (Relation.ReflTransGen.single (.jump h rfl hj)).tail (.pass hj rfl)

theorem slot_free {x : LocalSym} {ps : List Lower.Pending}
    (h : ((bindAll (x :: σ) ps).map (·.slot)).Nodup) : x.slot ∉ σ.map (·.slot) := by
  rw [bindAll, List.map_append, List.nodup_append, List.map_cons, List.nodup_cons] at h
  exact h.2.1.1

theorem init_runs {ps : List Lower.Pending} {cs : List Line} (hi : InitCode σ ps cs) :
    ∀ {ρ : Env} {L : Locals} {p : Nat}, Holds σ ρ L → ((bindAll σ ps).map (·.slot)).Nodup →
      At code p cs →
      (∀ ρ₁, declare ρ (ps.map entryOf) = .ok ρ₁ →
        ∃ L₁, Holds (bindAll σ ps) ρ₁ L₁ ∧ Runs code (.run p s L) (.run (p + cs.length) s L₁)) ∧
      (declare ρ (ps.map entryOf) = .error .divZero →
        ∃ L₁, Holds σ ρ L₁ ∧ Runs code (.run p s L) (.threw L₁)) := by
  induction hi with
  | nil =>
    intro ρ L p hH _ _
    refine ⟨fun ρ₁ h ↦ ?_, fun h ↦ ?_⟩
    · cases h
      exact ⟨L, by simpa [bindAll] using hH, .refl⟩
    · cases h
  | @expr σ pd ps e c cs hp hc hs ih =>
    intro ρ L p hH hd hat
    rw [← bindAll_cons] at hd ⊢
    have hfree := slot_free hd
    simp only [List.map_cons, entryOf, hp, declare, initValue]
    -- the initializer's value is stored in the local's slot
    have step : ∀ v, eval ρ e = .ok v →
        Runs code (.run p s L) (.run (p + c.length + 1) s (Function.update L pd.slot v.word)) :=
      fun v hv ↦ (expr_value_runs hH hc hat.left hv).tail (.next hat.right.head rfl)
    have hH' : ∀ v, Holds (symOf pd :: σ) ((pd.name, v) :: ρ)
        (Function.update L pd.slot v.word) := fun v ↦ Holds.cons (x := symOf pd) hH hfree
    refine ⟨fun ρ₁ h ↦ ?_, fun h ↦ ?_⟩
    · obtain ⟨v, hv, h⟩ := bind_eq_ok h
      obtain ⟨L₁, hH₁, r⟩ := (ih (hH' v) hd hat.right.tail).1 ρ₁ h
      exact ⟨L₁, hH₁, runs_to ((step v hv).trans r) (by simp; omega)⟩
    · rcases bind_eq_error h with hv | ⟨v, hv, h⟩
      · exact ⟨L, hH, expr_fault_runs hH hc hat.left hv⟩
      · obtain ⟨L₁, hH₁, r⟩ := (ih (hH' v) hd hat.right.tail).2 h
        exact ⟨L₁, hH₁.tail, (step v hv).trans r⟩
  | @zero σ pd ps cs hp hs ih =>
    intro ρ L p hH hd hat
    rw [← bindAll_cons] at hd ⊢
    have hfree := slot_free hd
    simp only [List.map_cons, entryOf, hp, declare, initValue]
    -- zero or false is stored in the local's slot
    have step : Runs code (.run p s L)
        (.run (p + 1 + 1) s (Function.update L pd.slot (zeroOf pd.type).word)) := by
      rw [zeroOf_word]
      exact (Relation.ReflTransGen.single (.next hat.head rfl)).tail (.next hat.tail.head rfl)
    have hH' := Holds.cons (x := symOf pd) (v := zeroOf pd.type) hH hfree
    refine ⟨fun ρ₁ h ↦ ?_, fun h ↦ ?_⟩
    · obtain ⟨L₁, hH₁, r⟩ := (ih hH' hd hat.tail.tail).1 ρ₁ h
      exact ⟨L₁, hH₁, runs_to (step.trans r) (by simp; omega)⟩
    · obtain ⟨L₁, hH₁, r⟩ := (ih hH' hd hat.tail.tail).2 h
      exact ⟨L₁, hH₁.tail, step.trans r⟩

end Statements

/-- The lines of an `if` without `else` from `p` on: the condition, the jump to the else label,
the branch, the else label. -/
structure IfAt (code : List Line) (p : Nat) (elseL : Label) (ct cth : List Line) : Prop where
  test : At code p ct
  jump : code[p + ct.length]? = some (.instr (.ifFalse elseL))
  yes : At code (p + ct.length + 1) cth
  done : code[p + ct.length + 1 + cth.length]? = some (.label elseL)

theorem IfAt.of_at {code : List Line} {p : Nat} {elseL : Label} {ct cth : List Line}
    (h : At code p (ct ++ .instr (.ifFalse elseL) :: cth ++ [.label elseL])) :
    IfAt code p elseL ct cth := by
  obtain ⟨h₁, h₂, h₃⟩ := At.parts h
  exact ⟨h₁, h₂.head, h₂.tail, (At.shift h₃ (by simp; omega)).head⟩

/-- The lines of an `if` with `else` from `p` on: the condition, the jump to the else label, the
first branch, the jump to the end label, the else label, the second branch, the end label. -/
structure IfElseAt (code : List Line) (p : Nat) (elseL endL : Label) (ct cth cel : List Line) :
    Prop where
  test : At code p ct
  jump : code[p + ct.length]? = some (.instr (.ifFalse elseL))
  yes : At code (p + ct.length + 1) cth
  skip : code[p + ct.length + 1 + cth.length]? = some (.instr (.goto endL))
  other : code[p + ct.length + 1 + cth.length + 1]? = some (.label elseL)
  no : At code (p + ct.length + 1 + cth.length + 2) cel
  done : code[p + ct.length + 1 + cth.length + 2 + cel.length]? = some (.label endL)

theorem IfElseAt.of_at {code : List Line} {p : Nat} {elseL endL : Label} {ct cth cel : List Line}
    (h : At code p (ct ++ .instr (.ifFalse elseL) :: cth ++ .instr (.goto endL) :: .label elseL ::
      cel ++ [.label endL])) :
    IfElseAt code p elseL endL ct cth cel := by
  obtain ⟨h₁, h₂, h₃⟩ := At.parts h.left
  have h₃' := At.shift h₃ (show _ = p + ct.length + 1 + cth.length by simp; omega)
  exact ⟨h₁, h₂.head, h₂.tail, h₃'.head, h₃'.tail.head, h₃'.tail.tail,
    (At.shift h.right (by simp; omega)).head⟩

/-- The lines of a loop's rounds from its test label at `p` on: the load of its variable, its
bound's code, the exit test, its body's code, then its continue label, the step, the jump back
and its break label. -/
structure RoundsAt (code : List Line) (p : Nat) (x : LocalSym) (d : Direction)
    (condL contL brkL : Label) (cb cbody : List Line) : Prop where
  test : code[p]? = some (.label condL)
  load : code[p + 1]? = some (.instr (.load .int x.slot))
  bound : At code (p + 2) cb
  exit : code[p + 2 + cb.length]? = some (.instr (.ifICmp (exitTest d) brkL))
  body : At code (p + 3 + cb.length) cbody
  cont : code[p + 3 + cb.length + cbody.length]? = some (.label contL)
  step : code[p + 3 + cb.length + cbody.length + 1]? = some (.instr (.iinc x.slot (stepBy d)))
  back : code[p + 3 + cb.length + cbody.length + 2]? = some (.instr (.goto condL))
  brk : code[p + 3 + cb.length + cbody.length + 3]? = some (.label brkL)

namespace RoundsAt

variable {code : List Line} {σ : List LocalSym} {ρ : Env} {L : Locals} {s : List Word} {p : Nat}
  {x : LocalSym} {d : Direction} {condL contL brkL : Label} {cb cbody : List Line} {v : String}
  {b : Expr}

theorem of_at (h : At code p (.label condL :: .instr (.load .int x.slot) :: cb ++
      .instr (.ifICmp (exitTest d) brkL) :: cbody ++
        [.label contL, .instr (.iinc x.slot (stepBy d)), .instr (.goto condL), .label brkL])) :
    RoundsAt code p x d condL contL brkL cb cbody := by
  obtain ⟨h₁, h₂, h₃⟩ := At.parts h
  have h₂' := At.shift h₂ (show _ = p + 2 + cb.length by simp; omega)
  have h₃' := At.shift h₃ (show _ = p + 3 + cb.length + cbody.length by simp; omega)
  exact ⟨h₁.head, h₁.tail.head, h₁.tail.tail, h₂'.head, At.shift h₂'.tail (by omega),
    h₃'.getElem (i := 0) rfl, h₃'.getElem (i := 1) rfl, h₃'.getElem (i := 2) rfl,
    h₃'.getElem (i := 3) rfl⟩

theorem test_runs (h : RoundsAt code p x d condL contL brkL cb cbody) (hH : Holds σ ρ L)
    (hx : symbolOf σ v = some x) (hb : ExprCode σ b cb) {xv y : Word}
    (hv : ρ.lookup v = some (.int xv)) (hy : eval ρ b = .ok (.int y)) :
    Runs code (.run p s L) (.run (p + 2 + cb.length) (y :: xv :: s) L) := by
  have r : Runs code (.run p s L) (.run (p + 2) (xv :: s) L) := by
    rw [← show L x.slot = xv from hH.lookup hx hv]
    exact (Relation.ReflTransGen.single (.pass h.test rfl)).tail (.next h.load rfl)
  exact r.trans (expr_value_runs hH hb h.bound hy)

theorem enter (h : RoundsAt code p x d condL contL brkL cb cbody) (hH : Holds σ ρ L)
    (hx : symbolOf σ v = some x) (hb : ExprCode σ b cb) (ht : Passes ρ v d b) :
    Runs code (.run p s L) (.run (p + 3 + cb.length) s L) := by
  obtain ⟨xv, y, hv, hy, hc⟩ := ht
  have he : effect (.ifICmp (exitTest d) brkL) (y :: xv :: s) L = some (.next s L) := by
    simp [effect, holds_exitTest, hc]
  exact runs_to ((h.test_runs hH hx hb hv hy).tail (.next h.exit he)) (by omega)

theorem leave (h : RoundsAt code p x d condL contL brkL cb cbody) (hH : Holds σ ρ L)
    (hx : symbolOf σ v = some x) (hb : ExprCode σ b cb) {xv y : Word}
    (hv : ρ.lookup v = some (.int xv)) (hy : eval ρ b = .ok (.int y))
    (hc : continues d xv y = false) :
    Runs code (.run p s L) (.run (p + 3 + cb.length + cbody.length + 4) s L) := by
  have he : effect (.ifICmp (exitTest d) brkL) (y :: xv :: s) L = some (.jump brkL s L) := by
    simp [effect, holds_exitTest, hc]
  exact ((h.test_runs hH hx hb hv hy).tail (.jump h.exit he h.brk)).tail (.pass h.brk rfl)

theorem bound_fault (h : RoundsAt code p x d condL contL brkL cb cbody) (hH : Holds σ ρ L)
    (hb : ExprCode σ b cb) (hy : eval ρ b = .error .divZero) : Runs code (.run p s L) (.threw L) :=
  ((Relation.ReflTransGen.single (.pass h.test rfl)).tail (.next h.load rfl)).trans
    (expr_fault_runs hH hb h.bound hy)

theorem again (h : RoundsAt code p x d condL contL brkL cb cbody) (hH : Holds σ ρ L)
    (hd : (σ.map (·.slot)).Nodup) (hx : symbolOf σ v = some x) {xv : Word}
    (hv : ρ.lookup v = some (.int xv)) :
    Runs code (.run (p + 3 + cb.length + cbody.length) s L)
        (.run p s (Function.update L x.slot (Val.int (stepped d xv)).word)) ∧
      Holds σ (assign ρ v (.int (stepped d xv)))
        (Function.update L x.slot (Val.int (stepped d xv)).word) := by
  refine ⟨?_, hH.assign hd hx⟩
  have hw : (Val.int (stepped d xv)).word = L x.slot + BitVec.ofInt 32 (stepBy d) := by
    rw [hH.lookup hx hv, stepped_eq]
    rfl
  rw [hw]
  exact ((Relation.ReflTransGen.single (.pass h.cont rfl)).tail (.next h.step rfl)).tail
    (.jump h.back rfl h.test)

end RoundsAt

section Running

variable {code : List Line}

/-- The code of a statement, of statements or of a loop's rounds, run from the locals holding the
variables' words, ends where the outcome of the task says, the locals then holding the words of
the variables the task ends with. -/
theorem exec_runs {ρ ρ' : Env} {t : Task} {o : Outcome} (hx : Exec ρ t ρ' o) :
    ∀ {σ : List LocalSym} {ls : List LoopLabels} {c : List Line} {p : Nat} {s : List Word}
      {L : Locals}, Code σ ls t c → (σ.map (·.slot)).Nodup → Holds σ ρ L → At code p c →
      ∃ L', Holds σ ρ' L' ∧ Finishes code (.run p s L) (p + c.length) ls s L' o := by
  induction hx with
  | @assign ρ n nsp rhs sp v hn hv =>
    intro σ ls c p s L hc hd hH hat
    cases hc with
    | assign hx hrhs =>
      refine ⟨_, hH.assign hd hx, ?_⟩
      exact runs_to ((expr_value_runs hH hrhs hat.left hv).tail (.next hat.right.head rfl))
        (by simp; omega)
  | @assignFault ρ n nsp rhs sp hv =>
    intro σ ls c p s L hc hd hH hat
    cases hc with
    | assign hx hrhs => exact ⟨L, hH, expr_fault_runs hH hrhs hat.left hv⟩
  | @condTrue ρ ρ' e th el sp o he hth ih =>
    intro σ ls c p s L hc hd hH hat
    cases hc with
    | cond elseL hct hcth =>
      have h := IfAt.of_at hat
      have r := (expr_value_runs hH hct h.test he (s := s)).trans (runs_ifFalse_true h.jump)
      obtain ⟨L', hH', hf⟩ := ih hcth hd hH h.yes
      exact ⟨L', hH', ((hf.head r).tail (.single (.pass h.done rfl))).of_eq (by simp; omega)⟩
    | condElse elseL endL hct hcth hcel =>
      have h := IfElseAt.of_at hat
      have r := (expr_value_runs hH hct h.test he (s := s)).trans (runs_ifFalse_true h.jump)
      obtain ⟨L', hH', hf⟩ := ih hcth hd hH h.yes
      exact ⟨L', hH', ((hf.head r).tail (runs_goto h.skip h.done)).of_eq (by simp; omega)⟩
  | @condFalse ρ ρ' e th el sp o he hel ih =>
    intro σ ls c p s L hc hd hH hat
    cases hc with
    | condElse elseL endL hct hcth hcel =>
      have h := IfElseAt.of_at hat
      have r := (expr_value_runs hH hct h.test he (s := s)).trans
        (runs_ifFalse_false h.jump h.other)
      obtain ⟨L', hH', hf⟩ := ih hcel hd hH h.no
      exact ⟨L', hH', ((hf.head r).tail (.single (.pass h.done rfl))).of_eq (by simp; omega)⟩
  | @condSkip ρ e th sp he =>
    intro σ ls c p s L hc hd hH hat
    cases hc with
    | cond elseL hct hcth =>
      have h := IfAt.of_at hat
      have r := (expr_value_runs hH hct h.test he (s := s)).trans
        (runs_ifFalse_false h.jump h.done)
      exact ⟨L, hH, runs_to r (by simp; omega)⟩
  | @condFault ρ e th el sp he =>
    intro σ ls c p s L hc hd hH hat
    cases hc with
    | cond elseL hct hcth => exact ⟨L, hH, expr_fault_runs hH hct (IfAt.of_at hat).test he⟩
    | condElse elseL endL hct hcth hcel =>
      exact ⟨L, hH, expr_fault_runs hH hct (IfElseAt.of_at hat).test he⟩
  | @loop ρ ρ' v vsp a d b body sp w o hn ha hr ih =>
    intro σ ls c p s L hc hd hH hat
    cases hc with
    | loop hx hca hcr =>
      -- the start value is stored in the variable's slot, then the rounds run
      have r := (expr_value_runs hH hca hat.left ha (s := s)).tail (.next hat.right.head rfl)
      obtain ⟨L', hH', hf⟩ := ih hcr hd (hH.assign hd hx) hat.right.tail
      exact ⟨L', hH', (hf.head r).of_eq (by simp; omega)⟩
  | @loopFault ρ v vsp a d b body sp ha =>
    intro σ ls c p s L hc hd hH hat
    cases hc with
    | loop hx hca hcr => exact ⟨L, hH, expr_fault_runs hH hca hat.left ha⟩
  | @brk ρ sp =>
    intro σ ls c p s L hc hd hH hat
    cases hc with
    | brk => exact ⟨L, hH, _, rfl, fun j hj ↦ .single (.jump hat.head rfl hj)⟩
  | @cont ρ sp =>
    intro σ ls c p s L hc hd hH hat
    cases hc with
    | cont => exact ⟨L, hH, _, rfl, fun j hj ↦ .single (.jump hat.head rfl hj)⟩
  | @retVoid ρ sp =>
    intro σ ls c p s L hc hd hH hat
    cases hc with
    | retVoid => exact ⟨L, hH, .single (.ret hat.head rfl)⟩
  | @ret ρ e sp v he =>
    intro σ ls c p s L hc hd hH hat
    cases hc with
    | ret hce =>
      exact ⟨L, hH, (expr_value_runs hH hce hat.left he).tail (.ret hat.right.head rfl)⟩
  | @retFault ρ e sp he =>
    intro σ ls c p s L hc hd hH hat
    cases hc with
    | ret hce => exact ⟨L, hH, expr_fault_runs hH hce hat.left he⟩
  | @block ρ ρ₁ ρ₂ ds ss sp o hdecl hss ih =>
    intro σ ls c p s L hc hd hH hat
    cases hc with
    | @block _ _ _ _ _ ps vars inits cs start stop hv hps hslots hi hcs =>
      obtain ⟨h₁, h₂, h₃⟩ := At.parts hat.left
      -- the `.var` lines and the start label, then the locals' first values
      have r₁ : Runs code (.run p s L) (.run (p + vars.length + 1) s L) :=
        (runs_pass hv h₁).tail (.pass h₂.head rfl)
      obtain ⟨L₁, hH₁, r₂⟩ := (init_runs hi hH hslots h₂.tail).1 ρ₁ (by rw [hps]; exact hdecl)
      obtain ⟨L₂, hH₂, hf⟩ := ih hcs hslots hH₁
        (At.shift h₃ (show _ = p + vars.length + 1 + inits.length by simp; omega))
      -- the block's locals leave scope, the ones before keeping their words
      refine ⟨L₂, hH₂.drop_bindAll hH.length, ?_⟩
      exact ((hf.head (r₁.trans r₂)).tail
        (.single (.pass (At.shift hat.right
          (show _ = p + vars.length + 1 + inits.length + cs.length by simp; omega)).head rfl))).of_eq
        (by simp; omega)
  | @blockFault ρ ds ss sp hdecl =>
    intro σ ls c p s L hc hd hH hat
    cases hc with
    | @block _ _ _ _ _ ps vars inits cs start stop hv hps hslots hi hcs =>
      obtain ⟨h₁, h₂, -⟩ := At.parts hat.left
      have r₁ : Runs code (.run p s L) (.run (p + vars.length + 1) s L) :=
        (runs_pass hv h₁).tail (.pass h₂.head rfl)
      obtain ⟨L₁, hH₁, r₂⟩ := (init_runs hi hH hslots h₂.tail).2 (by rw [hps]; exact hdecl)
      exact ⟨L₁, hH₁, r₁.trans r₂⟩
  | @nil ρ =>
    intro σ ls c p s L hc hd hH hat
    cases hc with
    | nil => exact ⟨L, hH, .refl⟩
  | @next ρ ρ₁ ρ₂ st sts o h hs ih ihs =>
    intro σ ls c p s L hc hd hH hat
    cases hc with
    | cons hst hsts =>
      obtain ⟨L₁, hH₁, r⟩ := ih hst hd hH hat.left (s := s)
      obtain ⟨L₂, hH₂, hf⟩ := ihs hsts hd hH₁ hat.right
      exact ⟨L₂, hH₂, (hf.head r).of_eq (by simp; omega)⟩
  | @stop ρ ρ₁ st sts o h ho ih =>
    intro σ ls c p s L hc hd hH hat
    cases hc with
    | cons hst hsts =>
      obtain ⟨L₁, hH₁, hf⟩ := ih hst hd hH hat.left
      exact ⟨L₁, hH₁, hf.retarget ho⟩
  | @exit ρ v d b body xv y hv hy hc =>
    intro σ ls c p s L hcode hd hH hat
    cases hcode with
    | rounds condL contL brkL hx hb hbody =>
      have h := RoundsAt.of_at hat
      exact ⟨L, hH, runs_to (h.leave hH hx hb hv hy hc) (by simp; omega)⟩
  | @boundFault ρ v d b body hy =>
    intro σ ls c p s L hcode hd hH hat
    cases hcode with
    | rounds condL contL brkL hx hb hbody =>
      exact ⟨L, hH, (RoundsAt.of_at hat).bound_fault hH hb hy⟩
  | @broke ρ ρ₁ v d b body ht hbr ih =>
    intro σ ls c p s L hcode hd hH hat
    cases hcode with
    | rounds condL contL brkL hx hb hbody =>
      have h := RoundsAt.of_at hat
      -- the body breaks out to the loop's own break label
      obtain ⟨L₁, hH₁, l, hl, hj⟩ := ih hbody hd hH h.body (s := s)
      cases hl
      exact ⟨L₁, hH₁, runs_to (((h.enter hH hx hb ht).trans (hj _ h.brk)).tail
        (.pass h.brk rfl)) (by simp; omega)⟩
  | @left ρ ρ₁ v d b body o ht hbr ho ih =>
    intro σ ls c p s L hcode hd hH hat
    cases hcode with
    | rounds condL contL brkL hx hb hbody =>
      have h := RoundsAt.of_at hat
      obtain ⟨L₁, hH₁, hf⟩ := ih hbody hd hH h.body
      exact ⟨L₁, hH₁, (hf.escape ho).head (h.enter hH hx hb ht)⟩
  | @round ρ ρ₁ ρ₂ v d b body o o' xv ht hbr ho hv hrest ih ihr =>
    intro σ ls c p s L hcode hd hH hat
    cases hcode with
    | @rounds _ _ _ _ _ _ x cb cbody condL contL brkL hx hb hbody =>
      have h := RoundsAt.of_at hat
      obtain ⟨L₁, hH₁, hf⟩ := ih hbody hd hH h.body (s := s)
      -- the body gets to the continue label, by its end or by `continue`
      have r₁ : Runs code (.run p s L) (.run (p + 3 + cb.length + cbody.length) s L₁) := by
        refine (h.enter hH hx hb ht).trans ?_
        rcases ho with rfl | rfl
        · exact hf
        · obtain ⟨l, hl, hj⟩ := hf
          cases hl
          exact hj _ h.cont
      obtain ⟨r₂, hH₂⟩ := h.again hH₁ hd hx hv
      obtain ⟨L', hH', hf'⟩ := ihr (.rounds condL contL brkL hx hb hbody) hd hH₂ hat
      exact ⟨L', hH', hf'.head (r₁.trans r₂)⟩

end Running

end ClassLang.Proofs.Simulation
