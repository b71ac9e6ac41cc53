import ClassLang.Proofs.FreshLabels

namespace ClassLang.Proofs.RoutineLabels

open ClassLang Runs Invariants Generation Linking LoopJumps FreshLabels

@[simp] theorem placedLabels_map_label (U : List Label) : placedLabels (U.map .label) = U := by
  induction U with
  | nil => rfl
  | cons l U ih => simp [ih]

@[simp] theorem refLabels_map_label (U : List Label) : refLabels (U.map .label) = [] := by
  induction U with
  | nil => rfl
  | cons l U ih => simp [ih]

/-- A run part of the way through a compound statement, which has taken the labels `U` and not
placed them yet. Counted from `a`, it has taken `U` and the labels its code places; unless the
counter wrapped, these are distinct numbers from `a` on, and the code refers only to labels it
places, to `U` and to `O`. Freshness is stated of the code with `U` placed before it. -/
structure Taking (O : Label → Prop) (a : Nat) (U : List Label) (e e' : Emitter)
    (code : List Line) : Prop where
  appends : Appends e e' code
  ret : e'.frame.ret = e.frame.ret
  counter : e'.frame.nextLabel = (a + U.length + (placedLabels code).length) % 4294967296
  fresh : a + U.length + (placedLabels code).length < 4294967296 →
    Fresh O a (a + U.length + (placedLabels code).length) (U.map .label ++ code)

namespace Taking

variable {O : Label → Prop} {a : Nat} {U : List Label} {e e₁ e₂ : Emitter} {code c₂ : List Line}

theorem start (hc : e.frame.nextLabel < 4294967296) : Taking O e.frame.nextLabel [] e e [] :=
  ⟨⟨rfl, by simp⟩, rfl, by simp [Nat.mod_eq_of_lt hc], fun _ ↦ Fresh.nil⟩

theorem mono {O' : Label → Prop} (h : Taking O a U e e₁ code) (hO : ∀ l, O l → O' l) :
    Taking O' a U e e₁ code :=
  ⟨h.appends, h.ret, h.counter, fun hw ↦ (h.fresh hw).weaken hO (Nat.le_refl _) (Nat.le_refl _)⟩

theorem counter_lt (h : Taking O a U e e₁ code) : e₁.frame.nextLabel < 4294967296 :=
  h.counter ▸ Nat.mod_lt _ (by decide)

theorem finish (h : Taking O a [] e e₁ code) : Took O a e e₁ code where
  appends := h.appends
  ret := h.ret
  counter := by simpa using h.counter
  fresh hw := by simpa using h.fresh (by simpa using hw)

theorem alloc {l : Label} (h : Taking O a U e e₁ code) (hl : l = ⟨e₁.frame.nextLabel⟩)
    (a₁ : Appends e₁ e₂ []) (r₁ : e₂.frame.ret = e₁.frame.ret)
    (c₁ : e₂.frame.nextLabel = (e₁.frame.nextLabel + 1) % 4294967296) :
    Taking O a (U ++ [l]) e e₂ code where
  appends := by simpa using h.appends.trans a₁
  ret := r₁.trans h.ret
  counter := by
    rw [c₁, h.counter, List.length_append, List.length_singleton, Nat.mod_add_mod]
    omega
  fresh hw := by
    simp only [List.length_append, List.length_singleton] at hw ⊢
    have hid : l.id = a + U.length + (placedLabels code).length := by
      rw [hl, h.counter, Nat.mod_eq_of_lt (by omega)]
    have f : Fresh O a (a + (U.length + 1) + (placedLabels code).length)
        (U.map .label ++ code ++ [.label l]) :=
      (h.fresh (by omega)).append (Fresh.label (Nat.le_refl _) (Nat.lt_succ_self _))
        (.inl (Nat.le_of_eq hid.symm)) ⟨Nat.le_refl _, by omega⟩ ⟨by omega, by omega⟩
    refine f.of_perm ?_ (by simp)
    simpa only [List.map_append, List.map_cons, List.map_nil, placedLabels_append,
      placedLabels_map_label, placedLabels_label, List.append_assoc] using
      (List.perm_append_comm.append_left U : (U ++ ([l] ++ placedLabels code)).Perm _)

theorem place {l : Label} (h : Taking O a (l :: U) e e₁ code) (k : Keeps e₁ e₂ [.label l]) :
    Taking O a U e e₂ (code ++ [.label l]) where
  appends := h.appends.trans k.appends
  ret := k.ret.trans h.ret
  counter := by
    rw [k.counter, h.counter, placedLabels_append, placedLabels_label, List.length_append,
      List.length_cons, List.length_singleton]
    congr 1
    omega
  fresh hw := by
    have hb : a + U.length + (placedLabels (code ++ [.label l])).length =
        a + (l :: U).length + (placedLabels code).length := by
      simp only [placedLabels_append, placedLabels_label, List.length_append, List.length_cons,
        List.length_nil]
      omega
    rw [hb] at hw ⊢
    refine (h.fresh hw).of_perm ?_ (by simp)
    simpa only [List.map_cons, placedLabels_cons_label, placedLabels_append,
      placedLabels_map_label, placedLabels_label, placedLabels_nil, List.append_assoc,
      List.cons_append] using
      List.perm_append_singleton l (U ++ placedLabels code)

theorem took {O' : Label → Prop} (h : Taking O a U e e₁ code)
    (t : Took O' e₁.frame.nextLabel e₁ e₂ c₂)
    (hO : ∀ l, O' l → O l ∨ l ∈ U ∨ l ∈ placedLabels code) :
    Taking O a U e e₂ (code ++ c₂) where
  appends := h.appends.trans t.appends
  ret := t.ret.trans h.ret
  counter := by
    rw [t.counter, h.counter, Nat.mod_add_mod, placedLabels_append, List.length_append,
      Nat.add_assoc (a + U.length)]
  fresh hw := by
    rw [placedLabels_append, List.length_append, ← Nat.add_assoc] at hw ⊢
    have n₁ : e₁.frame.nextLabel = a + U.length + (placedLabels code).length := by
      rw [h.counter, Nat.mod_eq_of_lt (by omega)]
    have f₂ := t.fresh (by omega)
    rw [n₁] at f₂
    have f : Fresh (fun l ↦ O l ∨ l ∈ U ++ placedLabels code) a
        (a + U.length + (placedLabels code).length + (placedLabels c₂).length)
        (U.map .label ++ code ++ c₂) :=
      ((h.fresh (by omega)).weaken (fun _ h ↦ .inl h) (Nat.le_refl _) (Nat.le_refl _)).append
        (f₂.weaken (fun l hl ↦ (hO l hl).imp_right List.mem_append.mpr) (Nat.le_refl _)
          (Nat.le_refl _))
        (.inl (Nat.le_refl _)) ⟨Nat.le_refl _, by omega⟩ ⟨by omega, Nat.le_refl _⟩
    rw [← List.append_assoc]
    exact f.close fun l hl ↦ by rcases List.mem_append.mp hl with hl | hl <;> simp [hl]

theorem next {m : EmitM α} {b : α} (h : Taking (LoopTargets e.frame.loops) a U e e₁ code)
    (hm : Takes m) (hr : m.run e₁ = .ok (b, e₂)) :
    ∃ c₂, Taking (LoopTargets e.frame.loops) a U e e₂ (code ++ c₂) := by
  obtain ⟨c₂, t⟩ := hm e₁ b e₂ h.counter_lt hr
  exact ⟨c₂, h.took t fun l hl ↦ .inl (h.appends.1 ▸ hl)⟩

theorem jump {i : Instr} {l : Label} {u : Unit} (h : Taking O a U e e₁ code)
    (hr : (Emitter.emit i).run e₁ = .ok (u, e₂)) (hi : jumpTarget i = some l)
    (hl : O l ∨ l ∈ U ∨ l ∈ placedLabels code) :
    Taking O a U e e₂ (code ++ [.instr i]) :=
  h.took (Took.jump h.counter_lt hr hi hl : Took (fun l ↦ O l ∨ l ∈ U ∨ l ∈ placedLabels code)
    _ _ _ _) fun _ ↦ id

theorem enterBlock {ls : BlockLabels} (h : Taking O a U e e₁ code)
    (hr : Emitter.enterBlock.run e₁ = .ok (ls, e₂)) :
    Taking O a (U ++ [ls.start, ls.stop]) e e₂ code := by
  cases hr
  have t : Taking O a (U ++ [⟨e₁.frame.nextLabel⟩]) e { e₁ with frame := e₁.frame.newLabel.2 }
      code :=
    h.alloc rfl ⟨rfl, by simp⟩ rfl rfl
  have t₂ : Taking O a (U ++ [⟨e₁.frame.nextLabel⟩] ++ [⟨(e₁.frame.nextLabel + 1) % 4294967296⟩])
      e { e₁ with frame := e₁.frame.enterBlock.2 } code :=
    t.alloc rfl ⟨rfl, by simp⟩ rfl rfl
  rw [List.append_assoc] at t₂
  exact t₂

end Taking

def VarLines (r : BlockLabels) (code : List Line) : Prop := ∀ x ∈ code, ∃ slot n t, x = .var slot n t r

namespace VarLines

variable {r : BlockLabels}

theorem nil : VarLines r [] := fun _ h ↦ nomatch h

theorem append {x y : List Line} (hx : VarLines r x) (hy : VarLines r y) : VarLines r (x ++ y) :=
  fun l hl ↦ (List.mem_append.mp hl).elim (hx l) (hy l)

theorem tail {x : Line} {code : List Line} (h : VarLines r (x :: code)) : VarLines r code :=
  fun y hy ↦ h y (List.mem_cons_of_mem _ hy)

theorem placed : ∀ {code : List Line}, VarLines r code → placedLabels code = []
  | [], _ => rfl
  | x :: code, h => by
    obtain ⟨slot, n, t, rfl⟩ := h x (List.mem_cons_self ..)
    rw [placedLabels_cons_var, h.tail.placed]

theorem refs : ∀ {code : List Line}, VarLines r code → ∀ l ∈ refLabels code, l = r.start ∨ l = r.stop
  | [], _ => fun _ h ↦ nomatch h
  | x :: code, h => by
    obtain ⟨slot, n, t, rfl⟩ := h x (List.mem_cons_self ..)
    intro l hl
    simp only [refLabels_cons_var, List.mem_cons] at hl
    rcases hl with hl | hl | hl
    · exact .inl hl
    · exact .inr hl
    · exact h.tail.refs l hl

end VarLines

/-- A step every successful run of which keeps the counter and writes only `.var` lines over the
range `r`. -/
def WritesVars (r : BlockLabels) (m : EmitM α) : Prop :=
  ∀ e a e', m.run e = .ok (a, e') → ∃ code, Keeps e e' code ∧ VarLines r code

namespace WritesVars

variable {r : BlockLabels}

theorem pure (a : α) : WritesVars r (pure a : EmitM α) := by
  intro e _ _ h
  cases h
  exact ⟨[], ⟨⟨rfl, by simp⟩, rfl, rfl⟩, VarLines.nil⟩

theorem newSlot : WritesVars r Emitter.newSlot := by
  intro e _ _ h
  cases h
  exact ⟨[], ⟨⟨rfl, by simp⟩, rfl, rfl⟩, VarLines.nil⟩

theorem bind {x : EmitM α} {f : α → EmitM β} (hx : WritesVars r x) (hf : ∀ a, WritesVars r (f a)) :
    WritesVars r (x >>= f) := by
  intro e b e' h
  obtain ⟨a, e₁, h₁, h₂⟩ := bind_ok h
  obtain ⟨c₁, k₁, v₁⟩ := hx e a e₁ h₁
  obtain ⟨c₂, k₂, v₂⟩ := hf a e₁ b e' h₂
  exact ⟨c₁ ++ c₂, k₁.trans k₂, v₁.append v₂⟩

theorem var (slot : Nat) (n : String) (t : Ty) : WritesVars r (Emitter.line (.var slot n t r)) := by
  intro e _ e' h
  cases h
  exact ⟨[.var slot n t r], ⟨⟨rfl, by simp⟩, rfl, rfl⟩, fun x hx ↦ ⟨slot, n, t, by simpa using hx⟩⟩

end WritesVars

theorem Taking.vars {O : Label → Prop} {a : Nat} {U : List Label} {r : BlockLabels}
    {e e₁ e₂ : Emitter} {code : List Line} {m : EmitM α} {b : α} (h : Taking O a U e e₁ code)
    (hm : WritesVars r m) (hs : r.start ∈ U) (ht : r.stop ∈ U) (hr : m.run e₁ = .ok (b, e₂)) :
    ∃ c₂, Taking O a U e e₂ (code ++ c₂) := by
  obtain ⟨c₂, k, hv⟩ := hm e₁ b e₂ hr
  refine ⟨c₂, h.took (Took.of_keeps h.counter_lt k hv.placed fun l hl ↦ ?_ :
    Took (· ∈ U) _ _ _ _) fun _ hl ↦ .inr (.inl hl)⟩
  rcases hv.refs l hl with rfl | rfl
  · exact hs
  · exact ht

section Declarations

variable (range : BlockLabels)

theorem declareVars_writesVars (t : Ty) :
    ∀ ds : List Declarator, WritesVars range (Lower.declareVars t range ds)
  | [] => WritesVars.pure _
  | d :: ds => by
    rw [Lower.declareVars]
    exact WritesVars.bind WritesVars.newSlot fun _ ↦ WritesVars.bind (WritesVars.var _ _ _) fun _ ↦
      WritesVars.bind (declareVars_writesVars t ds) fun _ ↦ WritesVars.pure _

theorem declareLocals_writesVars :
    ∀ ds : List VarDecl, WritesVars range (Lower.declareLocals range ds)
  | [] => WritesVars.pure _
  | d :: ds => by
    rw [Lower.declareLocals]
    exact WritesVars.bind (declareVars_writesVars range _ _) fun _ ↦
      WritesVars.bind (declareLocals_writesVars ds) fun _ ↦ WritesVars.pure _

theorem declareParams_writesVars :
    ∀ ps : List Param, WritesVars range (Lower.declareParams range ps)
  | [] => WritesVars.pure _
  | p :: ps => by
    rw [Lower.declareParams]
    exact WritesVars.bind WritesVars.newSlot fun _ ↦ WritesVars.bind (WritesVars.var _ _ _) fun _ ↦
      WritesVars.bind (declareParams_writesVars ps) fun _ ↦ WritesVars.pure _

end Declarations

theorem exitBlock_quiet : Quiet Emitter.exitBlock := by
  intro e _ e' h
  obtain ⟨f, hf, rfl⟩ := exitBlock_ok h
  unfold Frame.exitBlock at hf
  split at hf
  · cases hf
    exact ⟨[], ⟨⟨rfl, by simp⟩, rfl, rfl⟩, rfl, rfl⟩
  · cases hf

theorem bindLocal_quiet (n : String) (t : Ty) (slot : Nat) :
    Quiet (Emitter.onFrame (·.bind n t slot)) :=
  Quiet.onFrame fun _ ↦ ⟨rfl, rfl, rfl⟩

theorem loopTargets_enter {ls : Loops} {c b l : Label} :
    LoopTargets (ls.enter c b) l ↔ l = c ∨ l = b ∨ LoopTargets ls l := by
  simp [LoopTargets, Loops.enter, or_assoc]

section Statements

variable (s : Site)

theorem chainPlace_takes (c : Chain) : Takes (Lower.chainPlace s c) := by
  unfold Lower.chainPlace
  dsimp only
  split
  · exact Takes.throw _
  · refine Takes.bind (chainBase_takes s _ (lowerExpr_takes s _)) fun _ ↦
      Takes.bind (lowerSteps_takes s _ _) fun _ ↦ ?_
    split
    · refine Takes.bind (.of_quiet (Quiet.liftExcept _)) fun _ ↦ ?_
      split
      · exact Takes.throw _
      · split
        · exact Takes.bind (.of_quiet (dropReceiver_quiet _)) fun _ ↦ Takes.pure _
        · exact Takes.pure _
    · exact Takes.bind (.of_quiet (Quiet.liftExcept _)) fun _ ↦
        Takes.bind (lowerExpr_takes s _) fun _ ↦ Takes.pure _
    · exact Takes.throw _

theorem targetPlace_takes (t : Target) : Takes (Lower.targetPlace s t) := by
  cases t with
  | ident n _ => exact .of_quiet (identPlace_quiet s n)
  | chain c => exact chainPlace_takes s c

theorem lowerReturn_takes (v : Option Expr) : Takes (Lower.lowerReturn s v) := by
  unfold Lower.lowerReturn
  refine Takes.bind (.of_quiet Quiet.get) fun _ ↦ ?_
  split
  · refine Takes.bind (lowerExpr_takes s _) fun _ ↦ .of_quiet ?_
    dsimp only
    split
    · split
      · exact Quiet.bind (Quiet.emit rfl) fun _ ↦ Quiet.emit rfl
      · exact Quiet.emit rfl
    · exact Quiet.bind (widen_quiet _ _) fun _ ↦ Quiet.emit rfl
  · exact .of_quiet (Quiet.emit rfl)

theorem initLocals_takes : ∀ ps : List Lower.Pending, Takes (Lower.initLocals s ps)
  | [] => Takes.pure _
  | p :: ps => by
    rw [Lower.initLocals]
    have tail : Takes (do
        Emitter.storeLocal p.type p.slot
        Emitter.onFrame fun f ↦ f.bind p.name p.type p.slot
        Lower.initLocals s ps) :=
      Takes.bind (.of_quiet (Quiet.emit rfl)) fun _ ↦
        Takes.bind (.of_quiet (bindLocal_quiet _ _ _)) fun _ ↦ initLocals_takes ps
    split
    · exact Takes.bind (lowerExpr_takes s _) fun _ ↦
        Takes.bind (.of_quiet (widen_quiet _ _)) fun _ ↦ tail
    · exact Takes.bind (.of_quiet (pushZero_quiet _)) fun _ ↦ tail

theorem loopInit_takes (v : String) (a : Expr) : Takes (loopInit s v a) :=
  Takes.bind (.of_quiet (identPlace_quiet s v)) fun _ ↦
    Takes.bind (lowerExpr_takes s a) fun _ ↦ .of_quiet (store_quiet _)

theorem loopTest_took {v : String} {d : Direction} {b : Expr} {brkL : Label} {e e' : Emitter}
    {u : Unit} (hc : e.frame.nextLabel < 4294967296) (h : (loopTest s v d b brkL).run e = .ok (u, e')) :
    ∃ code, Took (fun l ↦ LoopTargets e.frame.loops l ∨ l = brkL) e.frame.nextLabel e e' code := by
  obtain ⟨_, e₁, h₁, h⟩ := bind_ok h
  obtain ⟨_, e₂, h₂, h⟩ := bind_ok h
  obtain ⟨_, t₁⟩ := (Taking.start hc : Taking (LoopTargets e.frame.loops) _ [] e e []).next
    (.of_quiet (loadIdent_quiet s v)) h₁
  obtain ⟨_, t₂⟩ := t₁.next (lowerExpr_takes s b) h₂
  exact ⟨_, ((t₂.mono fun _ ↦ .inl).jump h rfl (.inl (.inr rfl))).finish⟩

theorem loopBody_took {contL brkL : Label} {body : Stmt} (ih : Takes (Lower.lowerStmt s body))
    {e e' : Emitter} {u : Unit} (hc : e.frame.nextLabel < 4294967296)
    (h : (loopBody s contL brkL body).run e = .ok (u, e')) :
    ∃ code, Took (fun l ↦ LoopTargets e.frame.loops l ∨ l = contL ∨ l = brkL)
      e.frame.nextLabel e e' code := by
  obtain ⟨e₂, h₂, rfl⟩ := loopBody_run s h
  obtain ⟨code, t⟩ := ih _ _ _ (by exact hc) h₂
  have hl₂ : e₂.frame.loops = e.frame.loops.enter contL brkL := t.appends.1
  refine ⟨code, ⟨⟨?_, t.appends.2⟩, t.ret, t.counter, fun hw ↦ (t.fresh hw).weaken
    (fun l hl ↦ ?_) (Nat.le_refl _) (Nat.le_refl _)⟩⟩
  · show e₂.frame.loops.exit = e.frame.loops
    rw [hl₂]
    rfl
  · have hl' : LoopTargets (e.frame.loops.enter contL brkL) l := hl
    rcases loopTargets_enter.mp hl' with h | h | h
    · exact .inr (.inl h)
    · exact .inr (.inr h)
    · exact .inl h

mutual

theorem lowerStmt_takes : ∀ st : Stmt, Takes (Lower.lowerStmt s st)
  | .assign t rhs _ => by
    rw [lowerStmt_assign]
    exact Takes.bind (targetPlace_takes s t) fun _ ↦ Takes.bind (lowerExpr_takes s rhs) fun _ ↦
      Takes.bind (.of_quiet (widen_quiet _ _)) fun _ ↦ .of_quiet (store_quiet _)
  | .cond c th el _ => by
    rw [lowerStmt_cond]
    intro e u e' hc h
    obtain ⟨elseL, e₁, h₁, h⟩ := bind_ok h
    obtain ⟨rfl, a₁, c₁, r₁⟩ := newLabel_ok h₁
    obtain ⟨_, e₂, h₂, h⟩ := bind_ok h
    obtain ⟨_, e₃, h₃, h⟩ := bind_ok h
    obtain ⟨_, e₄, h₄, h⟩ := bind_ok h
    have t₁ := (Taking.start hc : Taking (LoopTargets e.frame.loops) _ [] e e []).alloc rfl a₁ r₁ c₁
    obtain ⟨_, t₂⟩ := t₁.next (lowerExpr_takes s c) h₂
    obtain ⟨_, t₄⟩ := (t₂.jump h₃ rfl (.inr (.inl (by simp)))).next (lowerStmt_takes th) h₄
    cases el with
    | none => exact ⟨_, (t₄.place (keeps_label h)).finish⟩
    | some el =>
      -- the end label is taken only after the branch, and placed after the else label
      obtain ⟨endL, e₅, h₅, h⟩ := bind_ok h
      obtain ⟨rfl, a₅, c₅, r₅⟩ := newLabel_ok h₅
      obtain ⟨_, e₆, h₆, h⟩ := bind_ok h
      obtain ⟨_, e₇, h₇, h⟩ := bind_ok h
      obtain ⟨_, e₈, h₈, h⟩ := bind_ok h
      have t₇ := ((t₄.alloc rfl a₅ r₅ c₅).jump h₆ rfl (.inr (.inl (by simp)))).place
        (keeps_label h₇)
      obtain ⟨_, t₈⟩ := t₇.next (lowerStmt_takes el) h₈
      exact ⟨_, (t₈.place (keeps_label h)).finish⟩
  | .loop v _ a d b body _ => by
    intro e u e' hc h
    obtain ⟨condL, contL, brkL, e₁, e₂, e₃, e₄, e₅, e₆, e₇, e₈, e₉, e₁₀, h₁, h₂, h₃, h₄, h₅, h₆, h₇,
      h₈, h₉, h₁₀, h⟩ := lowerStmt_loop_run s h
    obtain ⟨rfl, a₁, c₁, r₁⟩ := newLabel_ok h₁
    obtain ⟨rfl, a₂, c₂, r₂⟩ := newLabel_ok h₂
    obtain ⟨rfl, a₃, c₃, r₃⟩ := newLabel_ok h₃
    -- the three labels are taken before the parts; the test label is placed first, the
    -- continue label after the body and the break label last
    have t₃ := (((Taking.start hc : Taking (LoopTargets e.frame.loops) _ [] e e []).alloc rfl
      a₁ r₁ c₁).alloc rfl a₂ r₂ c₂).alloc rfl a₃ r₃ c₃
    obtain ⟨_, t₄⟩ := t₃.next (loopInit_takes s v a) h₄
    have t₅ := t₄.place (keeps_label h₅)
    obtain ⟨_, t₆⟩ := loopTest_took s t₅.counter_lt h₆
    rw [t₅.appends.1] at t₆
    have t₆' := t₅.took t₆ fun l hl ↦ hl.imp_right fun h ↦ .inl (by simp [h])
    obtain ⟨_, t₇⟩ := loopBody_took s (lowerStmt_takes body) t₆'.counter_lt h₇
    rw [t₆'.appends.1] at t₇
    have t₇' := t₆'.took t₇ fun l hl ↦ by rcases hl with h | h | h <;> simp [h]
    obtain ⟨_, t₉⟩ := (t₇'.place (keeps_label h₈)).next (.of_quiet (stepVar_quiet s v d)) h₉
    exact ⟨_, ((t₉.jump h₁₀ rfl (.inr (.inr (by simp)))).place (keeps_label h)).finish⟩
  | .brk _ => by
    intro e u e' hc h
    obtain ⟨top, rest, hs, h⟩ := lowerStmt_brk_run s h
    exact ⟨_, Took.jump hc h rfl ⟨top, by simp [hs], .inr rfl⟩⟩
  | .cont _ => by
    intro e u e' hc h
    obtain ⟨top, rest, hs, h⟩ := lowerStmt_cont_run s h
    exact ⟨_, Took.jump hc h rfl ⟨top, by simp [hs], .inl rfl⟩⟩
  | .ret v _ => by
    rw [lowerStmt_ret]
    exact lowerReturn_takes s v
  | .block ds ss sp => by
    intro e u e' hc h
    obtain ⟨ls, ps, e₁, e₂, e₃, e₄, e₅, e₆, _, h₁, h₂, h₃, h₄, h₅, h₆, h₇⟩ :=
      lowerStmt_block_run s sp h
    -- both labels of the block are taken first, and its `.var` lines refer to both
    have t₁ := (Taking.start hc : Taking (LoopTargets e.frame.loops) _ [] e e []).enterBlock h₁
    obtain ⟨_, t₂⟩ := t₁.vars (declareLocals_writesVars ls ds) (by simp) (by simp) h₂
    obtain ⟨_, t₄⟩ := (t₂.place (keeps_label h₃)).next (initLocals_takes s ps) h₄
    obtain ⟨_, t₅⟩ := t₄.next (lowerStmts_takes ss) h₅
    obtain ⟨_, t₇⟩ := (t₅.place (keeps_label h₆)).next (.of_quiet exitBlock_quiet) h₇
    exact ⟨_, t₇.finish⟩
  | .invoke c _ => by
    rw [lowerStmt_invoke]
    refine Takes.bind (lowerExpr_takes s _) fun _ ↦ ?_
    split
    · exact .of_quiet (Quiet.emit rfl)
    · exact Takes.pure _

theorem lowerStmts_takes : ∀ sts : List Stmt, Takes (Lower.lowerStmts s sts)
  | [] => by rw [Lower.lowerStmts]; exact Takes.pure _
  | st :: sts => by
    rw [Lower.lowerStmts]
    exact Takes.bind (lowerStmt_takes st) fun _ ↦ lowerStmts_takes sts

end

end Statements

def routineRange : BlockLabels := ⟨⟨0⟩, ⟨1⟩⟩

def isReturn : Instr → Bool
  | .retValue _ | .retVoid => true
  | _ => false

/-- A routine's run before its start label: it has written only `.var` lines over its range,
taken both labels of the range and opened no loop. -/
structure Opened (rt : Ty) (e : Emitter) : Prop where
  vars : VarLines routineRange e.lines.toList
  counter : e.frame.nextLabel = 2
  loops : e.frame.loops.stack = []
  ret : e.frame.ret = rt

/-- A routine's run past its start label: `.var` lines, the start label `⟨0⟩`, then a body taking
labels from `⟨2⟩` on and referring only to labels it places. -/
structure Started (rt : Ty) (e : Emitter) (vars body : List Line) : Prop where
  lines : e.lines.toList = vars ++ .label ⟨0⟩ :: body
  vars : VarLines routineRange vars
  counter : e.frame.nextLabel = (2 + (placedLabels body).length) % 4294967296
  loops : e.frame.loops.stack = []
  ret : e.frame.ret = rt
  fresh : 2 + (placedLabels body).length < 4294967296 →
    Fresh (fun _ ↦ False) 2 (2 + (placedLabels body).length) body

theorem loopTargets_nil {ls : Loops} (h : ls.stack = []) (l : Label) : ¬ LoopTargets ls l := by
  rintro ⟨x, hx, -⟩
  rw [h] at hx
  exact List.not_mem_nil hx

theorem openRoutine_opened {s : Site} {r : Receiver} {n : String} {rt : Ty} {st : Bool}
    {ls : BlockLabels} {e : Emitter}
    (h : (Lower.openRoutine s r).run (Emitter.create (Frame.create n rt st)) = .ok (ls, e)) :
    ls = routineRange ∧ Opened rt e := by
  unfold Lower.openRoutine at h
  obtain ⟨ls₀, e₁, h₁, h⟩ := bind_ok h
  cases h₁
  cases r with
  | this =>
    obtain ⟨_, e₂, h₂, h⟩ := bind_ok h
    obtain ⟨_, e₃, h₃, h⟩ := bind_ok h
    cases h₂
    cases h₃
    cases h
    exact ⟨rfl, fun x hx ↦ ⟨_, _, _, by simp [Emitter.create] at hx; exact hx⟩, rfl, rfl, rfl⟩
  | args =>
    obtain ⟨_, e₂, h₂, h⟩ := bind_ok h
    obtain ⟨_, e₃, h₃, h⟩ := bind_ok h
    cases h₂
    cases h₃
    cases h
    exact ⟨rfl, fun x hx ↦ ⟨_, _, _, by simp [Emitter.create] at hx; exact hx⟩, rfl, rfl, rfl⟩
  | none =>
    cases h
    exact ⟨rfl, fun x hx ↦ by simp [Emitter.create] at hx, rfl, rfl, rfl⟩

namespace Opened

variable {rt : Ty} {e e' : Emitter}

theorem vars_step {m : EmitM α} {a : α} (h : Opened rt e) (hm : WritesVars routineRange m)
    (hr : m.run e = .ok (a, e')) : Opened rt e' := by
  obtain ⟨code, k, hv⟩ := hm e a e' hr
  exact ⟨by rw [k.appends.2]; exact h.vars.append hv, k.counter.trans h.counter,
    by rw [k.appends.1]; exact h.loops, k.ret.trans h.ret⟩

theorem start {u : Unit} (h : Opened rt e) (hr : (Emitter.label routineRange.start).run e = .ok (u, e')) :
    Started rt e' e.lines.toList [] := by
  have k := keeps_label hr
  refine ⟨k.appends.2, h.vars, ?_, by rw [k.appends.1]; exact h.loops, k.ret.trans h.ret,
    fun _ ↦ Fresh.nil⟩
  rw [k.counter, h.counter]
  rfl

end Opened

namespace Started

variable {rt : Ty} {e e' : Emitter} {vars body : List Line}

theorem step {m : EmitM α} {b : α} (h : Started rt e vars body) (hm : Takes m)
    (hr : m.run e = .ok (b, e')) :
    ∃ c, Started rt e' vars (body ++ c) ∧ e'.lines.toList = e.lines.toList ++ c := by
  have hc : e.frame.nextLabel < 4294967296 := h.counter ▸ Nat.mod_lt _ (by decide)
  obtain ⟨c, t⟩ := hm e b e' hc hr
  refine ⟨c, ⟨by rw [t.appends.2, h.lines, List.append_assoc, List.cons_append], h.vars, ?_,
    by rw [t.appends.1]; exact h.loops, t.ret.trans h.ret, fun hw ↦ ?_⟩, t.appends.2⟩
  · rw [t.counter, h.counter, Nat.mod_add_mod, placedLabels_append, List.length_append,
      Nat.add_assoc]
  · rw [placedLabels_append, List.length_append] at hw ⊢
    have n₁ : e.frame.nextLabel = 2 + (placedLabels body).length := by
      rw [h.counter, Nat.mod_eq_of_lt (by omega)]
    have f := t.fresh (by omega)
    rw [n₁] at f
    -- no loop is open in a routine's body, so its code refers to no label outside itself
    exact (h.fresh (by omega)).append (f.weaken (fun l hl ↦ loopTargets_nil h.loops l hl)
      (Nat.le_refl _) (Nat.le_refl _)) (.inl (Nat.le_refl _)) ⟨Nat.le_refl _, by omega⟩
      ⟨by omega, by omega⟩

theorem close {ob : Option Block} {u : Unit} (h : Started rt e vars body)
    (hr : (Lower.closeRoutine routineRange ob).run e = .ok (u, e')) :
    e'.lines.toList = vars ++ .label ⟨0⟩ :: body ++
      ((if rt.isVoid && !Lower.endsInReturn ob then [.instr .retVoid] else []) ++ [.label ⟨1⟩]) := by
  unfold Lower.closeRoutine at hr
  obtain ⟨_, e₁, h₁, hr⟩ := bind_ok hr
  cases h₁
  dsimp only at hr
  rw [h.ret] at hr
  split at hr
  · rename_i hv
    obtain ⟨_, e₂, h₂, hr⟩ := bind_ok hr
    obtain ⟨_, e₃, h₃, hr⟩ := bind_ok hr
    obtain ⟨_, e₄, h₄, hr⟩ := bind_ok hr
    cases hr
    obtain ⟨f, -, rfl⟩ := exitBlock_ok h₄
    show e₃.lines.toList = _
    rw [(keeps_label h₃).appends.2, (keeps_emit h₂).appends.2, h.lines, if_pos hv]
    simp [routineRange]
  · rename_i hv
    obtain ⟨_, e₃, h₃, hr⟩ := bind_ok hr
    obtain ⟨_, e₄, h₄, hr⟩ := bind_ok hr
    cases hr
    obtain ⟨f, -, rfl⟩ := exitBlock_ok h₄
    show e₃.lines.toList = _
    rw [(keeps_label h₃).appends.2, h.lines, if_neg hv]
    simp [routineRange]

end Started

/-- How a routine's code is laid out: `.var` lines over its range, its start label `⟨0⟩`, a body
taking labels from `⟨2⟩` on and referring only to labels it places, the return added when the
routine has no result and its body does not end in one, and its end label `⟨1⟩`. A body that ends
in a `return` ends in a return instruction. -/
structure Layout (rt : Ty) (ob : Option Block) (code vars body : List Line) : Prop where
  eq : code = vars ++ .label ⟨0⟩ :: body ++
    ((if rt.isVoid && !Lower.endsInReturn ob then [.instr .retVoid] else []) ++ [.label ⟨1⟩])
  vars : VarLines routineRange vars
  fresh : 2 + (placedLabels body).length < 4294967296 →
    Fresh (fun _ ↦ False) 2 (2 + (placedLabels body).length) body
  ends : Lower.endsInReturn ob = true → ∃ pre i, body = pre ++ [.instr i] ∧ isReturn i = true

namespace Layout

variable {rt : Ty} {ob : Option Block} {code vars body : List Line}

theorem placed (h : Layout rt ob code vars body) :
    placedLabels code = ⟨0⟩ :: (placedLabels body ++ [⟨1⟩]) := by
  rw [h.eq]
  split <;> simp [h.vars.placed]

theorem refs_mem (h : Layout rt ob code vars body) {l : Label} (hl : l ∈ refLabels code) :
    l = ⟨0⟩ ∨ l = ⟨1⟩ ∨ l ∈ refLabels body := by
  rw [h.eq] at hl
  simp only [refLabels_append, refLabels_cons_label, List.mem_append] at hl
  rcases hl with (hl | hl) | hl
  · exact (h.vars.refs l hl).imp_right .inl
  · exact .inr (.inr hl)
  · split at hl <;> simp [jumpTarget] at hl

theorem range_not_mem (h : Layout rt ob code vars body) (hw : (placedLabels code).length < 4294967296)
    {l : Label} (hl : l.id < 2) : l ∉ placedLabels body := by
  rw [h.placed] at hw
  simp only [List.length_cons, List.length_append] at hw
  intro hm
  have := ((h.fresh (by omega)).range l hm).1
  omega

end Layout

/-- The label discipline of a routine's code: it places no label twice, and every label a jump
goes to or a `.var` line names is placed in it. -/
structure WellLabeled (code : List Line) : Prop where
  nodup : (placedLabels code).Nodup
  closed : ∀ l ∈ refLabels code, l ∈ placedLabels code

theorem Layout.wellLabeled {rt : Ty} {ob : Option Block} {code vars body : List Line}
    (h : Layout rt ob code vars body) (hw : (placedLabels code).length < 4294967296) :
    WellLabeled code := by
  have f := h.fresh (by rw [h.placed] at hw; simp at hw; omega)
  have h₀ := h.range_not_mem hw (l := ⟨0⟩) (by decide)
  have h₁ := h.range_not_mem hw (l := ⟨1⟩) (by decide)
  refine ⟨?_, fun l hl ↦ ?_⟩
  · rw [h.placed]
    simp only [List.nodup_cons, List.nodup_append, List.mem_append, List.mem_singleton,
      List.not_mem_nil, not_or]
    refine ⟨⟨h₀, by decide⟩, f.nodup, ⟨not_false, List.nodup_nil⟩, fun a ha b hb heq ↦ h₁ ?_⟩
    rw [hb] at heq
    exact heq ▸ ha
  · rw [h.placed]
    rcases h.refs_mem hl with rfl | rfl | hl
    · simp
    · simp
    · rcases f.closed l hl with hl | hl
      · simp [hl]
      · exact hl.elim

section Routines

variable (s : Site)

def ReturnsLast (m : EmitM α) : Prop :=
  ∀ e a e', m.run e = .ok (a, e') → ∃ pre i, Appends e e' (pre ++ [.instr i]) ∧ isReturn i = true

theorem ReturnsLast.emit {i : Instr} (hi : isReturn i = true) : ReturnsLast (Emitter.emit i) :=
  fun _ _ _ h ↦ ⟨[], i, by simpa using appends_emit h, hi⟩

theorem ReturnsLast.after {x : EmitM α} {f : α → EmitM β}
    (hx : ∀ e a e', x.run e = .ok (a, e') → ∃ c, Appends e e' c) (hf : ∀ a, ReturnsLast (f a)) :
    ReturnsLast (x >>= f) := by
  intro e b e' h
  obtain ⟨a, e₁, h₁, h₂⟩ := bind_ok h
  obtain ⟨c₁, a₁⟩ := hx e a e₁ h₁
  obtain ⟨pre, i, a₂, hi⟩ := hf a e₁ b e' h₂
  exact ⟨c₁ ++ pre, i, by simpa using a₁.trans a₂, hi⟩

theorem lowerReturn_returnsLast (v : Option Expr) : ReturnsLast (Lower.lowerReturn s v) := by
  unfold Lower.lowerReturn
  refine ReturnsLast.after (fun _ _ _ h ↦ appends_of_kept (Sound.get kept_steps) h) fun _ ↦ ?_
  split
  · refine ReturnsLast.after (fun _ _ _ h ↦ appends_of_kept (lowerExpr_sound kept_steps s _) h)
      fun _ ↦ ?_
    dsimp only
    split
    · split
      · exact ReturnsLast.after (fun _ _ _ h ↦ ⟨_, appends_emit h⟩) fun _ ↦ ReturnsLast.emit rfl
      · exact ReturnsLast.emit rfl
    · exact ReturnsLast.after (fun _ _ _ h ↦ let ⟨c, p⟩ := widen_quiet _ _ _ _ _ h; ⟨c, p.appends⟩)
        fun _ ↦ ReturnsLast.emit rfl
  · exact ReturnsLast.emit rfl

theorem lowerStmts_append (xs ys : List Stmt) :
    Lower.lowerStmts s (xs ++ ys) = (do Lower.lowerStmts s xs; Lower.lowerStmts s ys) := by
  induction xs with
  | nil => simp [Lower.lowerStmts]
  | cons x xs ih => simp [Lower.lowerStmts, ih, bind_assoc]

theorem lowerStmts_ends {b : Block} {e e' : Emitter} {u : Unit}
    (hb : Lower.endsInReturn (some b) = true) (h : (Lower.lowerStmts s b.stmts).run e = .ok (u, e')) :
    ∃ pre i, Appends e e' (pre ++ [.instr i]) ∧ isReturn i = true := by
  simp only [Lower.endsInReturn] at hb
  split at hb
  · rename_i v sp hl
    obtain ⟨xs, hxs⟩ := List.getLast?_eq_some_iff.mp hl
    rw [hxs, lowerStmts_append] at h
    obtain ⟨_, e₁, h₁, h⟩ := bind_ok h
    obtain ⟨c₁, a₁, -⟩ := lowerStmts_loopCode s xs h₁
    rw [Lower.lowerStmts, Lower.lowerStmts] at h
    obtain ⟨_, e₂, h₂, h⟩ := bind_ok h
    cases h
    rw [lowerStmt_ret] at h₂
    obtain ⟨pre, i, a₂, hi⟩ := lowerReturn_returnsLast s v _ _ _ h₂
    exact ⟨c₁ ++ pre, i, by simpa using a₁.trans a₂, hi⟩
  · cases hb

theorem initAttribute_takes (a : AttrInfo) : Takes (Lower.initAttribute s a) := by
  unfold Lower.initAttribute
  have store : Takes (if a.isStatic = true then Emitter.emit (.putStatic s.cls a.name a.type)
      else Emitter.emit (.putField s.cls a.name a.type)) := by
    split <;> exact .of_quiet (Quiet.emit rfl)
  have receiver : ∀ {v : EmitM Unit}, Takes v → Takes
      (if (!a.isStatic) = true then Emitter.loadLocal s.thisType 0 >>= fun _ ↦ v else v) := by
    intro v hv
    split
    · exact Takes.bind (.of_quiet (Quiet.emit rfl)) fun _ ↦ hv
    · exact hv
  split
  · dsimp only
    refine receiver ?_
    split
    · exact Takes.bind (lowerExpr_takes s _) fun _ ↦
        Takes.bind (.of_quiet (widen_quiet _ _)) fun _ ↦ store
    · exact Takes.bind (.of_quiet (pushZero_quiet _)) fun _ ↦ store
  · exact Takes.pure _

theorem initAttributes_takes : ∀ as : List AttrInfo, Takes (Lower.initAttributes s as)
  | [] => Takes.pure _
  | a :: as => by
    rw [Lower.initAttributes]
    exact Takes.bind (initAttribute_takes s a) fun _ ↦ initAttributes_takes as

theorem bindParams_quiet : ∀ (ps : List Param) (slots : List Nat),
    Quiet (Lower.bindParams ps slots)
  | p :: ps, slot :: slots => by
    rw [Lower.bindParams]
    exact Quiet.bind (bindLocal_quiet _ _ _) fun _ ↦ bindParams_quiet ps slots
  | [], _ => by simp only [Lower.bindParams]; exact Quiet.pure _
  | _ :: _, [] => by simp only [Lower.bindParams]; exact Quiet.pure _

theorem lowerBody_layout {rt : Ty} {b : Block} {prologue : EmitM Unit} (hp : Takes prologue)
    {e e' : Emitter} {u : Unit} (ho : Opened rt e)
    (h : (do Lower.lowerBody s routineRange b prologue; Lower.closeRoutine routineRange (some b)).run
      e = .ok (u, e')) :
    ∃ vars body, Layout rt (some b) e'.lines.toList vars body := by
  obtain ⟨_, e₅, h₅, h⟩ := bind_ok h
  obtain ⟨ps, e₁, e₂, e₃, e₄, h₁, h₂, h₃, h₄, h₅⟩ := lowerBody_run h₅
  obtain ⟨c₃, s₃, -⟩ := ((ho.vars_step (declareLocals_writesVars _ _) h₁).start h₂).step hp h₃
  obtain ⟨c₄, s₄, -⟩ := s₃.step (initLocals_takes s _) h₄
  obtain ⟨c₅, s₅, l₅⟩ := s₄.step (lowerStmts_takes s _) h₅
  refine ⟨_, _, s₅.close h, s₅.vars, s₅.fresh, fun hb ↦ ?_⟩
  -- the last statement is a `return`, whose code ends in a return instruction
  obtain ⟨pre, i, a, hi⟩ := lowerStmts_ends s hb h₅
  have hc : c₅ = pre ++ [.instr i] := List.append_cancel_left (l₅.symm.trans a.2)
  exact ⟨[] ++ c₃ ++ c₄ ++ pre, i, by rw [hc, List.append_assoc _ pre], hi⟩

theorem routine_layout {h : MethodHeader} {r : Receiver} {body : BlockLabels → EmitM Unit}
    {ob : Option Block} {rc : RoutineCode} {log log' : Array LogLine}
    (hb : ∀ {e e' : Emitter} {u : Unit}, Opened h.ret e → (body routineRange).run e = .ok (u, e') →
      ∃ vars b, Layout h.ret ob e'.lines.toList vars b)
    (hr : runFrom (Lower.routine s h r body) log = (.ok rc, log')) :
    ∃ vars b, Layout rc.header.ret ob rc.lines vars b := by
  obtain ⟨hh, e', hrun, hl⟩ := routine_ok s hr
  obtain ⟨ls, e₁, h₁, h₂⟩ := bind_ok hrun
  obtain ⟨rfl, ho⟩ := openRoutine_opened h₁
  rw [hl, hh]
  exact hb ho h₂

theorem defaultCtor_layout {parent : String} {attrs : List AttrInfo} {rc : RoutineCode}
    {log log' : Array LogLine} (hr : runFrom (Lower.defaultCtor s parent attrs) log = (.ok rc, log')) :
    ∃ vars body, Layout rc.header.ret none rc.lines vars body := by
  refine routine_layout s (fun ho h ↦ ?_) hr
  obtain ⟨_, e₁, h₁, h⟩ := bind_ok h
  obtain ⟨_, e₂, h₂, h⟩ := bind_ok h
  obtain ⟨_, e₃, h₃, h⟩ := bind_ok h
  obtain ⟨_, s₂, -⟩ := (ho.start h₁).step (.of_quiet (superCall_quiet s parent)) h₂
  obtain ⟨_, s₃, -⟩ := s₂.step (initAttributes_takes s _) h₃
  exact ⟨_, _, s₃.close h, s₃.vars, s₃.fresh, fun hb ↦ nomatch hb⟩

theorem staticInit_layout {attrs : List AttrInfo} {rc : RoutineCode} {log log' : Array LogLine}
    (hr : runFrom (Lower.staticInit s attrs) log = (.ok rc, log')) :
    ∃ vars body, Layout rc.header.ret none rc.lines vars body := by
  refine routine_layout s (fun ho h ↦ ?_) hr
  obtain ⟨_, e₁, h₁, h⟩ := bind_ok h
  obtain ⟨_, e₂, h₂, h⟩ := bind_ok h
  obtain ⟨_, s₂, -⟩ := (ho.start h₁).step (initAttributes_takes s _) h₂
  exact ⟨_, _, s₂.close h, s₂.vars, s₂.fresh, fun hb ↦ nomatch hb⟩

theorem memberRoutine_layout {parent : String} {attrs : List AttrInfo} {m : Member}
    {o : Option RoutineCode} {log log' : Array LogLine}
    (hr : runFrom (Lower.memberRoutine s parent attrs m) log = (.ok o, log')) :
    ∀ rc, o = some rc → ∃ ob vars body, Layout rc.header.ret ob rc.lines vars body := by
  cases m with
  | attr _ =>
    rw [← runFrom_pure_ok hr]
    exact fun _ h ↦ nomatch h
  | method d =>
    obtain ⟨rc, hrc, rfl⟩ := runFrom_map_ok hr
    rintro _ ⟨⟩
    refine ⟨some d.body, routine_layout s (fun ho h ↦ ?_) hrc⟩
    obtain ⟨_, e₁, h₁, h⟩ := bind_ok h
    exact lowerBody_layout s (.of_quiet (bindParams_quiet _ _))
      (ho.vars_step (declareParams_writesVars _ _) h₁) h
  | ctor k =>
    obtain ⟨rc, hrc, rfl⟩ := runFrom_map_ok hr
    rintro _ ⟨⟩
    refine ⟨some k.body, routine_layout s (fun ho h ↦ ?_) hrc⟩
    obtain ⟨_, e₁, h₁, h⟩ := bind_ok h
    exact lowerBody_layout s (Takes.bind (.of_quiet (superCall_quiet s parent)) fun _ ↦
      Takes.bind (initAttributes_takes s _) fun _ ↦ .of_quiet (bindParams_quiet _ _))
      (ho.vars_step (declareParams_writesVars _ _) h₁) h
  | dtor d =>
    obtain ⟨rc, hrc, rfl⟩ := runFrom_map_ok hr
    rintro _ ⟨⟩
    exact ⟨some d.body, routine_layout s (fun ho h ↦ lowerBody_layout s (Takes.pure ()) ho h) hrc⟩

end Routines

theorem compile_layout {opts : Options} {p : Program} {us : List ClassUnit}
    (h : (compile opts p).run.2 = .ok us) {u : ClassUnit} (hu : u ∈ us) {rc : RoutineCode}
    (hrc : rc ∈ u.routines) : ∃ ob vars body, Layout rc.header.ret ob rc.lines vars body := by
  obtain ⟨T, hT⟩ := compile_ok h
  obtain ⟨c, -, l₁, l₂, hc⟩ := Forall₂.exists_of_mem (List.Forall₂.flip hT :
    List.Forall₂ (fun u c ↦ ∃ l₁ l₂, runFrom (c.lower T opts) l₁ = (.ok u, l₂)) us p.classes) hu
  obtain ⟨s, attrs, init, routines, clinit, ⟨i₁, i₂, hi⟩, hms, ⟨k₁, k₂, hk⟩, -, hrs⟩ :=
    classLower_ok hc
  rw [hrs, List.mem_append, List.mem_append] at hrc
  rcases hrc with (hrc | hrc) | hrc
  · -- the constructor added to a class that declares none
    unfold initRoutines at hi
    split at hi
    · obtain ⟨r, hr, rfl⟩ := runFrom_map_ok hi
      rw [List.mem_singleton.mp hrc]
      exact ⟨_, defaultCtor_layout s hr⟩
    · rw [← runFrom_pure_ok hi] at hrc
      cases hrc
  · obtain ⟨o, ho, hoe⟩ := List.mem_filterMap.mp hrc
    obtain ⟨m, -, m₁, m₂, hm⟩ := Forall₂.exists_of_mem (List.Forall₂.flip hms :
      List.Forall₂ (fun o m ↦ ∃ l₁ l₂, runFrom (Lower.memberRoutine s
        (c.parent.getD opts.defaultSuper) attrs m) l₁ = (.ok o, l₂)) routines c.members) ho
    exact memberRoutine_layout s hm rc hoe
  · unfold clinitRoutines at hk
    split at hk
    · obtain ⟨r, hr, rfl⟩ := runFrom_map_ok hk
      rw [List.mem_singleton.mp hrc]
      exact ⟨_, staticInit_layout s hr⟩
    · rw [← runFrom_pure_ok hk] at hrc
      cases hrc

end ClassLang.Proofs.RoutineLabels
