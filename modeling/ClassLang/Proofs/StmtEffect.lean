import ClassLang.Proofs.StackEffect

namespace ClassLang.Proofs.StmtEffect

open ClassLang Runs Invariants IntSemantics IntCode ValueTypes StackEffect StmtCode

variable {α β : Type}

/-- The values a place pushes before the value stored into it: the object of a field, the array
and the index of an element. -/
def placeWeight : Place → Int
  | .loc .. | .static .. => 0
  | .field .. => 1
  | .element _ => 2

def Places (Γ : Scope) (m : EmitM Place) : Prop :=
  ∀ st p st', frameScope st.frame = Γ → m.run st = .ok (p, st') → Shift (placeWeight p) st st'

theorem enterLoop_pushes {Γ : Scope} (c b : Label) :
    Pushes Γ 0 (Emitter.onFrame (·.enterLoop c b)) := by
  intro st _ st' _ h
  rw [onFrame_run] at h
  cases h
  exact Shift.of_frame rfl rfl rfl

theorem exitLoop_pushes {Γ : Scope} : Pushes Γ 0 (Emitter.onFrame (·.exitLoop)) := by
  intro st _ st' _ h
  rw [onFrame_run] at h
  cases h
  exact Shift.of_frame rfl rfl rfl

theorem store_pushes {Γ : Scope} (p : Place) : Pushes Γ (-(placeWeight p + 1)) (Lower.store p) := by
  cases p <;> exact (Pushes.emit _).of_eq (by simp [Instr.delta, placeWeight])

theorem pushZero_pushes {Γ : Scope} (t : Ty) : Pushes Γ 1 (Lower.pushZero t) := by
  unfold Lower.pushZero
  split
  · exact newArray_pushes _ _
  · unfold Emitter.pushDefault
    split <;> exact Pushes.emit _

def targetValued (s : Site) (Γ : Scope) : Target → Bool
  | .ident .. => true
  | .chain c => valued s Γ c.toExpr

section Places

variable {s : Site} {Γ : Scope}

theorem identPlace_places (n : String) : Places Γ (Lower.identPlace s n) := by
  intro st p st' hsc h
  unfold Lower.identPlace at h
  obtain ⟨r, st₁, h₁, k₁⟩ := bind_ok h
  obtain ⟨-, rfl⟩ := IntCode.resolve_run h₁
  cases r with
  | loc l =>
    cases k₁
    exact Shift.refl _
  | attr h a =>
    dsimp only at k₁
    split at k₁
    · cases k₁
      exact Shift.refl _
    · obtain ⟨_, st₂, h₂, k₂⟩ := bind_ok k₁
      cases k₂
      exact (loadLocal_pushes _ _ _ _ _ hsc h₂).of_eq rfl
  | cls c => cases k₁
  | console => cases k₁

theorem stepsValued_append (xs ys : List Step) : ∀ {op : Option Operand},
    stepsValued s Γ op (xs ++ ys) =
      (stepsValued s Γ op xs && stepsValued s Γ (stepsType s op xs) ys) := by
  induction xs with
  | nil =>
    intro op
    simp [stepsValued, stepsType]
  | cons x xs ih =>
    intro op
    cases x <;> simp [stepsValued, stepsType, ih, Bool.and_assoc]

theorem Places.bind {mp : EmitM Place} {f : Place → EmitM β} {n : Int} (hp : Places Γ mp)
    (hf : ∀ p, Pushes Γ (n - placeWeight p) (f p)) : Pushes Γ n (mp >>= f) := by
  intro st b st'' hsc h
  obtain ⟨p, st', h₁, h₂⟩ := bind_ok h
  have k₁ := hp _ _ _ hsc h₁
  exact (k₁.trans (hf p _ _ _ (k₁.scope.trans hsc) h₂)).of_eq (by omega)

theorem stepVar_pushes (v : String) (d : Direction) : Pushes Γ 0 (Lower.stepVar s v d) := by
  unfold Lower.stepVar
  refine ((resolve_pushes s v).bind fun r ↦ (?_ : Pushes Γ 0 _)).of_eq (by simp)
  split
  · exact Pushes.emit _
  · exact (identPlace_places v).bind fun p ↦ ((loadIdent_pushes s v).bind fun _ ↦
      (Pushes.emit _).bind fun _ ↦ (arithmetic_pushes _ _).bind fun _ ↦ store_pushes p).of_eq
      (by simp only [Instr.delta]; omega)

variable (hT : VoidOnlyReturned s.table) (hΓ : VoidFreeScope Γ)
include hT hΓ

theorem chainPlace_places {c : Chain} (hv : valued s Γ c.toExpr = true) :
    Places Γ (Lower.chainPlace s c) := by
  intro st p st' hsc h
  simp only [Chain.toExpr, valued, Bool.and_eq_true] at hv
  obtain ⟨hb, hss⟩ := hv
  unfold Lower.chainPlace at h
  split at h
  · cases h
  rename_i last hlast
  obtain ⟨base, st₁, h₁, k₁⟩ := bind_ok h
  obtain ⟨op, st₂, h₂, k₂⟩ := bind_ok k₁
  have s₁ := chainBase_shift (lowerExpr_shift hT hΓ c.base hb) hsc h₁
  -- the steps before the last are valued from the base, and the last from what they reach
  have hbase := chainBase_operand (fun t' st'' hb' ↦ lowerExpr_type c.base hb') h₁
  rw [hsc] at hbase
  rw [← List.dropLast_append_getLast? last hlast, stepsValued_append, hbase, Bool.and_eq_true,
    lowerSteps_operand _ h₂] at hss
  obtain ⟨hpre, hl⟩ := hss
  have s₂ := lowerSteps_shift hT hΓ base _ hpre _ _ _ (s₁.scope.trans hsc) h₂
  have hsc₂ : frameScope st₂.frame = Γ := s₂.scope.trans (s₁.scope.trans hsc)
  have tail : ∀ {w : Int}, Shift (w - weight op) st₂ st' → Shift w st st' := fun s₃ ↦
    ((s₁.trans s₂).trans s₃).of_eq (by omega)
  split at k₂
  · rename_i n sp
    simp only [stepsValued, Bool.and_true] at hl
    obtain ⟨k, st₃, h₃, k₃⟩ := bind_ok k₂
    obtain ⟨hc, rfl⟩ := liftExcept_ok h₃
    split at k₃
    · cases k₃
    rename_i h a ha
    split at k₃
    · obtain ⟨_, st₄, h₄, k₄⟩ := bind_ok k₃
      cases k₄
      exact tail ((dropReceiver_pushes hc _ _ _ hsc₂ h₄).of_eq (by simp [placeWeight]))
    · rename_i hs
      cases k₃
      apply tail
      cases op with
      | cls c' =>
        -- a class reached by name has no object for an instance attribute
        cases hc
        exact absurd (reaches_member_isStatic hl ha) hs
      | value t =>
        exact (Shift.refl _).of_eq (by simp [placeWeight, weight, returned_of_accessedClass hc])
  · rename_i i sp t
    simp only [stepsValued, Bool.and_true, Bool.and_eq_true] at hl
    obtain ⟨⟨hi, hgi⟩, -⟩ := hl
    obtain ⟨elem, st₃, h₃, k₃⟩ := bind_ok k₂
    obtain ⟨he, rfl⟩ := liftExcept_ok h₃
    obtain ⟨_, st₄, h₄, k₄⟩ := bind_ok k₃
    cases k₄
    exact tail (((lowerExpr_shift hT hΓ i hi).pushes_one hgi _ _ _ hsc₂ h₄).of_eq
      (by simp [placeWeight, weight, returned_of_elementOf he]))
  · cases k₂

theorem targetPlace_places {t : Target} (hv : targetValued s Γ t = true) :
    Places Γ (Lower.targetPlace s t) := by
  cases t with
  | ident n _ => exact identPlace_places n
  | chain c => exact chainPlace_places hT hΓ hv

end Places

def PushesIn (rt : Ty) (Γ : Scope) (n : Int) (m : EmitM α) : Prop :=
  ∀ st a st', frameScope st.frame = Γ → st.frame.ret = rt → m.run st = .ok (a, st') →
    Shift n st st'

namespace PushesIn

variable {rt : Ty} {Γ : Scope} {n n₁ n₂ : Int}

theorem of_pushes {m : EmitM α} (h : Pushes Γ n m) : PushesIn rt Γ n m :=
  fun st a st' hs _ hm ↦ h st a st' hs hm

theorem of_eq {m : EmitM α} (h : PushesIn rt Γ n₁ m) (hn : n₁ = n₂) : PushesIn rt Γ n₂ m :=
  hn ▸ h

theorem bind {x : EmitM α} {f : α → EmitM β} (hx : PushesIn rt Γ n₁ x)
    (hf : ∀ a, PushesIn rt Γ n₂ (f a)) : PushesIn rt Γ (n₁ + n₂) (x >>= f) := by
  intro st b st'' hs hr h
  obtain ⟨a, st', h₁, h₂⟩ := bind_ok h
  have k₁ := hx _ _ _ hs hr h₁
  exact k₁.trans (hf a _ _ _ (k₁.scope.trans hs) (k₁.ret.trans hr) h₂)

theorem bind_place {mp : EmitM Place} {f : Place → EmitM β} (hp : Places Γ mp)
    (hf : ∀ p, PushesIn rt Γ (n - placeWeight p) (f p)) : PushesIn rt Γ n (mp >>= f) := by
  intro st b st'' hs hr h
  obtain ⟨p, st', h₁, h₂⟩ := bind_ok h
  have k₁ := hp _ _ _ hs h₁
  exact (k₁.trans (hf p _ _ _ (k₁.scope.trans hs) (k₁.ret.trans hr) h₂)).of_eq (by omega)

end PushesIn

section Return

variable {s : Site} {Γ : Scope} {rt : Ty} (hT : VoidOnlyReturned s.table) (hΓ : VoidFreeScope Γ)
include hT hΓ

theorem lowerReturn_pushes {v : Option Expr}
    (hv : v.all (fun e ↦ valued s Γ e && (givesValue s Γ e || rt.isVoid)) = true) :
    PushesIn rt Γ 0 (Lower.lowerReturn s v) := by
  intro st u st' hsc hr h
  unfold Lower.lowerReturn at h
  obtain ⟨_, st₁, h₁, k₁⟩ := bind_ok h
  cases h₁
  rw [hr] at k₁
  refine (?_ : Pushes Γ 0 _) _ _ _ hsc k₁
  cases v with
  | none => exact Pushes.emit _
  | some e =>
    simp only [Option.all_some, Bool.and_eq_true, Bool.or_eq_true] at hv
    obtain ⟨he, hg⟩ := hv
    refine (lowerExpr_shift hT hΓ e he).bind fun t ht ↦ ?_
    split
    · rename_i hrt
      split
      · rename_i htv
        -- a value the routine does not return is dropped
        have ht₁ : t.returned = 1 := returned_eq_one (by simpa using htv)
        exact ((Pushes.emit _).bind fun _ ↦ Pushes.emit _).of_eq (by simp [Instr.delta, ht₁])
      · rename_i htv
        have ht₀ : t.returned = 0 := returned_of_isVoid (by simpa using htv)
        exact (Pushes.emit _).of_eq (by simp [Instr.delta, ht₀])
    · rename_i hrt
      -- the routine returns a value, so the expression leaves one
      have ht₁ : t.returned = 1 :=
        returned_of_givesValue (hg.resolve_right (by simpa using hrt)) ht
      exact ((widen_pushes _ _).bind fun _ ↦ Pushes.emit _).of_eq (by simp [Instr.delta, ht₁])

end Return

theorem voidFreeScope_cons {Γ : Scope} {n : String} {t : Ty} (hΓ : VoidFreeScope Γ)
    (ht : mentionsVoid t = false) : VoidFreeScope ((n, t) :: Γ) := by
  intro q hq
  rcases List.mem_cons.mp hq with rfl | hq
  · exact ht
  · exact hΓ q hq

def blockScope (Γ : Scope) (ds : List VarDecl) : Scope :=
  (declared ds).reverse.map (fun d ↦ (d.1, d.2.1)) ++ Γ

/-- Locals each of a type without `void`, whose initializer, if any, is valued and leaves a value
over the locals before it. -/
def initsValued (s : Site) : Scope → List (String × Ty × Option Expr) → Bool
  | _, [] => true
  | Γ, (n, t, init) :: rest =>
    !mentionsVoid t && init.all (fun e ↦ valued s Γ e && givesValue s Γ e) &&
      initsValued s ((n, t) :: Γ) rest

theorem initsValued_voidFree {s : Site} (ls : List (String × Ty × Option Expr)) :
    ∀ {Γ : Scope}, VoidFreeScope Γ → initsValued s Γ ls = true →
      VoidFreeScope (ls.reverse.map (fun d ↦ (d.1, d.2.1)) ++ Γ) := by
  induction ls with
  | nil =>
    intro Γ hΓ _
    simpa using hΓ
  | cons x ls ih =>
    intro Γ hΓ h
    obtain ⟨n, t, init⟩ := x
    simp only [initsValued, Bool.and_eq_true, Bool.not_eq_true'] at h
    simpa using ih (voidFreeScope_cons hΓ h.1.1) h.2

theorem frameScope_bindAll {σ : List LocalSym} {ps : List Lower.Pending} {ds : List VarDecl}
    (hent : ps.map entryOf = declared ds) :
    (bindAll σ ps).map entry = blockScope (σ.map entry) ds := by
  simp [bindAll, blockScope, ← hent, List.map_reverse, Function.comp_def, entry, symOf, entryOf]

theorem declareVars_settled (t : Ty) (r : BlockLabels) (vs : List Declarator) :
    ∀ {st st' : Emitter} {ps : List Lower.Pending},
      (Lower.declareVars t r vs).run st = .ok (ps, st') →
      ps.map entryOf = vs.map (fun v ↦ (v.name, t, v.init)) ∧ ScopeKept st st' ∧
        st'.frame.depth = st.frame.depth := by
  induction vs with
  | nil =>
    intro st st' ps h
    rw [Lower.declareVars] at h
    cases h
    exact ⟨rfl, ScopeKept.refl _, rfl⟩
  | cons v vs ih =>
    intro st st' ps h
    rw [Lower.declareVars] at h
    obtain ⟨slot, st₁, h₁, k₁⟩ := bind_ok h
    rw [newSlot_run] at h₁
    cases h₁
    obtain ⟨_, st₂, h₂, k₂⟩ := bind_ok k₁
    rw [line_run] at h₂
    cases h₂
    obtain ⟨rest, st₃, h₃, k₃⟩ := bind_ok k₂
    cases k₃
    obtain ⟨he, hk, hd⟩ := ih h₃
    exact ⟨by simp [he, entryOf], ⟨hk.symbols, hk.blocks, hk.loops, hk.ret⟩, hd⟩

theorem declareLocals_settled (r : BlockLabels) (ds : List VarDecl) :
    ∀ {st st' : Emitter} {ps : List Lower.Pending},
      (Lower.declareLocals r ds).run st = .ok (ps, st') →
      ps.map entryOf = declared ds ∧ ScopeKept st st' ∧ st'.frame.depth = st.frame.depth := by
  induction ds with
  | nil =>
    intro st st' ps h
    rw [Lower.declareLocals] at h
    cases h
    exact ⟨rfl, ScopeKept.refl _, rfl⟩
  | cons d ds ih =>
    intro st st' ps h
    rw [Lower.declareLocals] at h
    obtain ⟨ps₁, st₁, h₁, k₁⟩ := bind_ok h
    obtain ⟨ps₂, st₂, h₂, k₂⟩ := bind_ok k₁
    cases k₂
    obtain ⟨he₁, hk₁, hd₁⟩ := declareVars_settled _ _ _ h₁
    obtain ⟨he₂, hk₂, hd₂⟩ := ih h₂
    exact ⟨by simp [he₁, he₂, declared], hk₁.trans hk₂, hd₂.trans hd₁⟩

theorem exitBlock_restores {st st' : Emitter} {σ xs : List LocalSym}
    {bs : List (BlockLabels × Nat)} {ls₀ ls : BlockLabels}
    (hb : st.frame.blocks = (ls₀, σ.length) :: bs) (hs : st.frame.symbols = xs ++ σ)
    (h : Emitter.exitBlock.run st = .ok (ls, st')) :
    st'.frame.symbols = σ ∧ st'.frame.blocks = bs ∧ st'.frame.loops = st.frame.loops ∧
      st'.frame.ret = st.frame.ret ∧ st'.frame.depth = st.frame.depth := by
  obtain ⟨f, hf, rfl⟩ := exitBlock_ok h
  simp only [Frame.exitBlock, hb, Except.ok.injEq, Prod.mk.injEq] at hf
  obtain ⟨rfl, rfl⟩ := hf
  refine ⟨?_, rfl, rfl, rfl, rfl⟩
  show st.frame.symbols.drop (st.frame.symbols.length - σ.length) = σ
  rw [hs, List.length_append, Nat.add_sub_cancel, List.drop_left]

theorem block_run {s : Site} {ds : List VarDecl} {ss : List Stmt} {sp : Span} {st st' : Emitter}
    (h : (Lower.lowerStmt s (.block ds ss sp)).run st = .ok ((), st')) :
    ∃ ps st₂ st₃ st₄ st₅ st₆ ls,
      (Lower.declareLocals st.frame.enterBlock.1 ds).run
        { st with frame := st.frame.enterBlock.2 } = .ok (ps, st₂) ∧
      (Emitter.label st.frame.enterBlock.1.start).run st₂ = .ok ((), st₃) ∧
      (Lower.initLocals s ps).run st₃ = .ok ((), st₄) ∧
      (Lower.lowerStmts s ss).run st₄ = .ok ((), st₅) ∧
      (Emitter.label st.frame.enterBlock.1.stop).run st₅ = .ok ((), st₆) ∧
      Emitter.exitBlock.run st₆ = .ok (ls, st') := by
  obtain ⟨ls₁, ps, st₁, st₂, st₃, st₄, st₅, st₆, ls, h₁, h₂, h₃, h₄, h₅, h₆, h₇⟩ :=
    lowerStmt_block_run s sp h
  rw [enterBlock_run] at h₁
  cases h₁
  exact ⟨ps, st₂, st₃, st₄, st₅, st₆, ls, h₂, h₃, h₄, h₅, h₆, h₇⟩

section Inits

variable (s : Site)

theorem initLocals_cons_run {p : Lower.Pending} {ps : List Lower.Pending} {st st' : Emitter}
    (h : (Lower.initLocals s (p :: ps)).run st = .ok ((), st')) :
    ∃ st₁ st₂,
      ((∃ e, p.init = some e ∧
          (Lower.lowerExpr s e >>= Lower.widen p.type).run st = .ok ((), st₁)) ∨
        (p.init = none ∧ (Lower.pushZero p.type).run st = .ok ((), st₁))) ∧
      (Emitter.storeLocal p.type p.slot).run st₁ = .ok ((), st₂) ∧
      (Lower.initLocals s ps).run { st₂ with frame := st₂.frame.bind p.name p.type p.slot } =
        .ok ((), st') := by
  rw [Lower.initLocals] at h
  split at h
  · rename_i e he
    obtain ⟨t, st₀, h₀, k₀⟩ := bind_ok h
    obtain ⟨_, st₁, h₁, k₁⟩ := bind_ok k₀
    obtain ⟨_, st₂, h₂, k₂⟩ := bind_ok k₁
    obtain ⟨_, st₃, h₃, k₃⟩ := bind_ok k₂
    rw [onFrame_run] at h₃
    cases h₃
    exact ⟨st₁, st₂, .inl ⟨e, he, by rw [run_bind_of_ok h₀]; exact h₁⟩, h₂, k₃⟩
  · rename_i he
    obtain ⟨_, st₁, h₁, k₁⟩ := bind_ok h
    obtain ⟨_, st₂, h₂, k₂⟩ := bind_ok k₁
    obtain ⟨_, st₃, h₃, k₃⟩ := bind_ok k₂
    rw [onFrame_run] at h₃
    cases h₃
    exact ⟨st₁, st₂, .inr ⟨he, h₁⟩, h₂, k₃⟩

theorem initLocals_frame (ps : List Lower.Pending) : ∀ {st st' : Emitter},
    (Lower.initLocals s ps).run st = .ok ((), st') →
    st'.frame.symbols = bindAll st.frame.symbols ps ∧ st'.frame.blocks = st.frame.blocks ∧
      st'.frame.loops = st.frame.loops ∧ st'.frame.ret = st.frame.ret := by
  induction ps with
  | nil =>
    intro st st' h
    rw [Lower.initLocals] at h
    cases h
    exact ⟨by simp [bindAll], rfl, rfl, rfl⟩
  | cons p ps ih =>
    intro st st' h
    obtain ⟨st₁, st₂, h₁, h₂, k₃⟩ := initLocals_cons_run s h
    -- the initializer's code and the store are expression-level code
    have c₁ : ScopeKept st st₁ := by
      rcases h₁ with ⟨e, -, h₁⟩ | ⟨-, h₁⟩
      · exact (Sound.bind scopeKept_steps (lowerExpr_sound scopeKept_steps s e) fun _ ↦
          widen_sound scopeKept_steps _ _).ok _ _ _ h₁
      · exact (pushZero_sound scopeKept_steps _).ok _ _ _ h₁
    have c := c₁.trans ((storeLocal_sound scopeKept_steps _ _).ok _ _ _ h₂)
    obtain ⟨hs, hb, hl, hr⟩ := ih k₃
    refine ⟨?_, hb.trans c.blocks, hl.trans c.loops, hr.trans c.ret⟩
    rw [hs]
    show bindAll (symOf p :: st₂.frame.symbols) ps = _
    rw [c.symbols]
    simp [bindAll]

variable {s} (hT : VoidOnlyReturned s.table)
include hT

theorem initLocals_moves (ps : List Lower.Pending) : ∀ {Γ : Scope} {st st' : Emitter},
    VoidFreeScope Γ → initsValued s Γ (ps.map entryOf) = true → frameScope st.frame = Γ →
    (Lower.initLocals s ps).run st = .ok ((), st') → Moves 0 st st' := by
  induction ps with
  | nil =>
    intro Γ st st' _ _ _ h
    rw [Lower.initLocals] at h
    cases h
    exact Moves.refl _
  | cons p ps ih =>
    intro Γ st st' hΓ hv hsc h
    simp only [List.map_cons, entryOf, initsValued, Bool.and_eq_true, Bool.not_eq_true'] at hv
    obtain ⟨⟨hvoid, hinit⟩, hrest⟩ := hv
    obtain ⟨st₁, st₂, h₁, h₂, k₃⟩ := initLocals_cons_run s h
    -- the initializer's value, or a zero, is pushed and then stored
    have c₁ : Shift 1 st st₁ := by
      rcases h₁ with ⟨e, he, h₁⟩ | ⟨-, h₁⟩
      · rw [he, Option.all_some, Bool.and_eq_true] at hinit
        exact ((((lowerExpr_shift hT hΓ e hinit.1).pushes_one hinit.2).bind fun _ ↦
          widen_pushes _ _) _ _ _ hsc h₁).of_eq (by simp)
      · exact pushZero_pushes _ _ _ _ hsc h₁
    have c₂ := Pushes.emit (Γ := Γ) _ _ _ _ (c₁.scope.trans hsc) h₂
    have hsc₃ : frameScope (st₂.frame.bind p.name p.type p.slot) = (p.name, p.type) :: Γ := by
      rw [← (c₁.trans c₂).scope.trans hsc]
      rfl
    have c₃ : Moves 0 st₂ { st₂ with frame := st₂.frame.bind p.name p.type p.slot } :=
      Moves.of_frame rfl rfl
    have c₄ := ih (voidFreeScope_cons hΓ hvoid) hrest hsc₃ k₃
    exact ((c₁.toMoves.trans c₂.toMoves).trans (c₃.trans c₄)).of_eq (by simp [Instr.delta])

end Inits

/-- Every successful run keeps the locals in scope, the open blocks and loops and the result
type. -/
def Keeps (m : EmitM α) : Prop := ∀ st a st', m.run st = .ok (a, st') → ScopeKept st st'

namespace Keeps

theorem of_sound {m : EmitM α} (h : Sound ScopeKept (fun _ ↦ True) m) : Keeps m := h.ok

theorem bind {x : EmitM α} {f : α → EmitM β} (hx : Keeps x) (hf : ∀ a, Keeps (f a)) :
    Keeps (x >>= f) := by
  intro st b st'' h
  obtain ⟨a, st', h₁, h₂⟩ := bind_ok h
  exact (hx _ _ _ h₁).trans (hf a _ _ _ h₂)

theorem loop {c b : Label} {body : EmitM Unit} {k : Unit → EmitM β} (hb : Keeps body)
    (hk : ∀ u, Keeps (k u)) :
    Keeps (Emitter.onFrame (·.enterLoop c b) >>= fun _ ↦ body >>= fun _ ↦
      Emitter.onFrame (·.exitLoop) >>= k) := by
  intro st a st' h
  obtain ⟨_, st₁, h₁, k₁⟩ := bind_ok h
  rw [onFrame_run] at h₁
  cases h₁
  obtain ⟨_, st₂, h₂, k₂⟩ := bind_ok k₁
  obtain ⟨_, st₃, h₃, k₃⟩ := bind_ok k₂
  rw [onFrame_run] at h₃
  cases h₃
  have kb := hb _ _ _ h₂
  have hl : st₂.frame.exitLoop.loops = st.frame.loops := by
    show Loops.exit st₂.frame.loops = st.frame.loops
    rw [kb.loops]
    rfl
  have k₄ : ScopeKept st { st₂ with frame := st₂.frame.exitLoop } :=
    ⟨kb.symbols, kb.blocks, hl, kb.ret⟩
  exact k₄.trans (hk _ _ _ _ k₃)

end Keeps

theorem block_keeps {s : Site} {ds : List VarDecl} {ss : List Stmt} {sp : Span}
    (hss : Keeps (Lower.lowerStmts s ss)) : Keeps (Lower.lowerStmt s (.block ds ss sp)) := by
  intro st u st' h
  obtain ⟨ps, st₂, st₃, st₄, st₅, st₆, ls, h₂, h₃, h₄, h₅, h₆, h₇⟩ := block_run h
  have k₃ := (declareLocals_settled _ ds h₂).2.1.trans
    ((Sound.label scopeKept_steps _).ok _ _ _ h₃)
  obtain ⟨hs₄, hb₄, hl₄, hr₄⟩ := initLocals_frame s ps h₄
  have k₆ := (hss _ _ _ h₅).trans ((Sound.label scopeKept_steps _).ok _ _ _ h₆)
  -- the block's entry records the locals in scope when it opened, and only its own were bound
  have hs₆ : st₆.frame.symbols = ps.reverse.map symOf ++ st.frame.symbols := by
    rw [k₆.symbols, hs₄, k₃.symbols]
    rfl
  have hb₆ : st₆.frame.blocks =
      (st.frame.enterBlock.1, st.frame.symbols.length) :: st.frame.blocks := by
    rw [k₆.blocks, hb₄, k₃.blocks]
    rfl
  obtain ⟨hs, hb, hl, hr, -⟩ := exitBlock_restores hb₆ hs₆ h₇
  refine ⟨hs, hb, ?_, ?_⟩
  · rw [hl, k₆.loops, hl₄, k₃.loops]
    rfl
  · rw [hr, k₆.ret, hr₄, k₃.ret]
    rfl

section Keeping

variable (s : Site)

mutual

theorem lowerStmt_keeps : ∀ stmt : Stmt, Keeps (Lower.lowerStmt s stmt)
  | .assign t rhs sp => Keeps.of_sound (assign_sound scopeKept_steps s t rhs sp)
  | .cond c th el _ => by
    rw [lowerStmt_cond]
    refine Keeps.bind (Keeps.of_sound (Sound.newLabel scopeKept_steps)) fun _ ↦
      Keeps.bind (Keeps.of_sound (lowerExpr_sound scopeKept_steps s c)) fun _ ↦
      Keeps.bind (Keeps.of_sound (Sound.emit scopeKept_steps _)) fun _ ↦
      Keeps.bind (lowerStmt_keeps th) fun _ ↦ ?_
    cases el with
    | none => exact Keeps.of_sound (Sound.label scopeKept_steps _)
    | some e =>
      exact Keeps.bind (Keeps.of_sound (Sound.newLabel scopeKept_steps)) fun _ ↦
        Keeps.bind (Keeps.of_sound (Sound.emit scopeKept_steps _)) fun _ ↦
        Keeps.bind (Keeps.of_sound (Sound.label scopeKept_steps _)) fun _ ↦
        Keeps.bind (lowerStmt_keeps e) fun _ ↦ Keeps.of_sound (Sound.label scopeKept_steps _)
  | .loop v _ a d b body _ => by
    rw [lowerStmt_loop]
    -- all but the body and the loop's labels is expression-level code
    exact Keeps.bind (Keeps.of_sound (Sound.newLabel scopeKept_steps)) fun _ ↦
      Keeps.bind (Keeps.of_sound (Sound.newLabel scopeKept_steps)) fun _ ↦
      Keeps.bind (Keeps.of_sound (Sound.newLabel scopeKept_steps)) fun _ ↦
      Keeps.bind (Keeps.of_sound (identPlace_sound scopeKept_steps s v)) fun _ ↦
      Keeps.bind (Keeps.of_sound (lowerExpr_sound scopeKept_steps s a)) fun _ ↦
      Keeps.bind (Keeps.of_sound (store_sound scopeKept_steps _)) fun _ ↦
      Keeps.bind (Keeps.of_sound (Sound.label scopeKept_steps _)) fun _ ↦
      Keeps.bind (Keeps.of_sound (loadIdent_sound scopeKept_steps s v)) fun _ ↦
      Keeps.bind (Keeps.of_sound (lowerExpr_sound scopeKept_steps s b)) fun _ ↦
      Keeps.bind (Keeps.of_sound (Sound.emit scopeKept_steps _)) fun _ ↦
      Keeps.loop (lowerStmt_keeps body) fun _ ↦
      Keeps.bind (Keeps.of_sound (Sound.label scopeKept_steps _)) fun _ ↦
      Keeps.bind (Keeps.of_sound (stepVar_sound scopeKept_steps s v d)) fun _ ↦
      Keeps.bind (Keeps.of_sound (Sound.emit scopeKept_steps _)) fun _ ↦
      Keeps.of_sound (Sound.label scopeKept_steps _)
  | .brk sp => Keeps.of_sound (brk_sound scopeKept_steps s sp)
  | .cont sp => Keeps.of_sound (cont_sound scopeKept_steps s sp)
  | .ret v _ => by
    rw [lowerStmt_ret]
    exact Keeps.of_sound (lowerReturn_sound scopeKept_steps s v)
  | .block ds ss _ => block_keeps (lowerStmts_keeps ss)
  | .invoke c sp => Keeps.of_sound (invoke_sound scopeKept_steps s c sp)

theorem lowerStmts_keeps : ∀ ss : List Stmt, Keeps (Lower.lowerStmts s ss)
  | [] => by
    rw [Lower.lowerStmts]
    exact Keeps.of_sound (Sound.pure scopeKept_steps _)
  | st :: sts => by
    rw [Lower.lowerStmts]
    exact Keeps.bind (lowerStmt_keeps st) fun _ ↦ lowerStmts_keeps sts

end

end Keeping

mutual

/-- A statement whose operands are valued: its tests, bounds, right-hand sides and initializers
leave a value, a value returned from a routine with a result type is there, and the locals of
its blocks have types without `void`. -/
def stmtValued (s : Site) (rt : Ty) (Γ : Scope) : Stmt → Bool
  | .assign t rhs _ => targetValued s Γ t && valued s Γ rhs && givesValue s Γ rhs
  | .cond c th none _ => valued s Γ c && givesValue s Γ c && stmtValued s rt Γ th
  | .cond c th (some el) _ =>
    valued s Γ c && givesValue s Γ c && stmtValued s rt Γ th && stmtValued s rt Γ el
  | .loop _ _ a _ b body _ =>
    valued s Γ a && givesValue s Γ a && valued s Γ b && givesValue s Γ b &&
      stmtValued s rt Γ body
  | .brk _ | .cont _ => true
  | .ret v _ => v.all fun e ↦ valued s Γ e && (givesValue s Γ e || rt.isVoid)
  | .block ds ss _ => initsValued s Γ (declared ds) && stmtsValued s rt (blockScope Γ ds) ss
  | .invoke c _ => valued s Γ c.toExpr

def stmtsValued (s : Site) (rt : Ty) (Γ : Scope) : List Stmt → Bool
  | [] => true
  | st :: sts => stmtValued s rt Γ st && stmtsValued s rt Γ sts

end

theorem label_frame {l : Label} {st st' : Emitter} {u : Unit}
    (h : (Emitter.label l).run st = .ok (u, st')) : st'.frame = st.frame := by
  cases h
  rfl

theorem exitBlock_moves {st st' : Emitter} {ls : BlockLabels}
    (h : Emitter.exitBlock.run st = .ok (ls, st')) : Moves 0 st st' := by
  obtain ⟨f, hf, rfl⟩ := exitBlock_ok h
  unfold Frame.exitBlock at hf
  split at hf
  · cases hf
    exact Moves.of_frame rfl rfl
  · cases hf

section Depth

variable {s : Site} {rt : Ty} (hT : VoidOnlyReturned s.table)
include hT

-- the statement lists need the table only through the statements in them
set_option linter.unusedSectionVars false

theorem block_pushes {Γ : Scope} {ds : List VarDecl} {ss : List Stmt} {sp : Span}
    (hΓ : VoidFreeScope Γ) (hinit : initsValued s Γ (declared ds) = true)
    (hss : PushesIn rt (blockScope Γ ds) 0 (Lower.lowerStmts s ss)) :
    PushesIn rt Γ 0 (Lower.lowerStmt s (.block ds ss sp)) := by
  intro st u st' hsc hr h
  have kb := block_keeps (lowerStmts_keeps s ss) _ _ _ h
  obtain ⟨ps, st₂, st₃, st₄, st₅, st₆, ls, h₂, h₃, h₄, h₅, h₆, h₇⟩ := block_run h
  obtain ⟨hent, k₂, hd₂⟩ := declareLocals_settled _ ds h₂
  have f₃ := label_frame h₃
  have hsc₃ : frameScope st₃.frame = Γ := by
    rw [f₃, ← hsc]
    exact congrArg (List.map entry) k₂.symbols
  -- the initializers over the scope around, the statements over the block's
  have m₄ := initLocals_moves hT ps hΓ (by rw [hent]; exact hinit) hsc₃ h₄
  obtain ⟨hs₄, -, -, hr₄⟩ := initLocals_frame s ps h₄
  have hsc₄ : frameScope st₄.frame = blockScope Γ ds := by
    rw [frameScope, hs₄, f₃, k₂.symbols, ← hsc]
    exact frameScope_bindAll hent
  have s₅ := hss _ _ _ hsc₄ (by rw [hr₄, f₃, k₂.ret, ← hr]; rfl) h₅
  have m₂ : Moves 0 st st₂ := Moves.of_frame hd₂ k₂.ret
  have m₃ : Moves 0 st₂ st₃ := Moves.of_frame (by rw [f₃]) (by rw [f₃])
  have m₆ : Moves 0 st₅ st₆ := Moves.of_frame (by rw [label_frame h₆]) (by rw [label_frame h₆])
  exact ⟨((((m₂.trans m₃).trans m₄).trans s₅.toMoves).trans (m₆.trans (exitBlock_moves h₇))).of_eq
    (by simp), kb.symbols⟩

mutual

theorem lowerStmt_pushes : ∀ (stmt : Stmt) {Γ : Scope}, VoidFreeScope Γ →
    stmtValued s rt Γ stmt = true → PushesIn rt Γ 0 (Lower.lowerStmt s stmt)
  | .assign t rhs _, Γ, hΓ, hv => by
    simp only [stmtValued, Bool.and_eq_true] at hv
    obtain ⟨⟨ht, hr⟩, hg⟩ := hv
    rw [lowerStmt_assign]
    -- the place's operands and the value, all taken by the store
    exact PushesIn.of_pushes ((targetPlace_places hT hΓ ht).bind fun p ↦
      (((lowerExpr_shift hT hΓ rhs hr).pushes_one hg).bind fun _ ↦ (widen_pushes _ _).bind fun _ ↦
        store_pushes p).of_eq (by omega))
  | .cond c th none _, Γ, hΓ, hv => by
    simp only [stmtValued, Bool.and_eq_true] at hv
    obtain ⟨⟨hc, hg⟩, hth⟩ := hv
    have pth := lowerStmt_pushes th hΓ hth
    rw [lowerStmt_cond]
    exact ((PushesIn.of_pushes Pushes.newLabel).bind fun _ ↦
      (PushesIn.of_pushes ((lowerExpr_shift hT hΓ c hc).pushes_one hg)).bind fun _ ↦
      (PushesIn.of_pushes (Pushes.emit _ : Pushes Γ (-1) _)).bind fun _ ↦
      pth.bind fun _ ↦ PushesIn.of_pushes (Pushes.label _)).of_eq (by simp)
  | .cond c th (some el) _, Γ, hΓ, hv => by
    simp only [stmtValued, Bool.and_eq_true] at hv
    obtain ⟨⟨⟨hc, hg⟩, hth⟩, hel⟩ := hv
    have pth := lowerStmt_pushes th hΓ hth
    have pel := lowerStmt_pushes el hΓ hel
    rw [lowerStmt_cond]
    exact ((PushesIn.of_pushes Pushes.newLabel).bind fun _ ↦
      (PushesIn.of_pushes ((lowerExpr_shift hT hΓ c hc).pushes_one hg)).bind fun _ ↦
      (PushesIn.of_pushes (Pushes.emit _ : Pushes Γ (-1) _)).bind fun _ ↦
      pth.bind fun _ ↦ (PushesIn.of_pushes Pushes.newLabel).bind fun _ ↦
      (PushesIn.of_pushes (Pushes.emit _ : Pushes Γ 0 _)).bind fun _ ↦
      (PushesIn.of_pushes (Pushes.label _)).bind fun _ ↦
      pel.bind fun _ ↦ PushesIn.of_pushes (Pushes.label _)).of_eq (by simp)
  | .loop v _ a d b body _, Γ, hΓ, hv => by
    simp only [stmtValued, Bool.and_eq_true] at hv
    obtain ⟨⟨⟨⟨ha, hga⟩, hb⟩, hgb⟩, hbody⟩ := hv
    have pbody := lowerStmt_pushes body hΓ hbody
    rw [lowerStmt_loop]
    refine ((PushesIn.of_pushes Pushes.newLabel).bind fun _ ↦
      (PushesIn.of_pushes Pushes.newLabel).bind fun _ ↦
      (PushesIn.of_pushes Pushes.newLabel).bind fun _ ↦
      PushesIn.bind_place (identPlace_places v) fun p ↦
        (?_ : PushesIn rt Γ (0 - placeWeight p) _)).of_eq (by simp)
    -- the start is stored, the variable is compared with the bound, the body and the step keep
    -- the depth
    exact ((PushesIn.of_pushes ((lowerExpr_shift hT hΓ a ha).pushes_one hga)).bind fun _ ↦
      (PushesIn.of_pushes (store_pushes p)).bind fun _ ↦
      (PushesIn.of_pushes (Pushes.label _)).bind fun _ ↦
      (PushesIn.of_pushes (loadIdent_pushes s v)).bind fun _ ↦
      (PushesIn.of_pushes ((lowerExpr_shift hT hΓ b hb).pushes_one hgb)).bind fun _ ↦
      (PushesIn.of_pushes (Pushes.emit _ : Pushes Γ (-2) _)).bind fun _ ↦
      (PushesIn.of_pushes (enterLoop_pushes _ _)).bind fun _ ↦
      pbody.bind fun _ ↦ (PushesIn.of_pushes exitLoop_pushes).bind fun _ ↦
      (PushesIn.of_pushes (Pushes.label _)).bind fun _ ↦
      (PushesIn.of_pushes (stepVar_pushes v d)).bind fun _ ↦
      (PushesIn.of_pushes (Pushes.emit _ : Pushes Γ 0 _)).bind fun _ ↦
      PushesIn.of_pushes (Pushes.label _)).of_eq (by omega)
  | .brk _, Γ, _, _ | .cont _, Γ, _, _ => by
    simp only [lowerStmt_brk, lowerStmt_cont]
    exact PushesIn.of_pushes ((Pushes.get.bind fun _ ↦ (Pushes.liftExcept _).bind fun _ ↦
      (Pushes.emit _ : Pushes Γ 0 _)).of_eq rfl)
  | .ret v _, Γ, hΓ, hv => by
    rw [lowerStmt_ret]
    exact lowerReturn_pushes hT hΓ hv
  | .block ds ss _, Γ, hΓ, hv => by
    simp only [stmtValued, Bool.and_eq_true] at hv
    have hΓ' : VoidFreeScope (blockScope Γ ds) := initsValued_voidFree _ hΓ hv.1
    exact block_pushes hT hΓ hv.1 (lowerStmts_pushes ss hΓ' hv.2)
  | .invoke c _, Γ, hΓ, hv => by
    rw [lowerStmt_invoke]
    -- the value of a call that has one is dropped
    refine PushesIn.of_pushes ((lowerExpr_shift hT hΓ _ hv).bind fun t _ ↦ ?_)
    split
    · rename_i ht
      exact (Pushes.emit _).of_eq (by simp [Instr.delta, returned_eq_one (by simpa using ht)])
    · rename_i ht
      exact (Pushes.pure _).of_eq (by simp [returned_of_isVoid (by simpa using ht)])

theorem lowerStmts_pushes : ∀ (ss : List Stmt) {Γ : Scope}, VoidFreeScope Γ →
    stmtsValued s rt Γ ss = true → PushesIn rt Γ 0 (Lower.lowerStmts s ss)
  | [], Γ, _, _ => by
    rw [Lower.lowerStmts]
    exact PushesIn.of_pushes (Pushes.pure _)
  | st :: sts, Γ, hΓ, hv => by
    simp only [stmtsValued, Bool.and_eq_true] at hv
    rw [Lower.lowerStmts]
    exact (lowerStmt_pushes st hΓ hv.1).bind fun _ ↦ lowerStmts_pushes sts hΓ hv.2

end

end Depth

/-- The stack discipline of the generator, over a class table whose only `void` is the result of
methods, and locals of types without `void`, from a depth in range:
a valued expression leaves the depth one higher, or where it was when its type is `void`, and
then it is the result of a call; capturing a valued expression that leaves a value, `k` values
above the stack, leaves the depth and the lines as they were, and keeps aside the lines and the
maximum of its run `k` values higher; replaying captured code raises the depth by one; and every
statement keeps the locals in scope, the open blocks and loops and the result type, and a valued
one keeps the depth. -/
theorem lowering_stack_discipline {s : Site} (hT : VoidOnlyReturned s.table) :
    (∀ (e : Expr) (st st' : Emitter) (t : Ty), VoidFreeScope (frameScope st.frame) →
      valued s (frameScope st.frame) e = true → InRange st →
      (Lower.lowerExpr s e).run st = .ok (t, st') →
      st'.frame.depth = st.frame.depth + t.returned ∧
        (t.isVoid = true → callResult e = true)) ∧
    (∀ (e : Expr) (k : Int) (st st' : Emitter) (c : Captured),
      VoidFreeScope (frameScope st.frame) → valued s (frameScope st.frame) e = true →
      givesValue s (frameScope st.frame) e = true → InRange st → 0 ≤ k →
      st.frame.depth + k < 2147483648 →
      (Lower.capture k (Lower.lowerExpr s e)).run st = .ok (c, st') →
      st'.frame.depth = st.frame.depth ∧ st'.lines = st.lines ∧
        ∃ st₂, (Lower.lowerExpr s e).run (raise st k) = .ok (c.type, st₂) ∧
          st₂.lines.toList = st.lines.toList ++ c.lines ∧
          st'.frame.maxDepth = st₂.frame.maxDepth) ∧
    (∀ (c : Captured) (target : Option Ty) (st st' : Emitter), InRange st →
      (Lower.replay c target).run st = .ok ((), st') → st'.frame.depth = st.frame.depth + 1) ∧
    (∀ (stmt : Stmt) (st st' : Emitter), (Lower.lowerStmt s stmt).run st = .ok ((), st') →
      ScopeKept st st' ∧
        (VoidFreeScope (frameScope st.frame) →
          stmtValued s st.frame.ret (frameScope st.frame) stmt = true → InRange st →
          st'.frame.depth = st.frame.depth)) := by
  refine ⟨?_, ?_, ?_, ?_⟩
  · intro e st st' t hΓ hv hr h
    exact ⟨lowerExpr_depth hT hΓ hv hr h,
      callResult_of_void hT hΓ e hv (lowerExpr_type e h)⟩
  · intro e k st st' c hΓ hv hg hr hk hk' h
    exact capture_effect hT hΓ hv hg hr hk hk' h
  · intro c target st st' hr h
    exact replay_depth hr h
  · intro stmt st st' h
    refine ⟨lowerStmt_keeps s stmt _ _ _ h, fun hΓ hv hr ↦ ?_⟩
    have hd := (lowerStmt_pushes hT stmt hΓ hv _ _ _ rfl rfl h).toMoves.exact (Int.le_refl 0)
      (by decide) hr
    rwa [Int.add_zero] at hd

/-- A class with an instance method `g` of result `int`, an instance method `h` that calls it
through the class name, and an entry point. -/
def classCallProgram : Program :=
  ⟨[⟨"Main", none, [
    .method ⟨false, .int, "g", [], ⟨[], [.ret (some (.lit (.int 1) default)) default], default⟩,
      default⟩,
    .method ⟨false, .void, "h", [],
      ⟨[], [.invoke ⟨.ident "Main" default, [.call "g" [] default], default⟩ default], default⟩,
      default⟩,
    .method ⟨true, .void, "main", [], ⟨[], [], default⟩, default⟩], default⟩]⟩

/-- The code of `Main`'s routines. -/
def classCallSite : Site := ⟨Registration.tableOf classCallProgram, {}, "Main"⟩

/-- The emitter as the instance routine `h` starts its body. -/
def routineStart : Emitter := ⟨#[], { name := "h", ret := .void, isStatic := false }⟩

/-- `Main.g()`, the instance method called through the class name. -/
def classCallG : Expr := .chain (.ident "Main" default) [.call "g" [] default] default

/-- `this.g()`, the instance method called on the object. -/
def selfCallG : Expr := .chain (.this default) [.call "g" [] default] default

/-- An instance method called through its class name takes a receiver that was never pushed:
`Main.g()` returns `int` yet leaves the depth at 0, and it is not valued. -/
theorem classCall_int_keeps_depth :
    ((Lower.lowerExpr classCallSite classCallG).run routineStart).toOption.map
        (fun r ↦ (r.1, r.2.frame.depth)) = some (.int, 0) ∧
      Ty.int.returned = 1 ∧ valued classCallSite [] classCallG = false := by
  decide +kernel

theorem lowering_stack_discipline_selfCall :
    VoidOnlyReturned classCallSite.table ∧
      ∀ (st st' : Emitter) (t : Ty), frameScope st.frame = [] → InRange st →
        (Lower.lowerExpr classCallSite selfCallG).run st = .ok (t, st') →
        st'.frame.depth = st.frame.depth + t.returned ∧
          (t.isVoid = true → callResult selfCallG = true) := by
  have hT : VoidOnlyReturned classCallSite.table := by decide +kernel
  refine ⟨hT, fun st st' t hsc hr h ↦
    (lowering_stack_discipline hT).1 selfCallG st st' t ?_ ?_ hr h⟩
  · rw [hsc]
    decide
  · rw [hsc]
    decide +kernel

end ClassLang.Proofs.StmtEffect
