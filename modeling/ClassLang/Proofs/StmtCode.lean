import ClassLang.Proofs.IntCode
import Mathlib.Data.List.Nodup

namespace ClassLang.Proofs.StmtCode

open ClassLang Runs LoopJumps Machine IntSemantics IntCode

def symOf (p : Lower.Pending) : LocalSym := ⟨p.name, p.type, p.slot⟩

def entryOf (p : Lower.Pending) : String × Ty × Option Expr := (p.name, p.type, p.init)

def bindAll (σ : List LocalSym) (ps : List Lower.Pending) : List LocalSym :=
  ps.reverse.map symOf ++ σ

def exitTest (d : Direction) : Cond := if d == .up then .gt else .lt

def stepBy (d : Direction) : Int := if d == .up then 1 else -1

/-- The code that initializes pending locals in order, each over the locals in scope before it:
its initializer's value, or zero, stored in its slot. -/
inductive InitCode : List LocalSym → List Lower.Pending → List Line → Prop where
  | nil {σ : List LocalSym} : InitCode σ [] []
  | expr {σ : List LocalSym} {p : Lower.Pending} {ps : List Lower.Pending} {e : Expr}
      {c cs : List Line} (hp : p.init = some e) (hc : ExprCode σ e c)
      (hs : InitCode (symOf p :: σ) ps cs) :
      InitCode σ (p :: ps) (c ++ .instr (.store .int p.slot) :: cs)
  | zero {σ : List LocalSym} {p : Lower.Pending} {ps : List Lower.Pending} {cs : List Line}
      (hp : p.init = none) (hs : InitCode (symOf p :: σ) ps cs) :
      InitCode σ (p :: ps) (.instr (.pushInt 0) :: .instr (.store .int p.slot) :: cs)

/-- The code of a statement, of statements in order, or of the rounds of a `for` loop from its
test label, over the locals `σ` in scope and under the open loops `ls`. -/
inductive Code : List LocalSym → List LoopLabels → Task → List Line → Prop where
  | assign {σ : List LocalSym} {ls : List LoopLabels} {n : String} {nsp : Span} {rhs : Expr}
      {sp : Span} {x : LocalSym} {c : List Line} (hx : symbolOf σ n = some x)
      (hc : ExprCode σ rhs c) :
      Code σ ls (.stmt (.assign (.ident n nsp) rhs sp)) (c ++ [.instr (.store .int x.slot)])
  | cond {σ : List LocalSym} {ls : List LoopLabels} {c : Expr} {th : Stmt} {sp : Span}
      {ct cth : List Line} (elseL : Label) (hc : ExprCode σ c ct) (hth : Code σ ls (.stmt th) cth) :
      Code σ ls (.stmt (.cond c th none sp)) (ct ++ .instr (.ifFalse elseL) :: cth ++ [.label elseL])
  | condElse {σ : List LocalSym} {ls : List LoopLabels} {c : Expr} {th el : Stmt} {sp : Span}
      {ct cth cel : List Line} (elseL endL : Label) (hc : ExprCode σ c ct)
      (hth : Code σ ls (.stmt th) cth) (hel : Code σ ls (.stmt el) cel) :
      Code σ ls (.stmt (.cond c th (some el) sp))
        (ct ++ .instr (.ifFalse elseL) :: cth ++ .instr (.goto endL) :: .label elseL :: cel ++
          [.label endL])
  | loop {σ : List LocalSym} {ls : List LoopLabels} {v : String} {vsp : Span} {a : Expr}
      {d : Direction} {b : Expr} {body : Stmt} {sp : Span} {x : LocalSym} {ca cr : List Line}
      (hx : symbolOf σ v = some x) (ha : ExprCode σ a ca) (hr : Code σ ls (.rounds v d b body) cr) :
      Code σ ls (.stmt (.loop v vsp a d b body sp)) (ca ++ .instr (.store .int x.slot) :: cr)
  | rounds {σ : List LocalSym} {ls : List LoopLabels} {v : String} {d : Direction} {b : Expr}
      {body : Stmt} {x : LocalSym} {cb cbody : List Line} (condL contL brkL : Label)
      (hx : symbolOf σ v = some x) (hb : ExprCode σ b cb)
      (hbody : Code σ (⟨contL, brkL⟩ :: ls) (.stmt body) cbody) :
      Code σ ls (.rounds v d b body)
        (.label condL :: .instr (.load .int x.slot) :: cb ++ .instr (.ifICmp (exitTest d) brkL) ::
          cbody ++ [.label contL, .instr (.iinc x.slot (stepBy d)), .instr (.goto condL),
            .label brkL])
  | brk {σ : List LocalSym} {l : LoopLabels} {ls : List LoopLabels} {sp : Span} :
      Code σ (l :: ls) (.stmt (.brk sp)) [.instr (.goto l.brk)]
  | cont {σ : List LocalSym} {l : LoopLabels} {ls : List LoopLabels} {sp : Span} :
      Code σ (l :: ls) (.stmt (.cont sp)) [.instr (.goto l.cont)]
  | retVoid {σ : List LocalSym} {ls : List LoopLabels} {sp : Span} :
      Code σ ls (.stmt (.ret none sp)) [.instr .retVoid]
  | ret {σ : List LocalSym} {ls : List LoopLabels} {e : Expr} {sp : Span} {c : List Line}
      (hc : ExprCode σ e c) : Code σ ls (.stmt (.ret (some e) sp)) (c ++ [.instr (.retValue .int)])
  | block {σ : List LocalSym} {ls : List LoopLabels} {ds : List VarDecl} {ss : List Stmt}
      {sp : Span} {ps : List Lower.Pending} {vars inits cs : List Line} (start stop : Label)
      (hv : ∀ y ∈ vars, instrOf y = none) (hps : ps.map entryOf = declared ds)
      (hslots : ((bindAll σ ps).map (·.slot)).Nodup) (hi : InitCode σ ps inits)
      (hs : Code (bindAll σ ps) ls (.seq ss) cs) :
      Code σ ls (.stmt (.block ds ss sp)) (vars ++ .label start :: inits ++ cs ++ [.label stop])
  | nil {σ : List LocalSym} {ls : List LoopLabels} : Code σ ls (.seq []) []
  | cons {σ : List LocalSym} {ls : List LoopLabels} {st : Stmt} {sts : List Stmt}
      {c cs : List Line} (h : Code σ ls (.stmt st) c) (hs : Code σ ls (.seq sts) cs) :
      Code σ ls (.seq (st :: sts)) (c ++ cs)

/-- A run that writes `code` after the lines it starts from, leaves the locals `σ` in scope,
moves the slot counter on by `n`, and keeps the open blocks and loops and the result type. -/
structure Lowered (e e' : Emitter) (code : List Line) (σ : List LocalSym) (n : Nat) : Prop where
  lines : e'.lines.toList = e.lines.toList ++ code
  symbols : e'.frame.symbols = σ
  slots : e'.frame.nextSlot = e.frame.nextSlot + n
  blocks : e'.frame.blocks = e.frame.blocks
  loops : e'.frame.loops = e.frame.loops
  ret : e'.frame.ret = e.frame.ret

namespace Lowered

variable {e e₁ e₂ : Emitter} {c₁ c₂ : List Line} {σ₁ σ₂ : List LocalSym} {n₁ n₂ : Nat}

theorem trans (h₁ : Lowered e e₁ c₁ σ₁ n₁) (h₂ : Lowered e₁ e₂ c₂ σ₂ n₂) :
    Lowered e e₂ (c₁ ++ c₂) σ₂ (n₁ + n₂) where
  lines := by rw [h₂.lines, h₁.lines, List.append_assoc]
  symbols := h₂.symbols
  slots := by rw [h₂.slots, h₁.slots, Nat.add_assoc]
  blocks := h₂.blocks.trans h₁.blocks
  loops := h₂.loops.trans h₁.loops
  ret := h₂.ret.trans h₁.ret

theorem of_eq {c : List Line} {n : Nat} (h : Lowered e e₁ c₁ σ₁ n₁) (hc : c₁ = c) (hn : n₁ = n) :
    Lowered e e₁ c σ₁ n := hc ▸ hn ▸ h

theorem of_emits (h : Emits e e₁ c₁) : Lowered e e₁ c₁ e.frame.symbols 0 := by
  have hs := h.scope
  simp only [scopeOf, Prod.mk.injEq] at hs
  obtain ⟨h₁, h₂, h₃, h₄, h₅⟩ := hs
  exact ⟨h.lines, h₁, h₂, h₃, h₄, h₅⟩

theorem emits (h₁ : Lowered e e₁ c₁ σ₁ n₁) (h₂ : Emits e₁ e₂ c₂) :
    Lowered e e₂ (c₁ ++ c₂) σ₁ n₁ := by
  have k := h₁.trans (of_emits h₂)
  rwa [h₁.symbols, Nat.add_zero] at k

theorem line (l : Line) : Lowered e { e with lines := e.lines.push l } [l] e.frame.symbols 0 :=
  ⟨by simp, rfl, rfl, rfl, rfl, rfl⟩

theorem newSlot (h : e.frame.nextSlot + 1 < 65536) :
    Lowered e { e with frame := e.frame.newSlot.2 } [] e.frame.symbols 1 :=
  ⟨by simp, rfl, Nat.mod_eq_of_lt h, rfl, rfl, rfl⟩

theorem bind (n : String) (t : Ty) (slot : Nat) :
    Lowered e { e with frame := e.frame.bind n t slot } [] (⟨n, t, slot⟩ :: e.frame.symbols) 0 :=
  ⟨by simp, rfl, rfl, rfl, rfl, rfl⟩

end Lowered

structure SlotsOk (σ : List LocalSym) (n : Nat) : Prop where
  nodup : (σ.map (·.slot)).Nodup
  below : ∀ x ∈ σ, x.slot < n

theorem SlotsOk.mono {σ : List LocalSym} {n n' : Nat} (h : SlotsOk σ n) (hn : n ≤ n') :
    SlotsOk σ n' :=
  ⟨h.nodup, fun x hx ↦ Nat.lt_of_lt_of_le (h.below x hx) hn⟩

theorem SlotsOk.bindAll_fresh {σ : List LocalSym} {ps : List Lower.Pending} {n : Nat}
    (h : SlotsOk σ n) (hps : ps.map (·.slot) = List.range' n ps.length) :
    SlotsOk (bindAll σ ps) (n + ps.length) := by
  have hmap : (bindAll σ ps).map (·.slot) = (List.range' n ps.length).reverse ++ σ.map (·.slot) := by
    rw [← hps]
    simp [bindAll, symOf, Function.comp_def]
  constructor
  · rw [hmap, List.nodup_append]
    refine ⟨List.nodup_reverse.mpr (List.nodup_range' ..), h.nodup, ?_⟩
    intro a ha b hb hab
    rw [List.mem_reverse, List.mem_range'_1] at ha
    obtain ⟨x, hx, rfl⟩ := List.mem_map.mp hb
    have := h.below x hx
    omega
  · intro x hx
    have hx' : x.slot ∈ (bindAll σ ps).map (·.slot) := List.mem_map_of_mem hx
    rw [hmap, List.mem_append, List.mem_reverse, List.mem_range'_1] at hx'
    rcases hx' with hx' | hx'
    · omega
    · obtain ⟨y, hy, hxy⟩ := List.mem_map.mp hx'
      have := h.below y hy
      omega

theorem bindAll_cons (σ : List LocalSym) (p : Lower.Pending) (ps : List Lower.Pending) :
    bindAll (symOf p :: σ) ps = bindAll σ (p :: ps) := by
  simp [bindAll]

section Locals

variable (s : Site) {e e' : Emitter} {u : Unit}

theorem store_emits {slot : Nat} {t : Ty} (ht : isIntOrBool t = true)
    (h : (Lower.store (.loc slot t)).run e = .ok (u, e')) :
    Emits e e' [.instr (.store .int slot)] := by
  rw [← valueKind_of ht]
  exact emits_emit h

theorem pushZero_emits {t : Ty} (ht : isIntOrBool t = true)
    (h : (Lower.pushZero t).run e = .ok (u, e')) : Emits e e' [.instr (.pushInt 0)] := by
  rcases isIntOrBool_cases ht with rfl | rfl <;> exact emits_emit h

theorem declareVars_run {t : Ty} {r : BlockLabels} :
    ∀ {vs : List Declarator} {e e' : Emitter} {ps : List Lower.Pending},
    e.frame.nextSlot + vs.length < 65536 → (Lower.declareVars t r vs).run e = .ok (ps, e') →
    ps.map entryOf = vs.map (fun v ↦ (v.name, t, v.init)) ∧
    ps.map (·.slot) = List.range' e.frame.nextSlot ps.length ∧
    Lowered e e' (ps.map fun p ↦ .var p.slot p.name p.type r) e.frame.symbols ps.length
  | [], e, e', ps, _, h => by
    cases h
    exact ⟨rfl, rfl, ⟨by simp, rfl, rfl, rfl, rfl, rfl⟩⟩
  | v :: vs, e, e', ps, hn, h => by
    rw [Lower.declareVars] at h
    obtain ⟨slot, e₁, h₁, h⟩ := bind_ok h
    rw [newSlot_run] at h₁
    cases h₁
    obtain ⟨_, e₂, h₂, h⟩ := bind_ok h
    rw [line_run] at h₂
    cases h₂
    obtain ⟨rest, e₃, h₃, h⟩ := bind_ok h
    cases h
    have hn' : e.frame.nextSlot + 1 + vs.length < 65536 := by
      simp only [List.length_cons] at hn
      omega
    have k₂ := (Lowered.newSlot (e := e) (by omega)).trans
      (Lowered.line (.var e.frame.newSlot.1 v.name t r))
    obtain ⟨he, hs, k₃⟩ := declareVars_run (by rw [k₂.slots]; exact hn') h₃
    refine ⟨by simp only [List.map_cons, he]; rfl, ?_, (k₂.trans k₃).of_eq (by simp) (by simp; omega)⟩
    rw [List.map_cons, hs, k₂.slots, List.length_cons, List.range'_succ]
    rfl

theorem declareLocals_run {r : BlockLabels} :
    ∀ {ds : List VarDecl} {e e' : Emitter} {ps : List Lower.Pending},
    e.frame.nextSlot + (declared ds).length < 65536 →
    (Lower.declareLocals r ds).run e = .ok (ps, e') →
    ps.map entryOf = declared ds ∧ ps.map (·.slot) = List.range' e.frame.nextSlot ps.length ∧
    Lowered e e' (ps.map fun p ↦ .var p.slot p.name p.type r) e.frame.symbols ps.length
  | [], e, e', ps, _, h => by
    cases h
    exact ⟨rfl, rfl, ⟨by simp, rfl, rfl, rfl, rfl, rfl⟩⟩
  | d :: ds, e, e', ps, hn, h => by
    rw [Lower.declareLocals] at h
    obtain ⟨ps₁, e₁, h₁, h⟩ := bind_ok h
    obtain ⟨ps₂, e₂, h₂, h⟩ := bind_ok h
    cases h
    have hlen : (declared (d :: ds)).length = d.vars.length + (declared ds).length := by
      simp [declared]
    obtain ⟨he₁, hs₁, k₁⟩ := declareVars_run (by omega) h₁
    have hl₁ : ps₁.length = d.vars.length := by
      simpa using congrArg List.length he₁
    obtain ⟨he₂, hs₂, k₂⟩ := declareLocals_run (by rw [k₁.slots]; omega) h₂
    rw [k₁.symbols] at k₂
    refine ⟨by simp [he₁, he₂, declared], ?_, (k₁.trans k₂).of_eq (by simp) (by simp)⟩
    rw [List.map_append, hs₁, hs₂, k₁.slots, List.length_append, List.range'_append_1]

theorem initLocals_code : ∀ (ps : List Lower.Pending) {σ : List LocalSym} {e e' : Emitter}
    {Γ' : Scope}, e.frame.symbols = σ → scopeAfter (σ.map entry) (ps.map entryOf) = some Γ' →
    (Lower.initLocals s ps).run e = .ok ((), e') →
    Γ' = (bindAll σ ps).map entry ∧ ∃ c, InitCode σ ps c ∧ Lowered e e' c (bindAll σ ps) 0
  | [], σ, e, e', Γ', hσ, hΓ, h => by
    cases h
    cases hΓ
    exact ⟨by simp [bindAll], [], .nil, ⟨by simp, by simp [hσ, bindAll], rfl, rfl, rfl, rfl⟩⟩
  | p :: ps, σ, e, e', Γ', hσ, hΓ, h => by
    simp only [List.map_cons, entryOf, scopeAfter] at hΓ
    split at hΓ
    case isFalse => cases hΓ
    rename_i hok
    simp only [Bool.and_eq_true] at hok
    obtain ⟨ht, hinit⟩ := hok
    rw [Lower.initLocals] at h
    -- the local's first value: its initializer's, or zero
    obtain ⟨cv, e₁, k₁, hcv, h⟩ : ∃ cv e₁, Emits e e₁ cv ∧
        (∀ cs, InitCode (symOf p :: σ) ps cs →
          InitCode σ (p :: ps) (cv ++ .instr (.store .int p.slot) :: cs)) ∧
        (do
          Emitter.storeLocal p.type p.slot
          Emitter.onFrame (·.bind p.name p.type p.slot)
          Lower.initLocals s ps : EmitM Unit).run e₁ = .ok ((), e') := by
      cases hi : p.init with
      | none =>
        rw [hi] at h
        obtain ⟨_, e₁, h₁, h⟩ := bind_ok h
        exact ⟨_, e₁, pushZero_emits ht h₁, fun cs hs ↦ .zero hi hs, h⟩
      | some x =>
        rw [hi] at h hinit
        obtain ⟨t', e₄, h₄, h₅⟩ := bind_ok h
        obtain ⟨_, e₁, h₁, h⟩ := bind_ok h₅
        obtain ⟨rfl, c, hc, k₄⟩ :=
          lowerExpr_compiles s x (by simpa using hinit) e t' e₄ (by rw [hσ]) h₄
        obtain rfl := widen_nothing ht h₁
        rw [hσ] at hc
        exact ⟨c, _, k₄, fun cs hs ↦ .expr hi hc hs, h⟩
    obtain ⟨_, e₂, h₂, h⟩ := bind_ok h
    obtain ⟨_, e₃, h₃, h⟩ := bind_ok h
    rw [onFrame_run] at h₃
    cases h₃
    have k₂ := k₁.trans (store_emits ht h₂)
    have hs₃ : (e₂.frame.bind p.name p.type p.slot).symbols = symOf p :: σ := by
      show ⟨p.name, p.type, p.slot⟩ :: e₂.frame.symbols = _
      rw [k₂.symbols, hσ]
      rfl
    obtain ⟨hΓ', cs, hcs, k'⟩ := initLocals_code ps (σ := symOf p :: σ) hs₃ hΓ h
    refine ⟨by rw [hΓ', bindAll_cons], _, hcv cs hcs, ?_⟩
    rw [← bindAll_cons]
    exact ((Lowered.of_emits k₂).trans ((Lowered.bind _ _ _).trans k')).of_eq (by simp) rfl

end Locals

section Typing

variable {σ : List LocalSym} {Γ : Scope} {rt : Ty}

theorem symbol_of_lookup {n : String} {t : Ty} (h : (σ.map entry).lookup n = some t) :
    ∃ x, symbolOf σ n = some x ∧ x.type = t := by
  rw [lookup_entries] at h
  obtain ⟨x, hx, rfl⟩ := Option.map_eq_some_iff.mp h
  exact ⟨x, hx, rfl⟩

theorem stmtOk_assign {n : String} {nsp : Span} {rhs : Expr} {sp : Span}
    (h : stmtOk (σ.map entry) rt (.assign (.ident n nsp) rhs sp) = true) :
    ∃ x, symbolOf σ n = some x ∧ isIntOrBool x.type = true ∧
      typeOf (σ.map entry) rhs = some x.type := by
  simp only [stmtOk, lookup_entries] at h
  cases hx : symbolOf σ n with
  | none => simp [hx] at h
  | some x =>
    simp only [hx, Option.map_some, Option.any_some, Bool.and_eq_true, beq_iff_eq] at h
    exact ⟨x, rfl, h.1, h.2⟩

theorem stmtOk_cond {c : Expr} {th : Stmt} {el : Option Stmt} {sp : Span}
    (h : stmtOk Γ rt (.cond c th el sp) = true) :
    typeOf Γ c = some .bool ∧ stmtOk Γ rt th = true ∧ ∀ st, el = some st → stmtOk Γ rt st = true := by
  unfold stmtOk at h
  simp only [Bool.and_eq_true, beq_iff_eq] at h
  obtain ⟨⟨hc, hth⟩, hel⟩ := h
  refine ⟨hc, hth, ?_⟩
  rintro st rfl
  exact hel

theorem stmtOk_loop {v : String} {vsp : Span} {a : Expr} {d : Direction} {b : Expr} {body : Stmt}
    {sp : Span} (h : stmtOk Γ rt (.loop v vsp a d b body sp) = true) :
    Γ.lookup v = some .int ∧ typeOf Γ a = some .int ∧ typeOf Γ b = some .int ∧
      stmtOk Γ rt body = true := by
  simp only [stmtOk, Bool.and_eq_true, beq_iff_eq] at h
  obtain ⟨⟨⟨hv, ha⟩, hb⟩, hbody⟩ := h
  exact ⟨hv, ha, hb, hbody⟩

theorem stmtOk_ret {e : Expr} {sp : Span} (h : stmtOk Γ rt (.ret (some e) sp) = true) :
    isIntOrBool rt = true ∧ typeOf Γ e = some rt := by
  simpa only [stmtOk, Bool.and_eq_true, beq_iff_eq] using h

theorem stmtOk_block {ds : List VarDecl} {ss : List Stmt} {sp : Span}
    (h : stmtOk Γ rt (.block ds ss sp) = true) :
    ∃ Γ', scopeAfter Γ (declared ds) = some Γ' ∧ stmtsOk Γ' rt ss = true := by
  simp only [stmtOk] at h
  split at h
  · exact ⟨_, ‹_›, h⟩
  · cases h

theorem stmtsOk_cons {st : Stmt} {sts : List Stmt} (h : stmtsOk Γ rt (st :: sts) = true) :
    stmtOk Γ rt st = true ∧ stmtsOk Γ rt sts = true := by
  simpa only [stmtsOk, Bool.and_eq_true] using h

theorem isVoid_of_intOrBool {t : Ty} (h : isIntOrBool t = true) : t.isVoid = false := by
  rcases isIntOrBool_cases h with rfl | rfl <;> rfl

end Typing

/-- What the code of a statement is written over: the locals `σ` in scope, in slots apart and
below the counter, with room for `n` more slots; the open loops `ls`; the result type `rt`. -/
structure Ready (e : Emitter) (σ : List LocalSym) (ls : List LoopLabels) (rt : Ty) (n : Nat) :
    Prop where
  symbols : e.frame.symbols = σ
  loops : e.frame.loops.stack = ls
  ret : e.frame.ret = rt
  slots : SlotsOk σ e.frame.nextSlot
  room : e.frame.nextSlot + n < 65536

namespace Ready

variable {e e₁ : Emitter} {σ : List LocalSym} {ls : List LoopLabels} {rt : Ty} {n m : Nat}
  {c : List Line}

theorem le (h : Ready e σ ls rt n) (hm : m ≤ n) : Ready e σ ls rt m :=
  ⟨h.symbols, h.loops, h.ret, h.slots, by have := h.room; omega⟩

theorem lowered (h : Ready e σ ls rt (m + n)) (k : Lowered e e₁ c σ m) : Ready e₁ σ ls rt n where
  symbols := k.symbols
  loops := by rw [k.loops, h.loops]
  ret := by rw [k.ret, h.ret]
  slots := h.slots.mono (by rw [k.slots]; omega)
  room := by rw [k.slots]; have := h.room; omega

theorem emits (h : Ready e σ ls rt n) (k : Emits e e₁ c) : Ready e₁ σ ls rt n := by
  have k' := Lowered.of_emits k
  rw [h.symbols] at k'
  exact ⟨k'.symbols, by rw [k'.loops, h.loops], by rw [k'.ret, h.ret],
    by rw [k'.slots, Nat.add_zero]; exact h.slots, by rw [k'.slots, Nat.add_zero]; exact h.room⟩

theorem finish (h : Ready e σ ls rt n) (k : Emits e e₁ c) : Lowered e e₁ c σ 0 := by
  have k' := Lowered.of_emits k
  rwa [h.symbols] at k'

theorem lookup {n : String} {x : LocalSym} (h : Ready e σ ls rt m) (hx : symbolOf σ n = some x) :
    e.frame.lookup n = some x := by
  rw [← h.symbols] at hx
  exact hx

end Ready

theorem exitBlock_frame {f f' : Frame} {bl bl' : BlockLabels} {σ : List LocalSym}
    {ps : List Lower.Pending} {rest : List (BlockLabels × Nat)}
    (hb : f.blocks = (bl, σ.length) :: rest) (hs : f.symbols = bindAll σ ps)
    (h : f.exitBlock = .ok (bl', f')) : f' = { f with blocks := rest, symbols := σ } := by
  unfold Frame.exitBlock at h
  rw [hb] at h
  cases h
  rw [hs]
  simp [bindAll]

section Statements

variable (s : Site) {e e' : Emitter} {σ : List LocalSym} {ls : List LoopLabels} {rt : Ty}
  {n : Nat} {u : Unit}

theorem loopInit_code {v : String} {a : Expr} {x : LocalSym} (hr : Ready e σ ls rt n)
    (hx : symbolOf σ v = some x) (hxt : x.type = .int) (ha : typeOf (σ.map entry) a = some .int)
    (h : (loopInit s v a).run e = .ok (u, e')) :
    ∃ ca, ExprCode σ a ca ∧ Emits e e' (ca ++ [.instr (.store .int x.slot)]) := by
  unfold loopInit at h
  obtain ⟨p, e₁, h₁, g₁⟩ := bind_ok h
  obtain ⟨rfl, rfl⟩ := identPlace_local (hr.lookup hx) h₁
  obtain ⟨t, e₂, h₂, g₂⟩ := bind_ok g₁
  obtain ⟨rfl, ca, hca, k₂⟩ := lowerExpr_compiles s a ha _ t e₂ (by rw [hr.symbols]) h₂
  rw [hr.symbols] at hca
  exact ⟨ca, hca, k₂.trans (store_emits (by rw [hxt]; rfl) g₂)⟩

theorem loopTest_code {v : String} {d : Direction} {b : Expr} {brkL : Label} {x : LocalSym}
    (hr : Ready e σ ls rt n) (hx : symbolOf σ v = some x) (hxt : x.type = .int)
    (hb : typeOf (σ.map entry) b = some .int) (h : (loopTest s v d b brkL).run e = .ok (u, e')) :
    ∃ cb, ExprCode σ b cb ∧
      Emits e e' (.instr (.load .int x.slot) :: cb ++ [.instr (.ifICmp (exitTest d) brkL)]) := by
  unfold loopTest at h
  obtain ⟨t, e₁, h₁, g₁⟩ := bind_ok h
  obtain ⟨-, k₁⟩ := loadIdent_local (hr.lookup hx) (by rw [hxt]; rfl) h₁
  obtain ⟨t', e₂, h₂, g₂⟩ := bind_ok g₁
  have r₁ := hr.emits k₁
  obtain ⟨rfl, cb, hcb, k₂⟩ := lowerExpr_compiles s b hb _ t' e₂ (by rw [r₁.symbols]) h₂
  rw [r₁.symbols] at hcb
  exact ⟨cb, hcb, (k₁.trans (k₂.trans (emits_emit g₂))).of_eq (by simp [exitTest])⟩

theorem loopBody_code {contL brkL : Label} {body : Stmt}
    (ih : ∀ {e e' : Emitter}, Ready e σ (⟨contL, brkL⟩ :: ls) rt n →
      (Lower.lowerStmt s body).run e = .ok ((), e') →
      ∃ c, Code σ (⟨contL, brkL⟩ :: ls) (.stmt body) c ∧ Lowered e e' c σ n)
    (hr : Ready e σ ls rt n) (h : (loopBody s contL brkL body).run e = .ok (u, e')) :
    ∃ c, Code σ (⟨contL, brkL⟩ :: ls) (.stmt body) c ∧ Lowered e e' c σ n := by
  obtain ⟨e₂, h₂, rfl⟩ := loopBody_run s h
  have r₁ : Ready { e with frame := e.frame.enterLoop contL brkL } σ (⟨contL, brkL⟩ :: ls) rt n :=
    ⟨hr.symbols, by simp [Frame.enterLoop, Loops.enter, hr.loops], hr.ret, hr.slots, hr.room⟩
  obtain ⟨c, hc, k⟩ := ih r₁ h₂
  refine ⟨c, hc, k.lines, k.symbols, k.slots, k.blocks, ?_, k.ret⟩
  show e₂.frame.loops.exit = e.frame.loops
  rw [k.loops]
  rfl

theorem block_code {ds : List VarDecl} {ss : List Stmt} {sp : Span}
    (ih : ∀ {σ' : List LocalSym} {e e' : Emitter}, Ready e σ' ls rt (stmtsSlots ss) →
      stmtsOk (σ'.map entry) rt ss = true → (Lower.lowerStmts s ss).run e = .ok ((), e') →
      ∃ c, Code σ' ls (.seq ss) c ∧ Lowered e e' c σ' (stmtsSlots ss))
    (hr : Ready e σ ls rt (stmtSlots (.block ds ss sp)))
    (hok : stmtOk (σ.map entry) rt (.block ds ss sp) = true)
    (h : (Lower.lowerStmt s (.block ds ss sp)).run e = .ok ((), e')) :
    ∃ c, Code σ ls (.stmt (.block ds ss sp)) c ∧ Lowered e e' c σ (stmtSlots (.block ds ss sp)) := by
  obtain ⟨Γ', hΓ, hss⟩ := stmtOk_block hok
  obtain ⟨bl, ps, e₁, e₂, e₃, e₄, e₅, e₆, _, h₁, h₂, h₃, h₄, h₅, h₆, h₇⟩ :=
    lowerStmt_block_run s sp h
  rw [enterBlock_run] at h₁
  cases h₁
  have hroom : e.frame.nextSlot + ((declared ds).length + stmtsSlots ss) < 65536 := hr.room
  -- the locals get their slots and `.var` lines, then come into scope after their initializers
  obtain ⟨hps, hslots, k₂⟩ := declareLocals_run (by show e.frame.nextSlot + _ < _; omega) h₂
  have hlen : ps.length = (declared ds).length := by simpa using congrArg List.length hps
  have k₃ := emits_label h₃
  obtain ⟨hΓ', inits, hinits, k₄⟩ := initLocals_code s ps (σ := σ)
    (by rw [k₃.symbols, k₂.symbols]; exact hr.symbols) (by rw [hps]; exact hΓ) h₄
  have pre := (k₂.emits k₃).trans k₄
  have r₄ : Ready e₄ (bindAll σ ps) ls rt (stmtsSlots ss) :=
    ⟨pre.symbols, by rw [pre.loops]; exact hr.loops, by rw [pre.ret]; exact hr.ret,
      by rw [pre.slots, Nat.add_zero]; exact hr.slots.bindAll_fresh hslots,
      by rw [pre.slots]; show e.frame.nextSlot + _ + _ < _; omega⟩
  obtain ⟨cs, hcs, k₅⟩ := ih r₄ (by rw [← hΓ']; exact hss) h₅
  have body := (pre.trans k₅).emits (emits_label h₆)
  -- closing the block forgets its locals
  obtain ⟨f, hf, rfl⟩ := exitBlock_ok h₇
  have hb : e₆.frame.blocks = (e.frame.enterBlock.1, σ.length) :: e.frame.blocks := by
    rw [body.blocks, ← hr.symbols]
    rfl
  obtain rfl := exitBlock_frame hb body.symbols hf
  have hs₁ : e.frame.enterBlock.2.nextSlot = e.frame.nextSlot := rfl
  have fin : Lowered e { e₆ with frame := { e₆.frame with blocks := e.frame.blocks, symbols := σ } }
      (ps.map (fun p ↦ .var p.slot p.name p.type e.frame.enterBlock.1) ++
      .label e.frame.enterBlock.1.start :: inits ++ cs ++ [.label e.frame.enterBlock.1.stop]) σ
      (stmtSlots (.block ds ss sp)) :=
    ⟨by rw [body.lines]; simp, rfl, by rw [body.slots]; simp [stmtSlots, hlen, hs₁], rfl,
      body.loops, body.ret⟩
  exact ⟨_, .block _ _ (by simp [instrOf]) hps r₄.slots.nodup hinits hcs, fin⟩

mutual

theorem lowerStmt_code : ∀ (st : Stmt) {σ : List LocalSym} {ls : List LoopLabels} {rt : Ty}
    {e e' : Emitter}, Ready e σ ls rt (stmtSlots st) → stmtOk (σ.map entry) rt st = true →
    (Lower.lowerStmt s st).run e = .ok ((), e') →
    ∃ c, Code σ ls (.stmt st) c ∧ Lowered e e' c σ (stmtSlots st)
  | .assign (.ident n nsp) rhs sp, σ, ls, rt, e, e', hr, hok, h => by
    obtain ⟨x, hx, ht, hrhs⟩ := stmtOk_assign hok
    simp only [lowerStmt_assign, Lower.targetPlace] at h
    obtain ⟨p, e₁, h₁, g₁⟩ := bind_ok h
    obtain ⟨rfl, rfl⟩ := identPlace_local (hr.lookup hx) h₁
    obtain ⟨t, e₂, h₂, g₂⟩ := bind_ok g₁
    obtain ⟨rfl, c, hc, k₂⟩ := lowerExpr_compiles s rhs hrhs _ t e₂ (by rw [hr.symbols]) h₂
    obtain ⟨_, e₃, h₃, g₃⟩ := bind_ok g₂
    obtain rfl := widen_nothing ht h₃
    rw [hr.symbols] at hc
    exact ⟨_, .assign hx hc, hr.finish (k₂.trans (store_emits ht g₃))⟩
  | .assign (.chain _) _ _, _, _, _, _, _, _, hok, _ => by simp [stmtOk] at hok
  | .invoke _ _, _, _, _, _, _, _, hok, _ => by simp [stmtOk] at hok
  | .cond c th el sp, σ, ls, rt, e, e', hr, hok, h => by
    obtain ⟨hc, hth, hel⟩ := stmtOk_cond hok
    rw [lowerStmt_cond] at h
    obtain ⟨elseL, e₁, h₁, g₁⟩ := bind_ok h
    obtain ⟨t, e₂, h₂, g₂⟩ := bind_ok g₁
    obtain ⟨_, e₃, h₃, g₃⟩ := bind_ok g₂
    obtain ⟨⟨⟩, e₄, h₄, g₄⟩ := bind_ok g₃
    have k₁ := emits_newLabel h₁
    obtain ⟨-, ct, hct, k₂⟩ :=
      lowerExpr_compiles s c hc _ t e₂ (by rw [k₁.symbols, hr.symbols]) h₂
    rw [k₁.symbols, hr.symbols] at hct
    have pre := k₁.trans (k₂.trans (emits_emit h₃))
    have r₃ := hr.emits pre
    cases el with
    | none =>
      obtain ⟨cth, hcth, k₄⟩ := lowerStmt_code th (r₃.le (by simp [stmtSlots])) hth h₄
      exact ⟨_, .cond elseL hct hcth,
        ((hr.finish pre).trans (k₄.emits (emits_label g₄))).of_eq (by simp) (by simp [stmtSlots])⟩
    | some el =>
      have r₃' : Ready e₃ σ ls rt (stmtSlots th + stmtSlots el) := r₃
      obtain ⟨cth, hcth, k₄⟩ := lowerStmt_code th (r₃'.le (Nat.le_add_right _ _)) hth h₄
      obtain ⟨endL, e₅, h₅, g₅⟩ := bind_ok g₄
      obtain ⟨_, e₆, h₆, g₆⟩ := bind_ok g₅
      obtain ⟨_, e₇, h₇, g₇⟩ := bind_ok g₆
      obtain ⟨⟨⟩, e₈, h₈, g₈⟩ := bind_ok g₇
      have mid := (emits_newLabel h₅).trans ((emits_emit h₆).trans (emits_label h₇))
      obtain ⟨cel, hcel, k₈⟩ := lowerStmt_code el ((r₃'.lowered k₄).emits mid) (hel el rfl) h₈
      exact ⟨_, .condElse elseL endL hct hcth hcel,
        ((hr.finish pre).trans ((k₄.emits mid).trans (k₈.emits (emits_label g₈)))).of_eq
          (by simp) (by simp [stmtSlots])⟩
  | .loop v vsp a d b body sp, σ, ls, rt, e, e', hr, hok, h => by
    obtain ⟨hv, ha, hb, hbody⟩ := stmtOk_loop hok
    obtain ⟨x, hx, hxt⟩ := symbol_of_lookup hv
    obtain ⟨condL, contL, brkL, e₁, e₂, e₃, e₄, e₅, e₆, e₇, e₈, e₉, e₁₀, h₁, h₂, h₃, h₄, h₅, h₆, h₇,
      h₈, h₉, h₁₀, g₁₀⟩ := lowerStmt_loop_run s h
    have hr' : Ready e σ ls rt (stmtSlots body) := hr
    -- the start value, the test label and the test, all keeping the scope
    have k₃ := (emits_newLabel h₁).trans ((emits_newLabel h₂).trans (emits_newLabel h₃))
    obtain ⟨ca, hca, k₄⟩ := loopInit_code s (hr'.emits k₃) hx hxt ha h₄
    have k₅ := k₃.trans (k₄.trans (emits_label h₅))
    obtain ⟨cb, hcb, k₆⟩ := loopTest_code s (hr'.emits k₅) hx hxt hb h₆
    have pre := k₅.trans k₆
    obtain ⟨cbody, hcbody, k₇⟩ :=
      loopBody_code s (fun hr h ↦ lowerStmt_code body hr hbody h) (hr'.emits pre) h₇
    -- the step after the continue label, the jump back and the break label
    have k₉ : Emits e₈ e₉ [.instr (.iinc x.slot (stepBy d))] :=
      stepVar_local (((hr'.emits pre).lowered (m := stmtSlots body) (n := 0) (k₇.emits
        (emits_label h₈))).lookup hx) h₉
    have post := (emits_label h₈).trans (k₉.trans ((emits_emit h₁₀).trans (emits_label g₁₀)))
    exact ⟨_, .loop hx hca (.rounds condL contL brkL hx hcb hcbody),
      ((hr.finish pre).trans (k₇.emits post)).of_eq (by simp) (by simp [stmtSlots])⟩
  | .brk sp, σ, ls, rt, e, e', hr, _, h => by
    obtain ⟨top, rest, hs, g⟩ := lowerStmt_brk_run s h
    rw [hr.loops] at hs
    subst hs
    exact ⟨_, .brk, hr.finish (emits_emit g)⟩
  | .cont sp, σ, ls, rt, e, e', hr, _, h => by
    obtain ⟨top, rest, hs, g⟩ := lowerStmt_cont_run s h
    rw [hr.loops] at hs
    subst hs
    exact ⟨_, .cont, hr.finish (emits_emit g)⟩
  | .ret none sp, σ, ls, rt, e, e', hr, _, h => by
    simp only [lowerStmt_ret, Lower.lowerReturn] at h
    obtain ⟨_, e₁, h₁, g₁⟩ := bind_ok h
    cases h₁
    exact ⟨_, .retVoid, hr.finish (emits_emit g₁)⟩
  | .ret (some x) sp, σ, ls, rt, e, e', hr, hok, h => by
    obtain ⟨hrt, hx⟩ := stmtOk_ret hok
    simp only [lowerStmt_ret, Lower.lowerReturn] at h
    obtain ⟨_, e₁, h₁, g₁⟩ := bind_ok h
    cases h₁
    obtain ⟨t, e₂, h₂, g₂⟩ := bind_ok g₁
    obtain ⟨rfl, c, hc, k₂⟩ := lowerExpr_compiles s x hx _ t e₂ (by rw [hr.symbols]) h₂
    rw [hr.symbols] at hc
    rw [hr.ret, if_neg (by simp [isVoid_of_intOrBool hrt])] at g₂
    obtain ⟨_, e₃, h₃, g₃⟩ := bind_ok g₂
    obtain rfl := widen_nothing hrt h₃
    rw [valueKind_of hrt] at g₃
    exact ⟨_, .ret hc, hr.finish (k₂.trans (emits_emit g₃))⟩
  | .block ds ss sp, σ, ls, rt, e, e', hr, hok, h =>
    block_code s (fun hr hok h ↦ lowerStmts_code ss hr hok h) hr hok h

theorem lowerStmts_code : ∀ (sts : List Stmt) {σ : List LocalSym} {ls : List LoopLabels} {rt : Ty}
    {e e' : Emitter}, Ready e σ ls rt (stmtsSlots sts) → stmtsOk (σ.map entry) rt sts = true →
    (Lower.lowerStmts s sts).run e = .ok ((), e') →
    ∃ c, Code σ ls (.seq sts) c ∧ Lowered e e' c σ (stmtsSlots sts)
  | [], σ, ls, rt, e, e', hr, _, h => by
    rw [Lower.lowerStmts] at h
    cases h
    exact ⟨[], .nil, ⟨by simp, hr.symbols, rfl, rfl, rfl, rfl⟩⟩
  | st :: sts, σ, ls, rt, e, e', hr, hok, h => by
    obtain ⟨h₁ok, h₂ok⟩ := stmtsOk_cons hok
    rw [Lower.lowerStmts] at h
    obtain ⟨⟨⟩, e₁, h₁, g₁⟩ := bind_ok h
    have hr' : Ready e σ ls rt (stmtSlots st + stmtsSlots sts) := hr
    obtain ⟨c, hc, k₁⟩ := lowerStmt_code st (hr'.le (Nat.le_add_right _ _)) h₁ok h₁
    obtain ⟨cs, hcs, k₂⟩ := lowerStmts_code sts (hr'.lowered k₁) h₂ok g₁
    exact ⟨_, .cons hc hcs, k₁.trans k₂⟩

end

end Statements

end ClassLang.Proofs.StmtCode
