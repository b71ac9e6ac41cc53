import ClassLang.Proofs.LoopJumps
import ClassLang.Proofs.Verdicts

namespace ClassLang

inductive LocalConstant (cx : Context) : Expr → Prop
  | lit {l : Literal} {sp : Span} : l ≠ .nil → LocalConstant cx (.lit l sp)
  | name {n : String} {sp : Span} : cx.isFinalName n = true → LocalConstant cx (.ident n sp)
  | binary {op : BinOp} {a b : Expr} {sp : Span} :
      LocalConstant cx a → LocalConstant cx b → LocalConstant cx (.binary op a b sp)
  | unary {op : UnOp} {a : Expr} {sp : Span} :
      LocalConstant cx a → LocalConstant cx (.unary op a sp)
  | paren {a : Expr} {sp : Span} : LocalConstant cx a → LocalConstant cx (.paren a sp)
  | array {es : List Expr} {sp : Span} :
      (∀ e ∈ es, LocalConstant cx e) → LocalConstant cx (.array es sp)
  | index {n : String} {nsp : Span} {ss : List Step} {sp : Span} {b : Binding} :
      cx.scopes.lookup n = some b → b.isFinal = true →
      (∀ st ∈ ss, ∃ i isp, st = .index i isp) →
      (∀ i isp, Step.index i isp ∈ ss → LocalConstant cx i) →
      LocalConstant cx (.chain (.ident n nsp) ss sp)
  | thisAttr {tsp : Span} {k : String} {ksp sp : Span} :
      cx.isFinalAttr k = true → LocalConstant cx (.chain (.this tsp) [.member k ksp] sp)

/-- The attribute-constants a final attribute may be initialized with, in the context `cx`. -/
inductive AttrConstant (cx : Context) : Expr → Prop
  | lit {l : Literal} {sp : Span} : l ≠ .nil → AttrConstant cx (.lit l sp)
  | name {n : String} {sp : Span} : cx.isFinalName n = true → AttrConstant cx (.ident n sp)
  | binary {op : BinOp} {a b : Expr} {sp : Span} :
      AttrConstant cx a → AttrConstant cx b → AttrConstant cx (.binary op a b sp)
  | unary {op : UnOp} {a : Expr} {sp : Span} :
      AttrConstant cx a → AttrConstant cx (.unary op a sp)
  | paren {a : Expr} {sp : Span} : AttrConstant cx a → AttrConstant cx (.paren a sp)
  | array {es : List Expr} {sp : Span} :
      (∀ e ∈ es, AttrConstant cx e) → AttrConstant cx (.array es sp)
  | new {c : String} {as : List Expr} {sp : Span} : AttrConstant cx (.new c as sp)
  | thisAttr {b : Expr} {k : String} {ksp : Span} {ss : List Step} {sp : Span} :
      b.isThisBase = true → cx.isFinalAttr k = true →
      (∀ st ∈ ss, ∃ i isp, st = .index i isp) →
      (∀ i isp, Step.index i isp ∈ ss → AttrConstant cx i) →
      AttrConstant cx (.chain b (.member k ksp :: ss) sp)

/-- The context the checker checks the initializer of the declarator `v` of the attribute
declaration `d` of class `c` in: a routine of its own, static if the attribute is, in which the
attribute itself is hidden. -/
def attrInitContext (T : ClassTable) (c : ClassDecl) (d : AttrDecl) (v : Declarator) : Context :=
  { ((Context.start T).enterClass c).enterRoutine .attrInit d.type d.isStatic with
    initAttr := some v.name }

end ClassLang

namespace ClassLang.Proofs.FinalInits

open ClassLang Checked LoopJumps Generation Verdicts

variable {cx : Context}

theorem literal_isConstant {l : Literal} : l.isConstant = true ↔ l ≠ .nil := by
  cases l <;> simp [Literal.isConstant]

theorem indexes_iff {p : Expr → Bool} {ss : List Step} :
    (∀ st ∈ ss, ∃ i isp, st = .index i isp ∧ p i = true) ↔
      (∀ st ∈ ss, ∃ i isp, st = .index i isp) ∧ ∀ i isp, Step.index i isp ∈ ss → p i = true := by
  constructor
  · intro h
    refine ⟨fun st hst ↦ ?_, fun i isp hi ↦ ?_⟩
    · obtain ⟨i, isp, rfl, -⟩ := h st hst
      exact ⟨i, isp, rfl⟩
    · obtain ⟨i', isp', heq, hp⟩ := h _ hi
      cases heq
      exact hp
  · rintro ⟨hall, hp⟩ st hst
    obtain ⟨i, isp, rfl⟩ := hall st hst
    exact ⟨i, isp, rfl, hp i isp hst⟩

theorem allConstant_iff {es : List Expr} :
    allConstant cx es = true ↔ ∀ e ∈ es, isConstant cx e = true := by
  induction es with
  | nil => simp [allConstant]
  | cons e es ih => simp [allConstant, ih]

theorem constantIndexes_iff {ss : List Step} :
    constantIndexes cx ss = true ↔
      ∀ st ∈ ss, ∃ i isp, st = .index i isp ∧ isConstant cx i = true := by
  induction ss with
  | nil => simp [constantIndexes]
  | cons st ss ih => cases st <;> simp [constantIndexes, ih]

theorem allAttrConstant_iff {es : List Expr} :
    allAttrConstant cx es = true ↔ ∀ e ∈ es, isAttrConstant cx e = true := by
  induction es with
  | nil => simp [allAttrConstant]
  | cons e es ih => simp [allAttrConstant, ih]

theorem attrConstantIndexes_iff {ss : List Step} :
    attrConstantIndexes cx ss = true ↔
      ∀ st ∈ ss, ∃ i isp, st = .index i isp ∧ isAttrConstant cx i = true := by
  induction ss with
  | nil => simp [attrConstantIndexes]
  | cons st ss ih => cases st <;> simp [attrConstantIndexes, ih]

theorem isConstant_of_localConstant {e : Expr} (h : LocalConstant cx e) :
    isConstant cx e = true := by
  induction h with
  | lit hl => exact literal_isConstant.mpr hl
  | name hn => exact hn
  | binary _ _ iha ihb => rw [isConstant, iha, ihb]; rfl
  | unary _ ih => rw [isConstant, ih]
  | paren _ ih => rw [isConstant, ih]
  | array _ ih => rw [isConstant, allConstant_iff]; exact ih
  | index hl hf hall _ ih =>
    rw [isConstant, hl, Bool.and_eq_true, constantIndexes_iff, indexes_iff]
    exact ⟨hf, hall, ih⟩
  | thisAttr hk => exact hk

mutual

theorem localConstant_of_isConstant : ∀ e : Expr, isConstant cx e = true → LocalConstant cx e
  | .lit l _, h => .lit (literal_isConstant.mp h)
  | .ident _ _, h => .name h
  | .binary _ a b _, h => by
    rw [isConstant, Bool.and_eq_true] at h
    exact .binary (localConstant_of_isConstant a h.1) (localConstant_of_isConstant b h.2)
  | .unary _ a _, h => .unary (localConstant_of_isConstant a h)
  | .paren a _, h => .paren (localConstant_of_isConstant a h)
  | .array es _, h => .array (localConstant_of_allConstant es h)
  | .chain (.ident n _) ss _, h => by
    rw [isConstant, Bool.and_eq_true] at h
    obtain ⟨hb, hss⟩ := h
    obtain ⟨hall, hidx⟩ := localConstant_of_constantIndexes ss hss
    cases hl : cx.scopes.lookup n with
    | none => rw [hl] at hb; cases hb
    | some b =>
      rw [hl] at hb
      exact .index hl hb hall hidx
  -- of the other chains only `this.K`, one member step, is constant
  | .chain (.this _) [.member _ _] _, h => .thisAttr h
  | .chain (.this _) [] _, h | .chain (.this _) (.member .. :: _ :: _) _, h
  | .chain (.this _) (.index .. :: _) _, h | .chain (.this _) (.call .. :: _) _, h
  | .chain (.lit ..) _ _, h | .chain (.binary ..) _ _, h | .chain (.unary ..) _ _, h
  | .chain (.chain ..) _ _, h | .chain (.array ..) _ _, h | .chain (.new ..) _ _, h
  | .chain (.paren ..) _ _, h | .this _, h | .new .., h => nomatch h

theorem localConstant_of_allConstant :
    ∀ es : List Expr, allConstant cx es = true → ∀ e ∈ es, LocalConstant cx e
  | [], _, _, he => nomatch he
  | e :: es, h, _, .head _ => by
    rw [allConstant, Bool.and_eq_true] at h
    exact localConstant_of_isConstant e h.1
  | _ :: es, h, e', .tail _ he => by
    rw [allConstant, Bool.and_eq_true] at h
    exact localConstant_of_allConstant es h.2 e' he

theorem localConstant_of_constantIndexes : ∀ ss : List Step, constantIndexes cx ss = true →
    (∀ st ∈ ss, ∃ i isp, st = .index i isp) ∧ ∀ i isp, Step.index i isp ∈ ss → LocalConstant cx i
  | [], _ => ⟨fun _ h ↦ (nomatch h), fun _ _ h ↦ (nomatch h)⟩
  | .index i isp :: ss, h => by
    rw [constantIndexes, Bool.and_eq_true] at h
    obtain ⟨hall, hidx⟩ := localConstant_of_constantIndexes ss h.2
    refine ⟨fun st hst ↦ ?_, fun j jsp hj ↦ ?_⟩
    · rcases List.mem_cons.mp hst with rfl | hst
      · exact ⟨i, isp, rfl⟩
      · exact hall st hst
    · rcases List.mem_cons.mp hj with heq | hj
      · cases heq
        exact localConstant_of_isConstant _ h.1
      · exact hidx j jsp hj
  | .member .. :: _, h | .call .. :: _, h => nomatch h

end

theorem isConstant_iff {e : Expr} : isConstant cx e = true ↔ LocalConstant cx e :=
  ⟨localConstant_of_isConstant e, isConstant_of_localConstant⟩

theorem isAttrConstant_of_attrConstant {e : Expr} (h : AttrConstant cx e) :
    isAttrConstant cx e = true := by
  induction h with
  | lit hl => exact literal_isConstant.mpr hl
  | name hn => exact hn
  | binary _ _ iha ihb => rw [isAttrConstant, iha, ihb]; rfl
  | unary _ ih => rw [isAttrConstant, ih]
  | paren _ ih => rw [isAttrConstant, ih]
  | array _ ih => rw [isAttrConstant, allAttrConstant_iff]; exact ih
  | new => rfl
  | @thisAttr b k _ ss _ hb hk hall _ ih =>
    show (b.isThisBase && cx.isFinalAttr k && attrConstantIndexes cx ss) = true
    rw [hb, hk, Bool.true_and, Bool.true_and, attrConstantIndexes_iff, indexes_iff]
    exact ⟨hall, ih⟩

mutual

theorem attrConstant_of_isAttrConstant : ∀ e : Expr, isAttrConstant cx e = true → AttrConstant cx e
  | .lit l _, h => .lit (literal_isConstant.mp h)
  | .ident _ _, h => .name h
  | .binary _ a b _, h => by
    rw [isAttrConstant, Bool.and_eq_true] at h
    exact .binary (attrConstant_of_isAttrConstant a h.1) (attrConstant_of_isAttrConstant b h.2)
  | .unary _ a _, h => .unary (attrConstant_of_isAttrConstant a h)
  | .paren a _, h => .paren (attrConstant_of_isAttrConstant a h)
  | .array es _, h => .array (attrConstant_of_allAttrConstant es h)
  | .new .., _ => .new
  | .chain b (.member k _ :: ss) _, h => by
    replace h : (b.isThisBase && cx.isFinalAttr k && attrConstantIndexes cx ss) = true := h
    rw [Bool.and_eq_true, Bool.and_eq_true] at h
    obtain ⟨⟨hb, hk⟩, hss⟩ := h
    obtain ⟨hall, hidx⟩ := attrConstant_of_attrConstantIndexes ss hss
    exact .thisAttr hb hk hall hidx
  -- a chain must start with a member
  | .chain _ [] _, h | .chain _ (.index .. :: _) _, h | .chain _ (.call .. :: _) _, h
  | .this _, h => nomatch h

theorem attrConstant_of_allAttrConstant :
    ∀ es : List Expr, allAttrConstant cx es = true → ∀ e ∈ es, AttrConstant cx e
  | [], _, _, he => nomatch he
  | e :: es, h, _, .head _ => by
    rw [allAttrConstant, Bool.and_eq_true] at h
    exact attrConstant_of_isAttrConstant e h.1
  | _ :: es, h, e', .tail _ he => by
    rw [allAttrConstant, Bool.and_eq_true] at h
    exact attrConstant_of_allAttrConstant es h.2 e' he

theorem attrConstant_of_attrConstantIndexes : ∀ ss : List Step, attrConstantIndexes cx ss = true →
    (∀ st ∈ ss, ∃ i isp, st = .index i isp) ∧ ∀ i isp, Step.index i isp ∈ ss → AttrConstant cx i
  | [], _ => ⟨fun _ h ↦ (nomatch h), fun _ _ h ↦ (nomatch h)⟩
  | .index i isp :: ss, h => by
    rw [attrConstantIndexes, Bool.and_eq_true] at h
    obtain ⟨hall, hidx⟩ := attrConstant_of_attrConstantIndexes ss h.2
    refine ⟨fun st hst ↦ ?_, fun j jsp hj ↦ ?_⟩
    · rcases List.mem_cons.mp hst with rfl | hst
      · exact ⟨i, isp, rfl⟩
      · exact hall st hst
    · rcases List.mem_cons.mp hj with heq | hj
      · cases heq
        exact attrConstant_of_isAttrConstant _ h.1
      · exact hidx j jsp hj
  | .member .. :: _, h | .call .. :: _, h => nomatch h

end

theorem isAttrConstant_iff {e : Expr} : isAttrConstant cx e = true ↔ AttrConstant cx e :=
  ⟨attrConstant_of_isAttrConstant e, isAttrConstant_of_attrConstant⟩

/-- Checking the declarators `vs` of the local declaration `d` from `cx`, the checker checks `v` in
`cx'`, once the declarators before it are declared. -/
inductive DeclaratorAt (d : VarDecl) : Context → List Declarator → Context → Declarator → Prop
  | head {cx : Context} {v : Declarator} {vs : List Declarator} : DeclaratorAt d cx (v :: vs) cx v
  | tail {cx cx' : Context} {s : ScopeStack} {v w : Declarator} {vs : List Declarator} :
      cx.scopes.declareLocal v.name d.type d.isFinal v.span = .ok s →
      DeclaratorAt d { cx with scopes := s } vs cx' w → DeclaratorAt d cx (v :: vs) cx' w

/-- Checking the local declarations `ds` from `cx`, the checker checks the declarator `v` of `d`
in `cx'`. -/
inductive DeclAt : Context → List VarDecl → Context → VarDecl → Declarator → Prop
  | head {cx cx' : Context} {d : VarDecl} {ds : List VarDecl} {v : Declarator} :
      DeclaratorAt d cx d.vars cx' v → DeclAt cx (d :: ds) cx' d v
  | tail {cx cx₁ cx' : Context} {d d' : VarDecl} {ds : List VarDecl} {v : Declarator} :
      checkDeclarators d cx d.vars = .ok cx₁ → DeclAt cx₁ ds cx' d' v → DeclAt cx (d :: ds) cx' d' v

/-- Checking program `p` against the table `T`, the checker checks the declarator `v` of the local
declaration `d` in `cx`: `d` is one of the locals of a routine's body, or of a block the checker
reaches. -/
def DeclaresLocal (T : ClassTable) (p : Program) (cx : Context) (d : VarDecl) (v : Declarator) :
    Prop :=
  (∃ c ∈ p.classes, ∃ m ∈ c.members, ∃ cx₀ ps b,
    RoutineOf ((Context.start T).enterClass c) m cx₀ ps b ∧
    ∃ cx₁, paramScope cx₀ ps = .ok cx₁ ∧ DeclAt cx₁ b.decls cx d v) ∨
  ∃ cx₀ ds ss sp, ChecksAt T p cx₀ (.block ds ss sp) ∧
    DeclAt { cx₀ with scopes := cx₀.scopes.push } ds cx d v

theorem DeclaratorAt.checked {d : VarDecl} {cx cx' : Context} {vs : List Declarator}
    {v : Declarator} (hat : DeclaratorAt d cx vs cx' v) {cx'' : Context}
    (h : checkDeclarators d cx vs = .ok cx'') :
    ∃ rest cx₂, checkDeclarators d cx' (v :: rest) = .ok cx₂ := by
  induction hat generalizing cx'' with
  | head => exact ⟨_, _, h⟩
  | tail hs _ ih =>
    obtain ⟨s, hs', h⟩ := checkDeclarators_cons_ok h
    rw [hs] at hs'
    cases hs'
    exact ih h

theorem DeclAt.checked {cx cx' : Context} {ds : List VarDecl} {d : VarDecl} {v : Declarator}
    (hat : DeclAt cx ds cx' d v) {cx'' : Context} (h : checkVarDecls cx ds = .ok cx'') :
    ∃ rest cx₂, checkDeclarators d cx' (v :: rest) = .ok cx₂ := by
  induction hat generalizing cx'' with
  | head hv =>
    rw [checkVarDecls] at h
    obtain ⟨_, -, h⟩ := except_bind_ok h
    obtain ⟨_, h₁, -⟩ := except_bind_ok h
    exact hv.checked h₁
  | tail hd _ ih =>
    rw [checkVarDecls] at h
    obtain ⟨_, -, h⟩ := except_bind_ok h
    obtain ⟨cx₁, h₁, h⟩ := except_bind_ok h
    rw [hd] at h₁
    cases h₁
    exact ih h

theorem checkDeclarators_final_isConstant {d : VarDecl} {cx' : Context} {v : Declarator}
    {vs : List Declarator} {e : Expr} (h : checkDeclarators d cx (v :: vs) = .ok cx')
    (hf : d.isFinal = true) (he : v.init = some e) : isConstant cx e = true := by
  rw [checkDeclarators] at h
  simp only [bind, Except.bind, throw, throwThe, MonadExceptOf.throw, he, hf, if_true] at h
  -- the redeclaration test passes, and so does the constant test
  split at h
  · cases h
  · split at h
    · cases h
    · rename_i hc
      simpa using hc

theorem checkAttrInit_final_isAttrConstant {d : AttrDecl} {e : Expr}
    (h : checkAttrInit cx d e = .ok ()) (hf : d.isFinal = true) : isAttrConstant cx e = true := by
  unfold checkAttrInit at h
  simp only [hf, Bool.not_true, Bool.false_eq_true, if_false, bind, Except.bind, throw, throwThe,
    MonadExceptOf.throw] at h
  -- a `nil` initializer is refused before the constant test, which must pass
  split at h
  · cases h
  · split at h
    · cases h
    · rename_i hc
      simpa using hc

section Programs

variable {opts : Options} {p : Program} {T : ClassTable}

theorem DeclaresLocal.checked (h : (check opts p).run.2 = .ok T) {d : VarDecl} {v : Declarator}
    (hd : DeclaresLocal T p cx d v) : ∃ rest cx₂, checkDeclarators d cx (v :: rest) = .ok cx₂ := by
  rcases hd with ⟨c, hc, m, hm, cx₀, ps, b, hr, cx₁, hps, hat⟩ | ⟨cx₀, ds, ss, sp, hat, hdecl⟩
  · -- a local of a routine's body
    obtain ⟨cx₁', hps', cx₂, hds, -⟩ := check_ok_body h hc hm hr
    rw [hps] at hps'
    cases hps'
    exact hat.checked hds
  · -- a local of a block
    obtain ⟨cx₁, hds, -⟩ := checkStmt_block_ok (checkStmt_of_checksAt h hat)
    exact hdecl.checked hds

theorem attrInit_checked (h : (check opts p).run.2 = .ok T) {c : ClassDecl} (hc : c ∈ p.classes)
    {d : AttrDecl} (hd : Member.attr d ∈ c.members) {v : Declarator} (hv : v ∈ d.vars) {e : Expr}
    (he : v.init = some e) : checkAttrInit (attrInitContext T c d v) d e = .ok () := by
  obtain ⟨_, _, hcls⟩ := check_ok_classes h c hc
  obtain ⟨_, _, hmem⟩ := checkClass_ok_members hcls _ hd
  rw [checkMember, run_lift] at hmem
  have hattr : checkAttrDecl ((Context.start T).enterClass c) d = .ok () := (Prod.mk.inj hmem).1
  rw [checkAttrDecl] at hattr
  obtain ⟨_, -, hvars⟩ := except_bind_ok hattr
  have hinit := (forM_ok_iff d.vars).mp hvars v hv
  rw [he] at hinit
  exact hinit

theorem final_local_constant (h : (check opts p).run.2 = .ok T) {d : VarDecl} {v : Declarator}
    {e : Expr} (hd : DeclaresLocal T p cx d v) (hf : d.isFinal = true) (he : v.init = some e) :
    LocalConstant cx e := by
  obtain ⟨rest, cx₂, hchk⟩ := hd.checked h
  exact isConstant_iff.mp (checkDeclarators_final_isConstant hchk hf he)

theorem final_attr_constant (h : (check opts p).run.2 = .ok T) {c : ClassDecl}
    (hc : c ∈ p.classes) {d : AttrDecl} (hd : Member.attr d ∈ c.members) (hf : d.isFinal = true)
    {v : Declarator} (hv : v ∈ d.vars) {e : Expr} (he : v.init = some e) :
    AttrConstant (attrInitContext T c d v) e :=
  isAttrConstant_iff.mp (checkAttrInit_final_isAttrConstant (attrInit_checked h hc hd hv he) hf)

end Programs

/-- Every final initializer of program `p`, checked against `T`, is a constant of its kind: a final
local's a constant in the context the checker declares it in, a final attribute's an
attribute-constant in the context of its initializer. -/
structure FinalInitsConstant (T : ClassTable) (p : Program) : Prop where
  locals : ∀ cx d v e, DeclaresLocal T p cx d v → d.isFinal = true → v.init = some e →
    LocalConstant cx e
  attrs : ∀ c ∈ p.classes, ∀ d, Member.attr d ∈ c.members → d.isFinal = true →
    ∀ v ∈ d.vars, ∀ e, v.init = some e → AttrConstant (attrInitContext T c d v) e

/-- In a checked program every final initializer is a constant of its kind. -/
theorem final_initializers_constant {opts : Options} {p : Program} {T : ClassTable}
    (h : (check opts p).run.2 = .ok T) : FinalInitsConstant T p where
  locals _ _ _ _ hd hf he := final_local_constant h hd hf he
  attrs _ hc _ hd hf _ hv _ he := final_attr_constant h hc hd hf hv he

/-- `this.K`, a read of the attribute `K` through `this`. -/
def thisK : Expr := .chain (.this default) [.member "K" default] default

/-- `this.f()`, a call through `this`. -/
def thisCall : Expr := .chain (.this default) [.call "f" [] default] default

/-- The final local `k`, initialized by `this.K`. -/
def finalK : VarDecl := ⟨true, .int, [⟨"k", some thisK, default⟩], default⟩

/-- The final attribute `m`, initialized by `new Main(this.f())`. -/
def finalM : AttrDecl :=
  ⟨false, true, .cls "Main", [⟨"m", some (.new "Main" [thisCall] default), default⟩], default⟩

/-- The class `Main` with the final attributes `K` and `m`, a constructor of one `int`, a method
`f` and a method `g` that declares `k`. -/
def thisReadsMain : ClassDecl :=
  ⟨"Main", none,
    [.attr ⟨false, true, .int, [⟨"K", some (.lit (.int 1) default), default⟩], default⟩,
      .attr finalM,
      .ctor ⟨"Main", [⟨"v", .int, default⟩], ⟨[], [], default⟩, default⟩,
      .method ⟨false, .int, "f", [], ⟨[], [.ret (some (.lit (.int 1) default)) default], default⟩,
        default⟩,
      .method ⟨false, .void, "g", [], ⟨[finalK], [], default⟩, default⟩,
      .method ⟨true, .void, "main", [], ⟨[], [], default⟩, default⟩],
    default⟩

def thisReads : Program := ⟨[thisReadsMain]⟩

/-- The class table the checker builds for `thisReads`. -/
def thisReadsTable : ClassTable := ((check {} thisReads).run.2).toOption.getD .empty

theorem thisReads_checked : (check {} thisReads).run.2 = .ok thisReadsTable :=
  except_eq_ok_of_isOk _ (by decide +kernel)

theorem final_initializers_constant_thisReads :
    (check {} thisReads).run.2 = .ok thisReadsTable ∧
      FinalInitsConstant thisReadsTable thisReads :=
  ⟨thisReads_checked, final_initializers_constant thisReads_checked⟩

/-- The checker accepts a final local initialized through `this`, and a final attribute
initialized by an object creation whose argument is a call. -/
theorem thisReads_accepted :
    (check {} thisReads).run.2 = .ok thisReadsTable ∧
      (∃ cx, DeclaresLocal thisReadsTable thisReads cx finalK ⟨"k", some thisK, default⟩) ∧
      ¬ AttrConstant
        (attrInitContext thisReadsTable thisReadsMain finalM
          ⟨"m", some (.new "Main" [thisCall] default), default⟩) thisCall := by
  have hk : ∃ cx, DeclaresLocal thisReadsTable thisReads cx finalK ⟨"k", some thisK, default⟩ :=
    ⟨_, .inl ⟨thisReadsMain, List.mem_singleton_self _, _,
      .tail _ (.tail _ (.tail _ (.tail _ (.head _)))), _, _, _, .method _, _, rfl, .head .head⟩⟩
  refine ⟨thisReads_checked, hk, ?_⟩
  intro hm
  cases hm

end ClassLang.Proofs.FinalInits
