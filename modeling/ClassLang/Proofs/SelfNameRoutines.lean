import ClassLang.Proofs.StaticReceiver
import ClassLang.Proofs.FinalInits

namespace ClassLang.Proofs.SelfNameRoutines

open ClassLang Checked FinalInits Generation StaticReceiver SelfName Kinds Machine

variable {α β : Type}

theorem lookup_push (s : ScopeStack) (n : String) : s.push.lookup n = s.lookup n := by
  simp [ScopeStack.push, ScopeStack.lookup, ScopeStack.frameFind?, List.findSome?_cons]

theorem frameFind?_bind_ne (f : ScopeFrame) {m n : String} (b : Binding) (h : m ≠ n) :
    ScopeStack.frameFind? ((m, b) :: f.filter (·.1 != m)) n = ScopeStack.frameFind? f n := by
  -- dropping the old bindings of `m` keeps every binding of `n`
  have hs : ∀ x ∈ f, decide ((x.1 != m) = true ∧ (x.1 == n) = true) = (x.1 == n) := by
    intro x _
    by_cases hx : x.1 = n
    · simp [hx, Ne.symm h]
    · simp [hx]
  unfold ScopeStack.frameFind?
  rw [List.find?_cons_of_neg (by simpa using h), List.find?_filter, List.find?_congr hs]

theorem lookup_bind_ne (s : ScopeStack) {m n : String} (b : Binding) (h : m ≠ n) :
    (s.bind m b).lookup n = s.lookup n := by
  rcases s with ⟨_ | ⟨f, rest⟩⟩
  · simp [ScopeStack.bind, ScopeStack.split, ScopeStack.lookup, ScopeStack.frameFind?, h]
  · simp only [ScopeStack.bind, ScopeStack.split, ScopeStack.lookup, List.findSome?_cons,
      frameFind?_bind_ne f b h]

theorem enterClass_lookup_self (cx : Context) (c : ClassDecl) :
    (cx.enterClass c).scopes.lookup "this" = some ⟨.cls c.name, true, c.span⟩ := by
  simp [Context.enterClass, ScopeStack.bind, ScopeStack.split, ScopeStack.push, ScopeStack.lookup,
    ScopeStack.frameFind?]

theorem foldlM_invariant_mem {step : β → α → Except CompileError β} (P : β → Prop)
    (l : List α) (hstep : ∀ x a y, a ∈ l → P x → step x a = .ok y → P y) {x y : β} (hx : P x)
    (h : l.foldlM step x = .ok y) : P y := by
  induction l generalizing x with
  | nil => cases h; exact hx
  | cons a l ih =>
    rw [List.foldlM_cons] at h
    obtain ⟨x₁, h₁, h⟩ := except_bind_ok h
    exact ih (fun x b y hb ↦ hstep x b y (List.mem_cons_of_mem a hb))
      (hstep x a x₁ List.mem_cons_self hx h₁) h

theorem paramScope_self {cx cx' : Context} {ps : List Param} (hps : ∀ q ∈ ps, q.name ≠ "this")
    (h : paramScope cx ps = .ok cx') :
    cx'.scopes.lookup "this" = cx.scopes.lookup "this" ∧ cx'.table = cx.table := by
  refine foldlM_invariant_mem
    (fun x ↦ x.scopes.lookup "this" = cx.scopes.lookup "this" ∧ x.table = cx.table) ps ?_
    ⟨lookup_push _ _, rfl⟩ h
  rintro x q y hq ⟨hl, ht⟩ hy
  obtain ⟨_, -, hy⟩ := except_bind_ok hy
  obtain ⟨s, hs, hy⟩ := except_bind_ok hy
  cases hy
  unfold ScopeStack.declareParam at hs
  split at hs
  · cases hs
  · cases hs
    exact ⟨(lookup_bind_ne _ _ (hps q hq)).trans hl, ht⟩

theorem method_self_name_checked {opts : Options} {p : Program} {T : ClassTable}
    (hT : (check opts p).run.2 = .ok T) (hcls : T.get? "this" = none) {c : ClassDecl}
    (hc : c ∈ p.classes) {d : MethodDecl} (hd : Member.method d ∈ c.members)
    (hps : ∀ q ∈ d.params, q.name ≠ "this") {x : Declarator} {t : Ty} {isFinal : Bool}
    {dsp : Span} {ds : List VarDecl} (hdecls : d.body.decls = ⟨isFinal, t, [x], dsp⟩ :: ds) :
    ∃ cx, DeclaresLocal T p cx ⟨isFinal, t, [x], dsp⟩ x ∧
      ∀ sp, checkExpr cx (.ident "this" sp) = .ok (.cls c.name) := by
  have hr : RoutineOf ((Context.start T).enterClass c) (.method d) _ d.params d.body := .method d
  obtain ⟨cx₁, hps₁, -⟩ := check_ok_body hT hc hd hr
  obtain ⟨hl, ht⟩ := paramScope_self hps hps₁
  have hself : cx₁.scopes.lookup "this" = some ⟨.cls c.name, true, c.span⟩ := by
    rw [hl]
    exact enterClass_lookup_self _ c
  have htable : cx₁.table.get? "this" = none := by
    rw [ht]
    exact hcls
  refine ⟨cx₁, .inl ⟨c, hc, _, hd, _, _, _, hr, cx₁, hps₁, ?_⟩,
    fun sp ↦ checkExpr_self_name hself htable sp⟩
  rw [hdecls]
  exact .head .head

/-- Checker and generator type the name `this` apart. In every compiled program where no class
is called `this`, take a class with an attribute called `this` and a method of it with no
parameter called `this` whose first local, of the class, is initialized from the name `this`:
the checker declares that local in a context typing the name as the class, while the generator,
lowering the method's routine, lowers the name as the attribute, with the attribute's type. -/
theorem self_name_typed_apart {opts : Options} {p : Program} {T : ClassTable}
    (hT : (check opts p).run.2 = .ok T) (hcls : T.get? "this" = none) :
    ∀ us, (compile opts p).run.2 = .ok us →
      List.Forall₂ (fun c u ↦ ∀ h a, T.findAttr c.name "this" = some (h, a) →
        ∀ d, Member.method d ∈ c.members → (∀ q ∈ d.params, q.name ≠ "this") →
        ∀ v sp vsp dsp ds,
        d.body.decls = ⟨false, .cls c.name, [⟨v, some (.ident "this" sp), vsp⟩], dsp⟩ :: ds →
        (∃ cx, DeclaresLocal T p cx ⟨false, .cls c.name, [⟨v, some (.ident "this" sp), vsp⟩], dsp⟩
            ⟨v, some (.ident "this" sp), vsp⟩ ∧
          checkExpr cx (.ident "this" sp) = .ok (.cls c.name)) ∧
        ∃ rc ∈ u.routines, rc.header = Lower.methodHeader d ∧ ∃ e e',
          (Lower.lowerExpr ⟨T, opts, c.name⟩ (.ident "this" sp)).run e = .ok (a.type.deref, e') ∧
          e'.lines.toList = e.lines.toList ++ (attrLoad c.name h a).map .instr ∧
          e'.lines.toList <+: rc.lines)
        p.classes us := by
  intro us hus
  refine ((List.forall₂_and_left _ _).mpr ⟨fun c hc ↦ hc, compile_lowers hT hus⟩).imp
    fun c u ⟨hc, _, _, hu⟩ h a hattr d hd hps v sp vsp dsp ds hdecls ↦ ?_
  obtain ⟨cx, hdl, hty⟩ := method_self_name_checked hT hcls hc hd hps hdecls
  obtain ⟨rc, hrc, _, _, hr⟩ := classLower_method hu hd
  obtain ⟨hh, e, e', slot, rest, hlow, hl, hcode, -⟩ :=
    lowerMethod_self_attr_code hcls hattr hps hdecls hr
  exact ⟨⟨cx, hdl, hty sp⟩, rc, hrc, hh, e, e', hlow, hl, ⟨_, hcode.symm⟩⟩

def selfNameLocal : VarDecl :=
  ⟨false, .cls "Main", [⟨"m", some (.ident "this" default), default⟩], default⟩

def selfNameMethod : MethodDecl := ⟨false, .void, "f", [], ⟨[selfNameLocal], [], default⟩, default⟩

/-- The class `Main` with an instance attribute `this` of type `t`, an instance method whose one
local, of the class, is initialized from the name `this`, and an empty entry point. -/
def selfNameProgram (t : Ty) : Program := ⟨[⟨"Main", none, [
  .attr ⟨false, false, t, [⟨"this", none, default⟩], default⟩,
  .method selfNameMethod,
  .method ⟨true, .void, "main", [], ⟨[], [], default⟩, default⟩], default⟩]⟩

def selfNameTable (t : Ty) : ClassTable :=
  ((check {} (selfNameProgram t)).run.2).toOption.getD .empty

theorem selfNameProgram_compiles {t : Ty} (ht : t = .int ∨ t = .float) :
    (check {} (selfNameProgram t)).run.2 = .ok (selfNameTable t) ∧
      (selfNameTable t).get? "this" = none ∧
      (∃ us, (compile {} (selfNameProgram t)).run.2 = .ok us) ∧
      ∃ h a, (selfNameTable t).findAttr "Main" "this" = some (h, a) ∧ a.type = t := by
  -- each program is run by the kernel: checked, compiled, and its attribute `this` looked up
  have hattr : ∃ h a, (selfNameTable t).findAttr "Main" "this" = some (h, a) ∧ a.type = t := by
    obtain ⟨⟨h, a⟩, hfa⟩ : ∃ r, (selfNameTable t).findAttr "Main" "this" = some r :=
      Option.isSome_iff_exists.mp (by rcases ht with rfl | rfl <;> decide +kernel)
    have hty : ((selfNameTable t).findAttr "Main" "this").map (·.2.type) = some t := by
      rcases ht with rfl | rfl <;> decide +kernel
    simp only [hfa, Option.map_some, Option.some.injEq] at hty
    exact ⟨h, a, hfa, hty⟩
  refine ⟨except_eq_ok_of_isOk _ ?_, ?_, ⟨_, except_eq_ok_of_isOk [] ?_⟩, hattr⟩ <;>
    rcases ht with rfl | rfl <;> decide +kernel

theorem selfNameInt_typed_apart :
    ∃ us, (compile {} (selfNameProgram .int)).run.2 = .ok us ∧ ∃ u ∈ us,
      (∃ cx, DeclaresLocal (selfNameTable .int) (selfNameProgram .int) cx selfNameLocal
          ⟨"m", some (.ident "this" default), default⟩ ∧
        checkExpr cx (.ident "this" default) = .ok (.cls "Main")) ∧
      ∃ rc ∈ u.routines, rc.header = Lower.methodHeader selfNameMethod ∧ ∃ e e',
        (Lower.lowerExpr ⟨selfNameTable .int, {}, "Main"⟩ (.ident "this" default)).run e =
          .ok (.int, e') ∧ e'.lines.toList <+: rc.lines := by
  obtain ⟨hT, hcls, ⟨us, hus⟩, h, a, hfa, hty⟩ := selfNameProgram_compiles (.inl rfl)
  rcases self_name_typed_apart hT hcls us hus with _ | ⟨hMain, _ | _⟩
  obtain ⟨hchk, rc, hrc, hh, e, e', hlow, -, hpre⟩ := hMain h a hfa selfNameMethod
    (List.mem_cons_of_mem _ List.mem_cons_self) (fun _ hq ↦ nomatch hq) "m" default default
    default [] rfl
  rw [hty] at hlow
  exact ⟨_, hus, _, List.mem_singleton_self _, hchk, rc, hrc, hh, e, e', hlow, hpre⟩

/-- The generator breaks the kind discipline on the name `this`. In every compiled program where
no class is called `this`, take a class with an attribute called `this` that holds no
reference, and a method of it with no parameter called `this` whose first local, of the class,
is initialized from the name `this`: the method's routine gets stuck on the kind machine, since
the reference store of the local finds the attribute's value on the stack. -/
theorem self_name_local_breaks_kinds {opts : Options} {p : Program} {T : ClassTable}
    (hT : (check opts p).run.2 = .ok T) (hcls : T.get? "this" = none) :
    ∀ us, (compile opts p).run.2 = .ok us →
      List.Forall₂ (fun c u ↦ ∀ h a, T.findAttr c.name "this" = some (h, a) →
        ValueKind.of a.type ≠ .ref → ∀ d, Member.method d ∈ c.members →
        (∀ q ∈ d.params, q.name ≠ "this") → ∀ v sp vsp dsp ds,
        d.body.decls = ⟨false, .cls c.name, [⟨v, some (.ident "this" sp), vsp⟩], dsp⟩ :: ds →
        ∃ rc ∈ u.routines, rc.header = Lower.methodHeader d ∧ KindStuck rc.lines)
        p.classes us := by
  intro us hus
  refine (compile_lowers hT hus).imp
    fun c u ⟨_, _, hu⟩ h a hattr hk d hd hps v sp vsp dsp ds hdecls ↦ ?_
  obtain ⟨rc, hrc, _, _, hr⟩ := classLower_method hu hd
  obtain ⟨hh, e, e', slot, rest, -, hl, hcode, hpre⟩ :=
    lowerMethod_self_attr_code hcls hattr hps hdecls hr
  have hlines : rc.lines =
      e.lines.toList ++ (attrLoad c.name h a ++ [Instr.store .ref slot]).map .instr ++ rest := by
    simp [hcode, hl]
  exact ⟨rc, hrc, hh, kindStuck_of_prefix hlines hpre (attrLoad_store_fallsThrough _ _ _ _)
    (attrLoad_store_clash _ _ _ hk [])⟩

theorem selfNameFloat_breaks_kinds :
    ∃ us, (compile {} (selfNameProgram .float)).run.2 = .ok us ∧ ∃ u ∈ us, ∃ rc ∈ u.routines,
      rc.header = Lower.methodHeader selfNameMethod ∧ KindStuck rc.lines := by
  obtain ⟨hT, hcls, ⟨us, hus⟩, h, a, hfa, hty⟩ := selfNameProgram_compiles (.inr rfl)
  have hk : ValueKind.of a.type ≠ .ref := by
    rw [hty]
    decide
  rcases self_name_local_breaks_kinds hT hcls us hus with _ | ⟨hMain, _ | _⟩
  obtain ⟨rc, hrc, hh, hstuck⟩ := hMain h a hfa hk selfNameMethod
    (List.mem_cons_of_mem _ List.mem_cons_self) (fun _ hq ↦ nomatch hq) "m" default default
    default [] rfl
  exact ⟨_, hus, _, List.mem_singleton_self _, rc, hrc, hh, hstuck⟩

end ClassLang.Proofs.SelfNameRoutines
