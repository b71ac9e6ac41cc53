import ClassLang.Proofs.Checked
import ClassLang.Proofs.Kinds

namespace ClassLang.Proofs.FinalNames

open ClassLang Generation Checked Kinds

/-- Whether a name reference stands for something written once: a final local or parameter, or a
final attribute. -/
def finalRef : NameRef → Bool
  | .scoped b => b.isFinal
  | .attr _ a => a.isFinal
  | .cls _ => false

/-- The type and access a chain starts from: a class name or the console binding, else its base
read as a value. -/
def chainStart (cx : Context) (b : Expr) : Except CompileError (Ty × Access) :=
  (baseAccess cx b).elim (do
    let t ← checkExpr cx b
    pure (t, if b.isThisBase then Access.self else Access.value)) pure

theorem checkExpr_chain (cx : Context) (b : Expr) (ss : List Step) (sp : Span) :
    checkExpr cx (.chain b ss sp) =
      chainStart cx b >>= fun r ↦ walkSteps cx (ChainSite.of b ss sp none) r.1 r.2 ss := by
  rw [checkExpr, chainStart]
  cases baseAccess cx b <;> simp [Option.elim]

theorem checkTargetChain_eq (cx : Context) (c : Chain) (text : String) (sp : Span) :
    checkTargetChain cx c text sp =
      if c.hasCall then .error (ChainSite.of c.base c.steps c.span (some (text, sp))).mismatch
      else chainStart cx c.base >>= fun r ↦
        walkSteps cx (ChainSite.of c.base c.steps c.span (some (text, sp))) r.1 r.2 c.steps := by
  rw [checkTargetChain, chainStart]
  cases baseAccess cx c.base <;> simp [Option.elim]

theorem accessedClass_of_start {cx : Context} {b : Expr} {cur : Ty} {acc : Access}
    (h : chainStart cx b = .ok (cur, acc)) : accessedClass cur acc = cur.className? := by
  unfold chainStart at h
  unfold accessedClass
  cases hb : baseAccess cx b with
  | none =>
    rw [hb] at h
    obtain ⟨t, -, h⟩ := except_bind_ok h
    cases h
    refine if_neg ?_
    split <;> intro hc <;> cases hc
  | some r =>
    rw [hb] at h
    cases h
    unfold baseAccess at hb
    split at hb
    · split at hb
      · cases hb
        rfl
      · split at hb
        · next hn =>
          cases hb
          rw [if_pos rfl]
          simp only [Bool.and_eq_true, beq_iff_eq] at hn
          exact hn.2.symm
        · cases hb
      · cases hb
    · cases hb

theorem walkSteps_site {cx : Context} {s₁ s₂ : ChainSite} (h₁ : s₁.target = none)
    (h₂ : s₂.target = none) : ∀ {cur : Ty} {acc : Access} {ss : List Step} {t : Ty},
      walkSteps cx s₁ cur acc ss = .ok t → walkSteps cx s₂ cur acc ss = .ok t
  | _, _, [], _, h => h
  | cur, acc, .member n sp :: rest, t, h => by
    simp only [walkSteps] at h ⊢
    split at h
    · rw [if_pos ‹_›]; exact h
    rw [if_neg ‹_›]
    split at h
    · split at h
      · split at h
        · cases h
        · rw [if_neg ‹_›, h₂]
          rw [h₁] at h
          exact walkSteps_site h₁ h₂ h
      · cases h
    · cases h
  | cur, acc, .index i sp :: rest, t, h => by
    simp only [walkSteps] at h ⊢
    split at h
    · rw [if_pos ‹_›]; exact h
    rw [if_neg ‹_›]
    obtain ⟨it, hi, h⟩ := except_bind_ok h
    rw [hi, except_ok_bind]
    split at h
    · split at h
      · cases h
      · rw [if_neg ‹_›]
        exact walkSteps_site h₁ h₂ h
    · cases h
  | cur, acc, .call n as sp :: rest, t, h => by
    simp only [walkSteps] at h ⊢
    split at h
    · rw [if_pos ‹_›]; exact h
    rw [if_neg ‹_›]
    obtain ⟨ts, hts, h⟩ := except_bind_ok h
    rw [hts, except_ok_bind]
    split at h
    · split at h
      · split at h
        · cases h
        · rw [if_neg ‹_›]
          split at h
          · rw [if_pos ‹_›]
            exact walkSteps_site h₁ h₂ h
          · cases h
      · cases h
    · cases h

/-- Whether an error refuses a write to a final name. -/
def refusesWrite : CompileError → Bool
  | .assignToConstant .. => true
  | _ => false

theorem error_of_ite_ok {c : Prop} [Decidable c] {a : α} {e err : CompileError}
    (h : (if c then Except.ok a else .error e) = .error err) : err = e := by
  by_cases hc : c
  · rw [if_pos hc] at h
    cases h
  · rw [if_neg hc] at h
    cases h
    rfl

section Reads

variable {cx : Context}

/- Only a walk whose site is an assignment's target tests finality; `checkExpr` starts every walk
it makes at a site that is none, so no read, of any name, is refused as a write. -/
mutual

theorem checkExpr_not_refusesWrite : ∀ (e : Expr) {err : CompileError},
    checkExpr cx e = .error err → refusesWrite err = false
  | .lit _ _, _, h => by cases h
  | .ident n s, _, h => by
    rw [checkExpr] at h
    split at h <;> cases h <;> rfl
  | .this s, _, h => by
    rw [checkExpr] at h
    split at h <;> cases h
    rfl
  | .binary op l r _, _, h => by
    rw [checkExpr] at h
    rcases except_bind_error h with h | ⟨_, -, h⟩
    · exact checkExpr_not_refusesWrite l h
    rcases except_bind_error h with h | ⟨_, -, h⟩
    · exact checkExpr_not_refusesWrite r h
    split at h <;> cases h
    rfl
  | .unary op a _, _, h => by
    rw [checkExpr] at h
    rcases except_bind_error h with h | ⟨_, -, h⟩
    · exact checkExpr_not_refusesWrite a h
    split at h <;> cases h
    rfl
  | .chain b ss s, _, h => by
    rw [checkExpr_chain] at h
    rcases except_bind_error h with h | ⟨_, -, h⟩
    · unfold chainStart at h
      cases hb : baseAccess cx b with
      | some r => rw [hb] at h; cases h
      | none =>
        rw [hb, Option.elim] at h
        rcases except_bind_error h with h | ⟨_, -, h⟩
        · exact checkExpr_not_refusesWrite b h
        · cases h
    · exact walkSteps_not_refusesWrite rfl ss h
  | .array [] s, _, h => by cases h
  | .array (first :: rest) s, _, h => by
    rw [checkExpr] at h
    rcases except_bind_error h with h | ⟨_, -, h⟩
    · exact checkExpr_not_refusesWrite first h
    split at h
    · cases h
    rcases except_bind_error h with h | ⟨_, -, h⟩
    · exact checkElems_not_refusesWrite rest h
    · cases h
  | .new c as s, _, h => by
    rw [checkExpr] at h
    split at h
    · cases h; rfl
    rcases except_bind_error h with h | ⟨_, -, h⟩
    · exact checkArgs_not_refusesWrite as h
    rw [error_of_ite_ok h]
    rfl
  | .paren e _, _, h => by
    rw [checkExpr] at h
    exact checkExpr_not_refusesWrite e h

theorem checkArgs_not_refusesWrite : ∀ (es : List Expr) {err : CompileError},
    checkArgs cx es = .error err → refusesWrite err = false
  | [], _, h => by cases h
  | e :: es, _, h => by
    rw [checkArgs] at h
    rcases except_bind_error h with h | ⟨_, -, h⟩
    · exact checkExpr_not_refusesWrite e h
    rcases except_bind_error h with h | ⟨_, -, h⟩
    · exact checkArgs_not_refusesWrite es h
    · cases h

theorem checkElems_not_refusesWrite {ft : Ty} {text : String} {sp : Span} :
    ∀ (es : List Expr) {err : CompileError},
      checkElems cx ft text sp es = .error err → refusesWrite err = false
  | [], _, h => by cases h
  | e :: es, _, h => by
    rw [checkElems] at h
    rcases except_bind_error h with h | ⟨_, -, h⟩
    · exact checkExpr_not_refusesWrite e h
    split at h
    · exact checkElems_not_refusesWrite es h
    · cases h; rfl

theorem walkSteps_not_refusesWrite {site : ChainSite} (hs : site.target = none) :
    ∀ {cur : Ty} {acc : Access} (ss : List Step) {err : CompileError},
      walkSteps cx site cur acc ss = .error err → refusesWrite err = false
  | _, _, [], _, h => by cases h
  | cur, acc, .member n sp :: rest, _, h => by
    rw [walkSteps.eq_2] at h
    split at h
    · cases h
    split at h
    · split at h
      · split at h
        · cases h; rfl
        · rw [hs] at h
          exact walkSteps_not_refusesWrite hs rest h
      · cases h; rfl
    · cases h; rfl
  | cur, acc, .index i sp :: rest, _, h => by
    rw [walkSteps.eq_3] at h
    split at h
    · cases h
    rcases except_bind_error h with h | ⟨_, -, h⟩
    · exact checkExpr_not_refusesWrite i h
    split at h
    · split at h
      · cases h; rfl
      · exact walkSteps_not_refusesWrite hs rest h
    · cases h; rfl
  | cur, acc, .call n as sp :: rest, _, h => by
    rw [walkSteps.eq_4] at h
    split at h
    · cases h
    rcases except_bind_error h with h | ⟨_, -, h⟩
    · exact checkArgs_not_refusesWrite as h
    split at h
    · split at h
      · split at h
        · cases h; rfl
        · split at h
          · exact walkSteps_not_refusesWrite hs rest h
          · cases h; rfl
      · cases h; rfl
    · cases h; rfl

end

end Reads

theorem walkSteps_append_last (cx : Context) (site : ChainSite) (st : Step) :
    ∀ (pre : List Step) (cur : Ty) (acc : Access),
      walkSteps cx site cur acc (pre ++ [st]) =
        walkSteps cx { site with target := none } cur acc pre >>= fun t ↦
          walkSteps cx site t (if pre.isEmpty then acc else .value) [st]
  | [], _, _ => rfl
  | .member n sp :: pre, cur, acc => by
    have ih := walkSteps_append_last cx site st pre
    rw [List.cons_append, walkSteps.eq_2, walkSteps.eq_2]
    by_cases hc : cur.isError = true
    · rw [if_pos hc, if_pos hc]
      cases st <;> rfl
    rw [if_neg hc, if_neg hc]
    cases accessedClass cur acc with
    | none => rfl
    | some c =>
      simp only
      cases cx.findAttr c n with
      | none => rfl
      | some ha =>
        simp only
        by_cases hs : (!acc.allows ha.2.isStatic) = true
        · rw [if_pos hs, if_pos hs]; rfl
        · rw [if_neg hs, if_neg hs]
          cases site.target with
          | none => simp [ih]
          | some tt => simp [ih]
  | .index i sp :: pre, cur, acc => by
    have ih := walkSteps_append_last cx site st pre
    rw [List.cons_append, walkSteps.eq_3, walkSteps.eq_3]
    by_cases hc : cur.isError = true
    · rw [if_pos hc, if_pos hc]
      cases st <;> rfl
    rw [if_neg hc, if_neg hc]
    cases checkExpr cx i with
    | error e => rfl
    | ok it =>
      rw [except_ok_bind, except_ok_bind]
      cases cur.element? with
      | none => rfl
      | some el =>
        simp only
        by_cases hi : (!it.isError && !it.isInt) = true
        · rw [if_pos hi, if_pos hi]; rfl
        · rw [if_neg hi, if_neg hi]
          simp [ih]
  | .call n as sp :: pre, cur, acc => by
    have ih := walkSteps_append_last cx site st pre
    rw [List.cons_append, walkSteps.eq_4, walkSteps.eq_4]
    by_cases hc : cur.isError = true
    · rw [if_pos hc, if_pos hc]
      cases st <;> rfl
    rw [if_neg hc, if_neg hc]
    cases checkArgs cx as with
    | error e => rfl
    | ok ts =>
      rw [except_ok_bind, except_ok_bind]
      cases accessedClass cur acc with
      | none => rfl
      | some c =>
        simp only
        cases cx.table.findMethod c n with
        | none => rfl
        | some hm =>
          simp only
          by_cases hs : (!acc.allows hm.2.isStatic) = true
          · rw [if_pos hs, if_pos hs]; rfl
          · rw [if_neg hs, if_neg hs]
            split
            · simp [ih]
            · rfl

/-- A chain an assignment writes whose last step is a member naming a final attribute: the
chain before that member, read as a value, has a class type, and the member is a final
attribute of that class or one of its ancestors. The chain may start at `this`, at a class name,
or at any other value. -/
def NamesFinalAttr (cx : Context) (c : Chain) : Prop :=
  ∃ pre n sp t k h a, c.steps = pre ++ [.member n sp] ∧
    checkExpr cx (.chain c.base pre c.span) = .ok t ∧ t.className? = some k ∧
    cx.findAttr k n = some (h, a) ∧ a.isFinal = true

theorem checkTargetChain_namesFinalAttr {cx : Context} {c : Chain} (hn : NamesFinalAttr cx c)
    (text : String) (sp : Span) : ∃ e, checkTargetChain cx c text sp = .error e := by
  obtain ⟨pre, n, msp, t, k, h, a, hs, hread, hk, hf, hfin⟩ := hn
  rw [checkTargetChain_eq]
  split
  · exact ⟨_, rfl⟩
  rw [checkExpr_chain] at hread
  obtain ⟨⟨cur, acc⟩, hstart, hwalk⟩ := except_bind_ok hread
  rw [hstart, except_ok_bind, hs, walkSteps_append_last, walkSteps_site rfl rfl hwalk,
    except_ok_bind]
  -- the member is reached from `t`: through the chain's own access if no step comes first
  have hacc : accessedClass t (if pre.isEmpty then acc else .value) = some k := by
    cases pre with
    | nil =>
      cases hwalk
      simp only [List.isEmpty_nil, if_true]
      rw [accessedClass_of_start hstart]
      exact hk
    | cons _ _ =>
      simp [accessedClass, hk]
  have hterr : t.isError = false := by
    cases t <;> first | rfl | cases hk
  simp only [walkSteps.eq_2, hterr, hacc, hf, ChainSite.of, Bool.false_eq_true, if_false,
    List.isEmpty_nil, hfin, Bool.and_self, if_true]
  split <;> split <;> exact ⟨_, rfl⟩

theorem checkAssign_of_target_error {cx : Context} {t : Target} {rhs : Expr} {text : String}
    {sp : Span} {e : CompileError} (ht : checkTarget cx t text sp = .error e) :
    ∃ e', checkAssign cx t rhs text sp = .error e' := by
  unfold checkAssign
  cases checkExpr cx rhs with
  | ok ty => exact ⟨e, by simp [ht]; rfl⟩
  | error e₀ =>
    by_cases hp : e₀.isPriority = true
    · exact ⟨e₀, by simp [hp]; rfl⟩
    · exact ⟨e, by simp [hp, ht]; rfl⟩

/-- A statement that writes a final name in one of the ways the checker guards: an assignment to
a bare name that resolves to a final local, parameter or attribute, an assignment to a chain whose
last member names a final attribute, or a loop whose variable is final. -/
inductive WritesFinal (cx : Context) : Stmt → Prop
  | ident {n : String} {nsp : Span} {rhs : Expr} {sp : Span} {r : NameRef} :
      cx.resolve n = some r → finalRef r = true → WritesFinal cx (.assign (.ident n nsp) rhs sp)
  | chain {c : Chain} {rhs : Expr} {sp : Span} :
      NamesFinalAttr cx c → WritesFinal cx (.assign (.chain c) rhs sp)
  | loop {v : String} {vsp : Span} {a : Expr} {d : Direction} {b : Expr} {body : Stmt}
      {sp : Span} {r : NameRef} :
      cx.resolve v = some r → finalRef r = true → WritesFinal cx (.loop v vsp a d b body sp)

theorem checkTarget_final_ident {cx : Context} {n : String} {r : NameRef} (hr : cx.resolve n = some r)
    (hf : finalRef r = true) (nsp : Span) (text : String) (sp : Span) :
    checkTarget cx (.ident n nsp) text sp = .error (.assignToConstant text sp) := by
  rcases r with c | b | ⟨h, a⟩
  · cases hf
  · simp only [finalRef] at hf
    simp [checkTarget, hr, hf]
  · simp only [finalRef] at hf
    simp [checkTarget, hr, hf]

theorem checkLoopVar_final {cx : Context} {v : String} {r : NameRef} (hr : cx.resolve v = some r)
    (hf : finalRef r = true) (vsp : Span) (text : String) (sp : Span) :
    checkLoopVar cx v vsp text sp = .error (.assignToConstant text sp) := by
  rcases r with c | b | ⟨h, a⟩
  · cases hf
  · simp only [finalRef] at hf
    simp [checkLoopVar, hr, hf]
  · simp only [finalRef] at hf
    simp [checkLoopVar, hr, hf]

theorem checkStmt_writesFinal {cx : Context} {st : Stmt} (hw : WritesFinal cx st) :
    ∃ e, checkStmt cx st = .error e := by
  cases hw with
  | ident hr hf =>
    rw [checkStmt]
    exact checkAssign_of_target_error (checkTarget_final_ident hr hf _ _ _)
  | chain hn =>
    rw [checkStmt]
    obtain ⟨e, he⟩ := checkTargetChain_namesFinalAttr hn _ _
    exact checkAssign_of_target_error he
  | loop hr hf =>
    rw [checkStmt, checkLoopVar_final hr hf]
    exact ⟨_, rfl⟩

theorem checkTargetChain_stepless {cx : Context} {c : Chain} (hs : c.steps = [])
    (hb : baseAccess cx c.base = none) (text : String) (sp : Span) :
    checkTargetChain cx c text sp = checkExpr cx c.base := by
  rw [checkTargetChain_eq, chainStart, hb]
  simp only [Chain.hasCall, hs, List.any_nil, Bool.false_eq_true, if_false, Option.elim,
    walkSteps.eq_1]
  cases checkExpr cx c.base <;> rfl

theorem checkStmt_stepless_write {cx : Context} {base : Expr} (hb : baseAccess cx base = none)
    {tb t : Ty} (hbase : checkExpr cx base = .ok tb) {rhs : Expr} (hr : checkExpr cx rhs = .ok t)
    (hfit : cx.fits tb t = true) (csp asp : Span) :
    checkStmt cx (.assign (.chain ⟨base, [], csp⟩) rhs asp) = .ok () := by
  have htarget : checkTarget cx (.chain ⟨base, [], csp⟩)
      (Stmt.assign (.chain ⟨base, [], csp⟩) rhs asp).text asp = .ok tb := by
    rw [checkTarget, checkTargetChain_stepless rfl hb, hbase]
  rw [checkStmt, checkAssign, hr]
  simp only [htarget, except_ok_bind, pure_bind]
  simp [hfit]
  rfl

section Programs

variable {opts : Options} {p : Program} {T : ClassTable}

theorem checked_program_writes_no_final (h : (check opts p).run.2 = .ok T) {cx : Context}
    {st : Stmt} (hat : ChecksAt T p cx st) : ¬ WritesFinal cx st := by
  intro hw
  obtain ⟨e, he⟩ := checkStmt_writesFinal hw
  rw [checkStmt_of_checksAt h hat] at he
  cases he

end Programs

/-- What the checker guarantees about final names, and where it falls short, at every statement
it reaches in a checked program. The statement does not write a final name through a bare name,
a chain ending in a member, or a loop variable; no read there, of any name, is refused as a write;
but an assignment there to a chain without steps is checked as a read of its base, so that
`(x) := v` is accepted whenever `v` fits, final `x` or not. -/
theorem final_write_refused_unless_stepless {opts : Options} {p : Program} {T : ClassTable}
    (h : (check opts p).run.2 = .ok T) {cx : Context} {st : Stmt} (hat : ChecksAt T p cx st) :
    ¬ WritesFinal cx st ∧
      (∀ (e : Expr) (err : CompileError), checkExpr cx e = .error err → refusesWrite err = false) ∧
      (∀ (base rhs : Expr) (tb t : Ty) (csp asp : Span), baseAccess cx base = none →
        checkExpr cx base = .ok tb → checkExpr cx rhs = .ok t → cx.fits tb t = true →
        checkStmt cx (.assign (.chain ⟨base, [], csp⟩) rhs asp) = .ok ()) :=
  ⟨checked_program_writes_no_final h hat, fun e _ he ↦ checkExpr_not_refusesWrite e he,
    fun _ _ _ _ _ _ hb hbase hr hfit ↦ checkStmt_stepless_write hb hbase hr hfit _ _⟩

/-- The assignment `(x) := 2`. -/
def finalParenWrite : Stmt :=
  .assign (.chain ⟨.paren (.ident "x" default) default, [], default⟩) (.lit (.int 2) default) default

/-- The class `Main` whose entry point declares the final local `x` and then assigns `(x) := 2`. -/
def finalParenAssignment : Program :=
  ⟨[⟨"Main", none, [.method ⟨true, .void, "main", [],
    ⟨[⟨true, .int, [⟨"x", some (.lit (.int 1) default), default⟩], default⟩], [finalParenWrite],
      default⟩,
    default⟩], default⟩]⟩

/-- The class table the checker builds for `finalParenAssignment`. -/
def finalParenTable : ClassTable := ((check {} finalParenAssignment).run.2).toOption.getD .empty

theorem finalParenAssignment_accepted :
    (check {} finalParenAssignment).run.2 = .ok finalParenTable ∧
      ∃ cx, ChecksAt finalParenTable finalParenAssignment cx finalParenWrite ∧
        (cx.scopes.lookup "x").map Binding.isFinal = some true ∧
        checkStmt cx finalParenWrite = .ok () := by
  have hT : (check {} finalParenAssignment).run.2 = .ok finalParenTable :=
    except_eq_ok_of_isOk _ (by decide +kernel)
  have hat : ChecksAt finalParenTable finalParenAssignment _ finalParenWrite :=
    ⟨_, List.mem_singleton_self _, _, List.mem_singleton_self _, _, _, _, .method _, _, rfl, _, rfl,
      _, List.mem_singleton_self _, .refl _ _⟩
  refine ⟨hT, _, hat, rfl, ?_⟩
  exact (final_write_refused_unless_stepless hT hat).2.2 _ _ .int .int _ _ (by decide +kernel) rfl
    rfl rfl

end ClassLang.Proofs.FinalNames
