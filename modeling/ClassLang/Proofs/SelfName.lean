import ClassLang.Proofs.Runs
import ClassLang.Typing.Program

namespace ClassLang.Proofs.SelfName

open ClassLang Runs

theorem checkExpr_self_name {cx : Context} {C : String} {sp₀ : Span}
    (hlookup : cx.scopes.lookup "this" = some ⟨.cls C, true, sp₀⟩)
    (hcls : cx.table.get? "this" = none) (sp : Span) :
    checkExpr cx (.ident "this" sp) = .ok (.cls C) := by
  simp only [checkExpr, Context.resolve, hcls, hlookup]
  rfl

theorem resolve_run (s : Site) (n : String) (st : Emitter) :
    (Lower.resolve s n).run st = (s.resolve st.frame n).map (·, st) := by
  rw [Lower.resolve, run_bind_of_ok (run_get st), liftExcept_run]

theorem siteResolve_self_attr {s : Site} {f : Frame} {h : ClassInfo} {a : AttrInfo}
    (hcls : s.table.get? "this" = none) (hloc : f.lookup "this" = none)
    (hattr : s.table.findAttr s.cls "this" = some (h, a)) :
    s.resolve f "this" = .ok (.attr h a) := by
  unfold Site.resolve
  simp only [hcls, hloc, hattr]
  rfl

theorem adjust_of_bounds {f : Frame} {d : Int} (h₀ : 0 ≤ f.depth + d)
    (h₁ : f.depth + d < 2147483648) :
    f.adjust d = .ok { f with depth := f.depth + d, maxDepth := max f.maxDepth (f.depth + d) } := by
  have hw : wrapInt32 (f.depth + d) = f.depth + d := by
    unfold wrapInt32
    omega
  unfold Frame.adjust
  simp only [hw]
  rw [if_neg (by omega)]

theorem emit_run_of_bounds (i : Instr) {st : Emitter} (h₀ : 0 ≤ st.frame.depth + i.delta)
    (h₁ : st.frame.depth + i.delta < 2147483648) :
    (Emitter.emit i).run st = .ok ((), { st with
      frame := { st.frame with
        depth := st.frame.depth + i.delta
        maxDepth := max st.frame.maxDepth (st.frame.depth + i.delta) }
      lines := st.lines.push (.instr i) }) := by
  rw [emit_run, adjust_of_bounds h₀ h₁]
  rfl

/-- The instructions that push an attribute's value inside class `cls`: a static attribute is
read directly, an instance attribute through the object in slot 0. -/
def attrLoad (cls : String) (h : ClassInfo) (a : AttrInfo) : List Instr :=
  if a.isStatic then [.getStatic h.name a.name a.type]
  else [.load (ValueKind.of (.cls cls)) 0, .getField h.name a.name a.type]

theorem lowerExpr_self_attr {s : Site} {st : Emitter} {h : ClassInfo} {a : AttrInfo}
    (hcls : s.table.get? "this" = none) (hloc : st.frame.lookup "this" = none)
    (hattr : s.table.findAttr s.cls "this" = some (h, a))
    (hd : 0 ≤ st.frame.depth ∧ st.frame.depth < 2147483647) (sp : Span) :
    ∃ st', (Lower.lowerExpr s (.ident "this" sp)).run st = .ok (a.type.deref, st') ∧
      st'.lines.toList = st.lines.toList ++ (attrLoad s.cls h a).map .instr ∧
      st'.frame.depth = st.frame.depth + 1 := by
  have hr : (Lower.resolve s "this").run st = .ok (.attr h a, st) := by
    rw [resolve_run, siteResolve_self_attr hcls hloc hattr]
    rfl
  simp only [Lower.lowerExpr, Lower.loadIdent, Emitter.loadLocal]
  rw [run_bind_of_ok hr]
  dsimp only
  cases hs : a.isStatic
  · rw [if_neg Bool.false_ne_true, run_bind_of_ok (emit_run_of_bounds _ ?_ ?_),
      run_bind_of_ok (emit_run_of_bounds _ ?_ ?_)]
    · refine ⟨_, rfl, ?_, ?_⟩
      · simp [attrLoad, hs, Site.thisType]
      · simp only [Instr.delta]
        omega
    all_goals simp only [Instr.delta]; omega
  · rw [if_pos rfl, run_bind_of_ok (emit_run_of_bounds _ ?_ ?_)]
    · refine ⟨_, rfl, ?_, ?_⟩
      · simp [attrLoad, hs]
      · simp only [Instr.delta]
    all_goals simp only [Instr.delta]; omega

end ClassLang.Proofs.SelfName
