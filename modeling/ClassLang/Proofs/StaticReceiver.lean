import ClassLang.Proofs.Checked
import ClassLang.Proofs.Kinds
import ClassLang.Proofs.Linking
import ClassLang.Proofs.RoutineLabels

namespace ClassLang.Proofs.StaticReceiver

open ClassLang Runs Invariants Generation Checked Linking SelfName Kinds Machine FreshLabels
  RoutineLabels

variable {α β : Type}

def Still (m : EmitM α) : Prop :=
  ∀ e a e', m.run e = .ok (a, e') →
    e'.frame.symbols = e.frame.symbols ∧ e'.frame.depth = e.frame.depth

namespace Still

theorem pure (a : α) : Still (pure a : EmitM α) := by
  intro e _ _ h
  cases h
  exact ⟨rfl, rfl⟩

theorem bind {x : EmitM α} {f : α → EmitM β} (hx : Still x) (hf : ∀ a, Still (f a)) :
    Still (x >>= f) := by
  intro e b e' h
  obtain ⟨a, e₁, h₁, h₂⟩ := bind_ok h
  obtain ⟨s₁, d₁⟩ := hx _ _ _ h₁
  obtain ⟨s₂, d₂⟩ := hf a _ _ _ h₂
  exact ⟨s₂.trans s₁, d₂.trans d₁⟩

theorem newSlot : Still Emitter.newSlot := by
  intro e _ _ h
  rw [newSlot_run] at h
  cases h
  exact ⟨rfl, rfl⟩

theorem line (l : Line) : Still (Emitter.line l) := by
  intro e _ _ h
  rw [line_run] at h
  cases h
  exact ⟨rfl, rfl⟩

theorem enterBlock : Still Emitter.enterBlock := by
  intro e _ _ h
  rw [enterBlock_run] at h
  cases h
  exact ⟨rfl, rfl⟩

end Still

section Prologue

variable (s : Site) (ls : BlockLabels)

theorem openRoutine_still (r : Receiver) : Still (Lower.openRoutine s r) := by
  unfold Lower.openRoutine
  refine Still.bind Still.enterBlock fun _ ↦ ?_
  dsimp only
  cases r
  · exact Still.bind Still.newSlot fun _ ↦ Still.bind (Still.line _) fun _ ↦ Still.pure _
  · exact Still.bind Still.newSlot fun _ ↦ Still.bind (Still.line _) fun _ ↦ Still.pure _
  · exact Still.pure _

theorem declareParams_still : ∀ ps : List Param, Still (Lower.declareParams ls ps)
  | [] => Still.pure _
  | p :: ps => by
    rw [Lower.declareParams]
    exact Still.bind Still.newSlot fun _ ↦ Still.bind (Still.line _) fun _ ↦
      Still.bind (declareParams_still ps) fun _ ↦ Still.pure _

theorem declareVars_still (t : Ty) : ∀ vs : List Declarator, Still (Lower.declareVars t ls vs)
  | [] => Still.pure _
  | v :: vs => by
    rw [Lower.declareVars]
    exact Still.bind Still.newSlot fun _ ↦ Still.bind (Still.line _) fun _ ↦
      Still.bind (declareVars_still t vs) fun _ ↦ Still.pure _

theorem declareLocals_still : ∀ ds : List VarDecl, Still (Lower.declareLocals ls ds)
  | [] => Still.pure _
  | d :: ds => by
    rw [Lower.declareLocals]
    exact Still.bind (declareVars_still ls _ _) fun _ ↦
      Still.bind (declareLocals_still ds) fun _ ↦ Still.pure _

theorem bindParams_lookup {n : String} : ∀ (ps : List Param) (slots : List Nat) {e e' : Emitter},
    (∀ q ∈ ps, q.name ≠ n) → (Lower.bindParams ps slots).run e = .ok ((), e') →
    e'.frame.lookup n = e.frame.lookup n ∧ e'.frame.depth = e.frame.depth ∧ e'.lines = e.lines
  | p :: ps, slot :: slots, e, e', hn, h => by
    rw [Lower.bindParams] at h
    obtain ⟨_, e₁, h₁, h₂⟩ := bind_ok h
    rw [onFrame_run] at h₁
    cases h₁
    obtain ⟨hl, hd, hls⟩ :=
      bindParams_lookup ps slots (fun q hq ↦ hn q (List.mem_cons_of_mem _ hq)) h₂
    refine ⟨hl.trans ?_, hd, hls⟩
    have hp : (p.name == n) = false := beq_false_of_ne (hn p List.mem_cons_self)
    simp [Frame.lookup, Frame.bind, hp]
  | [], _, e, e', _, h => by
    simp only [Lower.bindParams, Runs.run_pure] at h
    cases h
    exact ⟨rfl, rfl, rfl⟩
  | _ :: _, [], e, e', _, h => by
    simp only [Lower.bindParams, Runs.run_pure] at h
    cases h
    exact ⟨rfl, rfl, rfl⟩

theorem declareLocals_head {t : Ty} {x : Declarator} {isFinal : Bool} {dsp : Span}
    {ds : List VarDecl} {e e' : Emitter} {ps : List Lower.Pending}
    (h : (Lower.declareLocals ls (⟨isFinal, t, [x], dsp⟩ :: ds)).run e = .ok (ps, e')) :
    ∃ slot rest, ps = ⟨x.name, t, x.init, slot⟩ :: rest := by
  rw [Lower.declareLocals] at h
  obtain ⟨ps₁, e₁, h₁, h⟩ := bind_ok h
  obtain ⟨rest, e₂, -, h⟩ := bind_ok h
  cases h
  simp only [Lower.declareVars] at h₁
  obtain ⟨slot, e₃, h₃, h₁⟩ := bind_ok h₁
  obtain ⟨_, e₄, -, h₁⟩ := bind_ok h₁
  obtain ⟨rest', e₅, h₅, h₁⟩ := bind_ok h₁
  cases h₅
  cases h₁
  exact ⟨slot, rest, rfl⟩

end Prologue

theorem initLocals_cons (s : Site) (p : Lower.Pending) (ps : List Lower.Pending) :
    Lower.initLocals s (p :: ps) = (Lower.initLocals s [p] >>= fun _ ↦ Lower.initLocals s ps) := by
  cases hp : p.init <;> simp [Lower.initLocals, hp, bind_assoc]

theorem lowerMethod_initLocals {s : Site} {d : MethodDecl} {n : String}
    (hps : ∀ q ∈ d.params, q.name ≠ n) {rc : RoutineCode} {log log' : Array LogLine}
    (hr : runFrom (Lower.lowerMethod s d) log = (.ok rc, log')) :
    rc.header = Lower.methodHeader d ∧ ∃ ls e₂ pending e₄,
      (Lower.declareLocals ls d.body.decls).run e₂ = .ok (pending, e₄) ∧ ∃ e e',
        (∀ x ∈ e.lines.toList, instrOf x = none) ∧ e.frame.lookup n = none ∧
        e.frame.depth = 0 ∧ (Lower.initLocals s pending).run e = .ok ((), e') ∧
        e'.lines.toList <+: rc.lines := by
  obtain ⟨hh, e₉, hrun, hl⟩ := routine_ok _ hr
  obtain ⟨ls, e₁, h₁, k⟩ := bind_ok hrun
  obtain ⟨slots, e₂, h₂, k⟩ := bind_ok k
  obtain ⟨_, e₃, h₃, h₉⟩ := bind_ok k
  obtain ⟨ps, e₄, e₅, e₆, e₇, h₄, h₅, h₆, h₇, h₈⟩ := lowerBody_run h₃
  obtain ⟨s₁, d₁⟩ := openRoutine_still _ _ _ _ _ h₁
  obtain ⟨s₂, d₂⟩ := declareParams_still ls _ _ _ _ h₂
  obtain ⟨s₄, d₄⟩ := declareLocals_still ls _ _ _ _ h₄
  obtain ⟨s₅, d₅⟩ := Still.line _ _ _ _ h₅
  obtain ⟨l₆, d₆, hl₆⟩ := bindParams_lookup _ _ hps h₆
  refine ⟨hh, ls, e₂, ps, e₄, h₄, e₆, e₇, ?_, ?_, ?_, h₇, ?_⟩
  · -- the opening, the parameters and the locals write `.var` lines, then the start label
    obtain ⟨-, ho⟩ := openRoutine_opened h₁
    obtain ⟨c₂, k₂, v₂⟩ := declareParams_writesVars ls _ _ _ _ h₂
    obtain ⟨c₄, k₄, v₄⟩ := declareLocals_writesVars ls _ _ _ _ h₄
    rw [hl₆, (keeps_label h₅).appends.2, k₄.appends.2, k₂.appends.2]
    intro x hx
    simp only [List.mem_append, List.mem_singleton] at hx
    rcases hx with ((hx | hx) | hx) | rfl
    · obtain ⟨_, _, _, rfl⟩ := ho.vars x hx
      rfl
    · obtain ⟨_, _, _, rfl⟩ := v₂ x hx
      rfl
    · obtain ⟨_, _, _, rfl⟩ := v₄ x hx
      rfl
    · rfl
  · rw [l₆, Frame.lookup, s₅, s₄, s₂, s₁]
    rfl
  · rw [d₆, d₅, d₄, d₂, d₁]
    rfl
  · have g₈ := (lowerStmts_sound linesGrow_steps _ _).ok _ _ _ h₈
    have g₉ := (closeRoutine_sound linesGrow_steps.toFrameSteps ls _).ok _ _ _ h₉
    rw [hl]
    exact g₈.trans g₉

theorem lowerMethod_self_attr_code {T : ClassTable} {opts : Options} {C : String}
    {d : MethodDecl} {h : ClassInfo} {a : AttrInfo} (hcls : T.get? "this" = none)
    (hattr : T.findAttr C "this" = some (h, a)) (hps : ∀ q ∈ d.params, q.name ≠ "this")
    {v : String} {sp vsp dsp : Span} {ds : List VarDecl}
    (hdecls : d.body.decls = ⟨false, .cls C, [⟨v, some (.ident "this" sp), vsp⟩], dsp⟩ :: ds)
    {rc : RoutineCode} {log log' : Array LogLine}
    (hr : runFrom (Lower.lowerMethod ⟨T, opts, C⟩ d) log = (.ok rc, log')) :
    rc.header = Lower.methodHeader d ∧ ∃ e e' slot rest,
      (Lower.lowerExpr ⟨T, opts, C⟩ (.ident "this" sp)).run e = .ok (a.type.deref, e') ∧
      e'.lines.toList = e.lines.toList ++ (attrLoad C h a).map .instr ∧
      rc.lines = e'.lines.toList ++ .instr (.store .ref slot) :: rest ∧
      ∀ x ∈ e.lines.toList, instrOf x = none := by
  obtain ⟨hh, ls, e₂, pending, e₄, h₄, e, e₇, hpre, hloc, hd, h₇, hgrow⟩ :=
    lowerMethod_initLocals hps hr
  refine ⟨hh, ?_⟩
  rw [hdecls] at h₄
  obtain ⟨slot, pending, rfl⟩ := declareLocals_head ls h₄
  -- the first initializer is the attribute's load, then the others only add lines
  rw [initLocals_cons] at h₇
  obtain ⟨⟨⟩, e₆', hv, hrest⟩ := bind_ok h₇
  obtain ⟨e₁', st', hlow, hl₁', hrun', hlines⟩ :=
    initLocals_self_name hcls hloc hattr (by omega) opts sp slot
  rw [hrun'] at hv
  cases hv
  have g₇ := (initLocals_sound linesGrow_steps.toFrameSteps _ pending).ok _ _ _ hrest
  obtain ⟨rest, hrest'⟩ : e₁'.lines.toList ++ [.instr (.store .ref slot)] <+: rc.lines := by
    rw [← hlines]
    exact g₇.trans hgrow
  exact ⟨e, e₁', slot, rest, hlow, hl₁', by simp [← hrest'], hpre⟩

theorem compile_lowers {opts : Options} {p : Program} {T : ClassTable} {us : List ClassUnit}
    (hT : (check opts p).run.2 = .ok T) (h : (compile opts p).run.2 = .ok us) :
    List.Forall₂ (fun c u ↦ ∃ l₁ l₂, runFrom (c.lower T opts) l₁ = (.ok u, l₂)) p.classes us := by
  rw [run_snd] at h hT
  rcases hc : runFrom (compile opts p) #[] with ⟨r, log⟩
  rw [hc] at h
  cases h
  unfold compile at hc
  obtain ⟨T', l₁, hT', hc⟩ := runFrom_bind_ok hc
  rw [hT'] at hT
  cases hT
  obtain ⟨us', l₂, hl, hc⟩ := runFrom_bind_ok hc
  obtain ⟨_, l₃, -, hc⟩ := runFrom_bind_ok hc
  rw [← runFrom_pure_ok hc]
  exact mapM_ok_forall₂ hl

theorem classLower_member {T : ClassTable} {opts : Options} {c : ClassDecl} {u : ClassUnit}
    {log log' : Array LogLine} (h : runFrom (c.lower T opts) log = (.ok u, log'))
    {r : Member} (hm : r ∈ c.members) :
    ∃ parent attrs o l₁ l₂,
      runFrom (Lower.memberRoutine ⟨T, opts, c.name⟩ parent attrs r) l₁ = (.ok o, l₂) ∧
      ∀ rc ∈ o, rc ∈ u.routines := by
  cases hr : T.get? c.name with
  | none =>
    unfold ClassDecl.lower at h
    simp [run_bind, hr] at h
  | some r =>
    have hname : r.name = c.name := by
      have hf := hr
      unfold ClassTable.get? at hf
      simpa using List.find?_some hf
    rw [classLower_of_get hr] at h
    obtain ⟨_, l₁, -, h⟩ := runFrom_bind_ok h
    obtain ⟨attrs, l₂, -, h⟩ := runFrom_bind_ok h
    obtain ⟨init, l₃, -, h⟩ := runFrom_bind_ok h
    obtain ⟨routines, l₄, hms, h⟩ := runFrom_bind_ok h
    obtain ⟨clinit, l₅, -, h⟩ := runFrom_bind_ok h
    rw [← runFrom_pure_ok h]
    obtain ⟨o, ho, _, _, hro⟩ := Forall₂.exists_of_mem (mapM_ok_forall₂ hms) hm
    refine ⟨_, _, o, _, _, hname ▸ hro, fun rc hrc ↦ ?_⟩
    exact List.mem_append_left _ (List.mem_append_right _ (List.mem_filterMap.mpr ⟨_, ho, hrc⟩))

theorem classLower_method {T : ClassTable} {opts : Options} {c : ClassDecl} {u : ClassUnit}
    {log log' : Array LogLine} (h : runFrom (c.lower T opts) log = (.ok u, log'))
    {d : MethodDecl} (hd : Member.method d ∈ c.members) :
    ∃ rc ∈ u.routines, ∃ l₁ l₂, runFrom (Lower.lowerMethod ⟨T, opts, c.name⟩ d) l₁ = (.ok rc, l₂) := by
  obtain ⟨_, _, o, l₁, l₂, hrun, hmem⟩ := classLower_member h hd
  obtain ⟨rc, hrc, rfl⟩ := runFrom_map_ok hrun
  exact ⟨rc, hmem rc rfl, l₁, l₂, hrc⟩

/-- Static routines do use slot 0 as the object. In every compiled program where no class is
called `this`, take a class with an instance attribute called `this` and a static method of it,
the entry point included, with no parameter called `this`, whose first local, of the class, is
initialized from the name `this`: the method's routine is static, so its slot 0 holds the
argument array or the first parameter, yet it loads slot 0 as a reference and reads the
attribute from it. -/
theorem static_self_name_loads_slot0 {opts : Options} {p : Program} {T : ClassTable}
    (hT : (check opts p).run.2 = .ok T) (hcls : T.get? "this" = none) :
    ∀ us, (compile opts p).run.2 = .ok us →
      List.Forall₂ (fun c u ↦ ∀ h a, T.findAttr c.name "this" = some (h, a) →
        a.isStatic = false → ∀ d, Member.method d ∈ c.members → d.isStatic = true →
        (∀ q ∈ d.params, q.name ≠ "this") → ∀ v sp vsp dsp ds,
        d.body.decls = ⟨false, .cls c.name, [⟨v, some (.ident "this" sp), vsp⟩], dsp⟩ :: ds →
        ∃ rc ∈ u.routines, rc.header.isStatic = true ∧
          [Line.instr (.load .ref 0), .instr (.getField h.name a.name a.type)] <:+: rc.lines)
        p.classes us := by
  intro us hus
  refine (compile_lowers hT hus).imp fun c u ⟨_, _, hu⟩ h a hattr ha d hd hs hps v sp vsp dsp ds
    hdecls ↦ ?_
  obtain ⟨rc, hrc, _, _, hr⟩ := classLower_method hu hd
  obtain ⟨hh, e, _, slot, rest, -, hl, hcode, -⟩ := lowerMethod_self_attr_code hcls hattr hps hdecls hr
  refine ⟨rc, hrc, ?_, ⟨e.lines.toList, .instr (.store .ref slot) :: rest, ?_⟩⟩
  · -- a static method's header is static, the entry point's too
    rw [hh, Lower.methodHeader]
    split <;> simp [hs]
  · have hC : ValueKind.of (.cls c.name) = .ref := rfl
    simp [hcode, hl, attrLoad, ha, hC]

/-- The class `Main` with an instance attribute `this` of its own type, and an entry point whose
one local is initialized from the name `this`. -/
def selfAttrStatic : Program := ⟨[⟨"Main", none, [
  .attr ⟨false, false, .cls "Main", [⟨"this", none, default⟩], default⟩,
  .method ⟨true, .void, "main", [],
    ⟨[⟨false, .cls "Main", [⟨"m", some (.ident "this" default), default⟩], default⟩], [], default⟩,
    default⟩], default⟩]⟩

def selfAttrStaticTable : ClassTable :=
  ((check {} selfAttrStatic).run.2).toOption.getD .empty

theorem selfAttrStatic_loads_slot0 :
    ∃ us, (compile {} selfAttrStatic).run.2 = .ok us ∧ ∃ u ∈ us, ∃ rc ∈ u.routines,
      rc.header.isStatic = true ∧
      [Line.instr (.load .ref 0), .instr (.getField "Main" "this" (.cls "Main"))] <:+: rc.lines := by
  have hT : (check {} selfAttrStatic).run.2 = .ok selfAttrStaticTable :=
    except_eq_ok_of_isOk _ (by decide +kernel)
  have hcls : selfAttrStaticTable.get? "this" = none := by decide +kernel
  obtain ⟨us, hus⟩ : ∃ us, (compile {} selfAttrStatic).run.2 = .ok us :=
    ⟨_, except_eq_ok_of_isOk [] (by decide +kernel)⟩
  -- the attribute `this` of `Main`, as the table records it
  obtain ⟨⟨h, a⟩, hfa⟩ : ∃ r, selfAttrStaticTable.findAttr "Main" "this" = some r :=
    Option.isSome_iff_exists.mp (by decide +kernel)
  have hv : (selfAttrStaticTable.findAttr "Main" "this").map
      (fun r ↦ (r.1.name, r.2.name, r.2.type, r.2.isStatic)) =
      some ("Main", "this", .cls "Main", false) := by decide +kernel
  simp only [hfa, Option.map_some, Option.some.injEq, Prod.mk.injEq] at hv
  obtain ⟨hname, haname, hatype, hstatic⟩ := hv
  have hall := static_self_name_loads_slot0 hT hcls us hus
  rcases hall with _ | ⟨hMain, _ | _⟩
  obtain ⟨rc, hrc, hst, hinf⟩ := hMain h a hfa hstatic _ (List.mem_cons_of_mem _ List.mem_cons_self)
    rfl (fun _ hq ↦ nomatch hq) "m" default default default [] rfl
  rw [hname, haname, hatype] at hinf
  exact ⟨_, hus, _, List.mem_singleton_self _, rc, hrc, hst, hinf⟩

end ClassLang.Proofs.StaticReceiver
