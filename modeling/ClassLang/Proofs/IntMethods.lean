import ClassLang.Proofs.Simulation
import ClassLang.Proofs.RoutineLabels
import ClassLang.Proofs.StaticReceiver

namespace ClassLang.Proofs.IntMethods

open ClassLang Runs Machine IntSemantics IntCode StmtCode Simulation RoutineLabels Linking
  Generation Checked StaticReceiver FreshLabels

/-- The parameters as locals in scope, in consecutive slots from `k` on, the last one
innermost. -/
def paramSyms (ps : List Param) (k : Nat) : List LocalSym :=
  ((ps.zip (List.range' k ps.length)).map fun q ↦ ⟨q.1.name, q.1.type, q.2⟩).reverse

/-- How the code of a method of the fragment is laid out: `.var` lines, the start label, the
initializers of the body's locals over the parameters, the body's statements over the parameters
and the locals outside every loop, the return added when the method has no result and its body
does not end in one, and the end label. The body's locals take the slots after the
parameters'. -/
structure MethodLayout (m : MethodDecl) (code vars : List Line) (ps : List Lower.Pending)
    (inits cs : List Line) : Prop where
  eq : code = vars ++ .label ⟨0⟩ :: inits ++ cs ++
    ((if m.ret.isVoid && !Lower.endsInReturn (some m.body) then [.instr .retVoid] else []) ++
      [.label ⟨1⟩])
  vars : ∀ y ∈ vars, instrOf y = none
  locals : ps.map entryOf = declared m.body.decls
  slots : ps.map (·.slot) = List.range' (firstSlot m + m.params.length) ps.length
  inits : InitCode (paramSyms m.params (firstSlot m)) ps inits
  body : Code (bindAll (paramSyms m.params (firstSlot m)) ps) [] (.seq m.body.stmts) cs

section Params

theorem paramSyms_slots (ps : List Param) (k : Nat) :
    (paramSyms ps k).map (·.slot) = (List.range' k ps.length).reverse := by
  have h := @List.map_snd_zip _ _ ps (List.range' k ps.length) (by simp)
  simp only [paramSyms, List.map_reverse, List.map_map]
  exact congrArg List.reverse h

theorem paramSyms_entries (ps : List Param) (k : Nat) :
    (paramSyms ps k).map entry = paramsScope ps := by
  have h := @List.map_fst_zip _ _ ps (List.range' k ps.length) (by simp)
  simp only [paramSyms, paramsScope, List.map_reverse, List.map_map]
  conv_rhs => rw [← h, List.map_map]
  rfl

theorem paramSyms_slotsOk (ps : List Param) (k : Nat) :
    SlotsOk (paramSyms ps k) (k + ps.length) := by
  constructor
  · rw [paramSyms_slots]
    exact List.nodup_reverse.mpr (List.nodup_range' ..)
  · intro x hx
    have hs : x.slot ∈ (List.range' k ps.length).reverse := by
      rw [← paramSyms_slots]
      exact List.mem_map_of_mem hx
    rw [List.mem_reverse, List.mem_range'_1] at hs
    exact hs.2

theorem declareParams_run {r : BlockLabels} :
    ∀ {ps : List Param} {e e' : Emitter} {slots : List Nat},
    e.frame.nextSlot + ps.length < 65536 → (Lower.declareParams r ps).run e = .ok (slots, e') →
    slots = List.range' e.frame.nextSlot ps.length ∧
      ∃ vars, (∀ y ∈ vars, instrOf y = none) ∧ Lowered e e' vars e.frame.symbols ps.length
  | [], e, e', slots, _, h => by
    cases h
    exact ⟨rfl, [], by simp, ⟨by simp, rfl, rfl, rfl, rfl, rfl⟩⟩
  | p :: ps, e, e', slots, hn, h => by
    rw [Lower.declareParams] at h
    obtain ⟨slot, e₁, h₁, h⟩ := bind_ok h
    rw [newSlot_run] at h₁
    cases h₁
    obtain ⟨_, e₂, h₂, h⟩ := bind_ok h
    rw [line_run] at h₂
    cases h₂
    obtain ⟨rest, e₃, h₃, h⟩ := bind_ok h
    cases h
    have hn' : e.frame.nextSlot + 1 + ps.length < 65536 := by
      simp only [List.length_cons] at hn
      omega
    have k₂ := (Lowered.newSlot (e := e) (by omega)).trans
      (Lowered.line (.var e.frame.newSlot.1 p.name p.type r))
    obtain ⟨hs, vars, hv, k₃⟩ := declareParams_run (by rw [k₂.slots]; exact hn') h₃
    refine ⟨?_, .var e.frame.newSlot.1 p.name p.type r :: vars, ?_,
      (k₂.trans k₃).of_eq (by simp) (by simp; omega)⟩
    · rw [hs, k₂.slots, List.length_cons, List.range'_succ]
      rfl
    · intro y hy
      rcases List.mem_cons.mp hy with rfl | hy
      · rfl
      · exact hv y hy

theorem bindParams_run : ∀ (ps : List Param) (slots : List Nat) {e e' : Emitter},
    ps.length = slots.length → (Lower.bindParams ps slots).run e = .ok ((), e') →
    Lowered e e' []
      (((ps.zip slots).map fun q ↦ ⟨q.1.name, q.1.type, q.2⟩).reverse ++ e.frame.symbols) 0
  | p :: ps, slot :: slots, e, e', hl, h => by
    rw [Lower.bindParams] at h
    obtain ⟨_, e₁, h₁, h₂⟩ := bind_ok h
    rw [onFrame_run] at h₁
    cases h₁
    have k := bindParams_run ps slots (by simpa using hl) h₂
    rw [List.zip_cons_cons, List.map_cons, List.reverse_cons, List.append_assoc,
      List.singleton_append]
    exact ((Lowered.bind p.name p.type slot).trans k).of_eq rfl rfl
  | [], _, e, e', _, h => by
    simp only [Lower.bindParams, Runs.run_pure] at h
    cases h
    exact ⟨by simp, by simp, rfl, rfl, rfl, rfl⟩
  | _ :: _, [], _, _, hl, _ => by simp at hl

end Params

section Prologue

theorem openRoutine_run {s : Site} {r : Receiver} {n : String} {rt : Ty} {st : Bool}
    {ls : BlockLabels} {e : Emitter}
    (h : (Lower.openRoutine s r).run (Emitter.create (Frame.create n rt st)) = .ok (ls, e)) :
    e.frame.nextSlot = (if r = .none then 0 else 1) ∧ e.frame.symbols = [] := by
  unfold Lower.openRoutine at h
  obtain ⟨ls₀, e₁, h₁, h⟩ := bind_ok h
  cases h₁
  cases r with
  | this | args =>
    obtain ⟨_, e₂, h₂, h⟩ := bind_ok h
    obtain ⟨_, e₃, h₃, h⟩ := bind_ok h
    cases h₂
    cases h₃
    cases h
    exact ⟨rfl, rfl⟩
  | none =>
    cases h
    exact ⟨rfl, rfl⟩

theorem closeRoutine_lines {ob : Option Block} {e e' : Emitter} {u : Unit}
    (h : (Lower.closeRoutine routineRange ob).run e = .ok (u, e')) :
    e'.lines.toList = e.lines.toList ++
      ((if e.frame.ret.isVoid && !Lower.endsInReturn ob then [.instr .retVoid] else []) ++
        [.label ⟨1⟩]) := by
  unfold Lower.closeRoutine at h
  obtain ⟨_, e₁, h₁, h⟩ := bind_ok h
  cases h₁
  dsimp only at h
  split at h
  · rename_i hv
    obtain ⟨_, e₂, h₂, h⟩ := bind_ok h
    obtain ⟨_, e₃, h₃, h⟩ := bind_ok h
    obtain ⟨_, e₄, h₄, h⟩ := bind_ok h
    cases h
    obtain ⟨f, -, rfl⟩ := exitBlock_ok h₄
    show e₃.lines.toList = _
    rw [(emits_label h₃).lines, (emits_emit h₂).lines, if_pos hv]
    simp [routineRange]
  · rename_i hv
    obtain ⟨_, e₃, h₃, h⟩ := bind_ok h
    obtain ⟨_, e₄, h₄, h⟩ := bind_ok h
    cases h
    obtain ⟨f, -, rfl⟩ := exitBlock_ok h₄
    show e₃.lines.toList = _
    rw [(emits_label h₃).lines, if_neg hv]
    simp [routineRange]

theorem eq_void_of_isVoid {t : Ty} (h : t.isVoid = true) : t = .void := by
  cases t with
  | prim p => cases p <;> first | rfl | cases h
  | _ => cases h

theorem methodHeader_ret (m : MethodDecl) : (Lower.methodHeader m).ret = m.ret := by
  unfold Lower.methodHeader
  split
  · rename_i he
    simp only [MethodDecl.isEntryPoint, Bool.and_eq_true] at he
    exact (eq_void_of_isVoid he.2).symm
  · rfl

theorem intMethod_body {m : MethodDecl} (h : intMethod m = true) :
    ∃ Γ, scopeAfter (paramsScope m.params) (declared m.body.decls) = some Γ ∧
      stmtsOk Γ m.ret m.body.stmts = true := by
  simp only [intMethod, Bool.and_eq_true] at h
  obtain ⟨-, h⟩ := h
  split at h
  · exact ⟨_, ‹_›, h⟩
  · cases h

theorem firstSlot_receiver (m : MethodDecl) :
    (if (if m.isEntryPoint then Receiver.args else if m.isStatic then .none else .this) = .none
      then 0 else 1) = firstSlot m := by
  unfold firstSlot
  cases m.isEntryPoint <;> cases m.isStatic <;> rfl

/-- The routine of a method of the fragment is laid out as `MethodLayout` says, as long as its
slots fit the 16-bit counter. -/
theorem lowerMethod_layout {s : Site} {m : MethodDecl} {rc : RoutineCode}
    {log log' : Array LogLine} (hm : intMethod m = true) (hn : slotCount m < 65536)
    (hr : runFrom (Lower.lowerMethod s m) log = (.ok rc, log')) :
    ∃ vars ps inits cs, MethodLayout m rc.lines vars ps inits cs := by
  obtain ⟨-, e₉, hrun, hl⟩ := routine_ok _ hr
  obtain ⟨ls, e₁, h₁, k⟩ := bind_ok hrun
  obtain ⟨rfl, ho⟩ := openRoutine_opened h₁
  obtain ⟨hslot₁, hsym₁⟩ := openRoutine_run h₁
  obtain ⟨slots, e₂, h₂, k⟩ := bind_ok k
  obtain ⟨_, e₃, h₃, h₉⟩ := bind_ok k
  obtain ⟨ps, e₄, e₅, e₆, e₇, h₄, h₅, h₆, h₇, h₈⟩ := lowerBody_run h₃
  have hfirst : e₁.frame.nextSlot = firstSlot m := hslot₁.trans (firstSlot_receiver m)
  have hroom : firstSlot m + m.params.length + (declared m.body.decls).length +
      stmtsSlots m.body.stmts < 65536 := hn
  -- the `.var` lines of the parameters and of the body's locals, and the start label
  obtain ⟨hslots, vp, hvp, k₂⟩ := declareParams_run (by rw [hfirst]; omega) h₂
  obtain ⟨hps, hpslots, k₄⟩ := declareLocals_run (by rw [k₂.slots, hfirst]; omega) h₄
  have k₅ := Lowered.of_emits (emits_label h₅)
  have hlen : ps.length = (declared m.body.decls).length := by
    simpa using congrArg List.length hps
  -- the parameters come into scope, then the locals one by one
  have k₆ := bindParams_run m.params slots (by rw [hslots]; simp) h₆
  have hsym₆ : e₆.frame.symbols = paramSyms m.params (firstSlot m) := by
    rw [k₆.symbols, k₅.symbols, k₄.symbols, k₂.symbols, hsym₁, hslots, hfirst, List.append_nil]
    rfl
  obtain ⟨Γ, hΓ, hstmts⟩ := intMethod_body hm
  obtain ⟨hΓ', inits, hinits, k₇⟩ :=
    initLocals_code s ps hsym₆ (by rw [paramSyms_entries, hps]; exact hΓ) h₇
  have pre := k₂.trans (k₄.trans (k₅.trans (k₆.trans k₇)))
  have hslot₇ : e₇.frame.nextSlot = firstSlot m + m.params.length + ps.length := by
    rw [pre.slots, hfirst]
    omega
  have hps' : ps.map (·.slot) = List.range' (firstSlot m + m.params.length) ps.length := by
    rw [hpslots, k₂.slots, hfirst]
  have r₇ : Ready e₇ (bindAll (paramSyms m.params (firstSlot m)) ps) [] m.ret
      (stmtsSlots m.body.stmts) :=
    ⟨k₇.symbols, by rw [pre.loops]; exact ho.loops,
      by rw [pre.ret, ho.ret, methodHeader_ret],
      by rw [hslot₇]; exact (paramSyms_slotsOk _ _).bindAll_fresh hps',
      by rw [hslot₇, hlen]; exact hroom⟩
  obtain ⟨cs, hcs, k₈⟩ := lowerStmts_code s m.body.stmts r₇ (by rw [← hΓ']; exact hstmts) h₈
  -- the end of the routine
  have whole := pre.trans k₈
  refine ⟨e₁.lines.toList ++ vp ++ ps.map (fun p ↦ .var p.slot p.name p.type routineRange), ps,
    inits, cs, ⟨?_, ?_, hps, hps', hinits, hcs⟩⟩
  · rw [hl, closeRoutine_lines h₉, whole.lines, whole.ret, ho.ret, methodHeader_ret]
    simp [routineRange]
  · intro y hy
    simp only [List.mem_append, List.mem_map] at hy
    rcases hy with (hy | hy) | ⟨p, -, rfl⟩
    · obtain ⟨_, _, _, rfl⟩ := ho.vars y hy
      rfl
    · exact hvp y hy
    · rfl

end Prologue

/-- The configuration a routine ends in when its method ends with `en`, the locals holding
`L`. -/
def endConf (L : Locals) : Ending → Conf
  | .ret v => .ret (v.map Val.word) L
  | .fault => .threw L

theorem endConf_final (L : Locals) (en : Ending) : (endConf L en).final := by
  cases en <;> trivial

section Running

variable {code : List Line} {m : MethodDecl}

theorem holds_params : ∀ (ps : List Param) (args : List Val) (k : Nat) (L : Locals),
    args.length = ps.length → (List.range' k args.length).map L = args.map Val.word →
    Holds (paramSyms ps k) (paramsEnv ps args) L := by
  intro ps
  induction ps with
  | nil =>
    intro args k L ha _
    rw [List.length_nil, List.length_eq_zero_iff] at ha
    subst ha
    exact List.Forall₂.nil
  | cons p ps ih =>
    intro args k L ha hL
    cases args with
    | nil => cases ha
    | cons a as =>
      simp only [List.length_cons, Nat.add_right_cancel_iff] at ha
      simp only [List.length_cons, List.range'_succ, List.map_cons, List.cons.injEq] at hL
      have hrest := ih as (k + 1) L ha (by rw [ha] at hL ⊢; exact hL.2)
      -- the first parameter is the outermost
      unfold Holds paramSyms paramsEnv at hrest ⊢
      rw [List.forall₂_reverse_iff] at hrest ⊢
      simp only [List.length_cons, List.range'_succ, List.zip_cons_cons, List.map_cons]
      exact List.Forall₂.cons ⟨rfl, hL.1⟩ hrest

theorem MethodLayout.scope_slots {vars inits cs : List Line} {ps : List Lower.Pending}
    (hl : MethodLayout m code vars ps inits cs) :
    (bindAll (paramSyms m.params (firstSlot m)) ps).map (·.slot) =
      (List.range' (firstSlot m) (m.params.length + ps.length)).reverse := by
  have hps : (ps.reverse.map symOf).map (·.slot) = (ps.map (·.slot)).reverse := by
    simp [symOf, List.map_reverse, Function.comp_def]
  rw [bindAll, List.map_append, hps, hl.slots, paramSyms_slots, ← List.reverse_append,
    List.range'_append_1]

theorem not_ends_in_return : ∀ {sts : List Stmt} {ρ ρ' : Env}, Exec ρ (.seq sts) ρ' .normal →
    ∀ e sp, sts.getLast? ≠ some (.ret e sp)
  | [], _, _, _, _, _, hl => by simp at hl
  | st :: sts, ρ, ρ', h, e, sp, hl => by
    cases h with
    | next h₁ h₂ =>
      cases sts with
      | nil =>
        -- the last statement is the `return`, which never ends normally
        obtain rfl : st = .ret e sp := by simpa using hl
        cases h₁
      | cons st' sts => exact not_ends_in_return h₂ e sp (by simpa using hl)
    | stop _ ho => exact ho rfl

theorem endsInReturn_of_normal {b : Block} {ρ ρ' : Env} (h : Exec ρ (.seq b.stmts) ρ' .normal) :
    Lower.endsInReturn (some b) = false := by
  simp only [Lower.endsInReturn]
  split
  · exact absurd ‹_› (not_ends_in_return h _ _)
  · rfl

theorem finishes_ending {a : Conf} {q : Nat} {s : List Word} {L : Locals} {o : Outcome}
    {en : Ending} {ends : Bool} (he : o.ending m.ret = some en) (hn : o = .normal → ends = false)
    (hf : Finishes code a q [] s L o)
    (ht : At code q ((if m.ret.isVoid && !ends then [.instr .retVoid] else []) ++ [.label ⟨1⟩])) :
    Runs code a (endConf L en) := by
  cases o with
  | normal =>
    simp only [Outcome.ending] at he
    split at he
    · rename_i hv
      cases he
      rw [hn rfl, hv] at ht
      exact Relation.ReflTransGen.tail hf (Step.ret ht.head rfl)
    · cases he
  | brk | cont => cases he
  | ret v =>
    cases he
    exact hf
  | fault =>
    cases he
    exact hf

/-- The code of a method of the fragment, started with the words of the arguments in the
parameters' slots, ends as the method does, its slots from the first parameter's on holding the
words of the variables the method ends with. -/
theorem method_runs {vars inits cs : List Line} {ps : List Lower.Pending}
    (hl : MethodLayout m code vars ps inits cs) {args : List Val} {ρ : Env} {en : Ending}
    (hrun : MethodRun m args ρ en) {L : Locals}
    (hL : (List.range' (firstSlot m) args.length).map L = args.map Val.word) :
    ∃ L', Runs code (.run 0 [] L) (endConf L' en) ∧
      (List.range' (firstSlot m) ρ.length).map L' = ρ.reverse.map (·.2.word) := by
  have hat : At code 0 (vars ++ .label ⟨0⟩ :: inits ++ cs ++
      ((if m.ret.isVoid && !Lower.endsInReturn (some m.body) then [.instr .retVoid] else []) ++
        [.label ⟨1⟩])) := by
    rw [← hl.eq]
    intro i _
    rw [Nat.zero_add]
  obtain ⟨h₁, h₂, h₃⟩ := At.parts hat
  -- the `.var` lines and the start label
  have r₀ : Runs code (.run 0 [] L) (.run (0 + vars.length + 1) [] L) :=
    (runs_pass hl.vars h₁.left).tail (.pass h₁.right.head rfl)
  have hnd : ((bindAll (paramSyms m.params (firstSlot m)) ps).map (·.slot)).Nodup := by
    rw [hl.scope_slots]
    exact List.nodup_reverse.mpr (List.nodup_range' ..)
  cases hrun with
  | body ha hd hx he =>
    have hH₀ := holds_params m.params args (firstSlot m) L ha hL
    obtain ⟨L₁, hH₁, r₁⟩ :=
      (init_runs hl.inits hH₀ hnd h₁.right.tail).1 _ (by rw [hl.locals]; exact hd)
    obtain ⟨L₂, hH₂, hf⟩ := exec_runs hx hl.body hnd hH₁
      (At.shift h₂ (show _ = 0 + vars.length + 1 + inits.length by simp; omega))
    refine ⟨L₂, finishes_ending he (fun ho ↦ endsInReturn_of_normal (ho ▸ hx))
      (hf.head (r₀.trans r₁)) (At.shift h₃ (by simp; omega)), hH₂.words_range hl.scope_slots⟩
  | initFault ha hd =>
    have hH₀ := holds_params m.params args (firstSlot m) L ha hL
    obtain ⟨L₁, hH₁, r₁⟩ := (init_runs hl.inits hH₀ hnd h₁.right.tail).2 (by rw [hl.locals]; exact hd)
    exact ⟨L₁, r₀.trans r₁, hH₁.words_range (paramSyms_slots _ _)⟩

end Running

theorem lowerMethod_wellLabeled {s : Site} {m : MethodDecl} {rc : RoutineCode}
    {log log' : Array LogLine} (hr : runFrom (Lower.lowerMethod s m) log = (.ok rc, log'))
    (hw : (placedLabels rc.lines).length < 4294967296) : WellLabeled rc.lines := by
  have hlay : ∃ ob vars body, Layout rc.header.ret ob rc.lines vars body := by
    refine ⟨some m.body, routine_layout s (fun ho h ↦ ?_) hr⟩
    obtain ⟨_, e₁, h₁, h⟩ := bind_ok h
    exact lowerBody_layout s (.of_quiet (bindParams_quiet _ _))
      (ho.vars_step (declareParams_writesVars _ _) h₁) h
  obtain ⟨ob, vars, body, hl⟩ := hlay
  exact hl.wellLabeled hw

/-- A destructor as the method its routine is: the instance method `finalize` with the
destructor's body, no parameters and no result. -/
def dtorMethod (d : DtorDecl) : MethodDecl := ⟨false, .void, "finalize", [], d.body, d.span⟩

/-- The method a member's routine runs, for a method or a destructor. -/
def routineMethod : Member → Option MethodDecl
  | .method m => some m
  | .dtor d => some (dtorMethod d)
  | _ => none

theorem lowerDtor_eq (s : Site) (d : DtorDecl) :
    Lower.lowerDtor s d = Lower.lowerMethod s (dtorMethod d) :=
  rfl

theorem memberRoutine_of_routineMethod {r : Member} {m : MethodDecl}
    (h : routineMethod r = some m) (s : Site) (parent : String) (attrs : List AttrInfo) :
    Lower.memberRoutine s parent attrs r = some <$> Lower.lowerMethod s m := by
  cases r with
  | method m' => cases h; rfl
  | dtor d => cases h; rfl
  | attr _ | ctor _ => cases h

theorem classLower_routineMethod {T : ClassTable} {opts : Options} {c : ClassDecl}
    {u : ClassUnit} {log log' : Array LogLine} (h : runFrom (c.lower T opts) log = (.ok u, log'))
    {r : Member} (hr : r ∈ c.members) {m : MethodDecl} (hm : routineMethod r = some m) :
    ∃ rc ∈ u.routines, ∃ l₁ l₂, runFrom (Lower.lowerMethod ⟨T, opts, c.name⟩ m) l₁ = (.ok rc, l₂) := by
  obtain ⟨parent, attrs, o, l₁, l₂, hrun, hmem⟩ := classLower_member h hr
  rw [memberRoutine_of_routineMethod hm] at hrun
  obtain ⟨rc, hrc, rfl⟩ := runFrom_map_ok hrun
  exact ⟨rc, hmem rc rfl, l₁, l₂, hrc⟩

/-- Int and boolean methods run as their source says. In every compiled program, each method of
the fragment, and each destructor whose body is, as the method `finalize`, whose slots fit the
16-bit counter has a routine with the method's header. Started with the words of any arguments,
one per parameter, in the parameters' slots, the routine ends as the method does: it returns the
word of the value the method returns, returns nothing when the method does, or raises the
exception when the method divides by zero, its slots from the first parameter's on then holding
the words of the variables the method ends with. Unless the routine places more labels than the
32-bit counter numbers, no run of it ends any other way. -/
theorem int_method_routines_run {opts : Options} {p : Program} {us : List ClassUnit}
    (h : (compile opts p).run.2 = .ok us) :
    List.Forall₂ (fun c u ↦ ∀ r ∈ c.members, ∀ m, routineMethod r = some m → intMethod m = true →
        slotCount m < 65536 → ∃ rc ∈ u.routines, rc.header = Lower.methodHeader m ∧
          ∀ args ρ en L, MethodRun m args ρ en →
            (List.range' (firstSlot m) args.length).map L = args.map Val.word →
            ∃ L', Runs rc.lines (.run 0 [] L) (endConf L' en) ∧
              (List.range' (firstSlot m) ρ.length).map L' = ρ.reverse.map (·.2.word) ∧
              ((placedLabels rc.lines).length < 4294967296 →
                ∀ f, Runs rc.lines (.run 0 [] L) f → f.final → f = endConf L' en))
      p.classes us := by
  obtain ⟨T, hT⟩ := compile_ok h
  refine hT.imp fun c u ⟨_, _, hu⟩ r hr m hm hint hn ↦ ?_
  obtain ⟨rc, hrc, _, _, hrun⟩ := classLower_routineMethod hu hr hm
  obtain ⟨hh, -⟩ := routine_ok _ hrun
  obtain ⟨vars, ps, inits, cs, hl⟩ := lowerMethod_layout hint hn hrun
  refine ⟨rc, hrc, hh, fun args ρ en L hrun' hL ↦ ?_⟩
  obtain ⟨L', r, hw⟩ := method_runs hl hrun' hL
  -- the code places each label once, so the machine is deterministic
  refine ⟨L', r, hw, fun hcount f hf hfin ↦ ?_⟩
  exact runs_final_unique (lowerMethod_wellLabeled hrun hcount).nodup hf r hfin
    (endConf_final L' en)

def halfMethod : MethodDecl := ⟨true, .int, "half", [⟨"x", .int, default⟩],
  ⟨[⟨false, .int, [⟨"y", some (.binary .intDiv (.ident "x" default) (.lit (.int 2) default)
    default), default⟩], default⟩], [.ret (some (.ident "y" default)) default], default⟩, default⟩

def dividingDtor : DtorDecl := ⟨"Main", ⟨[⟨false, .int, [⟨"k", some (.binary .intDiv
  (.lit (.int 1) default) (.lit (.int 0) default) default), default⟩], default⟩], [], default⟩,
  default⟩

/-- The class `Main` with the method `half`, an empty entry point and `dividingDtor`. -/
def halving : Program := ⟨[⟨"Main", none, [.method halfMethod,
  .method ⟨true, .void, "main", [], ⟨[], [], default⟩, default⟩, .dtor dividingDtor], default⟩]⟩

theorem halving_routines_run :
    ∃ us, (compile {} halving).run.2 = .ok us ∧ ∃ u ∈ us,
      (∃ rc ∈ u.routines, rc.header = ⟨true, true, "half", [.int], .int⟩ ∧ ∀ L : Locals,
        L 0 = 7#32 → ∃ L', Runs rc.lines (.run 0 [] L) (.ret (some 3#32) L') ∧
          L' 0 = 7#32 ∧ L' 1 = 3#32 ∧
          ∀ f, Runs rc.lines (.run 0 [] L) f → f.final → f = .ret (some 3#32) L') ∧
      (∃ rc ∈ u.routines, rc.header = ⟨true, false, "finalize", [], .void⟩ ∧ ∀ L : Locals,
        ∃ L', Runs rc.lines (.run 0 [] L) (.threw L') ∧
          ∀ f, Runs rc.lines (.run 0 [] L) f → f.final → f = .threw L') := by
  have hus : (compile {} halving).run.2 = .ok (((compile {} halving).run.2).toOption.getD []) :=
    except_eq_ok_of_isOk [] (by decide +kernel)
  have hlabels : ∀ u ∈ ((compile {} halving).run.2).toOption.getD [], ∀ rc ∈ u.routines,
      (placedLabels rc.lines).length < 4294967296 := by
    decide +kernel
  generalize ((compile {} halving).run.2).toOption.getD [] = us at hus hlabels
  rcases int_method_routines_run hus with _ | ⟨hMain, _ | _⟩
  refine ⟨_, hus, _, List.mem_singleton_self _, ?_, ?_⟩
  · -- `half 7` declares `y` as 3 and returns it
    have hint : intMethod halfMethod = true := by decide +kernel
    obtain ⟨rc, hrc, hh, hruns⟩ := hMain _ List.mem_cons_self halfMethod rfl hint (by decide)
    have h3 : wrap 3 = 3#32 := by decide
    have h7 : wrap 7 = 7#32 := by decide
    have hrun : MethodRun halfMethod [.int 7#32] [("y", .int 3#32), ("x", .int 7#32)]
        (.ret (some (.int 3#32))) := by
      rw [← h3, ← h7]
      exact .body rfl rfl (.stop (.ret rfl) (by decide)) rfl
    refine ⟨rc, hrc, hh, fun L hL ↦ ?_⟩
    obtain ⟨L', r, hw, huniq⟩ := hruns _ _ _ L hrun (by show [L 0] = [7#32]; rw [hL])
    have hw' : [L' 0, L' 1] = [7#32, 3#32] := hw
    simp only [List.cons.injEq, and_true] at hw'
    exact ⟨L', r, hw'.1, hw'.2, huniq (hlabels _ List.mem_cons_self rc hrc)⟩
  · -- the destructor's initializer divides by zero before any statement runs
    have hint : intMethod (dtorMethod dividingDtor) = true := by decide +kernel
    obtain ⟨rc, hrc, hh, hruns⟩ := hMain _ (List.mem_cons_of_mem _ (List.mem_cons_of_mem _
      List.mem_cons_self)) (dtorMethod dividingDtor) rfl hint (by decide)
    have hrun : MethodRun (dtorMethod dividingDtor) [] [] .fault := .initFault rfl rfl
    refine ⟨rc, hrc, hh, fun L ↦ ?_⟩
    obtain ⟨L', r, -, huniq⟩ := hruns _ _ _ L hrun rfl
    exact ⟨L', r, huniq (hlabels _ List.mem_cons_self rc hrc)⟩

end ClassLang.Proofs.IntMethods
