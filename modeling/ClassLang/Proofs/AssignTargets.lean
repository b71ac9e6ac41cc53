import ClassLang.Proofs.Generation

namespace ClassLang.Proofs.AssignTargets

open ClassLang Runs Invariants Generation

variable {α β : Type}

def Fails (m : EmitM α) : Prop := ∀ st, ∃ e, m.run st = .error e

namespace Fails

theorem throw (e : CompileError) : Fails (throw e : EmitM α) := fun _ ↦ ⟨e, rfl⟩

theorem bind_left {x : EmitM α} {f : α → EmitM β} (hx : Fails x) : Fails (x >>= f) := by
  intro st
  obtain ⟨e, he⟩ := hx st
  exact ⟨e, run_bind_of_error he⟩

theorem bind_right {x : EmitM α} {f : α → EmitM β} (hf : ∀ a, Fails (f a)) :
    Fails (x >>= f) := by
  intro st
  cases hx : x.run st with
  | error e => exact ⟨e, run_bind_of_error hx⟩
  | ok p =>
    obtain ⟨e, he⟩ := hf p.1 p.2
    exact ⟨e, (run_bind_of_ok hx).trans he⟩

end Fails

/-- A statement that somewhere assigns to a chain without steps, such as `nil := nil`: the
checker types such a target as its base expression. -/
inductive WritesBareChain : Stmt → Prop
  | assign {c : Chain} {rhs : Expr} {sp : Span} :
      c.steps = [] → WritesBareChain (.assign (.chain c) rhs sp)
  | condThen {t : Expr} {th : Stmt} {el : Option Stmt} {sp : Span} :
      WritesBareChain th → WritesBareChain (.cond t th el sp)
  | condElse {t : Expr} {th el : Stmt} {sp : Span} :
      WritesBareChain el → WritesBareChain (.cond t th (some el) sp)
  | loop {v : String} {vsp : Span} {a : Expr} {d : Direction} {b : Expr} {body : Stmt}
      {sp : Span} :
      WritesBareChain body → WritesBareChain (.loop v vsp a d b body sp)
  | block {ds : List VarDecl} {ss : List Stmt} {sp : Span} {st : Stmt} :
      st ∈ ss → WritesBareChain st → WritesBareChain (.block ds ss sp)

def BlockWritesBareChain (b : Block) : Prop := ∃ st ∈ b.stmts, WritesBareChain st

def MemberWritesBareChain : Member → Prop
  | .attr _ => False
  | .method m => BlockWritesBareChain m.body
  | .ctor k => BlockWritesBareChain k.body
  | .dtor d => BlockWritesBareChain d.body

/-- A program with a member, in one of its classes, whose body writes a chain without steps. -/
def ProgramWritesBareChain (p : Program) : Prop :=
  ∃ c ∈ p.classes, ∃ m ∈ c.members, MemberWritesBareChain m

section Statements

variable (s : Site)

theorem chainPlace_fails {c : Chain} (h : c.steps = []) : Fails (Lower.chainPlace s c) := by
  unfold Lower.chainPlace
  simp only [h, List.getLast?_nil]
  exact Fails.throw _

theorem lowerStmts_fails {st : Stmt} (hf : Fails (Lower.lowerStmt s st)) :
    ∀ {sts : List Stmt}, st ∈ sts → Fails (Lower.lowerStmts s sts)
  | a :: as, hm => by
    rw [Lower.lowerStmts]
    rcases List.mem_cons.mp hm with rfl | hm
    · exact Fails.bind_left hf
    · exact Fails.bind_right fun _ ↦ lowerStmts_fails hf hm

theorem lowerStmt_fails {st : Stmt} (h : WritesBareChain st) : Fails (Lower.lowerStmt s st) := by
  induction h with
  | assign hc =>
    rw [lowerStmt_assign]
    exact Fails.bind_left (chainPlace_fails s hc)
  | condThen _ ih | condElse _ ih | loop _ ih =>
    -- the offending branch or body is lowered after a few steps of the statement's own
    simp only [lowerStmt_cond, lowerStmt_loop]
    repeat (first | exact Fails.bind_left ih | refine Fails.bind_right fun _ ↦ ?_)
  | block hm _ ih =>
    have hs := lowerStmts_fails s ih hm
    rw [lowerStmt_block]
    repeat (first | exact Fails.bind_left hs | refine Fails.bind_right fun _ ↦ ?_)

theorem lowerBody_fails (ls : BlockLabels) {b : Block} (prologue : EmitM Unit)
    (h : BlockWritesBareChain b) : Fails (Lower.lowerBody s ls b prologue) := by
  obtain ⟨st, hm, hw⟩ := h
  unfold Lower.lowerBody
  exact Fails.bind_right fun _ ↦ Fails.bind_right fun _ ↦ Fails.bind_right fun _ ↦
    Fails.bind_right fun _ ↦ lowerStmts_fails s (lowerStmt_fails s hw) hm

end Statements

theorem routine_fails (s : Site) (h : MethodHeader) (r : Receiver)
    {body : BlockLabels → EmitM Unit} (hf : ∀ ls, Fails (body ls)) (log : Array LogLine) :
    ∃ e log', runFrom (Lower.routine s h r body) log = (.error e, log') := by
  rw [routine_run]
  obtain ⟨e, he⟩ := Fails.bind_right hf (Emitter.create (Frame.create h.name h.ret h.isStatic))
  exact ⟨e, _, by rw [he]⟩

section Members

variable (s : Site) (parent : String) (attrs : List AttrInfo)

theorem memberRoutine_failsInternally :
    ∀ {m : Member}, MemberWritesBareChain m →
      FailsInternally (Lower.memberRoutine s parent attrs m)
  | .method m, h => FailsInternally.map _ <|
    FailsInternally.of_fails (lowerMethod_internalOnly s m) <| routine_fails _ _ _ fun ls ↦
      Fails.bind_right fun _ ↦ Fails.bind_left (lowerBody_fails s ls _ h)
  | .ctor k, h => FailsInternally.map _ <|
    FailsInternally.of_fails (lowerCtor_internalOnly s parent attrs k) <|
      routine_fails _ _ _ fun ls ↦
        Fails.bind_right fun _ ↦ Fails.bind_left (lowerBody_fails s ls _ h)
  | .dtor d, h => FailsInternally.map _ <|
    FailsInternally.of_fails (lowerDtor_internalOnly s d) <| routine_fails _ _ _ fun ls ↦
      Fails.bind_left (lowerBody_fails s ls _ h)

end Members

theorem classLower_failsInternally (table : ClassTable) (opts : Options) {c : ClassDecl}
    {m : Member} (hm : m ∈ c.members) (hw : MemberWritesBareChain m) :
    FailsInternally (c.lower table opts) := by
  unfold ClassDecl.lower
  refine FailsInternally.bind_right (InternalOnly.write _ _) fun _ ↦ ?_
  split
  · next r _ =>
    refine FailsInternally.bind_right (InternalOnly.lift fun e he ↦ attrsInOrder_error he)
      fun attrs ↦ ?_
    dsimp only
    have routines := FailsInternally.mapM
      (memberRoutine_failsInternally ⟨table, opts, r.name⟩ (c.parent.getD opts.defaultSuper)
        attrs hw) (fun m _ ↦ memberRoutine_internalOnly _ _ _ m) hm
    exact FailsInternally.ite
      (.bind_right ((defaultCtor_internalOnly _ _ _).map _) fun _ ↦ .bind_left routines)
      (.bind_right (.pure _) fun _ ↦ .bind_left routines)
  · exact FailsInternally.throw _

theorem compile_failsInternally {opts : Options} {p : Program}
    (hc : (check opts p).run.2.isOk)
    (hl : ∀ T, FailsInternally (p.lower T opts)) :
    ∃ msg, (compile opts p).run.2 = .error (.internal msg) := by
  rw [run_snd]
  unfold compile
  rw [run_bind]
  rw [run_snd] at hc
  rcases hr : runFrom (check opts p) #[] with ⟨_ | T, log⟩
  · rw [hr] at hc
    cases hc
  · obtain ⟨msg, log', hl'⟩ := hl T log
    refine ⟨msg, ?_⟩
    dsimp only
    rw [run_bind, hl']

/-- A checked program in which some routine assigns to a chain without steps does not compile:
the checker types such a target as its base expression, and the generator, which finds no place
in it, stops with an internal error. -/
theorem bare_chain_assignment_fails (opts : Options) (p : Program)
    (hc : (check opts p).run.2.isOk) (hw : ProgramWritesBareChain p) :
    ∃ msg, (compile opts p).run.2 = .error (.internal msg) := by
  obtain ⟨c, hc', m, hm, hwm⟩ := hw
  refine compile_failsInternally hc fun T ↦ ?_
  exact FailsInternally.mapM (classLower_failsInternally T opts hm hwm)
    (fun c _ ↦ classLower_internalOnly T opts c) hc'

/-- The class `Main` whose entry point assigns `nil` to `nil`. -/
def nilAssignment : Program :=
  ⟨[⟨"Main", none, [.method ⟨true, .void, "main", [],
    ⟨[], [.assign (.chain ⟨.lit .nil default, [], default⟩) (.lit .nil default) default], default⟩,
    default⟩], default⟩]⟩

theorem nilAssignment_fails :
    (check {} nilAssignment).run.2.isOk ∧ ProgramWritesBareChain nilAssignment ∧
      ∃ msg, (compile {} nilAssignment).run.2 = .error (.internal msg) := by
  have hc : (check {} nilAssignment).run.2.isOk := by decide +kernel
  have hw : ProgramWritesBareChain nilAssignment :=
    ⟨_, List.mem_singleton_self _, _, List.mem_singleton_self _, _, List.mem_singleton_self _,
      .assign rfl⟩
  exact ⟨hc, hw, bare_chain_assignment_fails {} nilAssignment hc hw⟩

end ClassLang.Proofs.AssignTargets
