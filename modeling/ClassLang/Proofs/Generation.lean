import ClassLang.Proofs.Invariants
import ClassLang.Compiler

namespace ClassLang.Proofs.Generation

open ClassLang Runs Invariants

variable {α β : Type}

def runFrom (m : Logged α) (log : Array LogLine) : Except CompileError α × Array LogLine :=
  (ExceptT.run m).run log

theorem run_bind (x : Logged α) (f : α → Logged β) (log : Array LogLine) :
    runFrom (x >>= f) log =
      match runFrom x log with
      | (.ok a, l) => runFrom (f a) l
      | (.error e, l) => (.error e, l) := by
  unfold runFrom
  simp only [ExceptT.run_bind, StateT.run_bind]
  rcases (ExceptT.run x).run log with ⟨_ | a, l⟩ <;> rfl

@[simp] theorem run_pure (a : α) (log : Array LogLine) :
    runFrom (pure a : Logged α) log = (.ok a, log) := rfl

@[simp] theorem run_throw (e : CompileError) (log : Array LogLine) :
    runFrom (throw e : Logged α) log = (.error e, log) := rfl

@[simp] theorem run_write (l : Level) (t : String) (log : Array LogLine) :
    runFrom (Logged.write l t) log = (.ok (), log.push ⟨l, t⟩) := rfl

@[simp] theorem run_lift (r : Except CompileError α) (log : Array LogLine) :
    runFrom (Logged.lift r) log = (r, log) := by
  cases r <;> rfl

theorem run_map (g : α → β) (x : Logged α) (log : Array LogLine) :
    runFrom (g <$> x) log =
      match runFrom x log with
      | (.ok a, l) => (.ok (g a), l)
      | (.error e, l) => (.error e, l) := by
  rw [map_eq_pure_bind, run_bind]
  rcases runFrom x log with ⟨_ | a, l⟩ <;> rfl

theorem run_snd (m : Logged α) : m.run.2 = (runFrom m #[]).1 := rfl

theorem runFrom_bind_ok {x : Logged α} {f : α → Logged β} {l l' : Array LogLine} {b : β}
    (h : runFrom (x >>= f) l = (.ok b, l')) :
    ∃ a l₁, runFrom x l = (.ok a, l₁) ∧ runFrom (f a) l₁ = (.ok b, l') := by
  rw [run_bind] at h
  rcases hx : runFrom x l with ⟨_ | a, l₁⟩
  · rw [hx] at h
    simp at h
  · rw [hx] at h
    exact ⟨a, l₁, rfl, h⟩

theorem runFrom_map_ok {x : Logged α} {g : α → β} {l l' : Array LogLine} {b : β}
    (h : runFrom (g <$> x) l = (.ok b, l')) : ∃ a, runFrom x l = (.ok a, l') ∧ g a = b := by
  rw [run_map] at h
  rcases hx : runFrom x l with ⟨_ | a, l₁⟩
  · rw [hx] at h
    simp at h
  · rw [hx] at h
    simp only [Prod.mk.injEq, Except.ok.injEq] at h
    obtain ⟨rfl, rfl⟩ := h
    exact ⟨a, rfl, rfl⟩

theorem runFrom_pure_ok {a b : α} {l l' : Array LogLine}
    (h : runFrom (pure a : Logged α) l = (.ok b, l')) : a = b := by
  simp only [run_pure, Prod.mk.injEq, Except.ok.injEq] at h
  exact h.1

def InternalOnly (m : Logged α) : Prop :=
  ∀ log e log', runFrom m log = (.error e, log') → IsInternal e

namespace InternalOnly

theorem pure (a : α) : InternalOnly (pure a : Logged α) := by
  intro log e log' h
  simp at h

theorem throw (m : String) : InternalOnly (throw (.internal m) : Logged α) := by
  intro log e log' h
  simp only [run_throw, Prod.mk.injEq, Except.error.injEq] at h
  exact ⟨m, h.1.symm⟩

theorem write (l : Level) (t : String) : InternalOnly (Logged.write l t) := by
  intro log e log' h
  simp at h

theorem lift {r : Except CompileError α} (hr : ∀ e, r = .error e → IsInternal e) :
    InternalOnly (Logged.lift r) := by
  intro log e log' h
  simp only [run_lift, Prod.mk.injEq] at h
  exact hr e h.1

theorem bind {x : Logged α} {f : α → Logged β} (hx : InternalOnly x)
    (hf : ∀ a, InternalOnly (f a)) : InternalOnly (x >>= f) := by
  intro log e log' h
  rw [run_bind] at h
  rcases hr : runFrom x log with ⟨_ | a, l⟩
  · rw [hr, Prod.mk.injEq, Except.error.injEq] at h
    rw [← h.1]
    exact hx log _ l hr
  · rw [hr] at h
    exact hf a l e log' h

theorem map {x : Logged α} (g : α → β) (hx : InternalOnly x) : InternalOnly (g <$> x) := by
  rw [map_eq_pure_bind]
  exact bind hx fun _ ↦ pure _

theorem ite {c : Prop} [Decidable c] {x y : Logged α} (hx : InternalOnly x)
    (hy : InternalOnly y) : InternalOnly (if c then x else y) := by
  split
  · exact hx
  · exact hy

theorem mapM {f : α → Logged β} :
    ∀ {xs : List α}, (∀ a ∈ xs, InternalOnly (f a)) → InternalOnly (xs.mapM f)
  | [], _ => pure _
  | a :: as, h => by
    rw [List.mapM_cons]
    exact bind (h a List.mem_cons_self) fun _ ↦
      bind (mapM fun b hb ↦ h b (List.mem_cons_of_mem a hb)) fun _ ↦ pure _

end InternalOnly

def FailsInternally (m : Logged α) : Prop :=
  ∀ log, ∃ msg log', runFrom m log = (.error (.internal msg), log')

namespace FailsInternally

theorem throw (m : String) : FailsInternally (throw (.internal m) : Logged α) :=
  fun log ↦ ⟨m, log, rfl⟩

theorem bind_left {x : Logged α} {f : α → Logged β} (hx : FailsInternally x) :
    FailsInternally (x >>= f) := by
  intro log
  obtain ⟨msg, log', hr⟩ := hx log
  exact ⟨msg, log', by rw [run_bind, hr]⟩

theorem bind_right {x : Logged α} {f : α → Logged β} (hx : InternalOnly x)
    (hf : ∀ a, FailsInternally (f a)) : FailsInternally (x >>= f) := by
  intro log
  rw [run_bind]
  rcases hr : runFrom x log with ⟨_ | a, l⟩
  · obtain ⟨msg, rfl⟩ := hx log _ l hr
    exact ⟨msg, l, rfl⟩
  · exact hf a l

theorem of_fails {x : Logged α} (hi : InternalOnly x)
    (hf : ∀ log, ∃ e log', runFrom x log = (.error e, log')) : FailsInternally x := by
  intro log
  obtain ⟨e, log', he⟩ := hf log
  obtain ⟨msg, rfl⟩ := hi log e log' he
  exact ⟨msg, log', he⟩

theorem ite {c : Prop} [Decidable c] {x y : Logged α} (hx : FailsInternally x)
    (hy : FailsInternally y) : FailsInternally (if c then x else y) := by
  split
  · exact hx
  · exact hy

theorem map {x : Logged α} (g : α → β) (hx : FailsInternally x) :
    FailsInternally (g <$> x) := by
  rw [map_eq_pure_bind]
  exact bind_left hx

theorem mapM {f : α → Logged β} {b : α} (hb : FailsInternally (f b)) :
    ∀ {xs : List α}, (∀ a ∈ xs, InternalOnly (f a)) → b ∈ xs → FailsInternally (xs.mapM f)
  | a :: as, h, hm => by
    rw [List.mapM_cons]
    rcases List.mem_cons.mp hm with rfl | hm
    · exact bind_left hb
    · exact bind_right (h a List.mem_cons_self) fun _ ↦
        bind_left (mapM hb (fun c hc ↦ h c (List.mem_cons_of_mem a hc)) hm)

end FailsInternally

section Routines

variable (s : Site) (h : MethodHeader) (r : Receiver) (body : BlockLabels → EmitM Unit)

theorem routine_run (log : Array LogLine) :
    runFrom (Lower.routine s h r body) log =
      match (Lower.openRoutine s r >>= body).run
          (Emitter.create (Frame.create h.name h.ret h.isStatic)) with
      | .ok (_, e) => (.ok ⟨h, e.lines.toList, e.frame.maxDepth, e.frame.nextSlot⟩,
          log.push ⟨.trace, "  routine " ++ h.name⟩)
      | .error err => (.error err, log.push ⟨.trace, "  routine " ++ h.name⟩) := by
  unfold Lower.routine
  rw [run_bind, run_write]
  dsimp only
  rcases (Lower.openRoutine s r >>= body).run
    (Emitter.create (Frame.create h.name h.ret h.isStatic)) with _ | ⟨_, e⟩
  all_goals rfl

theorem routine_internalOnly (hb : ∀ ls, Sound (fun _ _ ↦ True) IsInternal (body ls)) :
    InternalOnly (Lower.routine s h r body) := by
  intro log e log' he
  rw [routine_run] at he
  split at he
  · simp at he
  · next err hr =>
    simp only [Prod.mk.injEq, Except.error.injEq] at he
    rw [← he.1]
    exact (Sound.bind internal_steps.toSteps (openRoutine_sound internal_steps.toFrameSteps s r) hb).error
      _ _ hr

end Routines

section Members

variable (s : Site) (parent : String) (attrs : List AttrInfo)

theorem lowerMethod_internalOnly (m : MethodDecl) : InternalOnly (Lower.lowerMethod s m) :=
  routine_internalOnly s _ _ _ fun ls ↦
    Sound.bind internal_steps.toSteps (declareParams_sound internal_steps.toFrameSteps ls m.params)
      fun _ ↦ Sound.bind internal_steps.toSteps
        (lowerBody_sound internal_steps s ls m.body (bindParams_sound internal_steps.toFrameSteps _ _))
        fun _ ↦ closeRoutine_sound internal_steps.toFrameSteps ls _

theorem prologue_sound (k : CtorDecl) (slots : List Nat) :
    Sound (fun _ _ ↦ True) IsInternal (do
      Lower.superCall s parent
      Lower.initAttributes s (attrs.filter (!·.isStatic))
      Lower.bindParams k.params slots) :=
  Sound.bind internal_steps.toSteps (superCall_sound internal_steps.toSteps s parent) fun _ ↦
    Sound.bind internal_steps.toSteps (initAttributes_sound internal_steps.toSteps s _) fun _ ↦
      bindParams_sound internal_steps.toFrameSteps _ _

theorem lowerCtor_internalOnly (k : CtorDecl) :
    InternalOnly (Lower.lowerCtor s parent attrs k) :=
  routine_internalOnly s _ _ _ fun ls ↦
    Sound.bind internal_steps.toSteps (declareParams_sound internal_steps.toFrameSteps ls k.params)
      fun slots ↦ Sound.bind internal_steps.toSteps
        (lowerBody_sound internal_steps s ls k.body (prologue_sound s parent attrs k slots))
        fun _ ↦ closeRoutine_sound internal_steps.toFrameSteps ls _

theorem lowerDtor_internalOnly (d : DtorDecl) : InternalOnly (Lower.lowerDtor s d) :=
  routine_internalOnly s _ _ _ fun ls ↦
    Sound.bind internal_steps.toSteps
      (lowerBody_sound internal_steps s ls d.body (Sound.pure internal_steps.toSteps ()))
      fun _ ↦ closeRoutine_sound internal_steps.toFrameSteps ls _

theorem defaultCtor_internalOnly : InternalOnly (Lower.defaultCtor s parent attrs) :=
  routine_internalOnly s _ _ _ fun ls ↦
    Sound.bind internal_steps.toSteps (Sound.label internal_steps.toSteps _) fun _ ↦
      Sound.bind internal_steps.toSteps (superCall_sound internal_steps.toSteps s parent) fun _ ↦
      Sound.bind internal_steps.toSteps (initAttributes_sound internal_steps.toSteps s _) fun _ ↦
      closeRoutine_sound internal_steps.toFrameSteps ls _

theorem staticInit_internalOnly : InternalOnly (Lower.staticInit s attrs) :=
  routine_internalOnly s _ _ _ fun ls ↦
    Sound.bind internal_steps.toSteps (Sound.label internal_steps.toSteps _) fun _ ↦
      Sound.bind internal_steps.toSteps (initAttributes_sound internal_steps.toSteps s _) fun _ ↦
      closeRoutine_sound internal_steps.toFrameSteps ls _

theorem memberRoutine_internalOnly :
    ∀ m : Member, InternalOnly (Lower.memberRoutine s parent attrs m)
  | .attr _ => InternalOnly.pure _
  | .method m => (lowerMethod_internalOnly s m).map _
  | .ctor k => (lowerCtor_internalOnly s parent attrs k).map _
  | .dtor d => (lowerDtor_internalOnly s d).map _

end Members

theorem mapM_except_error {f : α → Except CompileError β}
    (hf : ∀ a e, f a = .error e → IsInternal e) :
    ∀ {xs : List α} {e : CompileError}, xs.mapM f = .error e → IsInternal e
  | [], _, h => by cases h
  | a :: as, e, h => by
    rw [List.mapM_cons] at h
    cases ha : f a with
    | error e' =>
      rw [ha] at h
      cases h
      exact hf a _ ha
    | ok b =>
      rw [ha] at h
      cases hs : as.mapM f with
      | error e' =>
        rw [hs] at h
        cases h
        exact mapM_except_error hf hs
      | ok bs =>
        rw [hs] at h
        cases h

theorem attrsInOrder_error {c : ClassDecl} {r : ClassInfo} {e : CompileError}
    (h : Lower.attrsInOrder c r = .error e) : IsInternal e := by
  refine mapM_except_error (fun v e hv ↦ ?_) h
  split at hv
  · cases hv
  · cases hv
    exact ⟨_, rfl⟩

theorem classLower_internalOnly (table : ClassTable) (opts : Options) (c : ClassDecl) :
    InternalOnly (c.lower table opts) := by
  unfold ClassDecl.lower
  refine InternalOnly.bind (InternalOnly.write _ _) fun _ ↦ ?_
  split
  · next r _ =>
    refine InternalOnly.bind (InternalOnly.lift fun e he ↦ attrsInOrder_error he) fun attrs ↦ ?_
    dsimp only
    have clinit : ∀ k : List RoutineCode → Logged ClassUnit, (∀ l, InternalOnly (k l)) →
        InternalOnly (if Lower.needsStaticInit attrs = true then
          (fun r ↦ [r]) <$> Lower.staticInit ⟨table, opts, r.name⟩ attrs >>= k
        else pure [] >>= k) :=
      fun k hk ↦ .ite (.bind ((staticInit_internalOnly _ _).map _) hk) (.bind (.pure _) hk)
    refine .ite (.bind ((defaultCtor_internalOnly _ _ _).map _) fun _ ↦ ?_)
      (.bind (.pure _) fun _ ↦ ?_)
    all_goals
      exact .bind (.mapM fun m _ ↦ memberRoutine_internalOnly _ _ _ m) fun _ ↦
        clinit _ fun _ ↦ .pure _
  · exact InternalOnly.throw _

theorem programLower_internalOnly (table : ClassTable) (opts : Options) (p : Program) :
    InternalOnly (p.lower table opts) :=
  InternalOnly.mapM fun c _ ↦ classLower_internalOnly table opts c

end ClassLang.Proofs.Generation
