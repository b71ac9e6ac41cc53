import ClassLang.Proofs.CheckerTables
import ClassLang.Proofs.Linking

namespace ClassLang.Proofs.Verdicts

open ClassLang Generation Registration Linking

variable {α β : Type}

def LogFree (m : Logged α) : Prop := ∀ l l', (runFrom m l).1 = (runFrom m l').1

namespace LogFree

theorem of_yields {m : Logged α} {r : Except CompileError α} (h : Yields m r) : LogFree m :=
  fun l l' ↦ (h l).trans (h l').symm

theorem yields {m : Logged α} (h : LogFree m) : Yields m (runFrom m #[]).1 := fun l ↦ h l #[]

theorem bind {x : Logged α} {f : α → Logged β} (hx : LogFree x) (hf : ∀ a, LogFree (f a)) :
    LogFree (x >>= f) := by
  intro l l'
  have hr := hx l l'
  rw [run_bind, run_bind]
  rcases h₁ : runFrom x l with ⟨_ | a, l₁⟩ <;> rcases h₂ : runFrom x l' with ⟨_ | a', l₂⟩ <;>
    rw [h₁, h₂] at hr <;> cases hr
  · rfl
  · exact hf a l₁ l₂

theorem map {x : Logged α} (g : α → β) (hx : LogFree x) : LogFree (g <$> x) := by
  rw [map_eq_pure_bind]
  exact hx.bind fun a ↦ of_yields (Yields.pure (g a))

theorem mapM {f : α → Logged β} (hf : ∀ a, LogFree (f a)) : ∀ l : List α, LogFree (l.mapM f)
  | [] => of_yields (Yields.pure [])
  | a :: l => by
    rw [List.mapM_cons]
    exact (hf a).bind fun b ↦ (mapM hf l).bind fun bs ↦ of_yields (Yields.pure (b :: bs))

theorem routine (s : Site) (h : MethodHeader) (r : Receiver) (body : BlockLabels → EmitM Unit) :
    LogFree (Lower.routine s h r body) := by
  intro l l'
  rw [routine_run, routine_run]
  split <;> rfl

end LogFree

theorem memberRoutine_logFree (s : Site) (parent : String) (attrs : List AttrInfo) :
    ∀ m, LogFree (Lower.memberRoutine s parent attrs m)
  | .attr _ => LogFree.of_yields (Yields.pure none)
  | .method _ | .ctor _ | .dtor _ => (LogFree.routine _ _ _ _).map _

theorem classLower_logFree (T : ClassTable) (opts : Options) (c : ClassDecl) :
    LogFree (c.lower T opts) := by
  have hw := LogFree.of_yields (Yields.write .debug ("generating class " ++ c.name))
  cases hr : T.get? c.name with
  | none =>
    unfold ClassDecl.lower
    simp only [hr]
    exact hw.bind fun _ ↦ LogFree.of_yields fun _ ↦ rfl
  | some r =>
    rw [classLower_of_get hr]
    refine hw.bind fun _ ↦ (LogFree.of_yields (Yields.lift _)).bind fun attrs ↦ ?_
    refine LogFree.bind ?_ fun _ ↦ (LogFree.mapM (memberRoutine_logFree _ _ _) _).bind fun _ ↦
      LogFree.bind ?_ fun _ ↦ LogFree.of_yields (Yields.pure _)
    · unfold initRoutines
      split
      · exact (LogFree.routine _ _ _ _).map _
      · exact LogFree.of_yields (Yields.pure _)
    · unfold clinitRoutines
      split
      · exact (LogFree.routine _ _ _ _).map _
      · exact LogFree.of_yields (Yields.pure _)

def memberVerdict (cx : Context) : Member → Except CompileError Unit
  | .attr d => checkAttrDecl cx d
  | .method m => checkMethod cx m
  | .ctor k => checkCtor cx k
  | .dtor d => checkDtor cx d

theorem checkMember_yields (cx : Context) : ∀ m, Yields (checkMember cx m) (memberVerdict cx m)
  | .attr d => Yields.lift (checkAttrDecl cx d)
  | .method m => (Yields.write _ _).bind fun _ ↦ Yields.lift (checkMethod cx m)
  | .ctor k => (Yields.write _ _).bind fun _ ↦ Yields.lift (checkCtor cx k)
  | .dtor d => (Yields.write _ _).bind fun _ ↦ Yields.lift (checkDtor cx d)

theorem Yields.forM {f : α → Logged Unit} {g : α → Except CompileError Unit}
    (h : ∀ a, Yields (f a) (g a)) : ∀ l : List α, Yields (l.forM f) (l.forM g)
  | [] => Yields.pure ()
  | a :: l => by
    rw [List.forM, List.forM]
    exact (h a).bind fun _ ↦ Yields.forM h l

theorem Yields.write_then {m : Logged α} {r : Except CompileError α} (l : Level) (t : String)
    (h : Yields m r) : Yields (Logged.write l t >>= fun _ ↦ m) r := fun log ↦ by
  rw [run_bind, run_write]
  exact h _

theorem forM_ok_iff {f : α → Except CompileError Unit} :
    ∀ l : List α, l.forM f = .ok () ↔ ∀ a ∈ l, f a = .ok ()
  | [] => iff_of_true rfl (by simp)
  | a :: l => by
    rw [List.forM]
    cases hf : f a with
    | error e => simp [hf, bind, Except.bind]
    | ok u =>
      cases u
      simp only [hf, bind, Except.bind, List.forall_mem_cons, true_and]
      exact forM_ok_iff l

theorem seq_ok_iff {x : Except CompileError Unit} {y : Except CompileError β} {b : β} :
    (x >>= fun _ ↦ y) = .ok b ↔ x = .ok () ∧ y = .ok b := by
  cases x with
  | error e => simp [bind, Except.bind]
  | ok u => cases u; simp [bind, Except.bind]

def entryVerdict (opts : Options) (t : ClassTable) : Except CompileError Unit :=
  if opts.requireEntry && t.entry.isNone then .error .noEntryPoint else .ok ()

theorem entryVerdict_ok_iff (opts : Options) (t : ClassTable) :
    entryVerdict opts t = .ok () ↔ (opts.requireEntry = true → t.entry.isSome = true) := by
  unfold entryVerdict
  cases opts.requireEntry <;> cases t.entry <;> simp

/-- Checking without its log: the table of a program whose members all pass their checks and
that has an entry point when one is required. -/
def checkedTable (opts : Options) (p : Program) : Except CompileError ClassTable :=
  registered p >>= fun t ↦
    ((p.classes.forM fun c ↦ c.members.forM (memberVerdict ((Context.start t).enterClass c)))
      >>= fun _ ↦ entryVerdict opts t) >>= fun _ ↦ pure t

theorem check_yields (opts : Options) (p : Program) : Yields (check opts p) (checkedTable opts p) := by
  unfold check checkProgram checkedTable
  refine (ofProgram_yields p).bind fun t ↦ Yields.write_then _ _ ?_
  refine Yields.bind ?_ fun _ ↦ Yields.write_then _ _ (Yields.pure t)
  refine (Yields.forM (fun c ↦ Yields.write_then _ _ (Yields.forM (checkMember_yields _) c.members))
    p.classes).bind (g := fun _ ↦ entryVerdict opts t) fun _ ↦ ?_
  unfold entryVerdict
  split
  · exact fun _ ↦ rfl
  · exact Yields.pure ()

theorem check_run (opts : Options) (p : Program) : (check opts p).run.2 = checkedTable opts p := by
  rw [run_snd]
  exact check_yields opts p #[]

theorem checkedTable_of_registered {p : Program} {t : ClassTable} (h : registered p = .ok t)
    (opts : Options) : checkedTable opts p =
      ((p.classes.forM fun c ↦ c.members.forM (memberVerdict ((Context.start t).enterClass c)))
        >>= fun _ ↦ entryVerdict opts t) >>= fun _ ↦ pure t := by
  unfold checkedTable
  rw [h]
  rfl

theorem checkedTable_ok_iff (opts : Options) (p : Program) (T : ClassTable) :
    checkedTable opts p = .ok T ↔
      p.WellFormed ∧ T = tableOf p ∧
        (∀ c ∈ p.classes, ∀ m ∈ c.members,
          memberVerdict ((Context.start T).enterClass c) m = .ok ()) ∧
        (opts.requireEntry = true → p.lastEntry.isSome = true) := by
  cases hreg : registered p with
  | error e =>
    unfold checkedTable
    simp only [hreg, bind, Except.bind, reduceCtorEq, false_iff, not_and]
    intro hwf
    obtain ⟨⟩ := hreg ▸ (registered_ok_iff p (tableOf p)).mpr ⟨hwf, rfl⟩
  | ok t =>
    obtain ⟨hwf, rfl⟩ := (registered_ok_iff p t).mp hreg
    have hforM : (p.classes.forM fun c ↦ c.members.forM
          (memberVerdict ((Context.start (tableOf p)).enterClass c))) = .ok () ↔
        ∀ c ∈ p.classes, ∀ m ∈ c.members,
          memberVerdict ((Context.start (tableOf p)).enterClass c) m = .ok () := by
      rw [forM_ok_iff]
      exact forall₂_congr fun c _ ↦ forM_ok_iff c.members
    rw [checkedTable_of_registered hreg, seq_ok_iff, seq_ok_iff, hforM, entryVerdict_ok_iff]
    constructor
    · rintro ⟨⟨hall, hentry⟩, hT⟩
      cases hT
      exact ⟨hwf, rfl, hall, hentry⟩
    · rintro ⟨-, rfl, hall, hentry⟩
      exact ⟨⟨hall, hentry⟩, rfl⟩

def loweredUnit (T : ClassTable) (opts : Options) (c : ClassDecl) : Except CompileError ClassUnit :=
  (runFrom (c.lower T opts) #[]).1

theorem Yields.mapM {f : α → Logged β} {g : α → Except CompileError β}
    (h : ∀ a, Yields (f a) (g a)) : ∀ l : List α, Yields (l.mapM f) (l.mapM g)
  | [] => Yields.pure []
  | a :: l => by
    rw [List.mapM_cons, List.mapM_cons]
    exact (h a).bind fun b ↦ (Yields.mapM h l).bind fun bs ↦ Yields.pure (b :: bs)

theorem compile_run (opts : Options) (p : Program) :
    (compile opts p).run.2 = checkedTable opts p >>= fun T ↦ p.classes.mapM (loweredUnit T opts) := by
  have h : Yields (compile opts p)
      (checkedTable opts p >>= fun T ↦ p.classes.mapM (loweredUnit T opts) >>= fun us ↦ .ok us) :=
    (check_yields opts p).bind fun T ↦
      (Yields.mapM (fun c ↦ (classLower_logFree T opts c).yields) p.classes).bind fun us ↦
        Yields.write_then _ _ (Yields.pure us)
  rw [run_snd, h #[]]
  congr 1
  funext T
  exact bind_pure _

end ClassLang.Proofs.Verdicts
