import ClassLang.Proofs.Generation
import Mathlib.Data.List.Forall2

namespace ClassLang.Proofs.Linking

open ClassLang Runs Invariants Generation

variable {α β : Type}

theorem mapM_ok_forall₂ {f : α → Logged β} :
    ∀ {xs : List α} {ys : List β} {l l' : Array LogLine}, runFrom (xs.mapM f) l = (.ok ys, l') →
      List.Forall₂ (fun x y ↦ ∃ l₁ l₂, runFrom (f x) l₁ = (.ok y, l₂)) xs ys
  | [], ys, l, l', h => by
    rw [List.mapM_nil] at h
    rw [← runFrom_pure_ok h]
    exact .nil
  | x :: xs, ys, l, l', h => by
    rw [List.mapM_cons] at h
    obtain ⟨y, l₁, hy, h⟩ := runFrom_bind_ok h
    obtain ⟨ys', l₂, hys, h⟩ := runFrom_bind_ok h
    rw [← runFrom_pure_ok h]
    exact .cons ⟨l, l₁, hy⟩ (mapM_ok_forall₂ hys)

theorem Forall₂.exists_of_mem {R : α → β → Prop} :
    ∀ {xs : List α} {ys : List β}, List.Forall₂ R xs ys → ∀ {a}, a ∈ xs → ∃ b ∈ ys, R a b
  | _, _, .cons hab hs, _, hm => by
    rcases List.mem_cons.mp hm with rfl | hm
    · exact ⟨_, List.mem_cons_self, hab⟩
    · obtain ⟨b, hb, hr⟩ := Forall₂.exists_of_mem hs hm
      exact ⟨b, List.mem_cons_of_mem _ hb, hr⟩

theorem Forall₂.any_filterMap {R : α → Option β → Prop} {f : α → Bool} {g : β → Bool}
    (hR : ∀ a o, R a o → o.any g = f a) :
    ∀ {xs : List α} {ys : List (Option β)}, List.Forall₂ R xs ys →
      (ys.filterMap id).any g = xs.any f
  | _, _, .nil => rfl
  | a :: _, o :: _, .cons hao hs => by
    have ih := Forall₂.any_filterMap hR hs
    rw [List.any_cons, ← hR a o hao, ← ih]
    cases o <;> simp

theorem descriptor_head : ∀ t : Ty, ∃ c cs, t.descriptor.toList = c :: cs ∧ c ≠ ')'
  | .prim .int => ⟨'I', [], rfl, by decide⟩
  | .prim .float => ⟨'F', [], rfl, by decide⟩
  | .prim .bool => ⟨'Z', [], rfl, by decide⟩
  | .prim .string => ⟨'L', stringClass.toList ++ [';'], by simp [Ty.descriptor], by decide⟩
  | .prim .void => ⟨'V', [], rfl, by decide⟩
  | .array e _ => ⟨'[', e.descriptor.toList, by simp [Ty.descriptor], by decide⟩
  | .cls n => ⟨'L', n.toList ++ [';'], by simp [Ty.descriptor], by decide⟩
  | .ref t => descriptor_head t
  | .nil => ⟨'L', objectClass.toList ++ [';'], by simp [Ty.descriptor], by decide⟩
  | .error => ⟨'L', objectClass.toList ++ [';'], by simp [Ty.descriptor], by decide⟩

theorem methodDescriptor_eq_unit_iff {ps : List Ty} {r : Ty} :
    methodDescriptor ps r = methodDescriptor [] .void ↔ ps = [] ∧ r.descriptor = "V" := by
  constructor
  · intro h
    have hl := congrArg String.toList h
    cases ps with
    | nil =>
      simp only [methodDescriptor, String.toList_append, List.map_nil, String.toList_join,
        List.flatMap_nil] at hl
      refine ⟨rfl, String.toList_inj.mp ?_⟩
      simpa [Ty.descriptor] using hl
    | cons p ps =>
      obtain ⟨c, cs, hc, hne⟩ := descriptor_head p
      simp [methodDescriptor, hc] at hl
      exact absurd hl.1 hne
  · rintro ⟨rfl, hr⟩
    simp only [methodDescriptor, hr]
    rfl

/-- A header that the call of a parent's constructor without arguments reaches: an instance
routine called <init> with descriptor ()V. -/
def noArgInit (h : MethodHeader) : Bool :=
  h.name == "<init>" && !h.isStatic && h.descriptor == methodDescriptor [] .void

theorem methodDescriptor_beq_unit (ps : List Ty) (r : Ty) :
    (methodDescriptor ps r == methodDescriptor [] .void) = (ps.isEmpty && r.descriptor == "V") := by
  rw [Bool.eq_iff_iff]
  simp only [beq_iff_eq, methodDescriptor_eq_unit_iff, Bool.and_eq_true, List.isEmpty_iff]

/-- A member that becomes a routine with the header [noArgInit] asks for: a constructor
without parameters, or an instance method called <init> with none and no result. -/
def declaresNoArgInit : Member → Bool
  | .ctor k => k.params.isEmpty
  | .method d => d.name == "<init>" && !d.isStatic && d.params.isEmpty && d.ret.descriptor == "V"
  | _ => false

theorem methodHeader_noArgInit (d : MethodDecl) :
    noArgInit (Lower.methodHeader d) = declaresNoArgInit (.method d) := by
  unfold Lower.methodHeader
  split
  · next he =>
    -- the entry point is static, so neither side holds
    have hs : d.isStatic = true := by
      simp only [MethodDecl.isEntryPoint, Bool.and_eq_true] at he
      exact he.1.1.1
    simp [noArgInit, declaresNoArgInit, hs]
  · simp only [noArgInit, MethodHeader.descriptor, methodDescriptor_beq_unit, List.isEmpty_map,
      declaresNoArgInit, Bool.and_assoc]

def Writes (l : Line) (m : EmitM α) : Prop :=
  ∀ st a st', m.run st = .ok (a, st') → l ∈ st'.lines.toList

namespace Writes

variable {l : Line}

theorem emit (i : Instr) : Writes (.instr i) (Emitter.emit i) := by
  intro st u st' h
  obtain ⟨f, -, rfl⟩ := emit_ok h
  simp

theorem bind_left {x : EmitM α} {f : α → EmitM β} (hx : Writes l x)
    (hf : ∀ a, Sound LinesGrow (fun _ ↦ True) (f a)) : Writes l (x >>= f) := by
  intro st b st' h
  obtain ⟨a, st₁, h₁, h₂⟩ := bind_ok h
  exact ((hf a).ok _ _ _ h₂).subset (hx _ _ _ h₁)

theorem bind_right {x : EmitM α} {f : α → EmitM β} (hf : ∀ a, Writes l (f a)) :
    Writes l (x >>= f) := by
  intro st b st' h
  obtain ⟨a, st₁, -, h₂⟩ := bind_ok h
  exact hf a _ _ _ h₂

end Writes

/-- The call of the parent's constructor without arguments. -/
def superLine (parent : String) : Line := .instr (.invokeSpecial (parent ++ "/<init>") [])

section Routines

variable (s : Site) (parent : String) (attrs : List AttrInfo) {log log' : Array LogLine}
  {rc : RoutineCode}

theorem superCall_writes : Writes (superLine parent) (Lower.superCall s parent) :=
  Writes.bind_right fun _ ↦ Writes.emit _

theorem lowerBody_writes {l : Line} (ls : BlockLabels) (b : Block) {prologue : EmitM Unit}
    (hp : Writes l prologue) : Writes l (Lower.lowerBody s ls b prologue) := by
  unfold Lower.lowerBody
  exact Writes.bind_right fun _ ↦ Writes.bind_right fun _ ↦ Writes.bind_left hp fun _ ↦
    Sound.bind linesGrow_steps.toSteps (initLocals_sound linesGrow_steps.toFrameSteps s _) fun _ ↦
      lowerStmts_sound linesGrow_steps s _

theorem routine_ok {h : MethodHeader} {r : Receiver} {body : BlockLabels → EmitM Unit}
    (hr : runFrom (Lower.routine s h r body) log = (.ok rc, log')) :
    rc.header = h ∧ ∃ st', (Lower.openRoutine s r >>= body).run
      (Emitter.create (Frame.create h.name h.ret h.isStatic)) = .ok ((), st') ∧
        rc.lines = st'.lines.toList := by
  rw [routine_run] at hr
  split at hr
  · next e he =>
    simp only [Prod.mk.injEq, Except.ok.injEq] at hr
    rw [← hr.1]
    exact ⟨rfl, e, he, rfl⟩
  · simp at hr

theorem routine_writes {h : MethodHeader} {r : Receiver} {body : BlockLabels → EmitM Unit}
    {l : Line} (hw : ∀ ls, Writes l (body ls))
    (hr : runFrom (Lower.routine s h r body) log = (.ok rc, log')) :
    rc.header = h ∧ l ∈ rc.lines := by
  obtain ⟨hh, st', hrun, hl⟩ := routine_ok s hr
  exact ⟨hh, hl ▸ Writes.bind_right hw _ _ _ hrun⟩

theorem defaultCtor_ok (hr : runFrom (Lower.defaultCtor s parent attrs) log = (.ok rc, log')) :
    rc.header = ⟨true, false, "<init>", [], .void⟩ ∧ superLine parent ∈ rc.lines :=
  routine_writes s (fun ls ↦ Writes.bind_right fun _ ↦
    Writes.bind_left (superCall_writes s parent) fun _ ↦
      Sound.bind linesGrow_steps.toSteps (initAttributes_sound linesGrow_steps.toSteps s _) fun _ ↦
        closeRoutine_sound linesGrow_steps.toFrameSteps ls none) hr

theorem lowerCtor_ok (k : CtorDecl)
    (hr : runFrom (Lower.lowerCtor s parent attrs k) log = (.ok rc, log')) :
    rc.header = ⟨true, false, "<init>", k.params.map (·.type), .void⟩ ∧
      superLine parent ∈ rc.lines :=
  routine_writes s (fun ls ↦ Writes.bind_right fun slots ↦
    Writes.bind_left (lowerBody_writes s ls k.body
      (Writes.bind_left (superCall_writes s parent) fun _ ↦
        Sound.bind linesGrow_steps.toSteps (initAttributes_sound linesGrow_steps.toSteps s _) fun _ ↦
          bindParams_sound linesGrow_steps.toFrameSteps _ slots))
      fun _ ↦ closeRoutine_sound linesGrow_steps.toFrameSteps ls _) hr

theorem memberRoutine_ok {m : Member} {o : Option RoutineCode}
    (hr : runFrom (Lower.memberRoutine s parent attrs m) log = (.ok o, log')) :
    (o.any fun rc ↦ noArgInit rc.header) = declaresNoArgInit m ∧
      ∀ k, m = .ctor k → ∃ rc, o = some rc ∧ rc.header.name = "<init>" ∧
        superLine parent ∈ rc.lines := by
  cases m with
  | attr d =>
    rw [← runFrom_pure_ok hr]
    exact ⟨rfl, fun _ h ↦ nomatch h⟩
  | method d =>
    obtain ⟨rc, hrc, rfl⟩ := runFrom_map_ok hr
    have hh := (routine_ok s hrc).1
    refine ⟨?_, fun _ h ↦ nomatch h⟩
    rw [Option.any_some, hh]
    exact methodHeader_noArgInit d
  | ctor k =>
    obtain ⟨rc, hrc, rfl⟩ := runFrom_map_ok hr
    obtain ⟨hh, hl⟩ := lowerCtor_ok s parent attrs k hrc
    refine ⟨?_, fun k' h ↦ ⟨rc, rfl, by rw [hh], hl⟩⟩
    rw [Option.any_some, hh]
    simp [noArgInit, MethodHeader.descriptor, methodDescriptor_beq_unit, declaresNoArgInit,
      Ty.descriptor]
  | dtor d =>
    obtain ⟨rc, hrc, rfl⟩ := runFrom_map_ok hr
    have hh := (routine_ok s hrc).1
    refine ⟨?_, fun _ h ↦ nomatch h⟩
    rw [Option.any_some, hh]
    rfl

end Routines

section Classes

variable (s : Site) (parent : String) (attrs : List AttrInfo) {log log' : Array LogLine}

def initRoutines (c : ClassDecl) : Logged (List RoutineCode) :=
  if c.ctors.isEmpty then (fun r ↦ [r]) <$> Lower.defaultCtor s parent attrs else pure []

def clinitRoutines : Logged (List RoutineCode) :=
  if Lower.needsStaticInit attrs then (fun r ↦ [r]) <$> Lower.staticInit s attrs else pure []

theorem ite_bind_logged {c : Prop} [Decidable c] (x y : Logged α) (f : α → Logged β) :
    ((if c then x else y) >>= f) = if c then x >>= f else y >>= f := by
  split <;> rfl

theorem classLower_of_get {T : ClassTable} {opts : Options} {c : ClassDecl} {r : ClassInfo}
    (hr : T.get? c.name = some r) :
    c.lower T opts = (do
      Logged.write .debug ("generating class " ++ c.name)
      let attrs ← Logged.lift (Lower.attrsInOrder c r)
      let init ← initRoutines ⟨T, opts, r.name⟩ (c.parent.getD opts.defaultSuper) attrs c
      let routines ← c.members.mapM
        (Lower.memberRoutine ⟨T, opts, r.name⟩ (c.parent.getD opts.defaultSuper) attrs)
      let clinit ← clinitRoutines ⟨T, opts, r.name⟩ attrs
      return {
        cls := c.name
        file := c.name ++ "." ++ opts.unitExt
        source := c.name ++ "." ++ opts.sourceExt
        parent := c.parent.getD opts.defaultSuper
        fields := attrs.map AttrInfo.field
        routines := init ++ routines.filterMap id ++ clinit }) := by
  unfold ClassDecl.lower initRoutines clinitRoutines
  simp only [hr, ite_bind_logged]

theorem initRoutines_ok {c : ClassDecl} {init : List RoutineCode}
    (h : runFrom (initRoutines s parent attrs c) log = (.ok init, log')) :
    (init.any fun rc ↦ noArgInit rc.header) = c.ctors.isEmpty ∧
      (c.ctors.isEmpty → ∃ rc ∈ init, rc.header.name = "<init>" ∧ superLine parent ∈ rc.lines) := by
  unfold initRoutines at h
  split at h
  · next he =>
    obtain ⟨rc, hrc, rfl⟩ := runFrom_map_ok h
    obtain ⟨hh, hl⟩ := defaultCtor_ok s parent attrs hrc
    refine ⟨?_, fun _ ↦ ⟨rc, List.mem_singleton_self rc, by rw [hh], hl⟩⟩
    rw [he, List.any_cons, List.any_nil, hh]
    rfl
  · next he =>
    rw [← runFrom_pure_ok h]
    simpa using he

theorem clinitRoutines_ok {clinit : List RoutineCode}
    (h : runFrom (clinitRoutines s attrs) log = (.ok clinit, log')) :
    (clinit.any fun rc ↦ noArgInit rc.header) = false := by
  unfold clinitRoutines at h
  split at h
  · obtain ⟨rc, hrc, rfl⟩ := runFrom_map_ok h
    rw [List.any_cons, List.any_nil, (routine_ok s hrc).1]
    rfl
  · rw [← runFrom_pure_ok h]
    rfl

end Classes

theorem classLower_ok {T : ClassTable} {opts : Options} {c : ClassDecl} {u : ClassUnit}
    {log log' : Array LogLine} (h : runFrom (c.lower T opts) log = (.ok u, log')) :
    ∃ (s : Site) (attrs : List AttrInfo) (init : List RoutineCode)
      (routines : List (Option RoutineCode)) (clinit : List RoutineCode),
      (∃ l₁ l₂, runFrom (initRoutines s (c.parent.getD opts.defaultSuper) attrs c) l₁ =
        (.ok init, l₂)) ∧
      List.Forall₂ (fun m o ↦ ∃ l₁ l₂,
        runFrom (Lower.memberRoutine s (c.parent.getD opts.defaultSuper) attrs m) l₁ = (.ok o, l₂))
        c.members routines ∧
      (∃ l₁ l₂, runFrom (clinitRoutines s attrs) l₁ = (.ok clinit, l₂)) ∧
      u.cls = c.name ∧ u.routines = init ++ routines.filterMap id ++ clinit := by
  cases hr : T.get? c.name with
  | none =>
    unfold ClassDecl.lower at h
    simp [run_bind, hr] at h
  | some r =>
    rw [classLower_of_get hr] at h
    obtain ⟨_, l₁, -, h⟩ := runFrom_bind_ok h
    obtain ⟨attrs, l₂, -, h⟩ := runFrom_bind_ok h
    obtain ⟨init, l₃, hi, h⟩ := runFrom_bind_ok h
    obtain ⟨routines, l₄, hm, h⟩ := runFrom_bind_ok h
    obtain ⟨clinit, l₅, hcl, h⟩ := runFrom_bind_ok h
    rw [← runFrom_pure_ok h]
    exact ⟨_, attrs, init, routines, clinit, ⟨_, _, hi⟩, mapM_ok_forall₂ hm, ⟨_, _, hcl⟩, rfl, rfl⟩

theorem mem_ctors {c : ClassDecl} {k : CtorDecl} (hk : k ∈ c.ctors) : Member.ctor k ∈ c.members := by
  obtain ⟨m, hm, hmk⟩ := List.mem_filterMap.mp hk
  cases m with
  | ctor d =>
    cases hmk
    exact hm
  | attr _ => cases hmk
  | method _ => cases hmk
  | dtor _ => cases hmk

theorem classLower_links {T : ClassTable} {opts : Options} {c : ClassDecl} {u : ClassUnit}
    {log log' : Array LogLine} (h : runFrom (c.lower T opts) log = (.ok u, log')) :
    u.cls = c.name ∧
      (∃ rc ∈ u.routines, rc.header.name = "<init>" ∧
        superLine (c.parent.getD opts.defaultSuper) ∈ rc.lines) ∧
      (u.routines.any fun rc ↦ noArgInit rc.header) =
        (c.ctors.isEmpty || c.members.any declaresNoArgInit) := by
  obtain ⟨s, attrs, init, routines, clinit, ⟨_, _, hi⟩, hm, ⟨_, _, hcl⟩, hcls, hrs⟩ :=
    classLower_ok h
  have hinit := initRoutines_ok s _ attrs hi
  refine ⟨hcls, ?_, ?_⟩
  · -- the constructor is the default one, or the routine of a declared one
    cases he : c.ctors.isEmpty
    · obtain ⟨k, hk⟩ := List.exists_mem_of_ne_nil _ (List.isEmpty_eq_false_iff.mp he)
      obtain ⟨o, ho, _, _, hr⟩ := Forall₂.exists_of_mem hm (mem_ctors hk)
      obtain ⟨rc, rfl, hname, hl⟩ := (memberRoutine_ok s _ attrs hr).2 k rfl
      refine ⟨rc, ?_, hname, hl⟩
      rw [hrs]
      exact List.mem_append_left _ (List.mem_append_right _ (List.mem_filterMap.mpr ⟨_, ho, rfl⟩))
    · obtain ⟨rc, hrc, hname, hl⟩ := hinit.2 he
      refine ⟨rc, ?_, hname, hl⟩
      rw [hrs]
      exact List.mem_append_left _ (List.mem_append_left _ hrc)
  · rw [hrs, List.any_append, List.any_append, hinit.1, clinitRoutines_ok s attrs hcl,
      Bool.or_false, Forall₂.any_filterMap (fun m o ⟨_, _, hr⟩ ↦ (memberRoutine_ok s _ attrs hr).1) hm]

theorem compile_ok {opts : Options} {p : Program} {us : List ClassUnit}
    (h : (compile opts p).run.2 = .ok us) :
    ∃ T, List.Forall₂ (fun c u ↦ ∃ l₁ l₂, runFrom (c.lower T opts) l₁ = (.ok u, l₂)) p.classes us := by
  rw [run_snd] at h
  rcases hc : runFrom (compile opts p) #[] with ⟨r, log⟩
  rw [hc] at h
  cases h
  unfold compile at hc
  obtain ⟨T, l₁, -, hc⟩ := runFrom_bind_ok hc
  obtain ⟨us', l₂, hl, hc⟩ := runFrom_bind_ok hc
  obtain ⟨_, l₃, -, hc⟩ := runFrom_bind_ok hc
  rw [← runFrom_pure_ok hc]
  exact ⟨T, mapM_ok_forall₂ hl⟩

/-- Every constructor a compiled program's units contain starts with the call
invokespecial Parent/<init>()V, but the parent's unit has a routine it can reach only when the
parent declares no constructor or one without parameters: a class that declares only
constructors with parameters leaves its subclasses' calls unresolved. -/
theorem parent_init_call_links_iff (opts : Options) (p : Program)
    (hc : ((compile opts p).run.2).isOk) :
    ∃ us, (compile opts p).run.2 = .ok us ∧
      List.Forall₂ (fun c u ↦ u.cls = c.name ∧
        (∃ rc ∈ u.routines, rc.header.name = "<init>" ∧
          superLine (c.parent.getD opts.defaultSuper) ∈ rc.lines) ∧
        (u.routines.any fun rc ↦ noArgInit rc.header) =
          (c.ctors.isEmpty || c.members.any declaresNoArgInit)) p.classes us := by
  cases h : (compile opts p).run.2 with
  | error e =>
    rw [h] at hc
    cases hc
  | ok us =>
    obtain ⟨T, hT⟩ := compile_ok h
    exact ⟨us, rfl, hT.imp fun c u ⟨_, _, hu⟩ ↦ classLower_links hu⟩

/-- A parent whose only constructor takes an integer, a child that declares none, and an empty
entry point. -/
def parentWithArgs : Program := ⟨[
  ⟨"A", none, [.ctor ⟨"A", [⟨"x", .prim .int, default⟩], ⟨[], [], default⟩, default⟩], default⟩,
  ⟨"B", some "A", [], default⟩,
  ⟨"Main", none, [.method ⟨true, .void, "main", [], ⟨[], [], default⟩, default⟩], default⟩]⟩

theorem parentWithArgs_unlinked :
    ∃ uA uB uMain, (compile {} parentWithArgs).run.2 = .ok [uA, uB, uMain] ∧
      uA.cls = "A" ∧ (uA.routines.any fun rc ↦ noArgInit rc.header) = false ∧
      ∃ rc ∈ uB.routines, superLine "A" ∈ rc.lines := by
  have hc : ((compile {} parentWithArgs).run.2).isOk := by decide +kernel
  obtain ⟨us, hus, hl⟩ := parent_init_call_links_iff {} parentWithArgs hc
  rcases hl with _ | ⟨⟨hA, -, hAinit⟩, _ | ⟨⟨-, ⟨rc, hrc, -, hB⟩, -⟩, _ | ⟨-, _ | _⟩⟩⟩
  exact ⟨_, _, _, hus, hA, hAinit.trans (by decide), rc, hrc, hB⟩

end ClassLang.Proofs.Linking
