import ClassLang.Proofs.Verdicts
import ClassLang.Proofs.LoweringTables
import Mathlib.Data.List.Find
import Mathlib.Data.List.Perm.Basic

namespace ClassLang

/-- Two declarations of a class that differ at most in the order of their members. -/
structure ClassDecl.Reordered (c c' : ClassDecl) : Prop where
  name : c.name = c'.name
  parent : c.parent = c'.parent
  span : c.span = c'.span
  members : c.members.Perm c'.members

/-- A program whose classes come in another order, each with its members perhaps in another
order. -/
def Program.Reordered (p p' : Program) : Prop :=
  ∃ cs, List.Forall₂ ClassDecl.Reordered p.classes cs ∧ cs.Perm p'.classes

namespace ClassDecl.Reordered

theorem refl (c : ClassDecl) : c.Reordered c := ⟨rfl, rfl, rfl, .refl _⟩

theorem symm {c c' : ClassDecl} (h : c.Reordered c') : c'.Reordered c :=
  ⟨h.name.symm, h.parent.symm, h.span.symm, h.members.symm⟩

end ClassDecl.Reordered

namespace Program.Reordered

variable {p p' : Program}

theorem of_perm (h : p.classes.Perm p'.classes) : p.Reordered p' :=
  ⟨p.classes, List.forall₂_same.mpr fun c _ ↦ .refl c, h⟩

theorem symm (h : p.Reordered p') : p'.Reordered p := by
  obtain ⟨cs, hf, hp⟩ := h
  -- a permutation after a relation is a relation after a permutation
  obtain ⟨ds, hpd, hfd⟩ : Relation.Comp List.Perm (List.Forall₂ ClassDecl.Reordered)
      p.classes p'.classes := by
    rw [← List.forall₂_comp_perm_eq_perm_comp_forall₂]
    exact ⟨cs, hf, hp⟩
  exact ⟨ds, List.Forall₂.flip (hfd.imp fun _ _ h ↦ h.symm), hpd.symm⟩

theorem exists_of_mem (h : p.Reordered p') {c : ClassDecl} (hc : c ∈ p.classes) :
    ∃ c' ∈ p'.classes, c.Reordered c' := by
  obtain ⟨cs, hf, hp⟩ := h
  obtain ⟨c', hc', hcc⟩ := Proofs.Linking.Forall₂.exists_of_mem hf hc
  exact ⟨c', hp.mem_iff.mp hc', hcc⟩

theorem names (h : p.Reordered p') :
    (p.classes.map (·.name)).Perm (p'.classes.map (·.name)) := by
  obtain ⟨cs, hf, hp⟩ := h
  have hmap : ∀ {l l' : List ClassDecl}, List.Forall₂ ClassDecl.Reordered l l' →
      l.map (·.name) = l'.map (·.name) := by
    intro l l' hl
    induction hl with
    | nil => rfl
    | cons hcc _ ih => rw [List.map_cons, List.map_cons, hcc.name, ih]
  rw [hmap hf]
  exact hp.map _

theorem parentOf (h : p.Reordered p') {a b : String} (hab : p.ParentOf a b) : p'.ParentOf a b := by
  obtain ⟨c, hc, rfl, hpar⟩ := hab
  obtain ⟨c', hc', hcc⟩ := h.exists_of_mem hc
  exact ⟨c', hc', hcc.name.symm, hcc.parent ▸ hpar⟩

end Program.Reordered

namespace Proofs.OrderFree

open ClassLang.Proofs.Registration CheckerTables Verdicts Generation Checked

theorem membersWellFormed_perm {cls : String} {ms ms' : List Member} (h : MembersWellFormed cls ms)
    (hp : ms.Perm ms') : MembersWellFormed cls ms' where
  names_nodup := (hp.flatMap_right _).nodup_iff.mp h.names_nodup
  class_name_free hn := by
    rw [← hp.any_eq, ← hp.any_eq] at hn
    rw [← (hp.flatMap_right _).mem_iff]
    exact h.class_name_free hn
  sigs_nodup := ((hp.filterMap _).map _).nodup_iff.mp h.sigs_nodup
  one_dtor := (hp.filterMap _).length_eq ▸ h.one_dtor

theorem wellFormed_reordered {p p' : Program} (h : p.Reordered p') (hwf : p.WellFormed) :
    p'.WellFormed where
  names_nodup := h.names.nodup_iff.mp hwf.names_nodup
  parents_declared c' hc' q hq := by
    obtain ⟨c, hc, hcc⟩ := h.symm.exists_of_mem hc'
    obtain ⟨d, hd, rfl⟩ := hwf.parents_declared c hc q (hcc.parent.symm.trans hq)
    obtain ⟨d', hd', hdd⟩ := h.exists_of_mem hd
    exact ⟨d', hd', hdd.name.symm⟩
  acyclic a ha := hwf.acyclic a (Relation.TransGen.mono (fun _ _ hab ↦ h.symm.parentOf hab) a a ha)
  members c' hc' := by
    obtain ⟨c, hc, hcc⟩ := h.symm.exists_of_mem hc'
    rw [hcc.name]
    exact membersWellFormed_perm (hwf.members c hc) hcc.members.symm

theorem find?_name_perm {β : Type} (name : β → String) {l l' : List β} (hp : l.Perm l')
    (hnd : (l.map name).Nodup) (n : String) :
    l.find? (fun x ↦ name x == n) = l'.find? (fun x ↦ name x == n) := by
  refine List.find?_eq_find?_of_perm hp fun x hx y hy ↦ ?_
  have hxn : name x = n := beq_iff_eq.mp hx.2
  have hyn : name y = n := beq_iff_eq.mp hy.2
  exact List.inj_on_of_nodup_map hnd hx.1 hy.1 (hxn.trans hyn.symm)

theorem attrNames_sublist (cls : String) (ms : List Member) :
    ((ms.flatMap Member.attrInfos).map (·.name)).Sublist (ms.flatMap (Member.usedNames cls)) := by
  induction ms with
  | nil => exact .slnil
  | cons m ms ih =>
    rw [List.flatMap_cons, List.flatMap_cons, List.map_append]
    refine List.Sublist.append ?_ ih
    cases m with
    | attr d => simp [Member.attrInfos, Member.usedNames, Member.fieldNames, Function.comp_def]
    | method _ | ctor _ | dtor _ => exact List.nil_sublist _

theorem methodNames_sublist (cls : String) (ms : List Member) :
    ((ms.filterMap Member.methodInfo?).map (·.name)).Sublist
      (ms.flatMap (Member.usedNames cls)) := by
  induction ms with
  | nil => exact .slnil
  | cons m ms ih =>
    rw [List.flatMap_cons]
    cases m with
    | method d => exact ih.cons_cons _
    | attr _ | ctor _ | dtor _ => exact ih.trans (List.sublist_append_right _ _)

theorem declared_similar {c c' : ClassDecl} (hc : c.Reordered c')
    (hm : MembersWellFormed c.name c.members) : c.declared.Similar c'.declared where
  name := hc.name
  parent := hc.parent
  attr := find?_name_perm AttrInfo.name (hc.members.flatMap_right _)
    ((attrNames_sublist c.name c.members).nodup hm.names_nodup)
  method := find?_name_perm MethodInfo.name (hc.members.filterMap _)
    ((methodNames_sublist c.name c.members).nodup hm.names_nodup)
  ctors := hc.members.filterMap _

theorem find?_similar (n : String) : ∀ {l l' : List ClassInfo},
    List.Forall₂ ClassInfo.Similar l l' →
      Option.Rel ClassInfo.Similar (l.find? (·.name == n)) (l'.find? (·.name == n))
  | _, _, .nil => .none
  | r :: _, _ :: _, .cons hr hl => by
    rw [List.find?_cons, List.find?_cons, ← hr.name]
    cases r.name == n with
    | true => exact .some hr
    | false => exact find?_similar n hl

theorem similar_of_forall₂_perm {t t' : ClassTable} {l : List ClassInfo}
    (hf : List.Forall₂ ClassInfo.Similar t.classes l) (hp : l.Perm t'.classes)
    (hnd : (t'.classes.map (·.name)).Nodup) : t.Similar t' where
  get n := by
    have hl : (l.map (·.name)).Nodup := (hp.map _).nodup_iff.mpr hnd
    have hfind := find?_similar n hf
    rwa [find?_name_perm ClassInfo.name hp hl n] at hfind
  length := hf.length_eq.trans hp.length_eq

theorem any_reordered {f : ClassDecl → Bool} (hf : ∀ c c', c.Reordered c' → f c = f c')
    {p p' : Program} (h : p.Reordered p') : p.classes.any f = p'.classes.any f := by
  rw [Bool.eq_iff_iff, List.any_eq_true, List.any_eq_true]
  constructor
  · rintro ⟨c, hc, hfc⟩
    obtain ⟨c', hc', hcc⟩ := h.exists_of_mem hc
    exact ⟨c', hc', hf c c' hcc ▸ hfc⟩
  · rintro ⟨c', hc', hfc⟩
    obtain ⟨c, hc, hcc⟩ := h.symm.exists_of_mem hc'
    exact ⟨c, hc, hf c' c hcc ▸ hfc⟩

theorem declared_forall₂ {l l' : List ClassDecl} (hf : List.Forall₂ ClassDecl.Reordered l l')
    (hm : ∀ c ∈ l, MembersWellFormed c.name c.members) :
    List.Forall₂ ClassInfo.Similar (l.map ClassDecl.declared) (l'.map ClassDecl.declared) := by
  induction hf with
  | nil => exact .nil
  | cons hcc _ ih =>
    exact .cons (declared_similar hcc (hm _ List.mem_cons_self))
      (ih fun c hc ↦ hm c (List.mem_cons_of_mem _ hc))

theorem console_reordered {p p' : Program} (h : p.Reordered p') :
    p.classes.any (·.name == Console.className) = p'.classes.any (·.name == Console.className) :=
  any_reordered (fun _ _ hcc ↦ by rw [hcc.name]) h

theorem tableOf_similar {p p' : Program} (h : p.Reordered p') (hwf : p.WellFormed) :
    (tableOf p).Similar (tableOf p') := by
  obtain ⟨cs, hf, hp⟩ := id h
  have hcon := console_reordered h
  refine similar_of_forall₂_perm (l := cs.map ClassDecl.declared ++
      (if p'.classes.any (·.name == Console.className) then [] else [Console.record])) ?_ ?_
    (Lineage.tableOf_sound (wellFormed_reordered h hwf)).names_nodup
  · simp only [tableOf, hcon]
    exact List.rel_append (declared_forall₂ hf hwf.members)
      (List.forall₂_same.mpr fun r _ ↦ .refl r)
  · exact (hp.map _).append_right _

theorem tableOf_agree {p p' : Program} (h : p.classes.Perm p'.classes) (hwf : p.WellFormed) :
    (tableOf p).Agree (tableOf p') := by
  have hperm : (tableOf p).classes.Perm (tableOf p').classes := by
    simp only [tableOf, console_reordered (.of_perm h)]
    exact (h.map _).append_right _
  exact ⟨find?_name_perm ClassInfo.name hperm (Lineage.tableOf_sound hwf).names_nodup, hperm.length_eq⟩

theorem memberVerdict_twin {cx cx' : Context} (h : Context.Twin cx cx') (m : Member) :
    memberVerdict cx m = memberVerdict cx' m := by
  rw [← checkMember_yields cx m #[], ← checkMember_yields cx' m #[], checkMember_twin h]

theorem declaresEntry_reordered {c c' : ClassDecl} (h : c.Reordered c') :
    Registration.declaresEntry c = Registration.declaresEntry c' :=
  (h.members.filterMap _).any_eq

theorem lastEntry_isSome (p : Program) :
    p.lastEntry.isSome = p.classes.any Registration.declaresEntry := by
  rw [Bool.eq_iff_iff]
  simp [Program.lastEntry]

theorem check_isOk_iff (opts : Options) (p : Program) :
    (check opts p).run.2.isOk = true ↔ p.WellFormed ∧
      (∀ c ∈ p.classes, ∀ m ∈ c.members,
        memberVerdict ((Context.start (tableOf p)).enterClass c) m = .ok ()) ∧
      (opts.requireEntry = true → p.lastEntry.isSome = true) := by
  rw [check_run]
  constructor
  · intro hok
    obtain ⟨T, hT⟩ : ∃ T, checkedTable opts p = .ok T := by
      cases hc : checkedTable opts p with
      | error e => rw [hc] at hok; cases hok
      | ok T => exact ⟨T, rfl⟩
    obtain ⟨hwf, rfl, hall, hentry⟩ := (checkedTable_ok_iff opts p T).mp hT
    exact ⟨hwf, hall, hentry⟩
  · rintro ⟨hwf, hall, hentry⟩
    rw [(checkedTable_ok_iff opts p (tableOf p)).mpr ⟨hwf, rfl, hall, hentry⟩]
    rfl

theorem check_reordered (opts : Options) {p p' : Program} (h : p.Reordered p')
    (hok : (check opts p).run.2.isOk = true) : (check opts p').run.2.isOk = true := by
  obtain ⟨hwf, hall, hentry⟩ := (check_isOk_iff opts p).mp hok
  have hsim := tableOf_similar h hwf
  refine (check_isOk_iff opts p').mpr ⟨wellFormed_reordered h hwf, fun c' hc' m hm ↦ ?_, ?_⟩
  · obtain ⟨c, hc, hcc⟩ := h.symm.exists_of_mem hc'
    -- the member is checked from the twin of the context it is checked from in `p`
    rw [← memberVerdict_twin ((Context.Twin.start hsim).enterClass hcc.name.symm hcc.span.symm) m]
    exact hall c hc m (hcc.members.mem_iff.mp hm)
  · rw [lastEntry_isSome, ← any_reordered (fun _ _ ↦ declaresEntry_reordered) h,
      ← lastEntry_isSome]
    exact hentry

theorem mapM_isOk_iff {α β : Type} {g : α → Except CompileError β} (l : List α) :
    (l.mapM g).isOk = true ↔ ∀ a ∈ l, (g a).isOk = true := by
  induction l with
  | nil => exact iff_of_true rfl fun _ h ↦ nomatch h
  | cons a l ih =>
    rw [List.mapM_cons, List.forall_mem_cons]
    cases hg : g a with
    | error e => exact iff_of_false (fun h ↦ nomatch h) fun h ↦ nomatch h.1
    | ok b =>
      -- past the first class, the rest decides
      have hrest : (Except.ok b >>= fun b ↦ l.mapM g >>= fun bs ↦ pure (b :: bs)).isOk =
          (l.mapM g).isOk := by
        cases l.mapM g <;> rfl
      rw [hrest, ih]
      exact (and_iff_right rfl).symm

theorem mapM_ok_eq_map {α β : Type} {g : α → Except CompileError β} (d : β) {l : List α} :
    ∀ {bs : List β}, l.mapM g = .ok bs → bs = l.map fun a ↦ (g a).toOption.getD d := by
  induction l with
  | nil =>
    intro bs h
    cases h
    rfl
  | cons a l ih =>
    intro bs h
    rw [List.mapM_cons] at h
    obtain ⟨b, hb, h⟩ := except_bind_ok h
    obtain ⟨bs', hbs, h⟩ := except_bind_ok h
    cases h
    rw [List.map_cons, hb, ← ih hbs]
    rfl

theorem loweredUnit_agree {t t' : ClassTable} (h : t.Agree t') (opts : Options) :
    loweredUnit t opts = loweredUnit t' opts := by
  funext c
  unfold loweredUnit
  rw [LoweringTables.classLower_agree h]

theorem compile_isOk_iff (opts : Options) (p : Program) :
    (compile opts p).run.2.isOk = true ↔ (check opts p).run.2.isOk = true ∧
      ∀ c ∈ p.classes, (loweredUnit (tableOf p) opts c).isOk = true := by
  rw [compile_run, check_run]
  cases hc : checkedTable opts p with
  | error e => exact iff_of_false (fun h ↦ nomatch h) fun h ↦ nomatch h.1
  | ok T =>
    obtain ⟨-, rfl, -⟩ := (checkedTable_ok_iff opts p T).mp hc
    show (p.classes.mapM (loweredUnit (tableOf p) opts)).isOk = true ↔
      (Except.ok (tableOf p) : Except CompileError ClassTable).isOk = true ∧ _
    rw [mapM_isOk_iff]
    exact (and_iff_right rfl).symm

theorem compile_units {opts : Options} {p : Program} {us : List ClassUnit}
    (h : (compile opts p).run.2 = .ok us) :
    us = p.classes.map fun c ↦ (loweredUnit (tableOf p) opts c).toOption.getD default := by
  rw [compile_run] at h
  obtain ⟨T, hT, h⟩ := except_bind_ok h
  obtain ⟨-, rfl, -⟩ := (checkedTable_ok_iff opts p T).mp hT
  exact mapM_ok_eq_map default h

theorem compile_perm (opts : Options) {p p' : Program} (hp : p.classes.Perm p'.classes)
    (hok : (compile opts p).run.2.isOk = true) : (compile opts p').run.2.isOk = true := by
  obtain ⟨hc, hall⟩ := (compile_isOk_iff opts p).mp hok
  have hwf := ((check_isOk_iff opts p).mp hc).1
  rw [loweredUnit_agree (tableOf_agree hp hwf)] at hall
  exact (compile_isOk_iff opts p').mpr
    ⟨check_reordered opts (.of_perm hp) hc, fun c hc' ↦ hall c (hp.mem_iff.mpr hc')⟩

/-- What checking and compiling keep when the program `p` is reordered into `p'`. Each member
of `p` is checked on its own, from the fresh context of its class over the program's table, so
nothing one check sets is seen by another; `p` passes the check exactly when `p'` does; and when
only the classes move, `p` compiles exactly when `p'` does, each class to the same unit, so the
units of `p'` are those of `p` in the order of its classes. -/
structure OrderIndependent (opts : Options) (p p' : Program) : Prop where
  memberwise : (check opts p).run.2.isOk = true ↔ p.WellFormed ∧
    (∀ c ∈ p.classes, ∀ m ∈ c.members,
      memberVerdict ((Context.start (tableOf p)).enterClass c) m = .ok ()) ∧
    (opts.requireEntry = true → p.lastEntry.isSome = true)
  check : (check opts p).run.2.isOk = (check opts p').run.2.isOk
  compile : p.classes.Perm p'.classes →
    (compile opts p).run.2.isOk = (compile opts p').run.2.isOk ∧
      ∀ us us', (compile opts p).run.2 = .ok us → (compile opts p').run.2 = .ok us' →
        ∃ f : ClassDecl → ClassUnit, us = p.classes.map f ∧ us' = p'.classes.map f

/-- Classes are checked and compiled independently of their order: a program whose classes,
and the members of each class, are listed in another order passes the check exactly when the
original does, and when only the classes move, each class compiles to the very same unit. -/
theorem order_free_compilation (opts : Options) {p p' : Program} (h : p.Reordered p') :
    OrderIndependent opts p p' where
  memberwise := check_isOk_iff opts p
  check := Bool.eq_iff_iff.mpr ⟨check_reordered opts h, check_reordered opts h.symm⟩
  compile hp := by
    refine ⟨Bool.eq_iff_iff.mpr ⟨compile_perm opts hp, compile_perm opts hp.symm⟩,
      fun us us' hu hu' ↦ ?_⟩
    have hok : (compile opts p).run.2.isOk = true := by rw [hu]; rfl
    have hwf := ((check_isOk_iff opts p).mp ((compile_isOk_iff opts p).mp hok).1).1
    refine ⟨_, compile_units hu, ?_⟩
    rw [compile_units hu', loweredUnit_agree (tableOf_agree hp hwf)]

/-- The class `Shape`, with an attribute `side` and a method `area`, and the class `Main` with an
entry point that builds a `Shape`. -/
def shapeFirst : Program :=
  ⟨[⟨"Shape", none, [.attr ⟨false, false, .int, [⟨"side", none, default⟩], default⟩,
      .method ⟨false, .int, "area", [],
        ⟨[], [.ret (some (.binary .mul (.ident "side" default) (.ident "side" default) default))
          default], default⟩, default⟩], default⟩,
    ⟨"Main", none, [.method ⟨true, .void, "main", [],
      ⟨[⟨false, .cls "Shape", [⟨"s", some (.new "Shape" [] default), default⟩], default⟩], [],
        default⟩, default⟩], default⟩]⟩

/-- `shapeFirst` with `Main` first and the members of `Shape` the other way round. -/
def mainFirst : Program :=
  ⟨[⟨"Main", none, [.method ⟨true, .void, "main", [],
      ⟨[⟨false, .cls "Shape", [⟨"s", some (.new "Shape" [] default), default⟩], default⟩], [],
        default⟩, default⟩], default⟩,
    ⟨"Shape", none, [.method ⟨false, .int, "area", [],
        ⟨[], [.ret (some (.binary .mul (.ident "side" default) (.ident "side" default) default))
          default], default⟩, default⟩,
      .attr ⟨false, false, .int, [⟨"side", none, default⟩], default⟩], default⟩]⟩

theorem shapeFirst_order_free :
    shapeFirst.Reordered mainFirst ∧ OrderIndependent {} shapeFirst mainFirst := by
  have h : shapeFirst.Reordered mainFirst :=
    ⟨mainFirst.classes.reverse, .cons ⟨rfl, rfl, rfl, .swap _ _ _⟩ (.cons (.refl _) .nil),
      .swap _ _ _⟩
  exact ⟨h, order_free_compilation {} h⟩

end Proofs.OrderFree

end ClassLang
