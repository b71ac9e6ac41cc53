import ClassLang.Registry.CycleSearch
import ClassLang.Proofs.Checked

namespace ClassLang

def Program.ParentOf (p : Program) (a b : String) : Prop :=
  ∃ c ∈ p.classes, c.name = a ∧ c.parent = some b

namespace Member

def fieldNames : Member → List String
  | .attr d => d.vars.map (·.name)
  | .method m => [m.name]
  | _ => []

/-- The names a member takes in the namespace of its class `cls`: a constructor or destructor
named after the class takes none. -/
def usedNames (cls : String) : Member → List String
  | .ctor k => if k.name = cls then [] else [k.name]
  | .dtor d => if d.name = cls then [] else [d.name]
  | m => m.fieldNames

def ctorNamed (cls : String) : Member → Bool
  | .ctor k => k.name == cls
  | _ => false

def dtorNamed (cls : String) : Member → Bool
  | .dtor d => d.name == cls
  | _ => false

def attrInfos : Member → List AttrInfo
  | .attr d => d.vars.map fun v ↦ ⟨v.name, d.type, d.isStatic, d.isFinal, v.init, v.span⟩
  | _ => []

def methodInfo? : Member → Option MethodInfo
  | .method m => some ⟨m.name, m.ret, m.params.map (·.type), m.isStatic, m.span⟩
  | _ => none

def ctorInfo? : Member → Option CtorInfo
  | .ctor k => some ⟨⟨k.params.map (·.type)⟩, k.span⟩
  | _ => none

def dtorSpan? : Member → Option Span
  | .dtor d => some d.span
  | _ => none

end Member

structure MembersWellFormed (cls : String) (ms : List Member) : Prop where
  names_nodup : (ms.flatMap (Member.usedNames cls)).Nodup
  class_name_free : (ms.any (Member.ctorNamed cls) || ms.any (Member.dtorNamed cls)) = true →
    cls ∉ ms.flatMap Member.fieldNames
  sigs_nodup : ((ms.filterMap Member.ctorInfo?).map (·.sig)).Nodup
  one_dtor : (ms.filterMap Member.dtorSpan?).length ≤ 1

/-- The programs registration accepts. -/
structure Program.WellFormed (p : Program) : Prop where
  names_nodup : (p.classes.map (·.name)).Nodup
  parents_declared : ∀ c ∈ p.classes, ∀ q, c.parent = some q → ∃ d ∈ p.classes, d.name = q
  acyclic : ∀ a, ¬ Relation.TransGen p.ParentOf a a
  members : ∀ c ∈ p.classes, MembersWellFormed c.name c.members

/-- The record of a class with exactly the members it declares, in order. -/
def ClassDecl.declared (c : ClassDecl) : ClassInfo :=
  ⟨c.name, c.parent, c.members.flatMap Member.attrInfos, c.members.filterMap Member.methodInfo?,
    c.members.filterMap Member.ctorInfo?, (c.members.filterMap Member.dtorSpan?).head?, c.span,
    false⟩

/-- The last class of the program that declares an entry point. -/
def Program.lastEntry (p : Program) : Option String :=
  (p.classes.filter Registration.declaresEntry).getLast?.map (·.name)

end ClassLang

namespace ClassLang.Proofs.Registration

open ClassLang Registration Hierarchy Generation Checked

variable {α β : Type}

def Yields (m : Logged α) (r : Except CompileError α) : Prop := ∀ log, (runFrom m log).1 = r

namespace Yields

theorem lift (r : Except CompileError α) : Yields (Logged.lift r) r := fun _ ↦ by simp

theorem write (l : Level) (t : String) : Yields (Logged.write l t) (.ok ()) := fun _ ↦ rfl

theorem pure (a : α) : Yields (Pure.pure a : Logged α) (.ok a) := fun _ ↦ rfl

theorem bind {x : Logged α} {f : α → Logged β} {r : Except CompileError α}
    {g : α → Except CompileError β} (hx : Yields x r) (hf : ∀ a, Yields (f a) (g a)) :
    Yields (x >>= f) (r >>= g) := by
  intro log
  rw [run_bind]
  have hr := hx log
  rcases hrun : runFrom x log with ⟨_ | a, l⟩ <;> rw [hrun] at hr <;> subst hr
  · rfl
  · exact hf a l

theorem foldlM {f : β → α → Logged β} {g : β → α → Except CompileError β}
    (h : ∀ b a, Yields (f b a) (g b a)) : ∀ (as : List α) (b : β),
    Yields (as.foldlM f b) (as.foldlM g b)
  | [], b => pure b
  | a :: as, b => by
    simp only [List.foldlM_cons]
    exact bind (h b a) fun b' ↦ foldlM h as b'

end Yields

/-- The record a class's members make, placed in the table, with the class noted as entry
point if it declares one. -/
def recordInto (t : ClassTable) (c : ClassDecl) (r : ClassInfo) : ClassTable :=
  if declaresEntry c then { t.update r with entry := some c.name } else t.update r

def bare (c : ClassDecl) : ClassInfo := ClassInfo.empty c.name c.parent c.span

def registered (p : Program) : Except CompileError ClassTable := do
  let t ← p.classes.foldlM (fun t c ↦ t.register (bare c)) ClassTable.empty
  checkParents t p.classes
  t.checkAcyclic
  let t ← p.classes.foldlM (fun t c ↦ (record c).map (recordInto t c)) t
  if t.contains Console.className then Pure.pure t else t.register Console.record

theorem ofProgram_yields (p : Program) : Yields (ClassTable.ofProgram p) (registered p) := by
  unfold ClassTable.ofProgram registered
  refine Yields.bind (Yields.lift _) fun t ↦ Yields.bind (Yields.lift _) fun _ ↦
    Yields.bind (Yields.lift _) fun _ ↦ Yields.bind (Yields.foldlM (fun t c ↦ ?_) _ _) fun t ↦ ?_
  · have hs := Yields.bind (Yields.write .debug ("registering members of class " ++ c.name))
      fun _ ↦ Yields.bind (Yields.lift (record c)) fun r ↦
        Yields.pure (if declaresEntry c then { t.update r with entry := some c.name }
          else t.update r)
    intro log
    rw [hs log]
    cases record c <;> rfl
  · -- the console class, then the closing log line
    intro log
    dsimp only
    split
    · simp only [run_bind, run_pure, run_write]
      rfl
    · rw [run_bind, run_lift]
      cases t.register Console.record with
      | error e => rfl
      | ok t' => simp only [run_bind, run_write, run_pure]

theorem ofProgram_run (p : Program) : (ClassTable.ofProgram p).run.2 = registered p := by
  rw [run_snd]
  exact ofProgram_yields p #[]

theorem contains_iff {t : ClassTable} {n : String} :
    t.contains n = true ↔ n ∈ t.classes.map (·.name) := by
  simp [ClassTable.contains]

theorem register_ok_iff {t t' : ClassTable} {c : ClassInfo} :
    t.register c = .ok t' ↔
      c.name ∉ t.classes.map (·.name) ∧ t' = { t with classes := t.classes ++ [c] } := by
  unfold ClassTable.register
  by_cases hc : t.contains c.name
  · simp [hc, contains_iff.mp hc]
  · have hn : c.name ∉ t.classes.map (·.name) := fun h ↦ hc (contains_iff.mpr h)
    simp only [hc, Bool.false_eq_true, if_false, Except.ok.injEq, hn, not_false_eq_true,
      true_and]
    exact eq_comm

theorem registerAll_ok_iff : ∀ (cs : List ClassDecl) {t t' : ClassTable},
    (t.classes.map (·.name)).Nodup →
    (cs.foldlM (fun t c ↦ t.register (bare c)) t = .ok t' ↔
      (t.classes.map (·.name) ++ cs.map (·.name)).Nodup ∧
        t' = { t with classes := t.classes ++ cs.map bare })
  | [], t, t', hnd => by
    simp only [List.foldlM_nil, List.map_nil, List.append_nil, hnd, true_and]
    exact ⟨fun h ↦ by cases h; rfl, fun h ↦ by subst h; rfl⟩
  | c :: cs, t, t', hnd => by
    rw [List.foldlM_cons]
    by_cases hc : c.name ∈ t.classes.map (·.name)
    · have he : t.register (bare c) = .error (.redeclared .cls c.name c.span) := by
        rw [ClassTable.register, if_pos (show t.contains (bare c).name = true from
          contains_iff.mpr hc)]
        rfl
      rw [he]
      refine ⟨nofun, fun ⟨hnd', _⟩ ↦ ?_⟩
      -- the name is registered already and comes again
      exact absurd rfl ((List.nodup_append.mp hnd').2.2 _ hc _ List.mem_cons_self)
    · have hr : t.register (bare c) = .ok { t with classes := t.classes ++ [bare c] } :=
        register_ok_iff.mpr ⟨hc, rfl⟩
      rw [hr]
      have hnd' : (t.classes.map (·.name) ++ [c.name]).Nodup :=
        List.nodup_append.mpr ⟨hnd, List.nodup_singleton _, by
          simp only [List.mem_singleton]
          rintro a ha b rfl rfl
          exact hc ha⟩
      have ih := @registerAll_ok_iff cs { t with classes := t.classes ++ [bare c] } t'
        (by simpa [bare, ClassInfo.empty] using hnd')
      simp only [bind, Except.bind] at ih ⊢
      rw [ih]
      simp [bare, ClassInfo.empty, List.append_assoc]

theorem checkParents_ok_iff (t : ClassTable) : ∀ cs : List ClassDecl,
    checkParents t cs = .ok () ↔ ∀ c ∈ cs, ∀ q, c.parent = some q → t.contains q = true
  | [] => by simp [checkParents]
  | c :: cs => by
    rw [checkParents]
    cases hp : c.parent with
    | none => simp [checkParents_ok_iff t cs, hp]
    | some q =>
      by_cases hq : t.contains q
      · simp [hq, checkParents_ok_iff t cs, hp]
      · simp [hq, hp]

def parentIndex (rs : List ClassInfo) (i : Nat) : Option Nat :=
  (rs[i]?.bind (·.parent)).bind (ClassTable.indexOf? rs)

def ParentIn (rs : List ClassInfo) (a b : String) : Prop :=
  ∃ r ∈ rs, r.name = a ∧ r.parent = some b

theorem indexOf?_some {rs : List ClassInfo} {q : String} {j : Nat}
    (h : ClassTable.indexOf? rs q = some j) : ∃ r, rs[j]? = some r ∧ r.name = q := by
  obtain ⟨hj, hp, -⟩ := List.findIdx?_eq_some_iff_getElem.mp h
  exact ⟨rs[j], List.getElem?_eq_getElem hj, by simpa using hp⟩

theorem indexOf?_name {rs : List ClassInfo} (hnd : (rs.map (·.name)).Nodup) {j : Nat}
    {r : ClassInfo} (h : rs[j]? = some r) : ClassTable.indexOf? rs r.name = some j := by
  obtain ⟨hj, rfl⟩ := List.getElem?_eq_some_iff.mp h
  refine List.findIdx?_eq_some_iff_getElem.mpr ⟨hj, by simp, fun k hkj hk ↦ ?_⟩
  have hkl : k < rs.length := Nat.lt_trans hkj hj
  have hkm : k < (rs.map (·.name)).length := by simpa using hkl
  have hjm : j < (rs.map (·.name)).length := by simpa using hj
  have he : (rs.map (·.name))[k] = (rs.map (·.name))[j] := by simpa using hk
  exact absurd ((List.Nodup.getElem_inj_iff hnd).mp he) (Nat.ne_of_lt hkj)

theorem parentIndex_bounded (rs : List ClassInfo) : Bounded rs.length (parentIndex rs) := by
  intro i j h
  cases hi : rs[i]? with
  | none => simp [parentIndex, hi] at h
  | some r =>
    cases hp : r.parent with
    | none => simp [parentIndex, hi, hp] at h
    | some q =>
      simp only [parentIndex, hi, hp, Option.bind_some] at h
      obtain ⟨r', hr', -⟩ := indexOf?_some h
      exact ⟨(List.getElem?_eq_some_iff.mp hi).1, (List.getElem?_eq_some_iff.mp hr').1⟩

/-- A cycle search that, on a graph of `n` classes, reports a class exactly when the graph has a
cycle, and reports only one of the `n`. -/
def FindsCycles (search : Nat → (Nat → Option Nat) → Option Nat) : Prop :=
  ∀ n par, Bounded n par → (search n par = none ↔ Acyclic par) ∧ ∀ j, search n par = some j → j < n

theorem cycleWitness_findsCycles : FindsCycles cycleWitness :=
  fun _ _ hb ↦ ⟨cycleWitness_eq_none_iff hb, fun _ hw ↦ cycleWitness_lt hb hw⟩

theorem checkAcyclicBy_ok_iff {search : Nat → (Nat → Option Nat) → Option Nat}
    (hs : FindsCycles search) (t : ClassTable) :
    t.checkAcyclicBy search = .ok () ↔ Acyclic (parentIndex t.classes) := by
  obtain ⟨hnone, hlt⟩ := hs _ _ (parentIndex_bounded t.classes)
  rw [← hnone]
  unfold ClassTable.checkAcyclicBy
  dsimp only
  split
  · rename_i hw
    exact iff_of_true rfl hw
  · -- the search names a class, which is registered
    rename_i j hw
    obtain ⟨c, hc⟩ : ∃ c, t.classes[j]? = some c := ⟨_, List.getElem?_eq_getElem (hlt j hw)⟩
    rw [hc]
    refine iff_of_false nofun fun h ↦ ?_
    cases hw.symm.trans h

theorem checkAcyclic_ok_iff (t : ClassTable) :
    t.checkAcyclic = .ok () ↔ Acyclic (parentIndex t.classes) :=
  checkAcyclicBy_ok_iff cycleWitness_findsCycles t

theorem acyclic_iff_names {rs : List ClassInfo} (hnd : (rs.map (·.name)).Nodup)
    (hpar : ∀ r ∈ rs, ∀ q, r.parent = some q → ∃ r' ∈ rs, r'.name = q) :
    Acyclic (parentIndex rs) ↔ ∀ a, ¬ Relation.TransGen (ParentIn rs) a a := by
  constructor
  · -- a cycle of names is a cycle of the positions of those names
    intro hac a ha
    let idx : String → Nat := fun x ↦ (ClassTable.indexOf? rs x).getD 0
    have hedge : ∀ x y, ParentIn rs x y → Edge (parentIndex rs) (idx x) (idx y) := by
      rintro x y ⟨r, hr, rfl, hp⟩
      obtain ⟨i, hi, hri⟩ := List.getElem_of_mem hr
      obtain ⟨r', hr', rfl⟩ := hpar r hr y hp
      obtain ⟨j, hj, hrj⟩ := List.getElem_of_mem hr'
      have hix : idx r.name = i := by
        simp [idx, indexOf?_name hnd (List.getElem?_eq_some_iff.mpr ⟨hi, hri⟩)]
      have hiy : idx r'.name = j := by
        simp [idx, indexOf?_name hnd (List.getElem?_eq_some_iff.mpr ⟨hj, hrj⟩)]
      rw [hix, hiy, Edge, parentIndex, List.getElem?_eq_some_iff.mpr ⟨hi, hri⟩]
      simp [hp, indexOf?_name hnd (List.getElem?_eq_some_iff.mpr ⟨hj, hrj⟩)]
    exact hac (idx a) (Relation.TransGen.lift idx hedge a a ha)
  · -- a cycle of positions is a cycle of the names at those positions
    intro hn i hi
    let nm : Nat → String := fun k ↦ (rs[k]?.map (·.name)).getD ""
    have hedge : ∀ k l, Edge (parentIndex rs) k l → ParentIn rs (nm k) (nm l) := by
      intro k l hkl
      unfold Edge parentIndex at hkl
      cases hk : rs[k]? with
      | none => simp [hk] at hkl
      | some r =>
        cases hp : r.parent with
        | none => simp [hk, hp] at hkl
        | some q =>
          simp only [hk, hp, Option.bind_some] at hkl
          obtain ⟨r', hl, rfl⟩ := indexOf?_some hkl
          exact ⟨r, List.mem_of_getElem? hk, by simp [nm, hk], by simp [nm, hl, hp]⟩
    exact hn (nm i) (Relation.TransGen.lift nm hedge i i hi)

/-- The state of recording class `c` after its members `pre`: the names they take, whether a
constructor or a destructor carries the class name, and the record of them. -/
def stateAfter (c : ClassDecl) (pre : List Member) : Members :=
  (⟨pre.flatMap (Member.usedNames c.name), pre.any (Member.ctorNamed c.name),
      pre.any (Member.dtorNamed c.name)⟩,
    ⟨c.name, c.parent, pre.flatMap Member.attrInfos, pre.filterMap Member.methodInfo?,
      pre.filterMap Member.ctorInfo?, (pre.filterMap Member.dtorSpan?).head?, c.span, false⟩)

theorem mem_usedNames_self (cls : String) (ms : List Member) :
    cls ∈ ms.flatMap (Member.usedNames cls) ↔ cls ∈ ms.flatMap Member.fieldNames := by
  simp only [List.mem_flatMap]
  refine exists_congr fun m ↦ and_congr_right fun _ ↦ ?_
  cases m with
  | ctor k => by_cases hk : k.name = cls <;> simp [Member.usedNames, Member.fieldNames, hk, Ne.symm]
  | dtor d => by_cases hd : d.name = cls <;> simp [Member.usedNames, Member.fieldNames, hd, Ne.symm]
  | attr d => rfl
  | method m => rfl

theorem MembersWellFormed.of_append {cls : String} {l₁ l₂ : List Member}
    (h : MembersWellFormed cls (l₁ ++ l₂)) : MembersWellFormed cls l₁ := by
  refine ⟨?_, fun hn hc ↦ ?_, ?_, ?_⟩
  · have hs := h.names_nodup
    rw [List.flatMap_append] at hs
    exact (List.nodup_append.mp hs).1
  · refine h.class_name_free ?_ ?_
    · simp only [List.any_append, Bool.or_eq_true] at hn ⊢
      rcases hn with hn | hn <;> simp [hn]
    · rw [List.flatMap_append]
      exact List.mem_append_left _ hc
  · have hs := h.sigs_nodup
    rw [List.filterMap_append, List.map_append] at hs
    exact (List.nodup_append.mp hs).1
  · have := h.one_dtor
    rw [List.filterMap_append, List.length_append] at this
    omega

theorem addAttrs_ok_iff (d : AttrDecl) : ∀ (vs : List Declarator) (ns : Names) (r : ClassInfo)
    (s : Members), ns.used.Nodup →
    (addAttrs d vs (ns, r) = .ok s ↔
      (ns.used ++ vs.map (·.name)).Nodup ∧
        ((ns.namedCtor || ns.namedDtor) = true → r.name ∉ vs.map (·.name)) ∧
        s = ({ ns with used := ns.used ++ vs.map (·.name) }, { r with attrs := r.attrs ++
          (vs.map fun v ↦ ⟨v.name, d.type, d.isStatic, d.isFinal, v.init, v.span⟩) }))
  | [], ns, r, s, hnd => by
    simp only [addAttrs, Except.ok.injEq, List.map_nil, List.append_nil, hnd, List.not_mem_nil,
      not_false_eq_true, implies_true, true_and]
    exact eq_comm
  | v :: vs, ns, r, s, hnd => by
    unfold addAttrs
    by_cases hcol : ns.collides v.name r.name
    · rw [if_pos hcol]
      simp only [reduceCtorEq, false_iff, not_and]
      intro hn hfree
      simp only [Names.collides, Bool.or_eq_true, List.contains_iff_mem, Bool.and_eq_true,
        beq_iff_eq] at hcol
      rcases hcol with hu | ⟨hv, hf⟩
      · exact absurd rfl ((List.nodup_append.mp hn).2.2 _ hu _ (by simp))
      · exact absurd (by simp [hv]) (hfree (Bool.or_eq_true _ _ ▸ hf))
    · rw [if_neg hcol]
      simp only [Names.collides, Bool.or_eq_true, List.contains_iff_mem, Bool.and_eq_true,
        beq_iff_eq, not_or, not_and] at hcol
      have hnd' : (ns.used ++ [v.name]).Nodup :=
        List.nodup_append.mpr ⟨hnd, List.nodup_singleton _, by
          simp only [List.mem_singleton]
          rintro a ha b rfl rfl
          exact hcol.1 ha⟩
      have hflag : (ns.namedCtor || ns.namedDtor) = true → r.name ≠ v.name := by
        intro h e
        obtain ⟨h₁, h₂⟩ := hcol.2 e.symm
        simp [h₁, h₂] at h
      rw [addAttrs_ok_iff d vs _ _ s hnd']
      simp only [List.map_cons, List.append_assoc, List.singleton_append, List.mem_cons, not_or]
      constructor
      · rintro ⟨hn, hf, rfl⟩
        exact ⟨hn, fun h ↦ ⟨hflag h, hf h⟩, rfl⟩
      · rintro ⟨hn, hf, rfl⟩
        exact ⟨hn, fun h ↦ (hf h).2, rfl⟩

theorem membersWellFormed_iff {cls : String} {ms : List Member} :
    MembersWellFormed cls ms ↔ (ms.flatMap (Member.usedNames cls)).Nodup ∧
      ((ms.any (Member.ctorNamed cls) || ms.any (Member.dtorNamed cls)) = true →
        cls ∉ ms.flatMap Member.fieldNames) ∧
      ((ms.filterMap Member.ctorInfo?).map (·.sig)).Nodup ∧
      (ms.filterMap Member.dtorSpan?).length ≤ 1 :=
  ⟨fun h ↦ ⟨h.1, h.2, h.3, h.4⟩, fun ⟨h₁, h₂, h₃, h₄⟩ ↦ ⟨h₁, h₂, h₃, h₄⟩⟩

section Snoc

variable {cls : String} {pre : List Member}

abbrev namedIn (cls : String) (pre : List Member) : Bool :=
  pre.any (Member.ctorNamed cls) || pre.any (Member.dtorNamed cls)

theorem wellFormed_snoc_attr (h : MembersWellFormed cls pre) (d : AttrDecl) :
    MembersWellFormed cls (pre ++ [.attr d]) ↔
      (pre.flatMap (Member.usedNames cls) ++ d.vars.map (·.name)).Nodup ∧
        (namedIn cls pre = true → cls ∉ d.vars.map (·.name)) := by
  rw [membersWellFormed_iff]
  simp only [List.flatMap_append, List.any_append, List.filterMap_append, List.flatMap_cons,
    List.flatMap_nil, List.append_nil, List.any_cons, List.any_nil, List.filterMap_cons,
    List.filterMap_nil, Member.usedNames, Member.fieldNames, Member.ctorNamed, Member.dtorNamed,
    Member.ctorInfo?, Member.dtorSpan?, Bool.or_false, List.mem_append, not_or]
  constructor
  · rintro ⟨hn, hf, -, -⟩
    exact ⟨hn, fun hc ↦ (hf hc).2⟩
  · rintro ⟨hn, hf⟩
    exact ⟨hn, fun hc ↦ ⟨h.class_name_free hc, hf hc⟩, h.sigs_nodup, h.one_dtor⟩

theorem wellFormed_snoc_method (h : MembersWellFormed cls pre) (m : MethodDecl) :
    MembersWellFormed cls (pre ++ [.method m]) ↔
      m.name ∉ pre.flatMap (Member.usedNames cls) ∧ (namedIn cls pre = true → m.name ≠ cls) := by
  rw [membersWellFormed_iff]
  simp only [List.flatMap_append, List.any_append, List.filterMap_append, List.flatMap_cons,
    List.flatMap_nil, List.append_nil, List.any_cons, List.any_nil, List.filterMap_cons,
    List.filterMap_nil, Member.usedNames, Member.fieldNames, Member.ctorNamed, Member.dtorNamed,
    Member.ctorInfo?, Member.dtorSpan?, Bool.or_false, List.mem_append, not_or,
    List.nodup_append, List.nodup_singleton, List.mem_singleton]
  constructor
  · rintro ⟨⟨-, -, hd⟩, hf, -, -⟩
    exact ⟨fun hm ↦ hd _ hm _ rfl rfl, fun hc e ↦ (hf hc).2 e.symm⟩
  · rintro ⟨hn, hf⟩
    refine ⟨⟨h.names_nodup, trivial, ?_⟩, fun hc ↦ ⟨h.class_name_free hc, fun e ↦ hf hc e.symm⟩,
      h.sigs_nodup, h.one_dtor⟩
    rintro a ha b rfl rfl
    exact hn ha

theorem nodup_snoc_iff {α : Type} {l : List α} {x : α} (h : l.Nodup) :
    (l ++ [x]).Nodup ↔ x ∉ l := by
  rw [List.nodup_append]
  simp only [h, List.nodup_singleton, List.mem_singleton, true_and]
  exact ⟨fun hd hx ↦ hd _ hx _ rfl rfl, fun hx a ha b hb hab ↦ hx (hb ▸ hab ▸ ha)⟩

theorem wellFormed_snoc_ctor (h : MembersWellFormed cls pre) (k : CtorDecl) :
    MembersWellFormed cls (pre ++ [.ctor k]) ↔
      k.name ∉ pre.flatMap (Member.usedNames cls) ∧
        (⟨k.params.map (·.type)⟩ : Signature) ∉ (pre.filterMap Member.ctorInfo?).map (·.sig) := by
  rw [membersWellFormed_iff]
  simp only [List.flatMap_append, List.any_append, List.filterMap_append, List.flatMap_cons,
    List.flatMap_nil, List.append_nil, List.any_cons, List.any_nil, List.filterMap_cons,
    List.filterMap_nil, Member.usedNames, Member.fieldNames, Member.ctorNamed, Member.dtorNamed,
    Member.ctorInfo?, Member.dtorSpan?, Bool.or_false, List.map_append, List.map_cons,
    List.map_nil, nodup_snoc_iff h.sigs_nodup, h.one_dtor, and_true]
  by_cases hk : k.name = cls
  · -- a constructor named after the class: the class name must be free
    subst hk
    simp only [↓reduceIte, List.append_nil, h.names_nodup, beq_self_eq_true, Bool.or_true,
      Bool.true_or, forall_const, true_and]
    rw [mem_usedNames_self]
  · simp only [hk, ↓reduceIte, nodup_snoc_iff h.names_nodup, beq_false_of_ne hk, Bool.or_false]
    exact ⟨fun ⟨hn, _, hs⟩ ↦ ⟨hn, hs⟩, fun ⟨hn, hs⟩ ↦ ⟨hn, h.class_name_free, hs⟩⟩

theorem wellFormed_snoc_dtor (h : MembersWellFormed cls pre) (d : DtorDecl) :
    MembersWellFormed cls (pre ++ [.dtor d]) ↔
      d.name ∉ pre.flatMap (Member.usedNames cls) ∧ pre.filterMap Member.dtorSpan? = [] := by
  rw [membersWellFormed_iff]
  simp only [List.flatMap_append, List.any_append, List.filterMap_append, List.flatMap_cons,
    List.flatMap_nil, List.append_nil, List.any_cons, List.any_nil, List.filterMap_cons,
    List.filterMap_nil, Member.usedNames, Member.fieldNames, Member.ctorNamed, Member.dtorNamed,
    Member.ctorInfo?, Member.dtorSpan?, Bool.or_false, List.length_append, List.length_cons,
    List.length_nil, h.sigs_nodup, true_and]
  have hd : (pre.filterMap Member.dtorSpan?).length + (0 + 1) ≤ 1 ↔
      pre.filterMap Member.dtorSpan? = [] := by
    rw [← List.length_eq_zero_iff]
    omega
  rw [hd]
  by_cases hk : d.name = cls
  · subst hk
    simp only [↓reduceIte, List.append_nil, h.names_nodup, beq_self_eq_true, Bool.or_true,
      forall_const, true_and]
    rw [mem_usedNames_self]
  · simp only [hk, ↓reduceIte, nodup_snoc_iff h.names_nodup, beq_false_of_ne hk, Bool.or_false]
    exact ⟨fun ⟨hn, _, hs⟩ ↦ ⟨hn, hs⟩, fun ⟨hn, hs⟩ ↦ ⟨hn, h.class_name_free, hs⟩⟩

end Snoc

theorem ctor?_isSome_iff (r : ClassInfo) (sig : Signature) :
    (r.ctor? sig).isSome ↔ sig ∈ r.ctors.map (·.sig) := by
  simp only [ClassInfo.ctor?, List.find?_isSome, beq_iff_eq, List.mem_map]

theorem stateAfter_snoc (c : ClassDecl) (pre : List Member) (m : Member) :
    stateAfter c (pre ++ [m]) =
      (⟨pre.flatMap (Member.usedNames c.name) ++ m.usedNames c.name,
          pre.any (Member.ctorNamed c.name) || m.ctorNamed c.name,
          pre.any (Member.dtorNamed c.name) || m.dtorNamed c.name⟩,
        ⟨c.name, c.parent, pre.flatMap Member.attrInfos ++ m.attrInfos,
          pre.filterMap Member.methodInfo? ++ m.methodInfo?.toList,
          pre.filterMap Member.ctorInfo? ++ m.ctorInfo?.toList,
          (pre.filterMap Member.dtorSpan? ++ m.dtorSpan?.toList).head?, c.span, false⟩) := by
  simp only [stateAfter, List.flatMap_append, List.flatMap_cons, List.flatMap_nil,
    List.append_nil, List.any_append, List.any_cons, List.any_nil, Bool.or_false,
    List.filterMap_append, List.filterMap_cons, List.filterMap_nil]
  cases m.methodInfo? <;> cases m.ctorInfo? <;> cases m.dtorSpan? <;> rfl

theorem ite_error_ok_iff {ε α : Type} {b : Prop} [Decidable b] {e : ε} {y : Except ε α} {s : α} :
    (if b then Except.error e else y) = Except.ok s ↔ ¬ b ∧ y = Except.ok s := by
  by_cases hb : b <;> simp [hb]

theorem addMember_ok_iff {c : ClassDecl} {pre : List Member}
    (hpre : MembersWellFormed c.name pre) (m : Member) (s : Members) :
    addMember (stateAfter c pre) m = .ok s ↔
      MembersWellFormed c.name (pre ++ [m]) ∧ s = stateAfter c (pre ++ [m]) := by
  rw [stateAfter_snoc]
  cases m with
  | attr d =>
    rw [wellFormed_snoc_attr hpre, addMember, stateAfter,
      addAttrs_ok_iff d d.vars _ _ s hpre.names_nodup]
    simp only [Member.usedNames, Member.fieldNames, Member.ctorNamed, Member.dtorNamed,
      Member.attrInfos, Member.methodInfo?, Member.ctorInfo?, Member.dtorSpan?, Option.toList,
      List.append_nil, Bool.or_false, and_assoc]
  | method m =>
    rw [wellFormed_snoc_method hpre]
    simp only [addMember, stateAfter, Names.collides, Bool.or_eq_true, List.contains_iff_mem,
      Bool.and_eq_true, beq_iff_eq, ite_error_ok_iff, not_or, not_and, Except.ok.injEq,
      Member.usedNames, Member.fieldNames, Member.ctorNamed, Member.dtorNamed, Member.attrInfos,
      Member.methodInfo?, Member.ctorInfo?, Member.dtorSpan?, Option.toList, List.append_nil,
      Bool.or_false, and_assoc]
    -- the class name is taken by a constructor or destructor: say it the other way round
    rw [← not_or, imp_not_comm]
    exact and_congr_right fun _ ↦ and_congr_right fun _ ↦ eq_comm
  | ctor k =>
    rw [wellFormed_snoc_ctor hpre]
    simp only [addMember, stateAfter, List.contains_iff_mem, ctor?_isSome_iff, ite_error_ok_iff,
      Except.ok.injEq, Member.usedNames, Member.ctorNamed, Member.dtorNamed, Member.attrInfos,
      Member.methodInfo?, Member.ctorInfo?, Member.dtorSpan?, Option.toList, List.append_nil,
      Bool.or_false, and_assoc]
    refine and_congr_right fun _ ↦ and_congr_right fun _ ↦ ?_
    by_cases hk : k.name = c.name
    · simp only [hk, beq_self_eq_true, ↓reduceIte, List.append_nil, Bool.or_true]
      exact eq_comm
    · simp only [hk, beq_false_of_ne hk, ↓reduceIte, Bool.or_false, Bool.false_eq_true]
      exact eq_comm
  | dtor d =>
    rw [wellFormed_snoc_dtor hpre]
    simp only [addMember, stateAfter, List.contains_iff_mem, ite_error_ok_iff, Except.ok.injEq,
      Member.usedNames, Member.ctorNamed, Member.dtorNamed, Member.attrInfos,
      Member.methodInfo?, Member.ctorInfo?, Member.dtorSpan?, Option.toList, List.append_nil,
      Bool.or_false, Option.isSome_iff_ne_none, ne_eq, List.head?_eq_none_iff, not_not, and_assoc]
    refine and_congr_right fun _ ↦ and_congr_right fun hd ↦ ?_
    by_cases hk : d.name = c.name
    · simp only [hk, hd, beq_self_eq_true, ↓reduceIte, List.append_nil, Bool.or_true,
        List.nil_append, List.head?_cons]
      exact eq_comm
    · simp only [hk, hd, beq_false_of_ne hk, ↓reduceIte, Bool.or_false, Bool.false_eq_true,
        List.nil_append, List.head?_cons]
      exact eq_comm

theorem foldlM_addMember_ok_iff (c : ClassDecl) : ∀ (ms pre : List Member) (s : Members),
    MembersWellFormed c.name pre →
    (ms.foldlM addMember (stateAfter c pre) = .ok s ↔
      MembersWellFormed c.name (pre ++ ms) ∧ s = stateAfter c (pre ++ ms))
  | [], pre, s, h => by
    simp only [List.foldlM_nil, List.append_nil, h, true_and]
    exact ⟨fun e ↦ by cases e; rfl, fun e ↦ by subst e; rfl⟩
  | m :: ms, pre, s, h => by
    rw [List.foldlM_cons]
    cases hm : addMember (stateAfter c pre) m with
    | error e =>
      refine ⟨nofun, fun ⟨hwf, _⟩ ↦ ?_⟩
      -- the first members already break what the whole list keeps
      have hwf' : MembersWellFormed c.name (pre ++ [m]) := by
        rw [← List.singleton_append, ← List.append_assoc] at hwf
        exact MembersWellFormed.of_append hwf
      obtain ⟨s', hs'⟩ : ∃ s', addMember (stateAfter c pre) m = .ok s' :=
        ⟨_, (addMember_ok_iff h m _).mpr ⟨hwf', rfl⟩⟩
      rw [hm] at hs'
      cases hs'
    | ok s' =>
      obtain ⟨hwf, rfl⟩ := (addMember_ok_iff h m s').mp hm
      have ih := foldlM_addMember_ok_iff c ms (pre ++ [m]) s hwf
      rw [List.append_assoc, List.singleton_append] at ih
      exact ih

theorem record_ok_iff (c : ClassDecl) (r : ClassInfo) :
    record c = .ok r ↔ MembersWellFormed c.name c.members ∧ r = c.declared := by
  have h₀ : MembersWellFormed c.name [] := ⟨List.nodup_nil, by simp, List.nodup_nil, by simp⟩
  have hfold := fun s ↦ foldlM_addMember_ok_iff c c.members [] s h₀
  simp only [List.nil_append] at hfold
  have hstart : stateAfter c [] = (⟨[], false, false⟩, ClassInfo.empty c.name c.parent c.span) :=
    rfl
  unfold record
  rw [← hstart]
  cases hm : c.members.foldlM addMember (stateAfter c []) with
  | error e =>
    refine ⟨nofun, fun ⟨hwf, _⟩ ↦ ?_⟩
    cases hm.symm.trans ((hfold _).mpr ⟨hwf, rfl⟩)
  | ok s =>
    obtain ⟨hwf, rfl⟩ := (hfold s).mp hm
    simp only [hwf, true_and]
    exact ⟨fun e ↦ by cases e; rfl, fun e ↦ by subst e; rfl⟩

theorem map_replace_of_not_mem {rs : List ClassInfo} {r : ClassInfo}
    (h : r.name ∉ rs.map (·.name)) :
    rs.map (fun x ↦ if x.name == r.name then r else x) = rs := by
  calc rs.map (fun x ↦ if x.name == r.name then r else x) = rs.map id :=
        List.map_congr_left fun x hx ↦ by
          have hne : x.name ≠ r.name := fun e ↦ h (List.mem_map.mpr ⟨x, hx, e⟩)
          simp [hne]
    _ = rs := List.map_id rs

theorem update_declared {pre rest : List ClassDecl} {c : ClassDecl} (e : Option String)
    (hnd : ((pre ++ c :: rest).map (·.name)).Nodup) :
    (ClassTable.mk (pre.map ClassDecl.declared ++ (c :: rest).map bare) e).update c.declared =
      ⟨(pre ++ [c]).map ClassDecl.declared ++ rest.map bare, e⟩ := by
  simp only [List.map_append, List.map_cons, List.nodup_append, List.nodup_cons, List.mem_cons,
    List.mem_map] at hnd
  have hpre : c.declared.name ∉ (pre.map ClassDecl.declared).map (·.name) := by
    simp only [List.map_map, List.mem_map, not_exists, not_and]
    exact fun d hd e ↦ hnd.2.2 _ ⟨d, hd, rfl⟩ _ (Or.inl rfl) e
  have hrest : c.declared.name ∉ (rest.map bare).map (·.name) := by
    simp only [List.map_map, List.mem_map, not_exists, not_and]
    exact fun d hd e ↦ hnd.2.1.1 ⟨d, hd, e⟩
  simp only [ClassTable.update, List.map_append, List.map_cons, map_replace_of_not_mem hpre,
    map_replace_of_not_mem hrest, List.append_assoc]
  simp [bare, ClassInfo.empty, ClassDecl.declared]

theorem getLast?_cons_map_or {γ δ : Type} (f : γ → δ) (a : γ) (l : List γ) (e : Option δ) :
    ((a :: l).getLast?.map f).or e = (l.getLast?.map f).or (some (f a)) := by
  rw [List.getLast?_cons]
  cases l.getLast? <;> rfl

theorem recordAll_ok_iff : ∀ (rest pre : List ClassDecl) (e : Option String) (t' : ClassTable),
    ((pre ++ rest).map (·.name)).Nodup →
    (rest.foldlM (fun t c ↦ (record c).map (recordInto t c))
        ⟨pre.map ClassDecl.declared ++ rest.map bare, e⟩ = .ok t' ↔
      (∀ c ∈ rest, MembersWellFormed c.name c.members) ∧
        t' = ⟨(pre ++ rest).map ClassDecl.declared,
          ((rest.filter declaresEntry).getLast?.map (·.name)).or e⟩)
  | [], pre, e, t', _ => by
    simp only [List.foldlM_nil, List.map_nil, List.append_nil, List.not_mem_nil,
      IsEmpty.forall_iff, implies_true, List.filter_nil, List.getLast?_nil, Option.map_none,
      Option.none_or, true_and]
    exact ⟨fun h ↦ by cases h; rfl, fun h ↦ by subst h; rfl⟩
  | c :: rest, pre, e, t', hnd => by
    rw [List.foldlM_cons]
    cases hr : record c with
    | error err =>
      refine ⟨nofun, fun ⟨hwf, _⟩ ↦ ?_⟩
      cases hr.symm.trans ((record_ok_iff c _).mpr ⟨hwf c List.mem_cons_self, rfl⟩)
    | ok r =>
      obtain ⟨hwf, rfl⟩ := (record_ok_iff c r).mp hr
      -- the entry after `c`, then the classes after it
      let e' := if declaresEntry c then some c.name else e
      have hstep : recordInto ⟨pre.map ClassDecl.declared ++ (c :: rest).map bare, e⟩ c c.declared =
          ⟨(pre ++ [c]).map ClassDecl.declared ++ rest.map bare, e'⟩ := by
        unfold recordInto
        rw [update_declared e hnd]
        by_cases hc : declaresEntry c <;> simp [e', hc]
      have ih := recordAll_ok_iff rest (pre ++ [c]) e' t'
        (by rwa [List.append_assoc, List.singleton_append])
      have hentry : ((rest.filter declaresEntry).getLast?.map (·.name)).or e' =
          (((c :: rest).filter declaresEntry).getLast?.map (·.name)).or e := by
        by_cases hc : declaresEntry c
        · simp only [e', hc, if_true, List.filter_cons_of_pos hc, getLast?_cons_map_or]
        · simp only [e', hc, Bool.false_eq_true, if_false, List.filter_cons_of_neg hc]
      change rest.foldlM _ (recordInto _ c c.declared) = _ ↔ _
      rw [hstep, ih, hentry, List.append_assoc, List.singleton_append, List.forall_mem_cons]
      simp only [hwf, true_and]

theorem except_bind_ok_iff {x : Except CompileError α} {f : α → Except CompileError β} {b : β} :
    (x >>= f) = .ok b ↔ ∃ a, x = .ok a ∧ f a = .ok b :=
  ⟨except_bind_ok, fun ⟨_, hx, hf⟩ ↦ by rw [hx]; exact hf⟩

section Stages

variable (p : Program)

abbrev bareTable : ClassTable := ⟨p.classes.map bare, none⟩

theorem bareTable_contains_iff {q : String} :
    (bareTable p).contains q = true ↔ ∃ d ∈ p.classes, d.name = q := by
  simp [contains_iff, bare, ClassInfo.empty]

theorem registerAll_empty_ok_iff (t : ClassTable) :
    p.classes.foldlM (fun t c ↦ t.register (bare c)) ClassTable.empty = .ok t ↔
      (p.classes.map (·.name)).Nodup ∧ t = bareTable p := by
  simpa [ClassTable.empty] using @registerAll_ok_iff p.classes ClassTable.empty t List.nodup_nil

theorem checkParents_bare_ok_iff :
    checkParents (bareTable p) p.classes = .ok () ↔
      ∀ c ∈ p.classes, ∀ q, c.parent = some q → ∃ d ∈ p.classes, d.name = q := by
  simp only [checkParents_ok_iff, bareTable_contains_iff]

theorem checkAcyclic_bare_ok_iff (hnd : (p.classes.map (·.name)).Nodup)
    (hpar : ∀ c ∈ p.classes, ∀ q, c.parent = some q → ∃ d ∈ p.classes, d.name = q) :
    (bareTable p).checkAcyclic = .ok () ↔ ∀ a, ¬ Relation.TransGen p.ParentOf a a := by
  have hparent : ParentIn (p.classes.map bare) = p.ParentOf := by
    funext a b
    simp [ParentIn, Program.ParentOf, bare, ClassInfo.empty]
  rw [checkAcyclic_ok_iff, acyclic_iff_names, hparent]
  · rw [List.map_map]
    exact hnd
  · simpa [bare, ClassInfo.empty] using hpar

theorem recordAll_bare_ok_iff (hnd : (p.classes.map (·.name)).Nodup) (t : ClassTable) :
    p.classes.foldlM (fun t c ↦ (record c).map (recordInto t c)) (bareTable p) = .ok t ↔
      (∀ c ∈ p.classes, MembersWellFormed c.name c.members) ∧
        t = ⟨p.classes.map ClassDecl.declared, p.lastEntry⟩ := by
  simpa [Program.lastEntry] using recordAll_ok_iff p.classes [] none t hnd

end Stages

theorem withConsole_ok_iff (t T : ClassTable) :
    (if t.contains Console.className then Pure.pure t else t.register Console.record) = .ok T ↔
      T = ⟨t.classes ++ (if t.contains Console.className then [] else [Console.record]),
        t.entry⟩ := by
  by_cases h : t.contains Console.className
  · simp only [h, if_true, List.append_nil]
    exact ⟨fun e ↦ by cases e; rfl, fun e ↦ by subst e; rfl⟩
  · simp only [h, Bool.false_eq_true, if_false, register_ok_iff]
    have hn : Console.record.name ∉ t.classes.map (·.name) := fun hm ↦ h (contains_iff.mpr hm)
    simp only [hn, not_false_eq_true, true_and]

/-- The table registration builds from a well-formed program. -/
def tableOf (p : Program) : ClassTable :=
  ⟨p.classes.map ClassDecl.declared ++
      (if p.classes.any (·.name == Console.className) then [] else [Console.record]),
    p.lastEntry⟩

theorem registered_ok_iff (p : Program) (T : ClassTable) :
    registered p = .ok T ↔ p.WellFormed ∧ T = tableOf p := by
  have hany : (ClassTable.mk (p.classes.map ClassDecl.declared) p.lastEntry).contains
      Console.className = p.classes.any (·.name == Console.className) := by
    simp [ClassTable.contains, List.any_map, Function.comp_def, ClassDecl.declared]
  rw [registered]
  constructor
  · intro h
    obtain ⟨t₁, h₁, h⟩ := except_bind_ok h
    obtain ⟨hnd, rfl⟩ := (registerAll_empty_ok_iff p t₁).mp h₁
    obtain ⟨⟨⟩, h₂, h⟩ := except_bind_ok h
    have hpar := (checkParents_bare_ok_iff p).mp h₂
    obtain ⟨⟨⟩, h₃, h⟩ := except_bind_ok h
    have hac := (checkAcyclic_bare_ok_iff p hnd hpar).mp h₃
    obtain ⟨t₄, h₄, h⟩ := except_bind_ok h
    obtain ⟨hmem, rfl⟩ := (recordAll_bare_ok_iff p hnd t₄).mp h₄
    rw [withConsole_ok_iff, hany] at h
    exact ⟨⟨hnd, hpar, hac, hmem⟩, h⟩
  · rintro ⟨hwf, rfl⟩
    refine except_bind_ok_iff.mpr
      ⟨_, (registerAll_empty_ok_iff p _).mpr ⟨hwf.names_nodup, rfl⟩, ?_⟩
    refine except_bind_ok_iff.mpr ⟨(), (checkParents_bare_ok_iff p).mpr hwf.parents_declared, ?_⟩
    refine except_bind_ok_iff.mpr
      ⟨(), (checkAcyclic_bare_ok_iff p hwf.names_nodup hwf.parents_declared).mpr hwf.acyclic, ?_⟩
    refine except_bind_ok_iff.mpr
      ⟨_, (recordAll_bare_ok_iff p hwf.names_nodup _).mpr ⟨hwf.members, rfl⟩, ?_⟩
    rw [withConsole_ok_iff, hany]
    rfl

/-- Registration accepts exactly the well-formed programs, and then records every class with
exactly the members it declares, in declaration order, followed by the console class unless a
class is named like it; the entry point is the last class that declares one. -/
theorem registration_exact (p : Program) (T : ClassTable) :
    (ClassTable.ofProgram p).run.2 = .ok T ↔
      p.WellFormed ∧
        T = ⟨p.classes.map ClassDecl.declared ++
            (if p.classes.any (·.name == Console.className) then [] else [Console.record]),
          p.lastEntry⟩ := by
  rw [ofProgram_run]
  exact registered_ok_iff p T

end ClassLang.Proofs.Registration
