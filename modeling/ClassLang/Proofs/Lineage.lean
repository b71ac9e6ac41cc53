import ClassLang.Proofs.Registration

namespace ClassLang.ClassTable

open Proofs.Registration in
/-- A table whose classes have distinct names, whose superclasses are all registered, and in
which no class is its own ancestor: what registration leaves. -/
structure Sound (t : ClassTable) : Prop where
  names_nodup : (t.classes.map (·.name)).Nodup
  parents_registered : ∀ c ∈ t.classes, ∀ q, c.parent = some q → ∃ d ∈ t.classes, d.name = q
  acyclic : ∀ a, ¬ Relation.TransGen (ParentIn t.classes) a a

/-- `l` is the record `c` followed by the records of its superclasses, up to a class without
one. -/
inductive ParentChain (t : ClassTable) : ClassInfo → List ClassInfo → Prop
  | root {c : ClassInfo} : c.parent = none → ParentChain t c [c]
  | step {c d : ClassInfo} {l : List ClassInfo} (q : String) :
      c.parent = some q → t.get? q = some d → ParentChain t d l → ParentChain t c (c :: l)

/-- What the walk up the superclasses gives in every table, cyclic ones included. -/
structure LineageSound (t : ClassTable) : Prop where
  names_nodup : ∀ n, ((t.lineage n).map (·.name)).Nodup
  registered : ∀ n, ∀ r ∈ t.lineage n, r ∈ t.classes
  isSubtype_iff : ∀ S U, t.isSubtype S U = true ↔ U ∈ (t.lineage S).map (·.name)
  isSubtype_refl : ∀ C c, t.get? C = some c → t.isSubtype C C = true

/-- How lineages, member lookup and subtyping behave in a table registration builds. -/
structure NearestHost (t : ClassTable) : Prop where
  chain : ∀ C c, t.get? C = some c → ParentChain t c (t.lineage C)
  findAttr_nearest : ∀ C c n, t.get? C = some c →
    t.findAttr C n = ((c.attr? n).map (c, ·)).or (c.parent.bind (t.findAttr · n))
  findMethod_nearest : ∀ C c n, t.get? C = some c →
    t.findMethod C n = ((c.method? n).map (c, ·)).or (c.parent.bind (t.findMethod · n))
  isSubtype_trans : ∀ A B D, t.isSubtype A B = true → t.isSubtype B D = true →
    t.isSubtype A D = true
  isSubtype_antisymm : ∀ A B, t.isSubtype A B = true → t.isSubtype B A = true → A = B

end ClassLang.ClassTable

namespace ClassLang.Proofs.Lineage

open ClassLang ClassTable ClassLang.Proofs.Registration

variable {t : ClassTable}

theorem get?_some {n : String} {c : ClassInfo} (h : t.get? n = some c) :
    c ∈ t.classes ∧ c.name = n := by
  unfold ClassTable.get? at h
  exact ⟨List.mem_of_find?_eq_some h, by simpa using List.find?_some h⟩

theorem get?_name (hnd : (t.classes.map (·.name)).Nodup) {c : ClassInfo} (hc : c ∈ t.classes) :
    t.get? c.name = some c := by
  obtain ⟨d, hd⟩ : ∃ d, t.get? c.name = some d :=
    Option.isSome_iff_exists.mp (List.find?_isSome.mpr ⟨c, hc, by simp⟩)
  obtain ⟨hdm, hdn⟩ := get?_some hd
  rw [hd, List.inj_on_of_nodup_map hnd hdm hc hdn]

theorem climb_none (fuel : Nat) (seen : List String) : t.climb fuel seen none = [] := by
  cases fuel <;> rfl

theorem climb_distinct : ∀ (fuel : Nat) (seen : List String) (cur : Option ClassInfo),
    (∀ c ∈ cur, c ∈ t.classes) →
    ((t.climb fuel seen cur).map (·.name)).Nodup ∧
      ∀ r ∈ t.climb fuel seen cur, r ∈ t.classes ∧ r.name ∉ seen
  | 0, _, _, _ => by simp [ClassTable.climb]
  | _ + 1, _, none, _ => by simp [ClassTable.climb]
  | fuel + 1, seen, some c, hc => by
    by_cases hs : seen.contains c.name
    · rw [ClassTable.climb, if_pos hs]
      simp
    · have hpar : ∀ d ∈ c.parent.bind t.get?, d ∈ t.classes := by
        intro d hd
        obtain ⟨q, -, hq⟩ := Option.bind_eq_some_iff.mp hd
        exact (get?_some hq).1
      obtain ⟨hnd, hmem⟩ := climb_distinct fuel (c.name :: seen) _ hpar
      simp only [ClassTable.climb, hs, Bool.false_eq_true, if_false, List.map_cons]
      refine ⟨List.nodup_cons.mpr ⟨fun h ↦ ?_, hnd⟩, ?_⟩
      · obtain ⟨r, hr, he⟩ := List.mem_map.mp h
        exact (hmem r hr).2 (he ▸ List.mem_cons_self)
      · rintro r (_ | ⟨_, hr⟩)
        · exact ⟨hc c rfl, by simpa using hs⟩
        · exact ⟨(hmem r hr).1, fun h ↦ (hmem r hr).2 (List.mem_cons_of_mem _ h)⟩

theorem lineage_of_get_none {n : String} (h : t.get? n = none) : t.lineage n = [] := by
  unfold ClassTable.lineage
  rw [h, climb_none]

theorem lineage_of_get {n : String} {c : ClassInfo} (h : t.get? n = some c) :
    ∃ l, t.lineage n = c :: l := by
  obtain ⟨k, hk⟩ := Nat.exists_eq_succ_of_ne_zero
    (Nat.ne_of_gt (List.length_pos_of_mem (get?_some h).1))
  unfold ClassTable.lineage
  rw [h, hk]
  exact ⟨t.climb k [c.name] (c.parent.bind t.get?), by simp [ClassTable.climb]⟩

theorem lineage_head {n : String} {r : ClassInfo} (hr : r ∈ t.lineage n) :
    ∃ c l, t.get? n = some c ∧ t.lineage n = c :: l := by
  cases h : t.get? n with
  | none => rw [lineage_of_get_none h] at hr; cases hr
  | some c =>
    obtain ⟨l, hl⟩ := lineage_of_get h
    exact ⟨c, l, rfl, hl⟩

theorem isSubtype_iff (S U : String) :
    t.isSubtype S U = true ↔ U ∈ (t.lineage S).map (·.name) := by
  simp [ClassTable.isSubtype, List.any_eq_true]

theorem lineageSound (t : ClassTable) : t.LineageSound where
  names_nodup n := (climb_distinct _ [] _ fun _ hc ↦ (get?_some hc).1).1
  registered n r hr := ((climb_distinct _ [] _ fun _ hc ↦ (get?_some hc).1).2 r hr).1
  isSubtype_iff := isSubtype_iff
  isSubtype_refl C c h := by
    obtain ⟨l, hl⟩ := lineage_of_get h
    rw [isSubtype_iff, hl, List.map_cons, (get?_some h).2]
    exact List.mem_cons_self

theorem mem_names_of_transGen {a b : String}
    (h : Relation.TransGen (ParentIn t.classes) a b) : a ∈ t.classes.map (·.name) := by
  obtain ⟨_, ⟨r, hr, rfl, -⟩, -⟩ := Relation.TransGen.head'_iff.mp h
  exact List.mem_map_of_mem hr

section Sound

variable (hs : t.Sound)
include hs

theorem chain_of_climb : ∀ (fuel : Nat) (seen : List String) (c : ClassInfo),
    c ∈ t.classes → seen.Nodup →
    (∀ s ∈ seen, Relation.TransGen (ParentIn t.classes) s c.name) →
    t.classes.length ≤ fuel + seen.length → ParentChain t c (t.climb fuel seen (some c)) := by
  intro fuel
  induction fuel with
  | zero =>
    intro seen c hc hnd hseen hlen
    -- the names met fill the table, yet `c` is registered and not among them
    exfalso
    have hnew : c.name ∉ seen := fun h ↦ hs.acyclic _ (hseen _ h)
    have hsub : c.name :: seen ⊆ t.classes.map (·.name) := by
      rintro x (_ | ⟨_, hx⟩)
      · exact List.mem_map_of_mem hc
      · exact mem_names_of_transGen (hseen x hx)
    have hle := ((List.nodup_cons.mpr ⟨hnew, hnd⟩).subperm hsub).length_le
    simp only [List.length_cons, List.length_map] at hle
    omega
  | succ fuel ih =>
    intro seen c hc hnd hseen hlen
    have hnew : c.name ∉ seen := fun h ↦ hs.acyclic _ (hseen _ h)
    have hclimb : t.climb (fuel + 1) seen (some c) =
        c :: t.climb fuel (c.name :: seen) (c.parent.bind t.get?) := by
      simp [ClassTable.climb, hnew]
    rw [hclimb]
    cases hp : c.parent with
    | none =>
      rw [Option.bind_none, climb_none]
      exact .root hp
    | some q =>
      obtain ⟨d, hd, rfl⟩ := hs.parents_registered c hc q hp
      have hget := get?_name hs.names_nodup hd
      rw [Option.bind_some, hget]
      refine .step d.name hp hget (ih _ d hd (List.nodup_cons.mpr ⟨hnew, hnd⟩) ?_ ?_)
      · have hcd : ParentIn t.classes c.name d.name := ⟨c, hc, rfl, hp⟩
        rintro s (_ | ⟨_, hs'⟩)
        · exact .single hcd
        · exact (hseen s hs').tail hcd
      · simp only [List.length_cons]
        omega

theorem lineage_chain {n : String} {c : ClassInfo} (h : t.get? n = some c) :
    ParentChain t c (t.lineage n) := by
  unfold ClassTable.lineage
  rw [h]
  exact chain_of_climb hs _ [] c (get?_some h).1 List.nodup_nil (by simp) (by simp)

omit hs in
theorem chain_unique {c : ClassInfo} {l l' : List ClassInfo} (h : ParentChain t c l)
    (h' : ParentChain t c l') : l = l' := by
  induction h generalizing l' with
  | root hp =>
    cases h' with
    | root _ => rfl
    | step _ hq _ _ => rw [hp] at hq; cases hq
  | step q hp hd _ ih =>
    cases h' with
    | root hp' => rw [hp] at hp'; cases hp'
    | step _ hp' hd' hl' =>
      rw [hp] at hp'
      cases hp'
      rw [hd] at hd'
      cases hd'
      rw [ih hl']

theorem lineage_eq_of_chain {c : ClassInfo} {l : List ClassInfo} (hc : c ∈ t.classes)
    (h : ParentChain t c l) : t.lineage c.name = l :=
  chain_unique (lineage_chain hs (get?_name hs.names_nodup hc)) h

theorem lineage_root {n : String} {c : ClassInfo} (h : t.get? n = some c)
    (hp : c.parent = none) : t.lineage n = [c] :=
  chain_unique (lineage_chain hs h) (.root hp)

theorem lineage_step {n q : String} {c : ClassInfo} (h : t.get? n = some c)
    (hp : c.parent = some q) : t.lineage n = c :: t.lineage q := by
  have hch := lineage_chain hs h
  generalize t.lineage n = l at hch
  cases hch with
  | root hp' => rw [hp] at hp'; cases hp'
  | step _ hp' hd hl =>
    rw [hp] at hp'
    cases hp'
    rw [chain_unique hl (lineage_chain hs hd)]

theorem findHost {β : Type} (f : ClassInfo → Option β) {n : String} {c : ClassInfo}
    (h : t.get? n = some c) :
    (t.lineage n).findSome? (fun r ↦ (f r).map (r, ·)) =
      ((f c).map (c, ·)).or
        (c.parent.bind fun q ↦ (t.lineage q).findSome? fun r ↦ (f r).map (r, ·)) := by
  cases hp : c.parent with
  | none =>
    rw [lineage_root hs h hp]
    simp only [List.findSome?_cons, List.findSome?_nil]
    cases f c <;> rfl
  | some q =>
    rw [lineage_step hs h hp]
    simp only [List.findSome?_cons]
    cases f c <;> rfl

theorem chain_suffix {c : ClassInfo} {l : List ClassInfo} (h : ParentChain t c l) :
    c ∈ t.classes → ∀ r ∈ l, ∃ pre, l = pre ++ t.lineage r.name := by
  induction h with
  | root hp =>
    intro hc r hr
    rw [List.mem_singleton] at hr
    subst hr
    exact ⟨[], (lineage_eq_of_chain hs hc (.root hp)).symm⟩
  | @step c d l q hp hd hl ih =>
    intro hc r hr
    rcases List.mem_cons.mp hr with rfl | hr
    · exact ⟨[], (lineage_eq_of_chain hs hc (.step q hp hd hl)).symm⟩
    · obtain ⟨pre, hpre⟩ := ih (get?_some hd).1 r hr
      exact ⟨c :: pre, by rw [hpre, List.cons_append]⟩

theorem lineage_suffix {n : String} {r : ClassInfo} (hr : r ∈ t.lineage n) :
    ∃ pre, t.lineage n = pre ++ t.lineage r.name := by
  obtain ⟨c, l, h, -⟩ := lineage_head hr
  exact chain_suffix hs (lineage_chain hs h) (get?_some h).1 r hr

theorem lineage_suffix_of_isSubtype {S U : String} (h : t.isSubtype S U = true) :
    ∃ pre, t.lineage S = pre ++ t.lineage U := by
  obtain ⟨r, hr, rfl⟩ := List.mem_map.mp ((isSubtype_iff S U).mp h)
  exact lineage_suffix hs hr

theorem isSubtype_trans {A B D : String} (hab : t.isSubtype A B = true)
    (hbd : t.isSubtype B D = true) : t.isSubtype A D = true := by
  obtain ⟨pre, hpre⟩ := lineage_suffix_of_isSubtype hs hab
  rw [isSubtype_iff] at hbd ⊢
  rw [hpre, List.map_append]
  exact List.mem_append_right _ hbd

theorem isSubtype_antisymm {A B : String} (hab : t.isSubtype A B = true)
    (hba : t.isSubtype B A = true) : A = B := by
  obtain ⟨pre, hpre⟩ := lineage_suffix_of_isSubtype hs hab
  obtain ⟨pre', hpre'⟩ := lineage_suffix_of_isSubtype hs hba
  -- each lineage ends the other, so neither has anything before the other
  have hlen := congrArg List.length (hpre.trans (congrArg (pre ++ ·) hpre'))
  simp only [List.length_append] at hlen
  have hnil : pre = [] := List.eq_nil_of_length_eq_zero (by omega)
  obtain ⟨r, hr, -⟩ := List.mem_map.mp ((isSubtype_iff A B).mp hab)
  obtain ⟨r', hr', -⟩ := List.mem_map.mp ((isSubtype_iff B A).mp hba)
  obtain ⟨a, l, ha, hla⟩ := lineage_head hr
  obtain ⟨b, l', hb, hlb⟩ := lineage_head hr'
  rw [hnil, List.nil_append, hla, hlb] at hpre
  rw [← (get?_some ha).2, ← (get?_some hb).2, (List.cons.inj hpre).1]

theorem nearestHost : t.NearestHost where
  chain _ _ h := lineage_chain hs h
  findAttr_nearest _ _ n h := findHost hs (·.attr? n) h
  findMethod_nearest _ _ n h := findHost hs (·.method? n) h
  isSubtype_trans _ _ _ := isSubtype_trans hs
  isSubtype_antisymm _ _ := isSubtype_antisymm hs

end Sound

theorem mem_tableOf_of_parent {p : Program} {r : ClassInfo} {q : String}
    (hr : r ∈ (tableOf p).classes) (hq : r.parent = some q) :
    ∃ c ∈ p.classes, c.declared = r := by
  simp only [tableOf, List.mem_append, List.mem_map] at hr
  rcases hr with hr | hr
  · exact hr
  · split at hr
    · cases hr
    · rw [List.mem_singleton] at hr
      subst hr
      cases hq

theorem tableOf_sound {p : Program} (hwf : p.WellFormed) : (tableOf p).Sound := by
  have hdecl : (p.classes.map ClassDecl.declared).map (·.name) = p.classes.map (·.name) := by
    simp [Function.comp_def, ClassDecl.declared]
  refine ⟨?_, ?_, ?_⟩
  · -- the console class comes last, and only when no class took its name
    simp only [tableOf, List.map_append, hdecl]
    split
    · simpa using hwf.names_nodup
    · rename_i hio
      refine List.nodup_append.mpr ⟨hwf.names_nodup, by simp, ?_⟩
      simp only [List.map_cons, List.map_nil, List.mem_singleton]
      rintro a ha b rfl rfl
      obtain ⟨c, hc, he⟩ := List.mem_map.mp ha
      exact hio (List.any_eq_true.mpr ⟨c, hc, beq_iff_eq.mpr he⟩)
  · intro r hr q hq
    obtain ⟨c, hc, rfl⟩ := mem_tableOf_of_parent hr hq
    obtain ⟨d, hd, rfl⟩ := hwf.parents_declared c hc q hq
    exact ⟨d.declared, List.mem_append_left _ (List.mem_map_of_mem hd), rfl⟩
  · intro a ha
    refine hwf.acyclic a (Relation.TransGen.mono (fun x y hxy ↦ ?_) a a ha)
    obtain ⟨r, hr, rfl, hq⟩ := hxy
    obtain ⟨c, hc, rfl⟩ := mem_tableOf_of_parent hr hq
    exact ⟨c, hc, rfl, hq⟩

/-- In every table registration builds, a class's lineage is its whole chain of superclasses,
members resolve to their nearest host and subtyping is a partial order; in every table at all,
a lineage holds registered classes, each once, and subtyping is membership in it. -/
theorem lineage_nearest_host (p : Program) (T : ClassTable)
    (hT : (ClassTable.ofProgram p).run.2 = .ok T) :
    T.NearestHost ∧ ∀ t : ClassTable, t.LineageSound := by
  rw [ofProgram_run, registered_ok_iff] at hT
  obtain ⟨hwf, rfl⟩ := hT
  exact ⟨nearestHost (tableOf_sound hwf), lineageSound⟩

/-- A class `A` and a subclass `B` of it. -/
def baseAndDerived : Program :=
  ⟨[⟨"A", none, [], Span.origin⟩, ⟨"B", some "A", [], Span.origin⟩]⟩

theorem lineage_nearest_host_baseAndDerived :
    (ClassTable.ofProgram baseAndDerived).run.2 = .ok (tableOf baseAndDerived) ∧
      (tableOf baseAndDerived).NearestHost ∧ ∀ t : ClassTable, t.LineageSound :=
  ⟨rfl, lineage_nearest_host baseAndDerived _ rfl⟩

example : ((tableOf baseAndDerived).lineage "B").map (·.name) = ["B", "A"] := by rfl

end ClassLang.Proofs.Lineage
