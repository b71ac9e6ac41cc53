import ClassLang.Proofs.TableViews
import ClassLang.Proofs.Compatibility
import Mathlib.Data.String.Basic

namespace ClassLang

/-- Of the constructor kept so far and the next one a scan meets, the one to keep: the next one
only when its signature text is less. -/
def keepLeast (best : Option CtorInfo) (k : CtorInfo) : CtorInfo :=
  best.elim k fun b ↦ if k.sig.text < b.sig.text then k else b

def pickLeast (cands : List CtorInfo) : Option CtorInfo :=
  cands.foldl (fun best k ↦ some (keepLeast best k)) none

/-- The constructor a `new` with arguments of types `args` calls in the class record `r` when a
scan sees its constructors in the order `l`. -/
def ClassTable.resolveCtorIn (t : ClassTable) (r : ClassInfo) (l : List CtorInfo)
    (args : List Ty) : Option CtorInfo :=
  (r.ctor? ⟨args⟩).or (pickLeast (l.filter (·.sig.accepts t args)))

/-- How a `new` of class `C` with arguments of types `args` picks a constructor. -/
structure ClassTable.ResolvesCtor (t : ClassTable) (C : String) (args : List Ty) : Prop where
  /-- A constructor is found exactly when `C` declares one with the arguments' types or one whose
  parameters, as many as the arguments, each accept the argument beside it. -/
  found_iff : (t.resolveCtor C args).isSome = true ↔ ∃ r, t.get? C = some r ∧ ∃ k ∈ r.ctors,
    k.sig = ⟨args⟩ ∨ List.Forall₂ (fun p a ↦ Ty.compatible t p a = true) k.sig.types args
  /-- The constructor with the arguments' types wins. -/
  exact : ∀ k, t.findCtor C ⟨args⟩ = some k → t.resolveCtor C args = some k
  /-- Otherwise the one found accepts the arguments and has the least text of those that do. -/
  least : t.findCtor C ⟨args⟩ = none → ∀ k, t.resolveCtor C args = some k →
    ∃ r, t.get? C = some r ∧ k ∈ r.ctors ∧ k.sig.accepts t args = true ∧
      ∀ k' ∈ r.ctors, k'.sig.accepts t args = true → k.sig.text ≤ k'.sig.text
  /-- A scan in any other order finds a constructor of the same text, and the same constructor
  when the constructors that accept the arguments have distinct texts. -/
  any_order : ∀ r, t.get? C = some r → ∀ l, l.Perm r.ctors →
    (t.resolveCtor C args).map (·.sig.text) = (t.resolveCtorIn r l args).map (·.sig.text) ∧
      (((r.ctors.filter (·.sig.accepts t args)).map (·.sig.text)).Nodup →
        t.resolveCtor C args = t.resolveCtorIn r l args)

end ClassLang

namespace ClassLang.Proofs.CtorResolution

open ClassLang ClassTable Runs

theorem keepLeast_some (b k : CtorInfo) :
    keepLeast (some b) k = if k.sig.text < b.sig.text then k else b := rfl

theorem keepLeast_le_next (best : Option CtorInfo) (k : CtorInfo) :
    (keepLeast best k).sig.text ≤ k.sig.text := by
  cases best with
  | none => exact le_rfl
  | some b =>
    rw [keepLeast_some]
    by_cases h : k.sig.text < b.sig.text
    · rw [if_pos h]
    · rw [if_neg h]
      exact le_of_not_gt h

theorem keepLeast_le_kept {best : Option CtorInfo} {b : CtorInfo} (hb : best = some b)
    (k : CtorInfo) : (keepLeast best k).sig.text ≤ b.sig.text := by
  subst hb
  rw [keepLeast_some]
  by_cases h : k.sig.text < b.sig.text
  · rw [if_pos h]
    exact le_of_lt h
  · rw [if_neg h]

theorem keepLeast_cases (best : Option CtorInfo) (k : CtorInfo) :
    keepLeast best k = k ∨ best = some (keepLeast best k) := by
  cases best with
  | none => exact .inl rfl
  | some b =>
    rw [keepLeast_some]
    by_cases h : k.sig.text < b.sig.text
    · exact .inl (if_pos h)
    · exact .inr (by rw [if_neg h])

theorem foldl_keepLeast : ∀ (l : List CtorInfo) (acc : Option CtorInfo) {k : CtorInfo},
    l.foldl (fun best k ↦ some (keepLeast best k)) acc = some k →
      (k ∈ l ∨ acc = some k) ∧ (∀ k' ∈ l, k.sig.text ≤ k'.sig.text) ∧
        ∀ b, acc = some b → k.sig.text ≤ b.sig.text
  | [], acc, k, h => by
    cases h
    exact ⟨.inr rfl, by simp, fun b hb ↦ by cases hb; exact le_rfl⟩
  | c :: l, acc, k, h => by
    obtain ⟨hmem, hle, hacc⟩ := foldl_keepLeast l _ h
    -- the step kept `c` or what came before, and is no more than either
    have hc : k.sig.text ≤ (keepLeast acc c).sig.text := hacc _ rfl
    refine ⟨?_, ?_, fun b hb ↦ hc.trans (keepLeast_le_kept hb c)⟩
    · rcases hmem with hk | hk
      · exact .inl (List.mem_cons_of_mem c hk)
      · cases hk
        rcases keepLeast_cases acc c with hc' | hc'
        · rw [hc']
          exact .inl List.mem_cons_self
        · exact .inr hc'
    · intro k' hk'
      rcases List.mem_cons.mp hk' with rfl | hk'
      · exact hc.trans (keepLeast_le_next acc k')
      · exact hle k' hk'

theorem pickLeast_eq_none_iff (l : List CtorInfo) : pickLeast l = none ↔ l = [] := by
  cases l with
  | nil => exact ⟨fun _ ↦ rfl, fun _ ↦ rfl⟩
  | cons c l =>
    refine ⟨fun h ↦ ?_, fun h ↦ nomatch h⟩
    -- once a scan has kept something it keeps something
    have hsome : ∀ (l : List CtorInfo) (b : CtorInfo),
        (l.foldl (fun best k ↦ some (keepLeast best k)) (some b)).isSome = true := by
      intro l
      induction l with
      | nil => intro b; rfl
      | cons d l ih => intro b; exact ih _
    have h' := hsome l (keepLeast none c)
    rw [pickLeast, List.foldl_cons] at h
    rw [h] at h'
    cases h'

theorem pickLeast_mem {l : List CtorInfo} {k : CtorInfo} (h : pickLeast l = some k) : k ∈ l := by
  rcases (foldl_keepLeast l none h).1 with hk | hk
  · exact hk
  · cases hk

theorem pickLeast_least {l : List CtorInfo} {k : CtorInfo} (h : pickLeast l = some k) :
    ∀ k' ∈ l, k.sig.text ≤ k'.sig.text :=
  (foldl_keepLeast l none h).2.1

theorem pickLeast_perm_text {l l' : List CtorInfo} (hp : l.Perm l') :
    (pickLeast l).map (·.sig.text) = (pickLeast l').map (·.sig.text) := by
  cases h : pickLeast l with
  | none =>
    rw [pickLeast_eq_none_iff] at h
    subst h
    rw [List.nil_perm.mp hp]
    rfl
  | some k =>
    obtain ⟨k', h'⟩ : ∃ k', pickLeast l' = some k' := by
      cases h' : pickLeast l' with
      | some k' => exact ⟨k', rfl⟩
      | none =>
        rw [pickLeast_eq_none_iff] at h'
        subst h'
        rw [List.perm_nil.mp hp] at h
        cases h
    -- each kept one is among the other's candidates, so neither text is less than the other
    have h₁ := pickLeast_least h k' (hp.symm.subset (pickLeast_mem h'))
    have h₂ := pickLeast_least h' k (hp.subset (pickLeast_mem h))
    rw [h', Option.map_some, Option.map_some, le_antisymm h₁ h₂]

theorem pickLeast_perm {l l' : List CtorInfo} (hp : l.Perm l')
    (hn : (l.map (·.sig.text)).Nodup) : pickLeast l = pickLeast l' := by
  have ht := pickLeast_perm_text hp
  cases h : pickLeast l with
  | none =>
    rw [h, Option.map_none] at ht
    exact (Option.map_eq_none_iff.mp ht.symm).symm
  | some k =>
    rw [h, Option.map_some] at ht
    obtain ⟨k', h', hkk⟩ := Option.map_eq_some_iff.mp ht.symm
    rw [h', List.inj_on_of_nodup_map hn (pickLeast_mem h)
      (hp.symm.subset (pickLeast_mem h')) hkk.symm]

theorem Signature.accepts_iff (t : ClassTable) (s : Signature) (args : List Ty) :
    s.accepts t args = true ↔ List.Forall₂ (fun p a ↦ Ty.compatible t p a = true) s.types args := by
  rw [List.forall₂_iff_zip]
  simp [Signature.accepts]

theorem ctor?_some {r : ClassInfo} {s : Signature} {k : CtorInfo} (h : r.ctor? s = some k) :
    k ∈ r.ctors ∧ k.sig = s := by
  unfold ClassInfo.ctor? at h
  exact ⟨List.mem_of_find?_eq_some h, by simpa using List.find?_some h⟩

theorem ctor?_none {r : ClassInfo} {s : Signature} (h : r.ctor? s = none) :
    ∀ k ∈ r.ctors, k.sig ≠ s := by
  unfold ClassInfo.ctor? at h
  simpa using List.find?_eq_none.mp h

theorem resolveCtorBy_eq {t : ClassTable} {C : String} {r : ClassInfo} (hr : t.get? C = some r)
    (order : ClassInfo → List CtorInfo) (args : List Ty) :
    t.resolveCtorBy order C args = t.resolveCtorIn r (order r) args := by
  unfold resolveCtorBy resolveCtorIn findCtor pickLeast
  rw [hr, Option.bind_some]
  cases r.ctor? ⟨args⟩ with
  | some k => rfl
  | none =>
    simp only [Option.none_or]
    congr 1
    funext best k
    cases best with
    | none => rfl
    | some b =>
      rw [keepLeast_some]
      exact (apply_ite some _ k b).symm

theorem resolveCtorBy_of_get_none {t : ClassTable} {C : String} (h : t.get? C = none)
    (order : ClassInfo → List CtorInfo) (args : List Ty) : t.resolveCtorBy order C args = none := by
  unfold resolveCtorBy findCtor
  rw [h]
  rfl

theorem resolveCtorIn_perm (t : ClassTable) (r : ClassInfo) {l l' : List CtorInfo}
    (hp : l.Perm l') (args : List Ty) :
    (t.resolveCtorIn r l args).map (·.sig.text) = (t.resolveCtorIn r l' args).map (·.sig.text) ∧
      (((l.filter (·.sig.accepts t args)).map (·.sig.text)).Nodup →
        t.resolveCtorIn r l args = t.resolveCtorIn r l' args) := by
  have hf := hp.filter (·.sig.accepts t args)
  unfold resolveCtorIn
  cases r.ctor? ⟨args⟩ with
  | some k => exact ⟨rfl, fun _ ↦ rfl⟩
  | none =>
    simp only [Option.none_or]
    exact ⟨pickLeast_perm_text hf, pickLeast_perm hf⟩

section Order

variable {order : ClassInfo → List CtorInfo} (ho : ScansCtors order)
include ho

theorem resolveCtorBy_least {t : ClassTable} {C : String} {args : List Ty}
    (hnone : t.findCtor C ⟨args⟩ = none) {k : CtorInfo} (hk : t.resolveCtorBy order C args = some k) :
    ∃ r, t.get? C = some r ∧ k ∈ r.ctors ∧ k.sig.accepts t args = true ∧
      ∀ k' ∈ r.ctors, k'.sig.accepts t args = true → k.sig.text ≤ k'.sig.text := by
  cases hr : t.get? C with
  | none => rw [resolveCtorBy_of_get_none hr] at hk; cases hk
  | some r =>
    rw [resolveCtorBy_eq hr] at hk
    have hex : r.ctor? ⟨args⟩ = none := by
      unfold findCtor at hnone
      rwa [hr, Option.bind_some] at hnone
    unfold resolveCtorIn at hk
    rw [hex, Option.none_or] at hk
    have hmem := List.mem_filter.mp (pickLeast_mem hk)
    refine ⟨r, rfl, (ho r).subset hmem.1, hmem.2, fun k' hk' hacc ↦ ?_⟩
    exact pickLeast_least hk k' (List.mem_filter.mpr ⟨(ho r).symm.subset hk', hacc⟩)

theorem resolveCtorBy_any_order {t : ClassTable} {C : String} {r : ClassInfo}
    (hr : t.get? C = some r) (args : List Ty) {l : List CtorInfo} (hl : l.Perm r.ctors) :
    (t.resolveCtorBy order C args).map (·.sig.text) = (t.resolveCtorIn r l args).map (·.sig.text) ∧
      (((r.ctors.filter (·.sig.accepts t args)).map (·.sig.text)).Nodup →
        t.resolveCtorBy order C args = t.resolveCtorIn r l args) := by
  rw [resolveCtorBy_eq hr]
  have hperm := resolveCtorIn_perm t r ((ho r).trans hl.symm) args
  refine ⟨hperm.1, fun hn ↦ hperm.2 ?_⟩
  exact (((ho r).filter _).map _).nodup_iff.mpr hn

theorem resolveCtorBy_nil {t : ClassTable} {C : String} {r : ClassInfo} (hr : t.get? C = some r) :
    t.resolveCtorBy order C [] = r.ctor? ⟨[]⟩ := by
  rw [resolveCtorBy_eq hr]
  unfold resolveCtorIn
  cases hex : r.ctor? ⟨[]⟩ with
  | some k => rfl
  | none =>
    -- a constructor that accepts no arguments has no parameters, so it is the one just missed
    have hnone : (order r).filter (·.sig.accepts t []) = [] := by
      rw [List.filter_eq_nil_iff]
      intro k hk hacc
      have hk' := (ho r).subset hk
      have hsig : k.sig = ⟨[]⟩ := by
        rw [Signature.accepts_iff, List.forall₂_nil_right_iff] at hacc
        cases hs : k.sig
        simp_all
      exact ctor?_none hex k hk' hsig
    rw [hnone, Option.none_or]
    rfl

end Order

theorem resolvesCtor (t : ClassTable) (C : String) (args : List Ty) : t.ResolvesCtor C args where
  found_iff := by
    simp only [resolveCtor_isSome_iff, Signature.accepts_iff]
  exact k hk := by
    rw [resolveCtor_eq_by]
    unfold resolveCtorBy
    rw [hk]
  least := resolveCtorBy_least bucketOrder_scansCtors
  any_order _ hr _ hl := resolveCtorBy_any_order bucketOrder_scansCtors hr args hl

theorem hasDefaultCtor_iff {t : ClassTable} {C : String} {r : ClassInfo} (hr : t.get? C = some r) :
    r.hasDefaultCtor = true ↔ r.ctors = [] ∨ (t.resolveCtor C []).isSome = true := by
  rw [resolveCtor_eq_by, resolveCtorBy_nil bucketOrder_scansCtors hr, ClassInfo.hasDefaultCtor,
    Bool.or_eq_true, List.isEmpty_iff]

theorem ctorParams_nil (s : Site) (C : String) (e : Emitter) :
    (Lower.ctorParams s C []).run e = .ok ([], e) := by
  -- resolution finds nothing, or the constructor without parameters
  have hres : s.table.resolveCtor C [] = none ∨
      ∃ k, s.table.resolveCtor C [] = some k ∧ k.sig.types = [] := by
    cases hr : s.table.get? C with
    | none => exact .inl (resolveCtorBy_of_get_none hr _ [])
    | some r =>
      rw [resolveCtor_eq_by, resolveCtorBy_nil bucketOrder_scansCtors hr]
      cases hk : r.ctor? ⟨[]⟩ with
      | none => exact .inl rfl
      | some k => exact .inr ⟨k, rfl, by rw [(ctor?_some hk).2]⟩
  unfold Lower.ctorParams
  simp only [List.map_nil]
  rcases hres with h | ⟨k, h, hk⟩
  · rw [h]
    rfl
  · rw [h]
    show Except.ok (k.sig.types, e) = _
    rw [hk]

theorem ctorParams_ok_iff (s : Site) (C : String) {cs : List Captured}
    (hcs : cs ≠ []) (e e' : Emitter) (ps : List Ty) :
    (Lower.ctorParams s C cs).run e = .ok (ps, e') ↔
      e' = e ∧ ∃ k, s.table.resolveCtor C (cs.map (·.type)) = some k ∧ ps = k.sig.types := by
  unfold Lower.ctorParams
  dsimp only
  cases hk : s.table.resolveCtor C (cs.map (·.type)) with
  | some k =>
    show Except.ok (k.sig.types, e) = _ ↔ _
    constructor
    · intro h
      cases h
      exact ⟨rfl, k, rfl, rfl⟩
    · rintro ⟨rfl, k', hk', rfl⟩
      cases hk'
      rfl
  | none =>
    have hts : (cs.map (·.type)).isEmpty = false := by
      cases cs with
      | nil => exact absurd rfl hcs
      | cons _ _ => rfl
    simp only [hts, Bool.false_eq_true, if_false, reduceCtorEq, false_and, exists_false,
      and_false, iff_false]
    intro h
    cases h

/-- Constructor resolution, in every table: a constructor is found exactly when one has the
arguments' types or accepts them, the one with the arguments' types wins, and otherwise the one
found accepts them and has the least signature text, the same text whatever order a scan sees
the constructors in and the same constructor when the texts of those that accept are distinct.
With no arguments the checker's test holds exactly when the class declares no constructor or
resolution finds its constructor without parameters, and the generator calls `<init>()V`; with
arguments it calls the constructor resolution finds, and only when there is one. -/
theorem ctor_resolution (t : ClassTable) (C : String) :
    (∀ args, t.ResolvesCtor C args) ∧
    (∀ r, t.get? C = some r → (r.hasDefaultCtor = true ↔ r.ctors = [] ∨
      (t.resolveCtor C []).isSome = true)) ∧
    (∀ opts n e, (Lower.ctorParams ⟨t, opts, n⟩ C []).run e = .ok ([], e)) ∧
    ∀ opts n (cs : List Captured), cs ≠ [] → ∀ e e' ps,
      ((Lower.ctorParams ⟨t, opts, n⟩ C cs).run e = .ok (ps, e') ↔
        e' = e ∧ ∃ k, t.resolveCtor C (cs.map (·.type)) = some k ∧ ps = k.sig.types) :=
  ⟨resolvesCtor t C, fun _ hr ↦ hasDefaultCtor_iff hr, fun _ _ e ↦ ctorParams_nil _ C e,
    fun _ _ _ hcs e e' ps ↦ ctorParams_ok_iff _ C hcs e e' ps⟩

/-- A class `int[3]` and a class `A` with two constructors whose signatures have the one text
`int[3]`: one takes an array of three ints, the other an object of class `int[3]`. -/
def ctorTie : Program := ⟨[⟨"int[3]", none, [], default⟩, ⟨"A", none, [
  .ctor ⟨"A", [⟨"x", .array .int 3, default⟩], ⟨[], [], default⟩, default⟩,
  .ctor ⟨"A", [⟨"x", .cls "int[3]", default⟩], ⟨[], [], default⟩, default⟩], default⟩]⟩

/-- Without distinct texts the scan order decides: for `new A(nil)` both constructors accept the
argument, a scan in declaration order and one in the reverse order find constructors of the one
text, and they are not the same constructor. -/
theorem ctorTie_scan_order :
    (ClassTable.ofProgram ctorTie).run.2 = .ok (Registration.tableOf ctorTie) ∧
    ∃ r, (Registration.tableOf ctorTie).get? "A" = some r ∧
      ((Registration.tableOf ctorTie).resolveCtorIn r r.ctors [.nil]).map (·.sig.text) =
        ((Registration.tableOf ctorTie).resolveCtorIn r r.ctors.reverse [.nil]).map (·.sig.text) ∧
      ((Registration.tableOf ctorTie).resolveCtorIn r r.ctors [.nil]).map (·.sig.types) =
        some [.array .int 3] ∧
      ((Registration.tableOf ctorTie).resolveCtorIn r r.ctors.reverse [.nil]).map (·.sig.types) =
        some [.cls "int[3]"] := by
  refine ⟨rfl, _, rfl, ?_, by decide +kernel, by decide +kernel⟩
  have ho := ((ctor_resolution (Registration.tableOf ctorTie) "A").1 [.nil]).any_order _ rfl
  exact (ho _ (List.Perm.refl _)).1.symm.trans (ho _ (List.reverse_perm _)).1

/-- A class `A` whose one constructor takes an `int` by reference. -/
def byRefCtor : Program :=
  ⟨[⟨"A", none, [.ctor ⟨"A", [⟨"x", .ref .int, default⟩], ⟨[], [], default⟩, default⟩], default⟩]⟩

/-- A constructor found for arguments that no constructor accepts: the by-reference parameter
type is the argument's own, but it is not compatible with itself. -/
theorem byRefCtor_found_without_fit :
    (ClassTable.ofProgram byRefCtor).run.2 = .ok (Registration.tableOf byRefCtor) ∧
      ((Registration.tableOf byRefCtor).resolveCtor "A" [.ref .int]).isSome = true ∧
      ¬ ∃ r, (Registration.tableOf byRefCtor).get? "A" = some r ∧ ∃ k ∈ r.ctors,
        List.Forall₂ (fun p a ↦ Ty.compatible (Registration.tableOf byRefCtor) p a = true)
          k.sig.types [.ref .int] := by
  refine ⟨rfl, rfl, ?_⟩
  rintro ⟨r, hr, k, hk, hfit⟩
  have hr' : (Registration.tableOf byRefCtor).get? "A" =
      some ⟨"A", none, [], [], [⟨⟨[.ref .int]⟩, default⟩], none, default, false⟩ := rfl
  rw [hr'] at hr
  cases hr
  rw [List.mem_singleton] at hk
  subst hk
  rw [List.forall₂_cons] at hfit
  rw [Ty.compatible_ref_self] at hfit
  cases hfit.1

end ClassLang.Proofs.CtorResolution
