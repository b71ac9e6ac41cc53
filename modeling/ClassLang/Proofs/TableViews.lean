import ClassLang.Proofs.Lineage
import ClassLang.Registry.BucketScan

namespace ClassLang

structure ClassInfo.Similar (r r' : ClassInfo) : Prop where
  name : r.name = r'.name
  parent : r.parent = r'.parent
  attr : ∀ n, r.attr? n = r'.attr? n
  method : ∀ n, r.method? n = r'.method? n
  ctors : r.ctors.Perm r'.ctors

structure ClassTable.Similar (t t' : ClassTable) : Prop where
  get : ∀ n, Option.Rel ClassInfo.Similar (t.get? n) (t'.get? n)
  length : t.classes.length = t'.classes.length

structure ClassTable.Agree (t t' : ClassTable) : Prop where
  get : ∀ n, t.get? n = t'.get? n
  length : t.classes.length = t'.classes.length

namespace ClassInfo.Similar

variable {r r' : ClassInfo}

theorem refl (r : ClassInfo) : r.Similar r := ⟨rfl, rfl, fun _ ↦ rfl, fun _ ↦ rfl, .refl _⟩

theorem ctor?_isSome (h : r.Similar r') (s : Signature) :
    (r.ctor? s).isSome = (r'.ctor? s).isSome := by
  rw [Bool.eq_iff_iff]
  simp only [ClassInfo.ctor?, List.find?_isSome, h.ctors.mem_iff]

theorem hasDefaultCtor (h : r.Similar r') : r.hasDefaultCtor = r'.hasDefaultCtor := by
  have he : r.ctors.isEmpty = r'.ctors.isEmpty := by
    rw [Bool.eq_iff_iff, List.isEmpty_iff, List.isEmpty_iff, ← List.length_eq_zero_iff,
      ← List.length_eq_zero_iff, h.ctors.length_eq]
  simp only [ClassInfo.hasDefaultCtor, he, h.ctor?_isSome]

end ClassInfo.Similar

/-- A scan order that sees each constructor of a class once. The resolution of `new` is stated
for any such order; the bucket order of the class's hash table is one. -/
def ScansCtors (order : ClassInfo → List CtorInfo) : Prop := ∀ r, (order r).Perm r.ctors

theorem bucketOrder_scansCtors : ScansCtors ClassInfo.ctorsInBucketOrder :=
  ClassInfo.ctorsInBucketOrder_perm

theorem ClassTable.resolveCtor_eq_by (t : ClassTable) (c : String) (args : List Ty) :
    t.resolveCtor c args = t.resolveCtorBy ClassInfo.ctorsInBucketOrder c args :=
  rfl

namespace ClassTable

theorem contains_eq_isSome (t : ClassTable) (n : String) : t.contains n = (t.get? n).isSome := by
  rw [Bool.eq_iff_iff]
  simp only [contains, get?, List.find?_isSome, List.any_eq_true]

theorem foldl_isSome {β γ : Type} {f : Option β → γ → Option β} (hf : ∀ b k, (f b k).isSome) :
    ∀ (l : List γ) (b : Option β), (l.foldl f b).isSome = (b.isSome || !l.isEmpty)
  | [], b => by simp
  | k :: l, b => by
    rw [List.foldl_cons, foldl_isSome hf l (f b k), hf b k]
    simp

theorem resolveCtorBy_isSome_iff {order : ClassInfo → List CtorInfo} (ho : ScansCtors order)
    (t : ClassTable) (c : String) (args : List Ty) :
    (t.resolveCtorBy order c args).isSome = true ↔
      ∃ r, t.get? c = some r ∧ ∃ k ∈ r.ctors, k.sig = ⟨args⟩ ∨ k.sig.accepts t args = true := by
  unfold resolveCtorBy findCtor
  cases hg : t.get? c with
  | none => simp
  | some r =>
    simp only [Option.bind_some, Option.some.injEq, exists_eq_left']
    cases hk : r.ctor? ⟨args⟩ with
    | some k =>
      obtain ⟨hmem, hsig⟩ : k ∈ r.ctors ∧ k.sig = ⟨args⟩ := by
        unfold ClassInfo.ctor? at hk
        exact ⟨List.mem_of_find?_eq_some hk, by simpa using List.find?_some hk⟩
      simpa using ⟨k, hmem, .inl hsig⟩
    | none =>
      have hnot : ∀ k ∈ r.ctors, k.sig ≠ ⟨args⟩ := by
        unfold ClassInfo.ctor? at hk
        simpa using List.find?_eq_none.mp hk
      -- the fold over the candidates keeps the first result it finds
      rw [foldl_isSome (fun b k ↦ by cases b <;> simp [apply_ite])]
      simp only [Option.isSome_none, Bool.false_or, Bool.not_eq_true', List.isEmpty_eq_false_iff,
        ne_eq, List.filter_eq_nil_iff, not_forall, exists_prop, not_not]
      constructor
      · rintro ⟨k, hk, hacc⟩
        exact ⟨k, (ho r).mem_iff.mp hk, .inr hacc⟩
      · rintro ⟨k, hk, hsig | hacc⟩
        · exact absurd hsig (hnot k hk)
        · exact ⟨k, (ho r).mem_iff.mpr hk, hacc⟩

theorem resolveCtor_isSome_iff (t : ClassTable) (c : String) (args : List Ty) :
    (t.resolveCtor c args).isSome = true ↔
      ∃ r, t.get? c = some r ∧ ∃ k ∈ r.ctors, k.sig = ⟨args⟩ ∨ k.sig.accepts t args = true :=
  resolveCtorBy_isSome_iff bucketOrder_scansCtors t c args

end ClassTable

theorem snd_agree_cases {α α' β : Type} {o : Option (α × β)} {o' : Option (α' × β)}
    (h : o.map Prod.snd = o'.map Prod.snd) :
    (o = none ∧ o' = none) ∨ ∃ x x' b, o = some (x, b) ∧ o' = some (x', b) := by
  cases o with
  | none => exact .inl ⟨rfl, by simpa using h.symm⟩
  | some p =>
    cases o' with
    | none => cases h
    | some p' =>
      simp only [Option.map_some, Option.some.injEq] at h
      exact .inr ⟨p.1, p'.1, p.2, rfl, by rw [h]⟩

namespace ClassTable.Similar

variable {t t' : ClassTable}

theorem refl (t : ClassTable) : t.Similar t := by
  refine ⟨fun n ↦ ?_, rfl⟩
  cases t.get? n with
  | none => exact .none
  | some r => exact .some (ClassInfo.Similar.refl r)

theorem get_cases (h : t.Similar t') (n : String) :
    (t.get? n = none ∧ t'.get? n = none) ∨
      ∃ r r', t.get? n = some r ∧ t'.get? n = some r' ∧ r.Similar r' := by
  have hr := h.get n
  generalize t.get? n = o at hr ⊢
  generalize t'.get? n = o' at hr ⊢
  cases hr with
  | none => exact .inl ⟨rfl, rfl⟩
  | some hr => exact .inr ⟨_, _, rfl, rfl, hr⟩

theorem contains (h : t.Similar t') (n : String) : t.contains n = t'.contains n := by
  rw [contains_eq_isSome, contains_eq_isSome]
  rcases h.get_cases n with ⟨h₁, h₂⟩ | ⟨r, r', h₁, h₂, -⟩ <;> simp [h₁, h₂]

theorem climb (h : t.Similar t') :
    ∀ (fuel : Nat) (seen : List String) {o o' : Option ClassInfo},
      Option.Rel ClassInfo.Similar o o' →
        List.Forall₂ ClassInfo.Similar (t.climb fuel seen o) (t'.climb fuel seen o')
  | 0, _, _, _, _ => by simp [ClassTable.climb]
  | _ + 1, _, _, _, .none => by simp [ClassTable.climb]
  | fuel + 1, seen, _, _, .some (a := r) (b := r') hr => by
    simp only [ClassTable.climb, hr.name]
    split
    · exact .nil
    · refine .cons hr (climb h fuel _ ?_)
      rw [hr.parent]
      cases r'.parent with
      | none => exact .none
      | some q => exact h.get q

theorem lineage (h : t.Similar t') (n : String) :
    List.Forall₂ ClassInfo.Similar (t.lineage n) (t'.lineage n) := by
  unfold ClassTable.lineage
  rw [h.length]
  exact h.climb _ [] (h.get n)

theorem names_of_forall₂ : ∀ {l l' : List ClassInfo}, List.Forall₂ ClassInfo.Similar l l' →
    l.map (·.name) = l'.map (·.name)
  | _, _, .nil => rfl
  | _, _, .cons hr hl => by rw [List.map_cons, List.map_cons, hr.name, names_of_forall₂ hl]

theorem isSubtype (h : t.Similar t') : t.isSubtype = t'.isSubtype := by
  funext sub sup
  rw [Bool.eq_iff_iff, Proofs.Lineage.isSubtype_iff, Proofs.Lineage.isSubtype_iff,
    names_of_forall₂ (h.lineage sub)]

theorem compatible (h : t.Similar t') : Ty.compatible t = Ty.compatible t' := by
  funext e a
  simp only [Ty.compatible, h.isSubtype]

theorem accepts (h : t.Similar t') (s : Signature) (args : List Ty) :
    s.accepts t args = s.accepts t' args := by
  simp only [Signature.accepts, h.compatible]

theorem findSome?_snd {β : Type} {find : ClassInfo → String → Option β}
    (hfind : ∀ r r', r.Similar r' → ∀ n, find r n = find r' n) (n : String) :
    ∀ {l l' : List ClassInfo}, List.Forall₂ ClassInfo.Similar l l' →
      (l.findSome? fun h ↦ (find h n).map (h, ·)).map Prod.snd =
        (l'.findSome? fun h ↦ (find h n).map (h, ·)).map Prod.snd
  | _, _, .nil => rfl
  | r :: _, r' :: _, .cons hr hl => by
    rw [List.findSome?_cons, List.findSome?_cons, ← hfind r r' hr n]
    cases find r n with
    | none => exact findSome?_snd hfind n hl
    | some b => rfl

theorem findAttr (h : t.Similar t') (c n : String) :
    (t.findAttr c n).map Prod.snd = (t'.findAttr c n).map Prod.snd :=
  findSome?_snd (fun _ _ hr ↦ hr.attr) n (h.lineage c)

theorem findMethod (h : t.Similar t') (c n : String) :
    (t.findMethod c n).map Prod.snd = (t'.findMethod c n).map Prod.snd :=
  findSome?_snd (fun _ _ hr ↦ hr.method) n (h.lineage c)

theorem resolveCtor_isSome (h : t.Similar t') (c : String) (args : List Ty) :
    (t.resolveCtor c args).isSome = (t'.resolveCtor c args).isSome := by
  rw [Bool.eq_iff_iff, resolveCtor_isSome_iff, resolveCtor_isSome_iff]
  rcases h.get_cases c with ⟨h₁, h₂⟩ | ⟨r, r', h₁, h₂, hr⟩
  · simp [h₁, h₂]
  · simp only [h₁, h₂, Option.some.injEq, exists_eq_left', h.accepts, hr.ctors.mem_iff]

end ClassTable.Similar

namespace ClassTable.Agree

variable {t t' : ClassTable}

theorem similar (h : t.Agree t') : t.Similar t' := by
  refine ⟨fun n ↦ ?_, h.length⟩
  rw [h.get n]
  exact (Similar.refl t').get n

theorem climb (h : t.Agree t') : t.climb = t'.climb := by
  funext fuel
  induction fuel with
  | zero => rfl
  | succ fuel ih =>
    funext seen o
    cases o with
    | none => rfl
    | some r => simp only [ClassTable.climb, ih, funext h.get]

theorem lineage (h : t.Agree t') : t.lineage = t'.lineage := by
  funext n
  simp only [ClassTable.lineage, h.climb, h.length, h.get]

theorem findAttr (h : t.Agree t') : t.findAttr = t'.findAttr := by
  funext c n
  simp only [ClassTable.findAttr, h.lineage]

theorem findMethod (h : t.Agree t') : t.findMethod = t'.findMethod := by
  funext c n
  simp only [ClassTable.findMethod, h.lineage]

theorem isBuiltin (h : t.Agree t') : t.isBuiltin = t'.isBuiltin := by
  funext n
  simp only [ClassTable.isBuiltin, h.get]

theorem resolveCtor (h : t.Agree t') : t.resolveCtor = t'.resolveCtor := by
  funext c args
  simp only [ClassTable.resolveCtor, ClassTable.resolveCtorBy, ClassTable.findCtor, h.get,
    h.similar.accepts]

end ClassTable.Agree

end ClassLang
