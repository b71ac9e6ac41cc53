import ClassLang.Registry.Table

namespace ClassLang.Proofs.Sameness

open ClassLang

theorem sameAs_comm (a b : Ty) : a.sameAs b = b.sameAs a := by
  apply Bool.eq_iff_iff.mpr
  rw [Ty.sameAs_iff, Ty.sameAs_iff]
  constructor
  · rintro ⟨rfl, h⟩
    exact ⟨rfl, h⟩
  · rintro ⟨rfl, h⟩
    exact ⟨rfl, h⟩

theorem sameAs_trans {a b c : Ty} (hab : a.sameAs b = true) (hbc : b.sameAs c = true) :
    a.sameAs c = true := by
  obtain ⟨rfl, -⟩ := (Ty.sameAs_iff a b).mp hab
  exact hbc

theorem sameAs_self_iff (a : Ty) : a.sameAs a = true ↔ a.hasError = false := by
  rw [Ty.sameAs_iff]
  exact ⟨fun h ↦ h.2, fun h ↦ ⟨rfl, h⟩⟩

theorem isEqv_sameAs_iff (l l' : List Ty) :
    l.isEqv l' Ty.sameAs = true ↔ l = l' ∧ ∀ t ∈ l, t.hasError = false := by
  induction l generalizing l' with
  | nil => cases l' <;> simp
  | cons a l ih =>
    cases l' with
    | nil => simp
    | cons b l' =>
      rw [List.isEqv_cons_cons, Bool.and_eq_true, Ty.sameAs_iff, ih, List.cons.injEq,
        List.forall_mem_cons]
      constructor
      · rintro ⟨⟨rfl, ha⟩, rfl, hl⟩
        exact ⟨⟨rfl, rfl⟩, ha, hl⟩
      · rintro ⟨⟨rfl, rfl⟩, ha, hl⟩
        exact ⟨⟨rfl, ha⟩, rfl, hl⟩

theorem signature_beq_eq_isEqv (s : Signature) {s' : Signature}
    (h : ∀ t ∈ s'.types, t.hasError = false) : (s == s') = s.types.isEqv s'.types Ty.sameAs := by
  apply Bool.eq_iff_iff.mpr
  rw [beq_iff_eq, isEqv_sameAs_iff]
  constructor
  · rintro rfl
    exact ⟨rfl, h⟩
  · rintro ⟨heq, -⟩
    cases s
    cases s'
    cases heq
    rfl

theorem findCtor_eq_find_sameAs (T : ClassTable) (c : String) {s : Signature}
    (h : ∀ t ∈ s.types, t.hasError = false) :
    T.findCtor c s =
      (T.get? c).bind fun r ↦ r.ctors.find? fun k ↦ k.sig.types.isEqv s.types Ty.sameAs := by
  simp only [ClassTable.findCtor, ClassInfo.ctor?, signature_beq_eq_isEqv _ h]

/-- Sameness of types is equality of types free of the sentinel: symmetric and transitive, and
reflexive exactly on the types without it. Against a signature free of the sentinel, the equality
of signatures by which the class table finds a constructor is sameness parameter by parameter. -/
theorem sameness_is_sentinel_free_equality :
    (∀ a b : Ty, a.sameAs b = true ↔ a = b ∧ a.hasError = false) ∧
    (∀ a b : Ty, a.sameAs b = b.sameAs a) ∧
    (∀ a b c : Ty, a.sameAs b = true → b.sameAs c = true → a.sameAs c = true) ∧
    (∀ a : Ty, a.sameAs a = true ↔ a.hasError = false) ∧
    (∀ s s' : Signature, (∀ t ∈ s'.types, t.hasError = false) →
      (s == s') = s.types.isEqv s'.types Ty.sameAs) ∧
    ∀ (T : ClassTable) (c : String) (s : Signature), (∀ t ∈ s.types, t.hasError = false) →
      T.findCtor c s =
        (T.get? c).bind fun r ↦ r.ctors.find? fun k ↦ k.sig.types.isEqv s.types Ty.sameAs :=
  ⟨Ty.sameAs_iff, sameAs_comm, fun _ _ _ ↦ sameAs_trans, sameAs_self_iff,
    fun s _ h ↦ signature_beq_eq_isEqv s h, fun T c _ h ↦ findCtor_eq_find_sameAs T c h⟩

end ClassLang.Proofs.Sameness
