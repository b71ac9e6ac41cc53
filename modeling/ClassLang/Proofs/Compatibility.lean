import ClassLang.Proofs.Lineage

namespace ClassLang.Ty

def isPlain : Ty → Bool
  | array e _ => e.isPlain
  | ref _ | error => false
  | _ => true

theorem hasError_of_isPlain : ∀ {t : Ty}, t.isPlain = true → t.hasError = false
  | prim _, _ | cls _, _ | nil, _ => rfl
  | array e _, h => hasError_of_isPlain (t := e) h

theorem ref_ne_self (u : Ty) : ref u ≠ u := by
  intro h
  have hs := congrArg sizeOf h
  simp only [ref.sizeOf_spec] at hs
  omega

theorem sameAs_iff_eq {a b : Ty} (h : a.hasError = false) : a.sameAs b = true ↔ a = b := by
  rw [sameAs_iff]
  exact ⟨And.left, fun hab ↦ ⟨hab, h⟩⟩

theorem compatible_ref {T : ClassTable} {inner actual : Ty} (h : actual.isError = false) :
    compatible T (ref inner) actual = inner.sameAs actual := by
  have hr : (ref inner).isError = false := rfl
  simp only [compatible, hr, h, Bool.or_self, Bool.false_eq_true, if_false]

section Rules

variable {T : ClassTable}

theorem compatible_plain_iff {a b : Ty} (ha : a.isPlain = true) (hb : b.isPlain = true) :
    compatible T a b = true ↔ a = b ∨ (a = float ∧ b = int) ∨ (b = nil ∧ a.isNullable = true) ∨
      ∃ sup sub, a = cls sup ∧ b = cls sub ∧ T.isSubtype sub sup = true := by
  have hae := hasError_of_isPlain ha
  have hbe := hasError_of_isPlain hb
  -- the sentinel and the by-reference arm are out of play, and sameness is equality
  have hsame : ∀ {x y : Ty}, x.isPlain = true → (x.sameAs y = true ↔ x = y) :=
    fun hx ↦ sameAs_iff_eq (hasError_of_isPlain hx)
  cases a <;> cases b <;> simp_all [compatible, sameAs, isError, isNil, isNullable, isClass,
    isArray, isFloat, isInt, isPlain]
  case prim.prim p q => cases p <;> cases q <;> simp
  case array.array => exact And.comm

theorem compatible_self {t : Ty} (h : t.hasError = false) (hr : ∀ u, t ≠ ref u) :
    compatible T t t = true := by
  have hself : t.sameAs t = true := (sameAs_iff_eq h).mpr rfl
  cases t with
  | ref u => exact absurd rfl (hr u)
  | error => cases h
  | _ => simp_all [compatible, isError]

theorem compatible_ref_self (u : Ty) : compatible T (ref u) (ref u) = false := by
  rw [compatible_ref rfl, Bool.eq_false_iff]
  intro h
  exact ref_ne_self u ((sameAs_iff u (ref u)).mp h).1.symm

theorem compatible_prim_iff (p q : Prim) :
    compatible T (prim p) (prim q) = true ↔ p = q ∨ (p = .float ∧ q = .int) := by
  rw [compatible_plain_iff rfl rfl]
  simp

theorem compatible_nil_iff {a : Ty} (ha : a.isPlain = true) :
    compatible T a nil = true ↔ a.isNullable = true ∨ a = nil := by
  rw [compatible_plain_iff ha rfl]
  constructor
  · rintro (rfl | ⟨-, h⟩ | ⟨-, h⟩ | ⟨_, _, -, h, -⟩)
    · exact .inr rfl
    · cases h
    · exact .inl h
    · cases h
  · rintro (h | rfl)
    · exact .inr (.inr (.inl ⟨rfl, h⟩))
    · exact .inl rfl

theorem compatible_cls_iff (sup sub : String) :
    compatible T (cls sup) (cls sub) = true ↔ sub = sup ∨ T.isSubtype sub sup = true := by
  rw [compatible_plain_iff rfl rfl]
  constructor
  · rintro (h | ⟨h, -⟩ | ⟨h, -⟩ | ⟨sup', sub', h₁, h₂, hs⟩)
    · exact .inl (cls.inj h).symm
    · cases h
    · cases h
    · cases h₁
      cases h₂
      exact .inr hs
  · rintro (rfl | hs)
    · exact .inl rfl
    · exact .inr (.inr (.inr ⟨sup, sub, rfl, rfl, hs⟩))

theorem compatible_array_iff {e b : Ty} (n : Nat) (he : e.isPlain = true) (hb : b.isPlain = true) :
    compatible T (array e n) b = true ↔ b = array e n ∨ b = nil := by
  rw [compatible_plain_iff (show (array e n).isPlain = true from he) hb]
  constructor
  · rintro (rfl | ⟨h, -⟩ | ⟨rfl, -⟩ | ⟨_, _, h, -⟩)
    · exact .inl rfl
    · cases h
    · exact .inr rfl
    · cases h
  · rintro (rfl | rfl)
    · exact .inl rfl
    · exact .inr (.inr (.inl ⟨rfl, rfl⟩))

end Rules

section Order

variable {T : ClassTable} (hT : T.Sound)
include hT

open Proofs.Lineage

theorem compatible_trans {a b c : Ty} (ha : a.isPlain = true) (hb : b.isPlain = true)
    (hc : c.isPlain = true) (hab : compatible T a b = true) (hbc : compatible T b c = true) :
    compatible T a c = true := by
  rw [compatible_plain_iff ha hb] at hab
  rw [compatible_plain_iff hb hc] at hbc
  rw [compatible_plain_iff ha hc]
  rcases hab with rfl | ⟨rfl, rfl⟩ | ⟨rfl, hn⟩ | ⟨sup, sub, rfl, rfl, hs⟩
  · exact hbc
  · -- under `int` sits only `int` itself
    rcases hbc with rfl | ⟨h, -⟩ | ⟨-, h⟩ | ⟨_, _, h, -⟩
    · exact .inr (.inl ⟨rfl, rfl⟩)
    all_goals cases h
  · -- under `nil` sits only `nil` itself
    rcases hbc with rfl | ⟨h, -⟩ | ⟨-, h⟩ | ⟨_, _, h, -⟩
    · exact .inr (.inr (.inl ⟨rfl, hn⟩))
    all_goals cases h
  · -- under a class sit the class, its subclasses and `nil`
    rcases hbc with rfl | ⟨h, -⟩ | ⟨rfl, -⟩ | ⟨sup', sub', h, rfl, hs'⟩
    · exact .inr (.inr (.inr ⟨sup, sub, rfl, rfl, hs⟩))
    · cases h
    · exact .inr (.inr (.inl ⟨rfl, rfl⟩))
    · cases h
      exact .inr (.inr (.inr ⟨sup, sub', rfl, rfl, isSubtype_trans hT hs' hs⟩))

theorem compatible_antisymm {a b : Ty} (ha : a.isPlain = true) (hb : b.isPlain = true)
    (hab : compatible T a b = true) (hba : compatible T b a = true) : a = b := by
  rw [compatible_plain_iff ha hb] at hab
  rw [compatible_plain_iff hb ha] at hba
  rcases hab with h | ⟨rfl, rfl⟩ | ⟨rfl, hn⟩ | ⟨sup, sub, rfl, rfl, hs⟩
  · exact h
  · -- `int` takes no `float`
    rcases hba with h | ⟨h, -⟩ | ⟨h, -⟩ | ⟨_, _, h, -⟩ <;> cases h
  · -- `nil` takes nothing but itself
    rcases hba with h | ⟨h, -⟩ | ⟨-, h⟩ | ⟨_, _, h, -⟩
    · exact h.symm
    all_goals cases h
  · rcases hba with h | ⟨h, -⟩ | ⟨h, -⟩ | ⟨sup', sub', h₁, h₂, hs'⟩
    · exact h.symm
    · cases h
    · cases h
    · cases h₁
      cases h₂
      rw [isSubtype_antisymm hT hs' hs]

end Order

end ClassLang.Ty

namespace ClassLang.ClassTable

open Ty

/-- How assignment compatibility treats each kind of type, in every table. -/
structure CompatibleRules (T : ClassTable) : Prop where
  refl : ∀ t, t.hasError = false → (∀ u, t ≠ ref u) → compatible T t t = true
  ref_irrefl : ∀ u, compatible T (ref u) (ref u) = false
  prim_iff : ∀ p q, compatible T (prim p) (prim q) = true ↔ p = q ∨ (p = .float ∧ q = .int)
  nil_iff : ∀ a, a.isPlain = true → (compatible T a nil = true ↔ a.isNullable = true ∨ a = nil)
  cls_iff : ∀ sup sub, compatible T (cls sup) (cls sub) = true ↔ sub = sup ∨ T.isSubtype sub sup = true
  array_iff : ∀ e n b, e.isPlain = true → b.isPlain = true →
    (compatible T (array e n) b = true ↔ b = array e n ∨ b = nil)

/-- Compatibility is a partial order on the plain types. -/
structure CompatibleOrder (T : ClassTable) : Prop where
  trans : ∀ a b c : Ty, a.isPlain = true → b.isPlain = true → c.isPlain = true →
    compatible T a b = true → compatible T b c = true → compatible T a c = true
  antisymm : ∀ a b : Ty, a.isPlain = true → b.isPlain = true →
    compatible T a b = true → compatible T b a = true → a = b

end ClassLang.ClassTable

namespace ClassLang.Proofs.Compatibility

open ClassLang Ty ClassTable Proofs.Registration Proofs.Lineage

theorem compatibleRules (T : ClassTable) : T.CompatibleRules where
  refl _ := compatible_self
  ref_irrefl := compatible_ref_self
  prim_iff := compatible_prim_iff
  nil_iff _ := compatible_nil_iff
  cls_iff := compatible_cls_iff
  array_iff _ n _ he hb := compatible_array_iff n he hb

/-- In every table registration builds, compatibility is a partial order on the types free of
the sentinel and of by-reference types, reflexive on every other type free of the sentinel but
not on by-reference ones; in every table, `float` takes `int` and no other primitive widens,
`nil` fits classes, arrays and itself, classes are ordered by subtyping and arrays fit only
themselves. -/
theorem compatible_partial_order (p : Program) (T : ClassTable)
    (hT : (ClassTable.ofProgram p).run.2 = .ok T) :
    T.CompatibleOrder ∧ ∀ t : ClassTable, t.CompatibleRules := by
  rw [ofProgram_run, registered_ok_iff] at hT
  obtain ⟨hwf, rfl⟩ := hT
  have hs := tableOf_sound hwf
  exact ⟨⟨fun _ _ _ ha hb hc ↦ compatible_trans hs ha hb hc,
    fun _ _ ha hb ↦ compatible_antisymm hs ha hb⟩, compatibleRules⟩

theorem compatible_partial_order_baseAndDerived :
    (ClassTable.ofProgram baseAndDerived).run.2 = .ok (tableOf baseAndDerived) ∧
      (tableOf baseAndDerived).CompatibleOrder ∧ ∀ t : ClassTable, t.CompatibleRules :=
  ⟨rfl, compatible_partial_order baseAndDerived _ rfl⟩

example : compatible (tableOf baseAndDerived) (cls "A") (cls "B") = true ∧
    compatible (tableOf baseAndDerived) (cls "B") (cls "A") = false := by decide

/-- The program without classes, whose table holds the console class only. -/
def noClasses : Program := ⟨[]⟩

/-- A by-reference type free of the sentinel that is not compatible with itself, in the table
registration builds for the program without classes. -/
theorem byRef_not_compatible_with_itself :
    (ClassTable.ofProgram noClasses).run.2 = .ok (tableOf noClasses) ∧
      (ref int).hasError = false ∧ compatible (tableOf noClasses) (ref int) (ref int) = false :=
  ⟨rfl, rfl, rfl⟩

end ClassLang.Proofs.Compatibility
