import ClassLang.Proofs.RoutineLabels
import Mathlib.Logic.Relation

namespace ClassLang.Proofs.ControlFlow

open ClassLang Checked FreshLabels RoutineLabels

/-- Whether control can go on past an instruction to the next line: not past an unconditional
jump or a return. -/
def fallsThrough : Instr → Bool
  | .goto _ | .retValue _ | .retVoid => false
  | _ => true

def lineFallsThrough : Line → Bool
  | .instr i => fallsThrough i
  | _ => true

inductive Flow (code : List Line) : Nat → Nat → Prop where
  | next {i : Nat} {x : Line} (hx : code[i]? = some x) (hf : lineFallsThrough x = true) :
      Flow code i (i + 1)
  | jump {i j : Nat} {ins : Instr} {l : Label} (hx : code[i]? = some (.instr ins))
      (ht : jumpTarget ins = some l) (hj : code[j]? = some (.label l)) : Flow code i j

abbrev Reaches (code : List Line) : Nat → Nat → Prop := Relation.ReflTransGen (Flow code)

/-- Control can run from the first line of `code` past its last one. -/
def FallsOff (code : List Line) : Prop := Reaches code 0 code.length

theorem returns_stop {r : Instr} (hr : isReturn r = true) :
    fallsThrough r = false ∧ jumpTarget r = none := by
  cases r <;> simp_all [isReturn, fallsThrough, jumpTarget]

section Ending

variable {pre : List Line} {r : Instr} {z : Label}

theorem flow_stays (hr : isReturn r = true)
    (hz : ∀ i l, .instr i ∈ pre → jumpTarget i = some l → l ≠ z) {i j : Nat}
    (hi : i ≤ pre.length) (h : Flow (pre ++ [.instr r, .label z]) i j) : j ≤ pre.length := by
  have stop := returns_stop hr
  cases h with
  | next hx hf =>
    rcases Nat.lt_or_eq_of_le hi with hi | rfl
    · omega
    · rw [List.getElem?_append_right (Nat.le_refl _), Nat.sub_self] at hx
      cases hx
      simp [lineFallsThrough, stop.1] at hf
  | jump hx ht hj =>
    rcases Nat.lt_or_eq_of_le hi with hi | rfl
    · rw [List.getElem?_append_left hi] at hx
      have hne := hz _ _ (List.mem_of_getElem? hx) ht
      -- the line placing the target lies in `pre`: the return is no label, the end label is `z`
      by_contra hj'
      rw [List.getElem?_append_right (by omega)] at hj
      rcases hk : j - pre.length with _ | _ | k <;> rw [hk] at hj <;> simp at hj
      exact hne hj.symm
    · rw [List.getElem?_append_right (Nat.le_refl _), Nat.sub_self] at hx
      cases hx
      simp [stop.2] at ht

theorem reaches_stays (hr : isReturn r = true)
    (hz : ∀ i l, .instr i ∈ pre → jumpTarget i = some l → l ≠ z) {j : Nat}
    (h : Reaches (pre ++ [.instr r, .label z]) 0 j) : j ≤ pre.length := by
  induction h with
  | refl => exact Nat.zero_le _
  | tail _ st ih => exact flow_stays hr hz ih st

theorem not_fallsOff_of_ends (hr : isReturn r = true)
    (hz : ∀ i l, .instr i ∈ pre → jumpTarget i = some l → l ≠ z) :
    ¬ FallsOff (pre ++ [.instr r, .label z]) := fun h ↦ by
  have := reaches_stays hr hz h
  simp only [List.length_append, List.length_cons, List.length_nil] at this
  omega

end Ending

theorem reaches_of_noInstr {code : List Line} (hc : ∀ x ∈ code, lineFallsThrough x = true) :
    ∀ n ≤ code.length, Reaches code 0 n
  | 0, _ => .refl
  | n + 1, hn => by
    have hx : code[n]? = some code[n] := List.getElem?_eq_getElem (by omega)
    exact (reaches_of_noInstr hc n (by omega)).tail (.next hx (hc _ (List.getElem_mem _)))

theorem fallsOff_of_fallsThrough {code : List Line} (hc : code.all lineFallsThrough = true) :
    FallsOff code :=
  reaches_of_noInstr (by simpa using hc) _ (Nat.le_refl _)

theorem mem_refLabels_of_jump {code : List Line} {i : Instr} {l : Label} (hi : .instr i ∈ code)
    (ht : jumpTarget i = some l) : l ∈ refLabels code :=
  List.mem_flatMap.mpr ⟨_, hi, by simp [lineRefs, ht]⟩

section Layouts

variable {rt : Ty} {ob : Option Block} {code vars body : List Line}

theorem layout_jump_ne_end (h : Layout rt ob code vars body) (hw : (placedLabels code).length < 4294967296)
    {i : Instr} {l : Label} (hi : .instr i ∈ body) (ht : jumpTarget i = some l) : l ≠ ⟨1⟩ := by
  rintro rfl
  have f := h.fresh (by rw [h.placed] at hw; simp at hw; omega)
  rcases f.closed _ (mem_refLabels_of_jump hi ht) with hm | hm
  · exact h.range_not_mem hw (by decide) hm
  · exact hm

theorem layout_not_instr_head (h : Layout rt ob code vars body) {i : Instr} :
    .instr i ∉ vars ++ [.label ⟨0⟩] := by
  intro hm
  rcases List.mem_append.mp hm with hm | hm
  · obtain ⟨_, _, _, he⟩ := h.vars _ hm
    cases he
  · simp at hm

theorem layout_not_fallsOff (h : Layout rt ob code vars body) (hw : (placedLabels code).length < 4294967296)
    (hv : rt.isVoid = true ∨ Lower.endsInReturn ob = true) : ¬ FallsOff code := by
  have hj : ∀ i l, .instr i ∈ vars ++ .label ⟨0⟩ :: body → jumpTarget i = some l → l ≠ ⟨1⟩ := by
    intro i l hi ht
    rw [← List.singleton_append, ← List.append_assoc] at hi
    rcases List.mem_append.mp hi with hi | hi
    · exact absurd hi (layout_not_instr_head h)
    · exact layout_jump_ne_end h hw hi ht
  by_cases hc : (rt.isVoid && !Lower.endsInReturn ob) = true
  · -- the generator added a return before the end label
    have e : code = (vars ++ .label ⟨0⟩ :: body) ++ [.instr .retVoid, .label ⟨1⟩] := by
      rw [h.eq, if_pos hc]
      rfl
    rw [e]
    exact not_fallsOff_of_ends (rfl : isReturn .retVoid = true) hj
  · -- the body ends in a `return`, whose code ends in a return instruction
    have he : Lower.endsInReturn ob = true := by
      rcases hv with hv | hv
      · simpa [hv] using hc
      · exact hv
    obtain ⟨pre, i, rfl, hi⟩ := h.ends he
    rw [h.eq, if_neg hc, List.nil_append]
    have hj' : ∀ i l, .instr i ∈ vars ++ .label ⟨0⟩ :: pre → jumpTarget i = some l → l ≠ ⟨1⟩ :=
      fun i l hm ↦ hj i l (by simp only [List.mem_append, List.mem_cons] at hm ⊢; tauto)
    simpa using not_fallsOff_of_ends hi hj'

end Layouts

/-- The routines of a compiled program are well formed for control: in the units of a program
the compiler accepts, every routine that places fewer labels than the 32-bit counter has numbers
places no label twice and refers, by its jumps and its `.var` lines, only to labels it places; and
a routine without result never runs past its last line. -/
theorem compiled_routines_flow {opts : Options} {p : Program} {us : List ClassUnit}
    (h : (compile opts p).run.2 = .ok us) :
    ∀ u ∈ us, ∀ rc ∈ u.routines, (placedLabels rc.lines).length < 4294967296 →
      WellLabeled rc.lines ∧ (rc.header.ret.isVoid = true → ¬ FallsOff rc.lines) := by
  intro u hu rc hrc hw
  obtain ⟨ob, vars, body, hl⟩ := compile_layout h hu hrc
  exact ⟨hl.wellLabeled hw, fun hv ↦ layout_not_fallsOff hl hw (.inl hv)⟩

/-- The class `Main` with an instance method `int f()` whose body is empty, and an empty entry
point. -/
def emptyIntMethod : Program :=
  ⟨[⟨"Main", none, [.method ⟨false, .int, "f", [], ⟨[], [], default⟩, default⟩,
    .method ⟨true, .void, "main", [], ⟨[], [], default⟩, default⟩], default⟩]⟩

/-- The units the compiler makes of `emptyIntMethod`. -/
def emptyIntMethodUnits : List ClassUnit := ((compile {} emptyIntMethod).run.2).toOption.getD []

/-- The compiler accepts `int f()` with an empty body, and its routine runs past its end: the
checker does not ask that every path return, and the generator adds a return only to routines
without result. -/
theorem emptyIntMethod_falls_off :
    (compile {} emptyIntMethod).run.2 = .ok emptyIntMethodUnits ∧
      (∀ u ∈ emptyIntMethodUnits, ∀ rc ∈ u.routines, (placedLabels rc.lines).length < 4294967296 →
        WellLabeled rc.lines ∧ (rc.header.ret.isVoid = true → ¬ FallsOff rc.lines)) ∧
      ∃ u ∈ emptyIntMethodUnits, ∃ rc ∈ u.routines,
        rc.header.ret.isVoid = false ∧ FallsOff rc.lines := by
  have hc : (compile {} emptyIntMethod).run.2 = .ok emptyIntMethodUnits :=
    except_eq_ok_of_isOk _ (by decide +kernel)
  refine ⟨hc, compiled_routines_flow hc, ?_⟩
  have h₀ : 0 < emptyIntMethodUnits.length := by decide +kernel
  have h₁ : 1 < (emptyIntMethodUnits.get ⟨0, h₀⟩).routines.length := by decide +kernel +revert
  -- the unit of `Main` holds its default constructor, then `f`, then `main`
  exact ⟨_, List.get_mem _ _, _, List.get_mem _ ⟨1, h₁⟩, by decide +kernel +revert,
    fallsOff_of_fallsThrough (by decide +kernel +revert)⟩

end ClassLang.Proofs.ControlFlow
