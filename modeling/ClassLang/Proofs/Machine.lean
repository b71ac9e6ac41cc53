import ClassLang.Proofs.FreshLabels
import Mathlib.Logic.Relation
import Mathlib.Logic.Function.Basic

namespace ClassLang.Proofs.Machine

open ClassLang FreshLabels

abbrev Word := BitVec 32

/-- The locals of a routine, by slot. -/
abbrev Locals := Nat → Word

def holds : Cond → Word → Word → Bool
  | .eq, a, b => a == b
  | .ne, a, b => a != b
  | .lt, a, b => a.slt b
  | .le, a, b => a.sle b
  | .gt, a, b => b.slt a
  | .ge, a, b => b.sle a

def arith? : ArithOp → Word → Word → Option Word
  | .add, a, b => some (a + b)
  | .sub, a, b => some (a - b)
  | .mul, a, b => some (a * b)
  | .div, a, b => if b = 0 then none else some (a.sdiv b)
  | .rem, a, b => if b = 0 then none else some (a.srem b)

inductive Effect where
  | next (stack : List Word) (locals : Locals)
  | jump (l : Label) (stack : List Word) (locals : Locals)
  | ret (v : Option Word)
  | threw

/-- The effect of an instruction on the operand stack and the locals; `none` for an instruction
outside the integer machine or a stack too short for it. -/
def effect : Instr → List Word → Locals → Option Effect
  | .pushInt v, s, L => some (.next (BitVec.ofInt 32 v :: s) L)
  | .load .int k, s, L => some (.next (L k :: s) L)
  | .store .int k, a :: s, L => some (.next s (Function.update L k a))
  | .arith op .int, b :: a :: s, L => some ((arith? op a b).elim .threw fun r ↦ .next (r :: s) L)
  | .neg .int, a :: s, L => some (.next (-a :: s) L)
  | .ixor, b :: a :: s, L => some (.next ((a ^^^ b) :: s) L)
  | .iinc k d, s, L => some (.next s (Function.update L k (L k + BitVec.ofInt 32 d)))
  | .goto l, s, L => some (.jump l s L)
  | .ifFalse l, a :: s, L => some (if a = 0 then .jump l s L else .next s L)
  | .ifZero c l, a :: s, L => some (if holds c a 0 then .jump l s L else .next s L)
  | .ifICmp c l, b :: a :: s, L => some (if holds c a b then .jump l s L else .next s L)
  | .pop, _ :: s, L => some (.next s L)
  | .retValue .int, a :: _, _ => some (.ret (some a))
  | .retVoid, _, _ => some (.ret none)
  | _, _, _ => none

def instrOf : Line → Option Instr
  | .instr i => some i
  | _ => none

inductive Conf where
  | run (pc : Nat) (stack : List Word) (locals : Locals)
  | ret (v : Option Word) (locals : Locals)
  | threw (locals : Locals)

/-- One step of the machine over the lines `code`. -/
inductive Step (code : List Line) : Conf → Conf → Prop where
  | pass {pc : Nat} {x : Line} {s : List Word} {L : Locals} (hx : code[pc]? = some x)
      (hi : instrOf x = none) : Step code (.run pc s L) (.run (pc + 1) s L)
  | next {pc : Nat} {i : Instr} {s s' : List Word} {L L' : Locals}
      (hx : code[pc]? = some (.instr i)) (he : effect i s L = some (.next s' L')) :
      Step code (.run pc s L) (.run (pc + 1) s' L')
  | jump {pc j : Nat} {i : Instr} {l : Label} {s s' : List Word} {L L' : Locals}
      (hx : code[pc]? = some (.instr i)) (he : effect i s L = some (.jump l s' L'))
      (hj : code[j]? = some (.label l)) : Step code (.run pc s L) (.run j s' L')
  | ret {pc : Nat} {i : Instr} {v : Option Word} {s : List Word} {L : Locals}
      (hx : code[pc]? = some (.instr i)) (he : effect i s L = some (.ret v)) :
      Step code (.run pc s L) (.ret v L)
  | threw {pc : Nat} {i : Instr} {s : List Word} {L : Locals}
      (hx : code[pc]? = some (.instr i)) (he : effect i s L = some .threw) :
      Step code (.run pc s L) (.threw L)

/-- The machine can go from one configuration to another over `code`. -/
abbrev Runs (code : List Line) : Conf → Conf → Prop := Relation.ReflTransGen (Step code)

def At (code : List Line) (p : Nat) (cs : List Line) : Prop :=
  ∀ i < cs.length, code[p + i]? = cs[i]?

section At

variable {code : List Line} {p : Nat}

theorem At.append {c₁ c₂ : List Line} :
    At code p (c₁ ++ c₂) ↔ At code p c₁ ∧ At code (p + c₁.length) c₂ := by
  constructor
  · intro h
    refine ⟨fun i hi ↦ ?_, fun i hi ↦ ?_⟩
    · rw [h i (by simp; omega), List.getElem?_append_left hi]
    · rw [Nat.add_assoc, h _ (by simp; omega), List.getElem?_append_right (by omega),
        Nat.add_sub_cancel_left]
  · rintro ⟨h₁, h₂⟩ i hi
    rcases Nat.lt_or_ge i c₁.length with hl | hl
    · rw [h₁ i hl, List.getElem?_append_left hl]
    · have := h₂ (i - c₁.length) (by simp at hi; omega)
      rw [Nat.add_assoc, Nat.add_sub_cancel' hl] at this
      rw [this, List.getElem?_append_right hl]

theorem At.cons {x : Line} {c : List Line} :
    At code p (x :: c) ↔ code[p]? = some x ∧ At code (p + 1) c := by
  rw [← List.singleton_append, At.append]
  refine and_congr ⟨fun h ↦ by simpa using h 0 (by simp), fun h i hi ↦ ?_⟩ Iff.rfl
  simp only [List.length_singleton, Nat.lt_one_iff] at hi
  subst hi
  simpa using h

theorem At.left {c₁ c₂ : List Line} (h : At code p (c₁ ++ c₂)) : At code p c₁ :=
  (At.append.mp h).1

theorem At.right {c₁ c₂ : List Line} (h : At code p (c₁ ++ c₂)) :
    At code (p + c₁.length) c₂ :=
  (At.append.mp h).2

theorem At.head {x : Line} {c : List Line} (h : At code p (x :: c)) : code[p]? = some x :=
  (At.cons.mp h).1

theorem At.tail {x : Line} {c : List Line} (h : At code p (x :: c)) : At code (p + 1) c :=
  (At.cons.mp h).2

theorem At.getElem {cs : List Line} {i : Nat} {x : Line} (h : At code p cs)
    (hx : cs[i]? = some x) :
    code[p + i]? = some x := by
  obtain ⟨hi, -⟩ := List.getElem?_eq_some_iff.mp hx
  rw [h i hi, hx]

end At

section Stretches

variable {code : List Line} {p : Nat} {s : List Word} {L : Locals}

theorem runs_pass : ∀ {c : List Line} {p : Nat}, (∀ x ∈ c, instrOf x = none) → At code p c →
    Runs code (.run p s L) (.run (p + c.length) s L)
  | [], _, _, _ => .refl
  | x :: c, p, hc, h => by
    have first : Step code (.run p s L) (.run (p + 1) s L) :=
      .pass h.head (hc x (List.mem_cons_self ..))
    have rest := runs_pass (fun y hy ↦ hc y (List.mem_cons_of_mem _ hy)) h.tail
    have hl : p + (x :: c).length = p + 1 + c.length := by
      rw [List.length_cons]
      omega
    rw [hl]
    exact .head first rest

end Stretches

theorem label_index_unique : ∀ {code : List Line}, (placedLabels code).Nodup →
    ∀ {i j : Nat} {l : Label}, code[i]? = some (.label l) → code[j]? = some (.label l) → i = j
  | [], _, i, _, _, hi, _ => by simp at hi
  | x :: code, hn, i, j, l, hi, hj => by
    have placed : ∀ {k : Nat}, code[k]? = some (.label l) → l ∈ placedLabels code :=
      fun hk ↦ List.mem_filterMap.mpr ⟨_, List.mem_of_getElem? hk, rfl⟩
    cases i with
    | zero =>
      cases j with
      | zero => rfl
      | succ j =>
        -- the first line places `l`, so no later line does
        simp only [List.getElem?_cons_zero, Option.some.injEq] at hi
        subst hi
        simp only [placedLabels_cons_label, List.nodup_cons] at hn
        exact absurd (placed hj) hn.1
    | succ i =>
      cases j with
      | zero =>
        simp only [List.getElem?_cons_zero, Option.some.injEq] at hj
        subst hj
        simp only [placedLabels_cons_label, List.nodup_cons] at hn
        exact absurd (placed hi) hn.1
      | succ j =>
        have hn' : (placedLabels code).Nodup :=
          hn.sublist ((List.sublist_cons_self x code).filterMap _)
        exact congrArg (· + 1) (label_index_unique hn' hi hj)

theorem line_eq {code : List Line} {pc : Nat} {x y : Line} (hx : code[pc]? = some x)
    (hy : code[pc]? = some y) : x = y :=
  Option.some.inj (hx.symm.trans hy)

theorem step_rightUnique {code : List Line} (hn : (placedLabels code).Nodup) :
    Relator.RightUnique (Step code) := by
  intro c c₁ c₂ h₁ h₂
  cases h₁ with
  | pass hx hi =>
    cases h₂ with
    | pass => rfl
    | next hx' | jump hx' | ret hx' | threw hx' =>
      cases line_eq hx hx'
      cases hi
  | next hx he =>
    cases h₂ with
    | pass hx' hi' =>
      cases line_eq hx' hx
      cases hi'
    | next hx' he' =>
      cases line_eq hx hx'
      rw [he, Option.some.injEq, Effect.next.injEq] at he'
      obtain ⟨rfl, rfl⟩ := he'
      rfl
    | jump hx' he' | ret hx' he' | threw hx' he' =>
      cases line_eq hx hx'
      rw [he] at he'
      cases he'
  | jump hx he hj =>
    cases h₂ with
    | pass hx' hi' =>
      cases line_eq hx' hx
      cases hi'
    | jump hx' he' hj' =>
      cases line_eq hx hx'
      rw [he, Option.some.injEq, Effect.jump.injEq] at he'
      obtain ⟨rfl, rfl, rfl⟩ := he'
      rw [label_index_unique hn hj hj']
    | next hx' he' | ret hx' he' | threw hx' he' =>
      cases line_eq hx hx'
      rw [he] at he'
      cases he'
  | ret hx he =>
    cases h₂ with
    | pass hx' hi' =>
      cases line_eq hx' hx
      cases hi'
    | ret hx' he' =>
      cases line_eq hx hx'
      rw [he, Option.some.injEq, Effect.ret.injEq] at he'
      rw [he']
    | next hx' he' | jump hx' he' | threw hx' he' =>
      cases line_eq hx hx'
      rw [he] at he'
      cases he'
  | threw hx he =>
    cases h₂ with
    | pass hx' hi' =>
      cases line_eq hx' hx
      cases hi'
    | threw => rfl
    | next hx' he' | jump hx' he' | ret hx' he' =>
      cases line_eq hx hx'
      rw [he] at he'
      cases he'

def Conf.final : Conf → Prop
  | .run .. => False
  | _ => True

theorem final_stuck {code : List Line} {c c' : Conf} (hc : c.final) : ¬ Step code c c' := by
  intro h
  cases h <;> exact hc

theorem runs_final_unique {code : List Line} (hn : (placedLabels code).Nodup) {c f f' : Conf}
    (h : Runs code c f) (h' : Runs code c f') (hf : f.final) (hf' : f'.final) : f = f' := by
  rcases Relation.ReflTransGen.total_of_right_unique (step_rightUnique hn) h h' with r | r
  · rcases Relation.ReflTransGen.cases_head r with rfl | ⟨_, st, _⟩
    · rfl
    · exact absurd st (final_stuck hf)
  · rcases Relation.ReflTransGen.cases_head r with rfl | ⟨_, st, _⟩
    · rfl
    · exact absurd st (final_stuck hf')

end ClassLang.Proofs.Machine
