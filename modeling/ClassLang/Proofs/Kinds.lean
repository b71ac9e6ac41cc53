import ClassLang.Proofs.SelfName
import ClassLang.Proofs.Machine
import ClassLang.Proofs.ControlFlow

namespace ClassLang.Proofs.Kinds

open ClassLang Runs SelfName Machine FreshLabels ControlFlow

def argKinds (ps : List Ty) : List ValueKind := (ps.map ValueKind.of).reverse

def resultKinds (r : Ty) : List ValueKind := if r.isVoid then [] else [ValueKind.of r]

/-- The kinds an instruction takes off the operand stack and the kinds it leaves there, both top
first, as its opcode and descriptor prescribe. `dup` and `pop` work on a value of any
kind, and an instruction given only by its text has no rule. -/
def effect : Instr → Option (List ValueKind × List ValueKind)
  | .pushInt _ => some ([], [.int])
  | .pushFloat _ => some ([], [.float])
  | .pushString _ | .pushNull | .new _ => some ([], [.ref])
  | .load k _ => some ([], [k])
  | .store k _ => some ([k], [])
  | .getField _ _ t => some ([.ref], [ValueKind.of t])
  | .putField _ _ t => some ([ValueKind.of t, .ref], [])
  | .getStatic _ _ t => some ([], [ValueKind.of t])
  | .putStatic _ _ t => some ([ValueKind.of t], [])
  | .invokeStatic _ ps r => some (argKinds ps, resultKinds r)
  | .invokeVirtual _ ps r => some (argKinds ps ++ [.ref], resultKinds r)
  | .invokeSpecial _ ps => some (argKinds ps ++ [.ref], [])
  | .newArray _ => some ([.int], [.ref])
  | .arrayLoad e => some ([.int, .ref], [ValueKind.of e])
  | .arrayStore e => some ([ValueKind.of e, .int, .ref], [])
  | .arith _ k => some ([k, k], [k])
  | .neg k => some ([k], [k])
  | .i2f => some ([.int], [.float])
  | .f2i => some ([.float], [.int])
  | .ixor => some ([.int, .int], [.int])
  | .iinc .. | .goto _ | .retVoid => some ([], [])
  | .ifFalse _ | .ifZero .. => some ([.int], [])
  | .ifICmp .. => some ([.int, .int], [])
  | .ifACmp .. => some ([.ref, .ref], [])
  | .fcmp _ => some ([.float, .float], [.int])
  | .retValue k => some ([k], [])
  | .dup | .pop | .raw .. => none

/-- Takes values of the given kinds off a stack of kinds, top first; none where the stack runs
out or holds a value of another kind. -/
def popKinds : List ValueKind → List ValueKind → Option (List ValueKind)
  | [], s => some s
  | k :: ks, k' :: s => if k' = k then popKinds ks s else none
  | _ :: _, [] => none

/-- One instruction over the kinds of the operand stack, top first: none where it takes a value
from an empty stack or finds one of the wrong kind. -/
def kindStep : Instr → List ValueKind → Option (List ValueKind)
  | .dup, k :: s => some (k :: k :: s)
  | .pop, _ :: s => some s
  | i, s => (effect i).bind fun e ↦ (popKinds e.1 s).map (e.2 ++ ·)

def runKinds : List Instr → List ValueKind → Option (List ValueKind)
  | [], s => some s
  | i :: is, s => (kindStep i s).bind (runKinds is)

theorem popKinds_length :
    ∀ {ks s s' : List ValueKind}, popKinds ks s = some s' → s.length = s'.length + ks.length
  | [], _, _, h => by cases h; rfl
  | _ :: _, [], _, h => by cases h
  | k :: ks, k' :: s, s', h => by
    simp only [popKinds] at h
    split at h
    · have := popKinds_length h
      simp only [List.length_cons]
      omega
    · cases h

@[simp] theorem argKinds_length (ps : List Ty) : (argKinds ps).length = ps.length := by
  simp [argKinds]

theorem resultKinds_length (r : Ty) : ((resultKinds r).length : Int) = r.returned := by
  unfold resultKinds Ty.returned
  split <;> rfl

theorem effect_delta {i : Instr} {e : List ValueKind × List ValueKind} (h : effect i = some e) :
    i.delta = e.2.length - e.1.length := by
  cases i <;> simp only [effect, Option.some.injEq, reduceCtorEq] at h <;> subst h
  case invokeStatic ps r =>
    simp only [Instr.delta, resultKinds_length, argKinds_length]
  case invokeVirtual ps r =>
    simp only [Instr.delta, resultKinds_length, List.length_append, argKinds_length,
      List.length_singleton]
    omega
  case invokeSpecial ps =>
    simp only [Instr.delta, List.length_append, argKinds_length, List.length_singleton,
      List.length_nil]
    omega
  all_goals simp [Instr.delta]

theorem kindStep_of_effect {i : Instr} {e : List ValueKind × List ValueKind}
    (h : effect i = some e) (s : List ValueKind) :
    kindStep i s = (popKinds e.1 s).map (e.2 ++ ·) := by
  unfold kindStep
  split
  · simp [effect] at h
  · simp [effect] at h
  · rw [h]
    rfl

theorem kindStep_length {i : Instr} {s s' : List ValueKind} (h : kindStep i s = some s') :
    (s'.length : Int) = s.length + i.delta := by
  cases he : effect i with
  | some e =>
    rw [kindStep_of_effect he] at h
    obtain ⟨s₁, h₁, rfl⟩ := Option.map_eq_some_iff.mp h
    have hs := popKinds_length h₁
    rw [effect_delta he, List.length_append]
    omega
  | none =>
    cases i <;> simp only [effect, reduceCtorEq] at he
    case dup =>
      cases s with
      | nil => simp [kindStep, effect] at h
      | cons k s =>
        simp only [kindStep, Option.some.injEq] at h
        subst h
        simp only [List.length_cons, Instr.delta]
        omega
    case pop =>
      cases s with
      | nil => simp [kindStep, effect] at h
      | cons k s =>
        simp only [kindStep, Option.some.injEq] at h
        subst h
        simp only [List.length_cons, Instr.delta]
        omega
    case raw => simp [kindStep, effect] at h

/-- One step of the abstract run of a routine over the kinds of its operand stack. A line that
holds no instruction is passed over; an instruction that finds the kinds it needs goes on to the
next line unless it jumps unconditionally or returns, and to any line placing its target if it
jumps. -/
inductive KindStep (code : List Line) : Nat × List ValueKind → Nat × List ValueKind → Prop
  | pass {pc : Nat} {x : Line} {ks : List ValueKind} (hx : code[pc]? = some x)
      (hi : instrOf x = none) : KindStep code (pc, ks) (pc + 1, ks)
  | next {pc : Nat} {i : Instr} {ks ks' : List ValueKind} (hx : code[pc]? = some (.instr i))
      (hk : kindStep i ks = some ks') (hf : fallsThrough i = true) :
      KindStep code (pc, ks) (pc + 1, ks')
  | jump {pc j : Nat} {i : Instr} {l : Label} {ks ks' : List ValueKind}
      (hx : code[pc]? = some (.instr i)) (hk : kindStep i ks = some ks')
      (hl : jumpTarget i = some l) (hj : code[j]? = some (.label l)) :
      KindStep code (pc, ks) (j, ks')

/-- The abstract run of a routine from its first line with an empty operand stack reaches an
instruction that takes a value off an empty stack or finds one of the wrong kind. -/
def KindStuck (code : List Line) : Prop :=
  ∃ pc ks i, Relation.ReflTransGen (KindStep code) (0, []) (pc, ks) ∧
    code[pc]? = some (.instr i) ∧ kindStep i ks = none

section Stuck

variable {code : List Line}

theorem kindSteps_pass {ks : List ValueKind} : ∀ {c : List Line} {p : Nat},
    (∀ x ∈ c, instrOf x = none) → At code p c →
    Relation.ReflTransGen (KindStep code) (p, ks) (p + c.length, ks)
  | [], _, _, _ => .refl
  | x :: c, p, hc, h => by
    have first : KindStep code (p, ks) (p + 1, ks) := .pass h.head (hc x List.mem_cons_self)
    have rest : Relation.ReflTransGen (KindStep code) (p + 1, ks) (p + 1 + c.length, ks) :=
      kindSteps_pass (fun y hy ↦ hc y (List.mem_cons_of_mem _ hy)) h.tail
    have hl : p + (x :: c).length = p + 1 + c.length := by
      rw [List.length_cons]
      omega
    rw [hl]
    exact .head first rest

theorem stuck_of_runKinds : ∀ {is : List Instr} {p : Nat} {ks : List ValueKind},
    At code p (is.map .instr) → (∀ i ∈ is, fallsThrough i = true) → runKinds is ks = none →
    ∃ pc ks' i, Relation.ReflTransGen (KindStep code) (p, ks) (pc, ks') ∧
      code[pc]? = some (.instr i) ∧ kindStep i ks' = none
  | [], _, _, _, _, h => by simp [runKinds] at h
  | i :: is, p, ks, hat, hf, h => by
    cases hk : kindStep i ks with
    | none => exact ⟨p, ks, i, .refl, hat.head, hk⟩
    | some ks₁ =>
      rw [runKinds, hk, Option.bind_some] at h
      obtain ⟨pc, ks', j, r, hx, hs⟩ :=
        stuck_of_runKinds hat.tail (fun j hj ↦ hf j (List.mem_cons_of_mem _ hj)) h
      exact ⟨pc, ks', j, .head (.next hat.head hk (hf i List.mem_cons_self)) r, hx, hs⟩

theorem kindStuck_of_prefix {pre rest : List Line} {is : List Instr}
    (hcode : code = pre ++ is.map .instr ++ rest) (hpre : ∀ x ∈ pre, instrOf x = none)
    (hf : ∀ i ∈ is, fallsThrough i = true) (hk : runKinds is [] = none) : KindStuck code := by
  have hat : At code 0 (pre ++ is.map .instr) := by
    intro i hi
    rw [hcode, Nat.zero_add, List.getElem?_append_left hi]
  obtain ⟨pc, ks, i, r, hx, hs⟩ := stuck_of_runKinds hat.right hf hk
  exact ⟨pc, ks, i, (kindSteps_pass hpre hat.left).trans r, hx, hs⟩

end Stuck

theorem attrLoad_store_clash (C : String) (h : ClassInfo) {a : AttrInfo} (slot : Nat)
    (hk : ValueKind.of a.type ≠ .ref) (ks : List ValueKind) :
    runKinds (attrLoad C h a ++ [Instr.store .ref slot]) ks = none := by
  have hC : ValueKind.of (.cls C) = .ref := rfl
  unfold attrLoad
  split
  · simp [runKinds, kindStep, effect, popKinds, hk]
  · simp [runKinds, kindStep, effect, popKinds, hk, hC]

theorem attrLoad_store_fallsThrough (C : String) (h : ClassInfo) (a : AttrInfo) (slot : Nat) :
    ∀ i ∈ attrLoad C h a ++ [Instr.store .ref slot], fallsThrough i = true := by
  unfold attrLoad
  split <;> simp [fallsThrough]

theorem except_ok_bind {α β : Type} (x : α) (f : α → Except CompileError β) :
    (Except.ok x >>= f) = f x :=
  rfl

theorem initLocals_self_name {T : ClassTable} {C v : String} {st : Emitter} {h : ClassInfo}
    {a : AttrInfo} (hcls : T.get? "this" = none) (hloc : st.frame.lookup "this" = none)
    (hattr : T.findAttr C "this" = some (h, a))
    (hd : 0 ≤ st.frame.depth ∧ st.frame.depth < 2147483647) (opts : Options) (sp : Span)
    (slot : Nat) :
    ∃ st₁ st', (Lower.lowerExpr ⟨T, opts, C⟩ (.ident "this" sp)).run st = .ok (a.type.deref, st₁) ∧
      st₁.lines.toList = st.lines.toList ++ (attrLoad C h a).map .instr ∧
      (Lower.initLocals ⟨T, opts, C⟩ [⟨v, .cls C, some (.ident "this" sp), slot⟩]).run st =
        .ok ((), st') ∧
      st'.lines.toList = st₁.lines.toList ++ [.instr (.store .ref slot)] := by
  obtain ⟨st₁, h₁, hl₁, hd₁⟩ := lowerExpr_self_attr (s := ⟨T, opts, C⟩) hcls hloc hattr hd sp
  have hw : Lower.widen (.cls C) a.type.deref = pure () := by
    simp [Lower.widen, Ty.needsWidening, Ty.deref, Ty.isFloat]
  rw [Lower.initLocals]
  dsimp only
  rw [run_bind_of_ok h₁, hw, run_bind_of_ok (run_pure () st₁),
    show Emitter.storeLocal (.cls C) slot = Emitter.emit (Instr.store .ref slot) from rfl,
    run_bind_of_ok (emit_run_of_bounds _ ?_ ?_), run_bind_of_ok (onFrame_run _ _)]
  · exact ⟨st₁, _, h₁, hl₁, rfl, by simp⟩
  all_goals simp only [Instr.delta]; omega

end ClassLang.Proofs.Kinds
