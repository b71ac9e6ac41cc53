import ClassLang.Proofs.LoopJumps

namespace ClassLang.Proofs.FreshLabels

open ClassLang Runs Invariants LoopJumps

def jumpTarget : Instr → Option Label
  | .goto l | .ifFalse l | .ifZero _ l | .ifICmp _ l | .ifACmp _ l => some l
  | _ => none

def placedLabel : Line → Option Label
  | .label l => some l
  | _ => none

def lineRefs : Line → List Label
  | .instr i => (jumpTarget i).toList
  | .var _ _ _ r => [r.start, r.stop]
  | _ => []

/-- The labels code places, in order. -/
def placedLabels (code : List Line) : List Label := code.filterMap placedLabel

def refLabels (code : List Line) : List Label := code.flatMap lineRefs

@[simp] theorem placedLabels_nil : placedLabels [] = [] := rfl

@[simp] theorem placedLabels_cons_label (l : Label) (code : List Line) :
    placedLabels (.label l :: code) = l :: placedLabels code := rfl

@[simp] theorem placedLabels_cons_instr (i : Instr) (code : List Line) :
    placedLabels (.instr i :: code) = placedLabels code := rfl

@[simp] theorem placedLabels_cons_var (slot : Nat) (n : String) (t : Ty) (r : BlockLabels)
    (code : List Line) : placedLabels (.var slot n t r :: code) = placedLabels code := rfl

@[simp] theorem placedLabels_append (x y : List Line) :
    placedLabels (x ++ y) = placedLabels x ++ placedLabels y :=
  List.filterMap_append

@[simp] theorem placedLabels_label (l : Label) : placedLabels [.label l] = [l] := rfl

@[simp] theorem placedLabels_instr (i : Instr) : placedLabels [.instr i] = [] := rfl

@[simp] theorem refLabels_nil : refLabels [] = [] := rfl

@[simp] theorem refLabels_cons_label (l : Label) (code : List Line) :
    refLabels (.label l :: code) = refLabels code := rfl

@[simp] theorem refLabels_cons_instr (i : Instr) (code : List Line) :
    refLabels (.instr i :: code) = (jumpTarget i).toList ++ refLabels code := rfl

@[simp] theorem refLabels_cons_var (slot : Nat) (n : String) (t : Ty) (r : BlockLabels)
    (code : List Line) : refLabels (.var slot n t r :: code) = r.start :: r.stop :: refLabels code :=
  rfl

@[simp] theorem refLabels_append (x y : List Line) :
    refLabels (x ++ y) = refLabels x ++ refLabels y :=
  List.flatMap_append

@[simp] theorem refLabels_label (l : Label) : refLabels [.label l] = [] := rfl

@[simp] theorem refLabels_instr (i : Instr) : refLabels [.instr i] = (jumpTarget i).toList := by
  simp [refLabels, lineRefs]

def LoopTargets (ls : Loops) (l : Label) : Prop := ∃ x ∈ ls.stack, l = x.cont ∨ l = x.brk

/-- Code whose placed labels are distinct numbers in `[a, b)`, and every label of which it refers
to is placed in it or is an `outer` one. -/
structure Fresh (outer : Label → Prop) (a b : Nat) (code : List Line) : Prop where
  nodup : (placedLabels code).Nodup
  range : ∀ l ∈ placedLabels code, a ≤ l.id ∧ l.id < b
  closed : ∀ l ∈ refLabels code, l ∈ placedLabels code ∨ outer l

namespace Fresh

variable {O O' : Label → Prop} {a b a' b' : Nat} {code : List Line}

theorem nil : Fresh O a b [] := ⟨List.nodup_nil, by simp, by simp⟩

theorem plain (hp : placedLabels code = []) (hr : refLabels code = []) : Fresh O a b code :=
  ⟨by simp [hp], by simp [hp], by simp [hr]⟩

theorem label {l : Label} (ha : a ≤ l.id) (hb : l.id < b) : Fresh O a b [.label l] :=
  ⟨by simp, by simp [ha, hb], by simp⟩

theorem instr {i : Instr} (hi : jumpTarget i = none) : Fresh O a b [.instr i] :=
  plain rfl (by simp [hi])

theorem jump {i : Instr} {l : Label} (hi : jumpTarget i = some l) (hl : O l) :
    Fresh O a b [.instr i] :=
  ⟨by simp, by simp, by simp [hi, hl]⟩

theorem weaken (h : Fresh O a b code) (hO : ∀ l, O l → O' l) (ha : a' ≤ a) (hb : b ≤ b') :
    Fresh O' a' b' code where
  nodup := h.nodup
  range l hl := by
    have := h.range l hl
    omega
  closed l hl := (h.closed l hl).imp_right (hO l)

theorem append {a₁ b₁ a₂ b₂ : Nat} {x y : List Line} (hx : Fresh O a₁ b₁ x) (hy : Fresh O a₂ b₂ y)
    (hd : b₁ ≤ a₂ ∨ b₂ ≤ a₁) (ha : a ≤ a₁ ∧ a ≤ a₂) (hb : b₁ ≤ b ∧ b₂ ≤ b) :
    Fresh O a b (x ++ y) where
  nodup := by
    rw [placedLabels_append, List.nodup_append]
    refine ⟨hx.nodup, hy.nodup, fun l hl l' hl' heq ↦ ?_⟩
    subst heq
    have := hx.range l hl
    have := hy.range l hl'
    omega
  range l hl := by
    rw [placedLabels_append, List.mem_append] at hl
    rcases hl with hl | hl
    · have := hx.range l hl
      omega
    · have := hy.range l hl
      omega
  closed l hl := by
    rw [refLabels_append, List.mem_append] at hl
    rw [placedLabels_append, List.mem_append]
    rcases hl with hl | hl
    · exact (hx.closed l hl).imp_left .inl
    · exact (hy.closed l hl).imp_left .inr

theorem close {S : List Label} (h : Fresh (fun l ↦ O l ∨ l ∈ S) a b code)
    (hS : ∀ l ∈ S, l ∈ placedLabels code) : Fresh O a b code where
  nodup := h.nodup
  range := h.range
  closed l hl := by
    rcases h.closed l hl with hl | hl | hl
    · exact .inl hl
    · exact .inr hl
    · exact .inl (hS l hl)

theorem of_perm {c : List Line} (h : Fresh O a b code) (hp : (placedLabels c).Perm (placedLabels code))
    (hr : ∀ l ∈ refLabels c, l ∈ refLabels code) : Fresh O a b c :=
  ⟨hp.nodup_iff.mpr h.nodup, fun l hl ↦ h.range l (hp.subset hl),
    fun l hl ↦ (h.closed l (hr l hl)).imp_left hp.mem_iff.mpr⟩

end Fresh

variable {α β : Type}

theorem adjust_frame {f f' : Frame} {d : Int} (h : f.adjust d = .ok f') :
    f'.nextLabel = f.nextLabel ∧ f'.loops = f.loops ∧ f'.ret = f.ret := by
  obtain ⟨-, rfl⟩ := adjust_ok h
  exact ⟨rfl, rfl, rfl⟩

/-- A run from `e` to `e'` that writes `code` and keeps the label counter, the open loops and the
routine's result type. -/
structure Keeps (e e' : Emitter) (code : List Line) : Prop where
  appends : Appends e e' code
  counter : e'.frame.nextLabel = e.frame.nextLabel
  ret : e'.frame.ret = e.frame.ret

structure Plain (e e' : Emitter) (code : List Line) : Prop extends Keeps e e' code where
  placed : placedLabels code = []
  refs : refLabels code = []

theorem Keeps.trans {e e₁ e₂ : Emitter} {c₁ c₂ : List Line} (h₁ : Keeps e e₁ c₁)
    (h₂ : Keeps e₁ e₂ c₂) : Keeps e e₂ (c₁ ++ c₂) :=
  ⟨h₁.appends.trans h₂.appends, h₂.counter.trans h₁.counter, h₂.ret.trans h₁.ret⟩

theorem Plain.trans {e e₁ e₂ : Emitter} {c₁ c₂ : List Line} (h₁ : Plain e e₁ c₁)
    (h₂ : Plain e₁ e₂ c₂) : Plain e e₂ (c₁ ++ c₂) :=
  ⟨h₁.toKeeps.trans h₂.toKeeps, by simp [h₁.placed, h₂.placed], by simp [h₁.refs, h₂.refs]⟩

theorem Keeps.of_eq {e e' : Emitter} {c c' : List Line} (h : Keeps e e' c) (hc : c = c') :
    Keeps e e' c' :=
  hc ▸ h

theorem keeps_emit {i : Instr} {e e' : Emitter} {u : Unit}
    (h : (Emitter.emit i).run e = .ok (u, e')) : Keeps e e' [.instr i] := by
  obtain ⟨f, hf, rfl⟩ := emit_ok h
  obtain ⟨hl, hlo, hr⟩ := adjust_frame hf
  exact ⟨⟨hlo, by simp⟩, hl, hr⟩

theorem keeps_label {l : Label} {e e' : Emitter} {u : Unit}
    (h : (Emitter.label l).run e = .ok (u, e')) : Keeps e e' [.label l] := by
  cases h
  exact ⟨⟨rfl, by simp⟩, rfl, rfl⟩

theorem keeps_rewind {d : Int} {e e' : Emitter} {u : Unit}
    (h : (Emitter.rewind d).run e = .ok (u, e')) : Keeps e e' [] := by
  obtain ⟨f, hf, rfl⟩ := rewind_ok h
  obtain ⟨hl, hlo, hr⟩ := adjust_frame hf
  exact ⟨⟨hlo, by simp⟩, hl, hr⟩

theorem newLabel_ok {e e' : Emitter} {l : Label} (h : Emitter.newLabel.run e = .ok (l, e')) :
    l = ⟨e.frame.nextLabel⟩ ∧ Appends e e' [] ∧
      e'.frame.nextLabel = (e.frame.nextLabel + 1) % 4294967296 ∧ e'.frame.ret = e.frame.ret := by
  cases h
  exact ⟨rfl, ⟨rfl, (List.append_nil _).symm⟩, rfl, rfl⟩

def Quiet (m : EmitM α) : Prop := ∀ e a e', m.run e = .ok (a, e') → ∃ code, Plain e e' code

namespace Quiet

theorem pure (a : α) : Quiet (pure a : EmitM α) := by
  intro e _ _ h
  cases h
  exact ⟨[], ⟨⟨rfl, by simp⟩, rfl, rfl⟩, rfl, rfl⟩

theorem throw (m : CompileError) : Quiet (throw m : EmitM α) := by
  intro _ _ _ h
  cases h

theorem get : Quiet (get : EmitM Emitter) := by
  intro e _ _ h
  cases h
  exact ⟨[], ⟨⟨rfl, by simp⟩, rfl, rfl⟩, rfl, rfl⟩

theorem liftExcept (r : Except CompileError α) : Quiet (Emitter.liftExcept r) := by
  intro e _ _ h
  rw [liftExcept_run] at h
  cases r with
  | error => cases h
  | ok => cases h; exact ⟨[], ⟨⟨rfl, by simp⟩, rfl, rfl⟩, rfl, rfl⟩

theorem bind {x : EmitM α} {f : α → EmitM β} (hx : Quiet x) (hf : ∀ a, Quiet (f a)) :
    Quiet (x >>= f) := by
  intro e b e' h
  obtain ⟨a, e₁, h₁, h₂⟩ := bind_ok h
  obtain ⟨c₁, p₁⟩ := hx e a e₁ h₁
  obtain ⟨c₂, p₂⟩ := hf a e₁ b e' h₂
  exact ⟨c₁ ++ c₂, p₁.trans p₂⟩

theorem emit {i : Instr} (hi : jumpTarget i = none) : Quiet (Emitter.emit i) :=
  fun _ _ _ h ↦ ⟨_, keeps_emit h, rfl, by simp [hi]⟩

theorem rewind (d : Int) : Quiet (Emitter.rewind d) :=
  fun _ _ _ h ↦ ⟨_, keeps_rewind h, rfl, rfl⟩

theorem onFrame {g : Frame → Frame}
    (hg : ∀ f, (g f).nextLabel = f.nextLabel ∧ (g f).loops = f.loops ∧ (g f).ret = f.ret) :
    Quiet (Emitter.onFrame g) := by
  intro e _ e' h
  cases h
  obtain ⟨hl, hlo, hr⟩ := hg e.frame
  exact ⟨[], ⟨⟨hlo, by simp⟩, hl, hr⟩, rfl, rfl⟩

theorem newSlot : Quiet Emitter.newSlot := by
  intro e _ e' h
  cases h
  exact ⟨[], ⟨⟨rfl, by simp⟩, rfl, rfl⟩, rfl, rfl⟩

end Quiet

/-- What a successful run from `e` to `e'` that writes `code` does with labels, counting from
`a`: the counter ends as many labels past `a` as the code places, modulo the counter's width
`2^32`, and unless that wraps, the code is fresh in those labels, referring outside it only to
`outer` labels. The run keeps the open loops and the routine's result type. -/
structure Took (outer : Label → Prop) (a : Nat) (e e' : Emitter) (code : List Line) : Prop where
  appends : Appends e e' code
  ret : e'.frame.ret = e.frame.ret
  counter : e'.frame.nextLabel = (a + (placedLabels code).length) % 4294967296
  fresh : a + (placedLabels code).length < 4294967296 →
    Fresh outer a (a + (placedLabels code).length) code

namespace Took

variable {O O' : Label → Prop} {a : Nat} {e e₁ e₂ : Emitter} {code c₁ c₂ : List Line}

theorem mono (h : Took O a e e₁ code) (hO : ∀ l, O l → O' l) : Took O' a e e₁ code :=
  ⟨h.appends, h.ret, h.counter, fun hw ↦ (h.fresh hw).weaken hO (Nat.le_refl _) (Nat.le_refl _)⟩

theorem trans (h₁ : Took O a e e₁ c₁) (h₂ : Took O (a + (placedLabels c₁).length) e₁ e₂ c₂) :
    Took O a e e₂ (c₁ ++ c₂) where
  appends := h₁.appends.trans h₂.appends
  ret := h₂.ret.trans h₁.ret
  counter := by rw [h₂.counter, placedLabels_append, List.length_append, Nat.add_assoc]
  fresh hw := by
    rw [placedLabels_append, List.length_append] at hw ⊢
    exact (h₁.fresh (by omega)).append (h₂.fresh (by omega)) (.inl (Nat.le_refl _))
      ⟨Nat.le_refl _, by omega⟩ ⟨by omega, by omega⟩

theorem of_mod (h : Took O (a % 4294967296) e e₁ code) : Took O a e e₁ code where
  appends := h.appends
  ret := h.ret
  counter := by rw [h.counter, Nat.mod_add_mod]
  fresh hw := by
    have ha : a % 4294967296 = a := Nat.mod_eq_of_lt (by omega)
    have f := h.fresh (by omega)
    rwa [ha] at f

theorem next (h₁ : Took O a e e₁ c₁) (h₂ : Took O e₁.frame.nextLabel e₁ e₂ c₂) :
    Took O a e e₂ (c₁ ++ c₂) := by
  rw [h₁.counter] at h₂
  exact h₁.trans h₂.of_mod

theorem of_keeps (hc : e.frame.nextLabel < 4294967296) (h : Keeps e e₁ code)
    (hp : placedLabels code = []) (hr : ∀ l ∈ refLabels code, O l) :
    Took O e.frame.nextLabel e e₁ code where
  appends := h.appends
  ret := h.ret
  counter := by rw [hp, List.length_nil, Nat.add_zero, Nat.mod_eq_of_lt hc, h.counter]
  fresh _ := ⟨by simp [hp], by simp [hp], fun l hl ↦ .inr (hr l hl)⟩

theorem of_plain (hc : e.frame.nextLabel < 4294967296) (h : Plain e e₁ code) :
    Took O e.frame.nextLabel e e₁ code :=
  of_keeps hc h.toKeeps h.placed (by simp [h.refs])

theorem jump {i : Instr} {l : Label} {u : Unit} (hc : e.frame.nextLabel < 4294967296)
    (h : (Emitter.emit i).run e = .ok (u, e₁)) (hi : jumpTarget i = some l) (hl : O l) :
    Took O e.frame.nextLabel e e₁ [.instr i] :=
  of_keeps hc (keeps_emit h) rfl (by simp [hi, hl])

end Took

/-- A step every successful run of which, from a counter in range, takes labels as `Took` says,
counting from the counter it starts with and referring outside its code only to the targets of
the open loops. -/
def Takes (m : EmitM α) : Prop :=
  ∀ e a e', e.frame.nextLabel < 4294967296 → m.run e = .ok (a, e') →
    ∃ code, Took (LoopTargets e.frame.loops) e.frame.nextLabel e e' code

theorem Took.counter_lt {O : Label → Prop} {a : Nat} {e e₁ : Emitter} {code : List Line}
    (h : Took O a e e₁ code) : e₁.frame.nextLabel < 4294967296 :=
  h.counter ▸ Nat.mod_lt _ (by decide)

theorem Took.andThen {O : Label → Prop} {a : Nat} {e e₁ e₂ : Emitter} {c₁ : List Line}
    {m : EmitM α} {b : α} (h₁ : Took O a e e₁ c₁) (hO : ∀ l, LoopTargets e.frame.loops l → O l)
    (hm : Takes m) (h : m.run e₁ = .ok (b, e₂)) : ∃ code, Took O a e e₂ (c₁ ++ code) := by
  obtain ⟨c₂, t₂⟩ := hm e₁ b e₂ h₁.counter_lt h
  rw [h₁.appends.1] at t₂
  exact ⟨c₂, h₁.next (t₂.mono hO)⟩

namespace Takes

theorem of_quiet {m : EmitM α} (h : Quiet m) : Takes m := by
  intro e a e' hc hm
  obtain ⟨code, p⟩ := h e a e' hm
  exact ⟨code, .of_plain hc p⟩

theorem pure (a : α) : Takes (pure a : EmitM α) := of_quiet (Quiet.pure a)

theorem throw (m : CompileError) : Takes (throw m : EmitM α) := of_quiet (Quiet.throw m)

theorem bind {x : EmitM α} {f : α → EmitM β} (hx : Takes x) (hf : ∀ a, Takes (f a)) :
    Takes (x >>= f) := by
  intro e b e' hc h
  obtain ⟨a, e₁, h₁, h₂⟩ := bind_ok h
  obtain ⟨c₁, t₁⟩ := hx e a e₁ hc h₁
  obtain ⟨c₂, t₂⟩ := t₁.andThen (fun _ ↦ id) (hf a) h₂
  exact ⟨c₁ ++ c₂, t₂⟩

end Takes

section Quiet

variable (s : Site)

theorem resolve_quiet (n : String) : Quiet (Lower.resolve s n) :=
  Quiet.bind Quiet.get fun _ ↦ Quiet.liftExcept _

theorem widen_quiet (target actual : Ty) : Quiet (Lower.widen target actual) := by
  unfold Lower.widen
  split
  · exact Quiet.emit rfl
  · exact Quiet.pure _

theorem pushDefault_quiet (t : Ty) : Quiet (Emitter.pushDefault t) := by
  unfold Emitter.pushDefault
  split <;> exact Quiet.emit rfl

theorem newArray_quiet (elem : Ty) (size : Nat) : Quiet (Emitter.newArray elem size) :=
  Quiet.bind (Quiet.emit rfl) fun _ ↦ Quiet.emit rfl

theorem pushZero_quiet (t : Ty) : Quiet (Lower.pushZero t) := by
  unfold Lower.pushZero
  split
  · exact newArray_quiet _ _
  · exact pushDefault_quiet _

theorem store_quiet (p : Place) : Quiet (Lower.store p) := by
  cases p <;> exact Quiet.emit rfl

theorem dropReceiver_quiet (op : Operand) : Quiet (Lower.dropReceiver op) := by
  cases op
  · exact Quiet.pure _
  · exact Quiet.emit rfl

theorem loadIdent_quiet (n : String) : Quiet (Lower.loadIdent s n) := by
  unfold Lower.loadIdent
  refine Quiet.bind (resolve_quiet s n) fun r ↦ ?_
  cases r <;> dsimp only
  case cls c => exact Quiet.throw _
  case loc l => exact Quiet.bind (Quiet.emit rfl) fun _ ↦ Quiet.pure _
  case console => exact Quiet.bind (Quiet.emit rfl) fun _ ↦ Quiet.pure _
  case attr h a =>
    split
    · exact Quiet.bind (Quiet.emit rfl) fun _ ↦ Quiet.pure _
    · exact Quiet.bind (Quiet.emit rfl) fun _ ↦ Quiet.bind (Quiet.emit rfl) fun _ ↦ Quiet.pure _

theorem identPlace_quiet (n : String) : Quiet (Lower.identPlace s n) := by
  unfold Lower.identPlace
  refine Quiet.bind (resolve_quiet s n) fun r ↦ ?_
  cases r <;> dsimp only
  case cls c => exact Quiet.throw _
  case loc l => exact Quiet.pure _
  case console => exact Quiet.throw _
  case attr h a =>
    split
    · exact Quiet.pure _
    · exact Quiet.bind (Quiet.emit rfl) fun _ ↦ Quiet.pure _

theorem arithmetic_quiet (op : BinOp) (k : ValueKind) : Quiet (Emitter.arithmetic op k) := by
  unfold Emitter.arithmetic
  split
  · exact Quiet.emit rfl
  · exact Quiet.throw _

theorem unary_quiet (op : UnOp) (t : Ty) : Quiet (Lower.unary op t) := by
  cases op
  · exact Quiet.pure _
  · exact Quiet.emit rfl
  · exact Quiet.bind (Quiet.emit rfl) fun _ ↦ Quiet.emit rfl

theorem literal_quiet (l : Literal) : Quiet (Lower.literal l) := by
  cases l <;> exact Quiet.bind (Quiet.emit rfl) fun _ ↦ Quiet.pure _

theorem checkArity_quiet (params : List Ty) (args : List Expr) :
    Quiet (Lower.checkArity params args) := by
  unfold Lower.checkArity
  split
  · exact Quiet.pure _
  · exact Quiet.throw _

theorem ctorParams_quiet (c : String) (args : List Captured) :
    Quiet (Lower.ctorParams s c args) := by
  unfold Lower.ctorParams
  dsimp only
  split
  · exact Quiet.pure _
  · split
    · exact Quiet.pure _
    · exact Quiet.throw _

theorem stepVar_quiet (v : String) (d : Direction) : Quiet (Lower.stepVar s v d) := by
  unfold Lower.stepVar
  refine Quiet.bind (resolve_quiet s v) fun r ↦ ?_
  split
  · exact Quiet.emit rfl
  · exact Quiet.bind (identPlace_quiet s v) fun _ ↦ Quiet.bind (loadIdent_quiet s v) fun _ ↦
      Quiet.bind (Quiet.emit rfl) fun _ ↦ Quiet.bind (arithmetic_quiet _ _) fun _ ↦ store_quiet _

theorem superCall_quiet (parent : String) : Quiet (Lower.superCall s parent) :=
  Quiet.bind (Quiet.emit rfl) fun _ ↦ Quiet.emit rfl

end Quiet

/-- Code compiled ahead from the label counter `a` on: unless the count wraps, it is fresh in the
labels from `a` on for the open loops `ls`. -/
def Pending (outer : Label → Prop) (a : Nat) (c : Captured) : Prop :=
  a + (placedLabels c.lines).length < 4294967296 →
    Fresh outer a (a + (placedLabels c.lines).length) c.lines

theorem extract_of_toList {xs ys : Array Line} {code : List Line}
    (h : ys.toList = xs.toList ++ code) :
    (ys.extract xs.size ys.size).toList = code ∧ ys.extract 0 xs.size = xs := by
  have hs : ys.size = xs.size + code.length := by
    rw [← Array.length_toList, h, List.length_append, Array.length_toList]
  refine ⟨?_, Array.ext' ?_⟩
  · rw [Array.toList_extract, List.extract_eq_take_drop, h, hs, Nat.add_sub_cancel_left,
      ← Array.length_toList, List.drop_left, List.take_length]
  · rw [Array.toList_extract, List.extract_eq_take_drop, List.drop_zero, Nat.sub_zero, h,
      ← Array.length_toList, List.take_left]

theorem capture_pending {above : Int} {act : EmitM Ty} (ha : Takes act) {e e' : Emitter}
    {c : Captured} (hc : e.frame.nextLabel < 4294967296)
    (h : (Lower.capture above act).run e = .ok (c, e')) :
    Pending (LoopTargets e.frame.loops) e.frame.nextLabel c ∧
      e'.frame.nextLabel = (e.frame.nextLabel + (placedLabels c.lines).length) % 4294967296 ∧
      e'.lines = e.lines ∧ e'.frame.loops = e.frame.loops ∧ e'.frame.ret = e.frame.ret := by
  obtain ⟨f₁, e₂, f₃, hf₁, h₂, hlines, hf₃, rfl⟩ := capture_ok h
  obtain ⟨l₁, lo₁, r₁⟩ := adjust_frame hf₁
  obtain ⟨l₃, lo₃, r₃⟩ := adjust_frame hf₃
  obtain ⟨code, t⟩ := ha { e with frame := f₁ } _ e₂ (l₁ ▸ hc) h₂
  obtain ⟨hcode, hrest⟩ := extract_of_toList t.appends.2
  rw [hcode] at hlines
  dsimp only at t
  rw [l₁] at t
  refine ⟨fun hw ↦ ?_, ?_, hrest, ?_, ?_⟩
  · rw [hlines] at hw ⊢
    simpa only [lo₁] using t.fresh hw
  · show f₃.nextLabel = _
    rw [l₃, t.counter, hlines]
  · show f₃.loops = _
    rw [lo₃, t.appends.1]
    exact lo₁
  · show f₃.ret = _
    rw [r₃, t.ret]
    exact r₁

theorem Fresh.of_placed {O : Label → Prop} {a b : Nat} {S : List Label} {code : List Line}
    (hp : placedLabels code = S) (hn : S.Nodup) (hr : ∀ l ∈ S, a ≤ l.id ∧ l.id < b)
    (hc : ∀ l ∈ refLabels code, l ∈ S ∨ O l) : Fresh O a b code :=
  ⟨hp ▸ hn, hp ▸ hr, hp ▸ hc⟩

theorem Took.wrap {O : Label → Prop} {S : List Label} {e e₁ e₂ e' : Emitter}
    {body tail : List Line} (a₀ : Appends e e₁ []) (r₀ : e₁.frame.ret = e.frame.ret)
    (c₀ : e₁.frame.nextLabel = (e.frame.nextLabel + S.length) % 4294967296)
    (hS : e.frame.nextLabel + S.length < 4294967296 →
      S.Nodup ∧ ∀ l ∈ S, e.frame.nextLabel ≤ l.id ∧ l.id < e.frame.nextLabel + S.length)
    (hb : Took (fun l ↦ O l ∨ l ∈ S) e₁.frame.nextLabel e₁ e₂ body) (ht : Keeps e₂ e' tail)
    (hpt : placedLabels tail = S) (hrt : ∀ l ∈ refLabels tail, O l ∨ l ∈ S) :
    Took O e.frame.nextLabel e e' (body ++ tail) := by
  have hlen : (placedLabels (body ++ tail)).length = (placedLabels body).length + S.length := by
    rw [placedLabels_append, List.length_append, hpt]
  refine ⟨(a₀.trans hb.appends).trans ht.appends, ht.ret.trans (hb.ret.trans r₀), ?_,
    fun hw ↦ ?_⟩
  · rw [ht.counter, hb.counter, c₀, hlen]
    omega
  · rw [hlen] at hw ⊢
    obtain ⟨hn, hr⟩ := hS (by omega)
    have f := hb.fresh (by omega)
    rw [show e₁.frame.nextLabel = e.frame.nextLabel + S.length by omega] at f
    have g : Fresh (fun l ↦ O l ∨ l ∈ S) e.frame.nextLabel (e.frame.nextLabel + S.length) tail :=
      .of_placed hpt hn hr fun l hl ↦ (hrt l hl).elim (fun h ↦ .inr (.inl h)) .inl
    have fg : Fresh (fun l ↦ O l ∨ l ∈ S) e.frame.nextLabel
        (e.frame.nextLabel + ((placedLabels body).length + S.length)) (body ++ tail) :=
      f.append g (.inr (Nat.le_refl _)) ⟨by omega, Nat.le_refl _⟩ ⟨by omega, by omega⟩
    refine fg.close fun l hl ↦ ?_
    rw [placedLabels_append, hpt]
    exact List.mem_append_right _ hl

theorem logical_takes (op : BinOp) {lhs rhs : EmitM Ty} (hl : Takes lhs) (hr : Takes rhs) :
    Takes (Lower.logical op lhs rhs) := by
  intro e t e' hc h
  unfold Lower.logical at h
  obtain ⟨short, e₁, h₁, h⟩ := bind_ok h
  obtain ⟨stop, e₂, h₂, h⟩ := bind_ok h
  obtain ⟨rfl, a₁, c₁, r₁⟩ := newLabel_ok h₁
  obtain ⟨rfl, a₂, c₂, r₂⟩ := newLabel_ok h₂
  split at h
  obtain ⟨_, e₃, h₃, h⟩ := bind_ok h
  obtain ⟨_, e₄, h₄, h⟩ := bind_ok h
  obtain ⟨_, e₅, h₅, h⟩ := bind_ok h
  obtain ⟨_, e₆, h₆, h⟩ := bind_ok h
  obtain ⟨_, e₇, h₇, h⟩ := bind_ok h
  obtain ⟨_, e₈, h₈, h⟩ := bind_ok h
  obtain ⟨_, e₉, h₉, h⟩ := bind_ok h
  obtain ⟨_, e₁₀, h₁₀, h⟩ := bind_ok h
  cases h
  have a₀ := a₁.trans a₂
  let S : List Label := [⟨e.frame.nextLabel⟩, ⟨e₁.frame.nextLabel⟩]
  have hX : ∀ l, LoopTargets e₂.frame.loops l → LoopTargets e.frame.loops l ∨ l ∈ S :=
    fun l hl ↦ .inl (a₀.1 ▸ hl)
  -- the operands, with a jump to each label after one of them
  obtain ⟨cl, t₃⟩ := hl e₂ _ e₃ (c₂ ▸ Nat.mod_lt _ (by decide)) h₃
  have t₄ := (t₃.mono hX).next (Took.jump t₃.counter_lt h₄ rfl (.inr (by simp [S])))
  obtain ⟨cr, t₅⟩ := t₄.andThen hX hr h₅
  have t₆ := t₅.next (Took.jump t₅.counter_lt h₆ rfl (.inr (by simp [S])))
  have k := (keeps_label h₇).trans ((keeps_rewind h₈).trans ((keeps_emit h₉).trans
    (keeps_label h₁₀)))
  refine ⟨_, Took.wrap a₀ (r₂.trans r₁) ?_ (fun hw ↦ ?_) t₆ k (by simp [S]) (by simp [jumpTarget])⟩
  · simp only [S, List.length_cons, List.length_nil, c₂, c₁]
    omega
  · simp only [S, List.length_cons, List.length_nil] at hw
    have e₁c : e₁.frame.nextLabel = e.frame.nextLabel + 1 := by omega
    simp [S, e₁c]

theorem replay_keeps {c : Captured} {target : Option Ty} {e e' : Emitter} {u : Unit}
    (h : (Lower.replay c target).run e = .ok (u, e')) :
    ∃ w, Keeps e e' (c.lines ++ w) ∧ placedLabels w = [] ∧ refLabels w = [] := by
  unfold Lower.replay at h
  obtain ⟨_, e₁, h₁, h⟩ := bind_ok h
  cases h₁
  obtain ⟨_, e₂, h₂, h⟩ := bind_ok h
  have k : Keeps e e₂ (c.lines ++ []) :=
    (⟨⟨rfl, by simp⟩, rfl, rfl⟩ : Keeps e { e with lines := e.lines ++ c.lines.toArray } c.lines).trans
      (keeps_rewind h₂)
  cases target with
  | none =>
    cases h
    exact ⟨[], k, rfl, rfl⟩
  | some t =>
    obtain ⟨w, p⟩ := widen_quiet _ _ _ _ _ h
    exact ⟨w, (k.trans p.toKeeps).of_eq (by simp), p.placed, p.refs⟩

/-- A run that keeps the counter and writes code fresh in the labels from `a` on, as the pending
code compiled earlier that it writes is. -/
structure Replays (O : Label → Prop) (a : Nat) (e e' : Emitter) (code : List Line) : Prop
    extends Keeps e e' code where
  fresh : a + (placedLabels code).length < 4294967296 →
    Fresh O a (a + (placedLabels code).length) code

namespace Replays

variable {O : Label → Prop} {a b : Nat} {e e₁ e₂ : Emitter} {code c₁ c₂ : List Line}

theorem of_plain (p : Plain e e₁ code) : Replays O a e e₁ code :=
  ⟨p.toKeeps, fun _ ↦ .plain p.placed p.refs⟩

theorem trans (h₁ : Replays O a e e₁ c₁) (h₂ : Replays O b e₁ e₂ c₂)
    (hb : b = a + (placedLabels c₁).length) : Replays O a e e₂ (c₁ ++ c₂) := by
  subst hb
  refine ⟨h₁.toKeeps.trans h₂.toKeeps, fun hw ↦ ?_⟩
  rw [placedLabels_append, List.length_append] at hw ⊢
  exact (h₁.fresh (by omega)).append (h₂.fresh (by omega)) (.inl (Nat.le_refl _))
    ⟨Nat.le_refl _, Nat.le_add_right _ _⟩ ⟨by omega, by omega⟩

theorem took (h : Replays O a e e₁ code)
    (he : e.frame.nextLabel = (a + (placedLabels code).length) % 4294967296) :
    Took O a e e₁ code :=
  ⟨h.appends, h.ret, h.counter.trans he, h.fresh⟩

end Replays

theorem replay_replays {O : Label → Prop} {a : Nat} {c : Captured} {target : Option Ty}
    {e e' : Emitter} {u : Unit} (hp : Pending O a c)
    (h : (Lower.replay c target).run e = .ok (u, e')) :
    ∃ w, Replays O a e e' (c.lines ++ w) ∧ placedLabels w = [] := by
  obtain ⟨w, k, hw, hrw⟩ := replay_keeps h
  refine ⟨w, ⟨k, fun hw' ↦ ?_⟩, hw⟩
  rw [placedLabels_append, hw, List.append_nil] at hw' ⊢
  exact (hp hw').append (Fresh.plain hw hrw : Fresh O a a w) (.inr (Nat.le_refl _))
    ⟨Nat.le_refl _, Nat.le_refl _⟩ ⟨Nat.le_refl _, Nat.le_add_right _ _⟩

theorem Took.of_replayed {O : Label → Prop} {a : Nat} {c : Captured} {target : Option Ty}
    {e e₁ e₂ e' : Emitter} {pre post : List Line} {u : Unit} (hp : Pending O a c)
    (he : e.frame.nextLabel = (a + (placedLabels c.lines).length) % 4294967296)
    (p₁ : Plain e e₁ pre) (h : (Lower.replay c target).run e₁ = .ok (u, e₂))
    (p₃ : Plain e₂ e' post) : ∃ code, Took O a e e' code := by
  obtain ⟨w, r, hw⟩ := replay_replays hp h
  have r' := ((Replays.of_plain p₁ : Replays O a e e₁ pre).trans r (by simp [p₁.placed])).trans
    (.of_plain p₃) rfl
  refine ⟨_, r'.took ?_⟩
  simp [he, p₁.placed, hw, p₃.placed]

theorem Plain.refl (e : Emitter) : Plain e e [] := ⟨⟨⟨rfl, by simp⟩, rfl, rfl⟩, rfl, rfl⟩

theorem compare_tail {yes stop : Label} {e e' : Emitter} {u : Unit}
    (h : (do
      Emitter.emit (.pushInt 0)
      Emitter.emit (.goto stop)
      Emitter.label yes
      Emitter.rewind (-1)
      Emitter.emit (.pushInt 1)
      Emitter.label stop : EmitM Unit).run e = .ok (u, e')) :
    Keeps e e' [.instr (.pushInt 0), .instr (.goto stop), .label yes, .instr (.pushInt 1),
      .label stop] := by
  obtain ⟨_, e₁, h₁, h⟩ := bind_ok h
  obtain ⟨_, e₂, h₂, h⟩ := bind_ok h
  obtain ⟨_, e₃, h₃, h⟩ := bind_ok h
  obtain ⟨_, e₄, h₄, h⟩ := bind_ok h
  obtain ⟨_, e₅, h₅, h⟩ := bind_ok h
  have k := (keeps_emit h₁).trans ((keeps_emit h₂).trans ((keeps_label h₃).trans
    ((keeps_rewind h₄).trans ((keeps_emit h₅).trans (keeps_label h)))))
  simpa only [List.cons_append, List.nil_append] using k

theorem Fresh.placing {O : Label → Prop} {S : List Label} {a b a₁ b₁ a₂ b₂ : Nat}
    {body tail : List Line} (hb : Fresh (fun l ↦ O l ∨ l ∈ S) a₁ b₁ body) (hn : S.Nodup)
    (hr : ∀ l ∈ S, a₂ ≤ l.id ∧ l.id < b₂) (hpt : placedLabels tail = S)
    (hrt : ∀ l ∈ refLabels tail, O l ∨ l ∈ S) (hd : b₁ ≤ a₂ ∨ b₂ ≤ a₁) (ha : a ≤ a₁ ∧ a ≤ a₂)
    (hb' : b₁ ≤ b ∧ b₂ ≤ b) : Fresh O a b (body ++ tail) := by
  have g : Fresh (fun l ↦ O l ∨ l ∈ S) a₂ b₂ tail :=
    .of_placed hpt hn hr fun l hl ↦ (hrt l hl).elim (fun h ↦ .inr (.inl h)) .inl
  refine (hb.append g hd ha hb').close fun l hl ↦ ?_
  rw [placedLabels_append, hpt]
  exact List.mem_append_right _ hl

theorem compare_assemble {a : Nat} {rc : Captured} {e e₂ e₃ e' : Emitter} {pre post : List Line}
    (hp : Pending (LoopTargets e.frame.loops) a rc)
    (he : e.frame.nextLabel = (a + (placedLabels rc.lines).length) % 4294967296)
    (a₀ : Appends e e₂ []) (r₀ : e₂.frame.ret = e.frame.ret)
    (c₀ : e₂.frame.nextLabel = ((e.frame.nextLabel + 1) % 4294967296 + 1) % 4294967296)
    (k : Keeps e₂ e₃ (pre ++ rc.lines ++ post)) (hpre : placedLabels pre = [])
    (hrpre : refLabels pre = []) (hpost : placedLabels post = [])
    (hrpost : ∀ l ∈ refLabels post, l = ⟨e.frame.nextLabel⟩)
    (kt : Keeps e₃ e' [.instr (.pushInt 0), .instr (.goto ⟨(e.frame.nextLabel + 1) % 4294967296⟩),
      .label ⟨e.frame.nextLabel⟩, .instr (.pushInt 1), .label ⟨(e.frame.nextLabel + 1) % 4294967296⟩]) :
    ∃ code, Took (LoopTargets e.frame.loops) a e e' code := by
  let S : List Label := [⟨e.frame.nextLabel⟩, ⟨(e.frame.nextLabel + 1) % 4294967296⟩]
  let tail : List Line := [.instr (.pushInt 0), .instr (.goto ⟨(e.frame.nextLabel + 1) % 4294967296⟩),
      .label ⟨e.frame.nextLabel⟩, .instr (.pushInt 1), .label ⟨(e.frame.nextLabel + 1) % 4294967296⟩]
  have hpt : placedLabels tail = S := by simp [tail, S]
  have hl : (placedLabels (pre ++ rc.lines ++ post ++ tail)).length =
      (placedLabels rc.lines).length + 2 := by
    rw [placedLabels_append _ tail, hpt]
    simp [hpre, hpost, S]
  have ap : Appends e e' (pre ++ rc.lines ++ post ++ tail) := by
    simpa only [List.nil_append] using (a₀.trans k.appends).trans kt.appends
  refine ⟨_, ap, kt.ret.trans (k.ret.trans r₀), ?_, fun hw ↦ ?_⟩
  · rw [hl, kt.counter, k.counter, c₀, he]
    omega
  · rw [hl] at hw ⊢
    have ec : e.frame.nextLabel = a + (placedLabels rc.lines).length := by omega
    have body : Fresh (fun l ↦ LoopTargets e.frame.loops l ∨ l ∈ S) a
        (a + (placedLabels rc.lines).length) (pre ++ rc.lines ++ post) :=
      (((Fresh.plain hpre hrpre : Fresh _ a a pre).append (hp (by omega)) (.inl (Nat.le_refl _))
        ⟨Nat.le_refl _, Nat.le_refl _⟩ ⟨Nat.le_add_right _ _, Nat.le_refl _⟩).weaken
        (fun _ h ↦ .inl h) (Nat.le_refl _) (Nat.le_refl _)).append
        (⟨by simp [hpost], by simp [hpost], fun l hl ↦ .inr (.inr (by simp [S, hrpost l hl]))⟩ :
          Fresh _ a a post) (.inr (Nat.le_refl _)) ⟨Nat.le_refl _, Nat.le_refl _⟩
        ⟨Nat.le_refl _, Nat.le_add_right _ _⟩
    have hS : ∀ l ∈ S, a + (placedLabels rc.lines).length ≤ l.id ∧
        l.id < a + (placedLabels rc.lines).length + 2 := by
      simp only [S, List.mem_cons, List.not_mem_nil, or_false]
      rintro l (rfl | rfl) <;> simp only <;> omega
    exact body.placing (List.nodup_cons.mpr ⟨by simp; omega, List.nodup_cons.mpr ⟨by simp, List.nodup_nil⟩⟩) hS hpt
      (by simp [tail, jumpTarget, S]) (.inl (Nat.le_refl _)) ⟨Nat.le_refl _, by omega⟩
      ⟨by omega, Nat.le_refl _⟩

theorem compare_took {op : BinOp} {lt : Ty} {rc : Captured} {a : Nat} {e e' : Emitter} {u : Unit}
    (hp : Pending (LoopTargets e.frame.loops) a rc)
    (he : e.frame.nextLabel = (a + (placedLabels rc.lines).length) % 4294967296)
    (h : (Lower.compare op lt rc).run e = .ok (u, e')) :
    ∃ code, Took (LoopTargets e.frame.loops) a e e' code := by
  unfold Lower.compare at h
  split at h
  · rename_i c _
    obtain ⟨yes, e₁, h₁, h⟩ := bind_ok h
    obtain ⟨stop, e₂, h₂, h⟩ := bind_ok h
    obtain ⟨rfl, a₁, c₁, r₁⟩ := newLabel_ok h₁
    obtain ⟨rfl, a₂, c₂, r₂⟩ := newLabel_ok h₂
    rw [c₁] at c₂ h
    have a₀ := a₁.trans a₂
    have r₀ := r₂.trans r₁
    dsimp only at h
    split at h
    · obtain ⟨_, e₃, h₃, h⟩ := bind_ok h
      obtain ⟨_, e₄, h₄, h⟩ := bind_ok h
      obtain ⟨_, e₅, h₅, h⟩ := bind_ok h
      obtain ⟨_, e₆, h₆, h⟩ := bind_ok h
      obtain ⟨w, p₃⟩ := widen_quiet _ _ _ _ _ h₃
      obtain ⟨w', k₄, hw', hrw'⟩ := replay_keeps h₄
      have k : Keeps e₂ e₆ (w ++ rc.lines ++ (w' ++ [.instr (.fcmp (c == .lt || c == .le)),
          .instr (.ifZero c ⟨e.frame.nextLabel⟩)])) :=
        ((p₃.toKeeps.trans k₄).trans ((keeps_emit h₅).trans (keeps_emit h₆))).of_eq (by simp)
      exact compare_assemble hp he a₀ r₀ c₂ k p₃.placed p₃.refs (by simp [hw'])
        (by simp [hrw', jumpTarget]) (compare_tail h)
    · obtain ⟨_, e₄, h₄, h⟩ := bind_ok h
      obtain ⟨w', k₄, hw', hrw'⟩ := replay_keeps h₄
      -- the jump to the true label compares references or integers
      have jump : ∀ {i : Instr} {e₆ : Emitter} {u : Unit}, jumpTarget i = some ⟨e.frame.nextLabel⟩ →
          (Emitter.emit i).run e₄ = .ok (u, e₆) → Keeps e₂ e₆ ([] ++ rc.lines ++ (w' ++ [.instr i]))
            ∧ placedLabels (w' ++ [.instr i]) = [] ∧
            ∀ l ∈ refLabels (w' ++ [.instr i]), l = ⟨e.frame.nextLabel⟩ := fun hi h₆ ↦
        ⟨(k₄.trans (keeps_emit h₆)).of_eq (by simp), by simp [hw'], by simp [hrw', hi]⟩
      split at h
      · obtain ⟨_, e₆, h₆, h⟩ := bind_ok h
        obtain ⟨k, hpost, hrpost⟩ := jump rfl h₆
        exact compare_assemble hp he a₀ r₀ c₂ k rfl rfl hpost hrpost (compare_tail h)
      · obtain ⟨_, e₆, h₆, h⟩ := bind_ok h
        obtain ⟨k, hpost, hrpost⟩ := jump rfl h₆
        exact compare_assemble hp he a₀ r₀ c₂ k rfl rfl hpost hrpost (compare_tail h)
  · cases h

theorem binary_took {op : BinOp} {lt : Ty} {rc : Captured} {a : Nat} {e e' : Emitter} {t : Ty}
    (hp : Pending (LoopTargets e.frame.loops) a rc)
    (he : e.frame.nextLabel = (a + (placedLabels rc.lines).length) % 4294967296)
    (h : (Lower.binary op lt rc).run e = .ok (t, e')) :
    ∃ code, Took (LoopTargets e.frame.loops) a e e' code := by
  unfold Lower.binary at h
  split at h
  · dsimp only at h
    split at h
    · obtain ⟨_, e₁, h₁, h⟩ := bind_ok h
      obtain ⟨post, p⟩ := Quiet.bind (Quiet.emit rfl) (fun _ ↦ Quiet.pure _) _ _ _ h
      exact Took.of_replayed hp he (Plain.refl e) h₁ p
    split at h
    · obtain ⟨_, e₁, h₁, h⟩ := bind_ok h
      cases h
      exact compare_took hp he h₁
    split at h
    · obtain ⟨_, e₁, h₁, h⟩ := bind_ok h
      obtain ⟨_, e₂, h₂, h⟩ := bind_ok h
      obtain ⟨pre, p₁⟩ := widen_quiet _ _ _ _ _ h₁
      obtain ⟨post, p₃⟩ := Quiet.bind (arithmetic_quiet _ _) (fun _ ↦ Quiet.pure _) _ _ _ h
      exact Took.of_replayed hp he p₁ h₂ p₃
    · obtain ⟨_, e₁, h₁, h⟩ := bind_ok h
      obtain ⟨_, e₂, h₂, h⟩ := bind_ok h
      obtain ⟨pre, p₁⟩ := widen_quiet _ _ _ _ _ h₁
      have q : Quiet (do
          Emitter.arithmetic op (ValueKind.of ‹Ty›)
          if (op == .intDiv && ValueKind.of ‹Ty› == .float) = true then do
            Emitter.emit .f2i
            Emitter.emit .i2f
            pure ‹Ty›
          else pure ‹Ty›) := by
        refine Quiet.bind (arithmetic_quiet _ _) fun _ ↦ ?_
        split
        · exact Quiet.bind (Quiet.emit rfl) fun _ ↦ Quiet.bind (Quiet.emit rfl) fun _ ↦ Quiet.pure _
        · exact Quiet.pure _
      obtain ⟨post, p₃⟩ := q _ _ _ h
      exact Took.of_replayed hp he p₁ h₂ p₃
  · cases h

def Owes (O : Label → Prop) : Nat → List Captured → Prop
  | _, [] => True
  | a, c :: cs => Pending O a c ∧ Owes O (a + (placedLabels c.lines).length) cs

theorem plain_emit {i : Instr} {e e' : Emitter} {u : Unit} (hi : jumpTarget i = none)
    (h : (Emitter.emit i).run e = .ok (u, e')) : Plain e e' [.instr i] :=
  ⟨keeps_emit h, rfl, by simp [hi]⟩

theorem fillArray_replays {O : Label → Prop} (elem : Ty) :
    ∀ (i : Nat) (cs : List Captured) {a : Nat} {e e' : Emitter} {u : Unit}, Owes O a cs →
      (Lower.fillArray elem i cs).run e = .ok (u, e') →
      ∃ code, Replays O a e e' code ∧ placedLabels code = placedLabels (cs.flatMap (·.lines))
  | _, [], _, e, _, _, _, h => by
    rw [Lower.fillArray] at h
    cases h
    exact ⟨[], .of_plain (Plain.refl e), rfl⟩
  | i, c :: cs, a, _, _, _, ⟨hp, hs⟩, h => by
    rw [Lower.fillArray] at h
    obtain ⟨_, e₁, h₁, h⟩ := bind_ok h
    obtain ⟨_, e₂, h₂, h⟩ := bind_ok h
    obtain ⟨_, e₃, h₃, h⟩ := bind_ok h
    obtain ⟨_, e₄, h₄, h⟩ := bind_ok h
    obtain ⟨w, r₃, hw⟩ := replay_replays hp h₃
    obtain ⟨code, r₅, hc⟩ := fillArray_replays elem (i + 1) cs hs h
    have r := ((((Replays.of_plain ((plain_emit rfl h₁).trans (plain_emit rfl h₂)) :
      Replays O a _ _ _).trans r₃ (by simp)).trans (.of_plain (plain_emit rfl h₄)) rfl).trans r₅
      (by simp [hw]))
    exact ⟨_, r, by simp [hw, hc]⟩

theorem replayArgs_replays {O : Label → Prop} :
    ∀ (args : List (Captured × Ty)) {a : Nat} {e e' : Emitter} {u : Unit},
      Owes O a (args.map Prod.fst) → (Lower.replayArgs args).run e = .ok (u, e') →
      ∃ code, Replays O a e e' code ∧
        placedLabels code = placedLabels ((args.map Prod.fst).flatMap (·.lines))
  | [], _, e, _, _, _, h => by
    rw [Lower.replayArgs] at h
    cases h
    exact ⟨[], .of_plain (Plain.refl e), rfl⟩
  | (c, p) :: rest, a, _, _, _, ⟨hp, hs⟩, h => by
    rw [Lower.replayArgs] at h
    obtain ⟨_, e₁, h₁, h⟩ := bind_ok h
    obtain ⟨w, r₁, hw⟩ := replay_replays hp h₁
    obtain ⟨code, r₂, hc⟩ := replayArgs_replays rest hs h
    exact ⟨_, r₁.trans r₂ (by simp [hw]), by simp [hw, hc]⟩

theorem foldl_keep_or_take {γ : Type} {f : Option γ → γ → Option γ}
    (hf : ∀ b x, f b x = some x ∨ f b x = b) :
    ∀ (l : List γ) (init : Option γ) {k : γ}, l.foldl f init = some k → init = some k ∨ k ∈ l
  | [], _, _, h => .inl h
  | x :: l, init, k, h => by
    rcases foldl_keep_or_take hf l (f init x) h with h' | h'
    · rcases hf init x with hx | hx
      · rw [hx] at h'
        cases h'
        exact .inr List.mem_cons_self
      · rw [hx] at h'
        exact .inl h'
    · exact .inr (List.mem_cons_of_mem _ h')

theorem resolveCtorBy_length {order : ClassInfo → List CtorInfo} {t : ClassTable} {c : String}
    {ts : List Ty} {k : CtorInfo} (h : t.resolveCtorBy order c ts = some k) :
    k.sig.types.length = ts.length := by
  unfold ClassTable.resolveCtorBy at h
  split at h
  · rename_i hk
    cases h
    obtain ⟨r, -, hr⟩ := Option.bind_eq_some_iff.mp hk
    unfold ClassInfo.ctor? at hr
    have hsig := List.find?_some hr
    rw [beq_iff_eq.mp hsig]
  · rcases foldl_keep_or_take (fun b x ↦ by cases b <;> dsimp only <;> (try split) <;> simp) _ _ h
      with h | h
    · cases h
    · have := (List.mem_filter.mp h).2
      simp only [Signature.accepts, Bool.and_eq_true, beq_iff_eq] at this
      exact this.1

theorem ctorParams_length {s : Site} {c : String} {args : List Captured} {ps : List Ty}
    {e e' : Emitter} (h : (Lower.ctorParams s c args).run e = .ok (ps, e')) :
    ps.length = args.length := by
  unfold Lower.ctorParams at h
  dsimp only at h
  split at h
  · cases h
    rw [resolveCtorBy_length ‹_›, List.length_map]
  · split at h
    · cases h
      rename_i hempty
      rw [List.isEmpty_iff, List.map_eq_nil_iff] at hempty
      rw [hempty]
      rfl
    · cases h

theorem Took.pre {O : Label → Prop} {a : Nat} {e e₁ e' : Emitter} {code : List Line}
    (a₀ : Appends e e₁ []) (r₀ : e₁.frame.ret = e.frame.ret) (t : Took O a e₁ e' code) :
    Took O a e e' code :=
  ⟨by simpa using a₀.trans t.appends, t.ret.trans r₀, t.counter, t.fresh⟩

theorem Owes.of_ge {O : Label → Prop} : ∀ {a : Nat} (cs : List Captured), 4294967296 ≤ a →
    Owes O a cs
  | _, [], _ => trivial
  | _, _ :: cs, ha => ⟨fun hw ↦ absurd hw (by omega), Owes.of_ge cs (by omega)⟩

theorem Owes.of_mod {O : Label → Prop} {a : Nat} {cs : List Captured}
    (h : Owes O (a % 4294967296) cs) : Owes O a cs := by
  by_cases ha : a < 4294967296
  · rwa [Nat.mod_eq_of_lt ha] at h
  · exact Owes.of_ge cs (by omega)

section Expressions

variable (s : Site)

theorem chainBase_takes (b : Expr) {act : EmitM Ty} (ha : Takes act) :
    Takes (Lower.chainBase s b act) := by
  unfold Lower.chainBase
  have hv : Takes (do let t ← act; pure (Operand.value t)) := Takes.bind ha fun _ ↦ Takes.pure _
  split
  · refine Takes.bind (.of_quiet Quiet.get) fun st ↦ ?_
    split
    · exact Takes.pure _
    · refine Takes.bind (.of_quiet (resolve_quiet s _)) fun r ↦ ?_
      split
      · exact Takes.pure _
      · exact hv
  · exact hv

mutual

theorem lowerExpr_takes : ∀ e : Expr, Takes (Lower.lowerExpr s e)
  | .lit l _ => by rw [Lower.lowerExpr]; exact .of_quiet (literal_quiet l)
  | .ident n _ => by rw [Lower.lowerExpr]; exact .of_quiet (loadIdent_quiet s n)
  | .this _ => by
    rw [Lower.lowerExpr]
    exact .of_quiet (Quiet.bind (Quiet.emit rfl) fun _ ↦ Quiet.pure _)
  | .binary op l r _ => by
    rw [Lower.lowerExpr]
    split
    · exact logical_takes op (lowerExpr_takes l) (lowerExpr_takes r)
    · intro e t e' hc h
      obtain ⟨lt, e₁, h₁, h⟩ := bind_ok h
      obtain ⟨rc, e₂, h₂, h₃⟩ := bind_ok h
      obtain ⟨c₁, t₁⟩ := lowerExpr_takes l e lt e₁ hc h₁
      -- the right operand is compiled ahead, from where the left one left the counter
      obtain ⟨hp, he, hl, hlo, hr⟩ := capture_pending (lowerExpr_takes r) t₁.counter_lt h₂
      rw [← hlo] at hp
      obtain ⟨c₃, t₃⟩ := binary_took hp he h₃
      rw [hlo, t₁.appends.1] at t₃
      exact ⟨_, t₁.next (Took.pre ⟨hlo, by rw [hl, List.append_nil]⟩ hr t₃)⟩
  | .unary op a _ => by
    rw [Lower.lowerExpr]
    exact Takes.bind (lowerExpr_takes a) fun _ ↦
      Takes.bind (.of_quiet (unary_quiet _ _)) fun _ ↦ Takes.pure _
  | .chain b ss _ => by
    rw [Lower.lowerExpr]
    refine Takes.bind (chainBase_takes s b (lowerExpr_takes b)) fun base ↦
      Takes.bind (lowerSteps_takes base ss) fun op ↦ ?_
    cases op
    · exact Takes.throw _
    · exact Takes.pure _
  | .array es _ => by
    rw [Lower.lowerExpr]
    intro e t e' hc h
    obtain ⟨cs, e₁, h₁, h⟩ := bind_ok h
    dsimp only at h
    obtain ⟨_, e₂, h₂, h⟩ := bind_ok h
    obtain ⟨_, e₃, h₃, h⟩ := bind_ok h
    cases h
    obtain ⟨ho, hc₁, a₁, r₁⟩ := captureList_owes 3 0 es hc h₁
    obtain ⟨pre, p₂⟩ := newArray_quiet _ _ _ _ _ h₂
    obtain ⟨code, r₃, hcode⟩ := fillArray_replays _ 0 cs ho h₃
    have r := (Replays.of_plain p₂ : Replays _ e.frame.nextLabel e₁ e₂ pre).trans r₃
      (by simp [p₂.placed])
    refine ⟨_, Took.pre a₁ r₁ (r.took ?_)⟩
    rw [hc₁, placedLabels_append, p₂.placed, hcode]
    rfl
  | .new c as _ => by
    rw [Lower.lowerExpr]
    intro e t e' hc h
    obtain ⟨cs, e₁, h₁, h⟩ := bind_ok h
    obtain ⟨ps, e₂, h₂, h⟩ := bind_ok h
    obtain ⟨_, e₃, h₃, h⟩ := bind_ok h
    obtain ⟨_, e₄, h₄, h⟩ := bind_ok h
    obtain ⟨_, e₅, h₅, h⟩ := bind_ok h
    obtain ⟨_, e₆, h₆, h⟩ := bind_ok h
    cases h
    obtain ⟨ho, hc₁, a₁, r₁⟩ := captureList_owes 2 1 as hc h₁
    obtain ⟨pre, p₂⟩ := ctorParams_quiet s _ _ _ _ _ h₂
    -- every captured argument has a parameter, so each is written
    have hzip : (cs.zip ps).map Prod.fst = cs :=
      List.map_fst_zip (Nat.le_of_eq (ctorParams_length h₂).symm)
    obtain ⟨code, r₅, hcode⟩ := replayArgs_replays (cs.zip ps) (hzip ▸ ho) h₅
    have p₄ := (p₂.trans (plain_emit rfl h₃)).trans (plain_emit rfl h₄)
    have r := ((Replays.of_plain p₄ : Replays _ e.frame.nextLabel e₁ e₄ _).trans r₅
      (by simp [p₂.placed])).trans (.of_plain (plain_emit rfl h₆)) rfl
    refine ⟨_, Took.pre a₁ r₁ (r.took ?_)⟩
    rw [hc₁, placedLabels_append, placedLabels_append, p₄.placed, hcode, hzip]
    simp
  | .paren e _ => by rw [Lower.lowerExpr]; exact lowerExpr_takes e

theorem captureList_owes (above step : Int) :
    ∀ (es : List Expr) {e e' : Emitter} {cs : List Captured},
      e.frame.nextLabel < 4294967296 → (Lower.captureList s above step es).run e = .ok (cs, e') →
      Owes (LoopTargets e.frame.loops) e.frame.nextLabel cs ∧
        e'.frame.nextLabel =
          (e.frame.nextLabel + (placedLabels (cs.flatMap (·.lines))).length) % 4294967296 ∧
        Appends e e' [] ∧ e'.frame.ret = e.frame.ret
  | [], e, _, _, hc, h => by
    rw [Lower.captureList] at h
    cases h
    exact ⟨trivial, by simp [Nat.mod_eq_of_lt hc], ⟨rfl, by simp⟩, rfl⟩
  | x :: xs, e, _, _, hc, h => by
    rw [Lower.captureList] at h
    obtain ⟨c, e₁, h₁, h⟩ := bind_ok h
    obtain ⟨cs, e₂, h₂, h⟩ := bind_ok h
    cases h
    obtain ⟨hp, hc₁, hl₁, hlo₁, hr₁⟩ := capture_pending (lowerExpr_takes x) hc h₁
    obtain ⟨ho, hc₂, a₂, r₂⟩ := captureList_owes (above + step) step xs
      (hc₁ ▸ Nat.mod_lt _ (by decide)) h₂
    rw [hlo₁, hc₁] at ho
    refine ⟨⟨hp, ho.of_mod⟩, ?_, ⟨a₂.1.trans hlo₁, by rw [a₂.2, hl₁]⟩, r₂.trans hr₁⟩
    rw [hc₂, hc₁, List.flatMap_cons, placedLabels_append, List.length_append]
    omega

theorem lowerArgs_takes : ∀ (es : List Expr) (ps : List Ty), Takes (Lower.lowerArgs s es ps)
  | e :: es, p :: ps => by
    rw [Lower.lowerArgs]
    exact Takes.bind (lowerExpr_takes e) fun _ ↦
      Takes.bind (.of_quiet (widen_quiet _ _)) fun _ ↦ lowerArgs_takes es ps
  | [], _ => by simp only [Lower.lowerArgs]; exact Takes.pure _
  | _ :: _, [] => by simp only [Lower.lowerArgs]; exact Takes.pure _

theorem lowerSteps_takes : ∀ (op : Operand) (ss : List Step), Takes (Lower.lowerSteps s op ss)
  | op, [] => by rw [Lower.lowerSteps]; exact Takes.pure _
  | op, .member n _ :: rest => by
    rw [Lower.lowerSteps]
    refine Takes.bind (.of_quiet (Quiet.liftExcept _)) fun c ↦ ?_
    split
    · exact Takes.throw _
    · dsimp only
      split
      · exact Takes.bind (.of_quiet (dropReceiver_quiet _)) fun _ ↦
          Takes.bind (.of_quiet (Quiet.emit rfl)) fun _ ↦
          Takes.bind (Takes.pure _) fun _ ↦ lowerSteps_takes _ rest
      · exact Takes.bind (.of_quiet (Quiet.emit rfl)) fun _ ↦
          Takes.bind (Takes.pure _) fun _ ↦ lowerSteps_takes _ rest
  | op, .index i _ :: rest => by
    cases op with
    | cls c => rw [Lower.lowerSteps]; exact Takes.throw _
    | value t =>
      rw [Lower.lowerSteps]
      exact Takes.bind (.of_quiet (Quiet.liftExcept _)) fun _ ↦
        Takes.bind (lowerExpr_takes i) fun _ ↦ Takes.bind (.of_quiet (Quiet.emit rfl)) fun _ ↦
        lowerSteps_takes _ rest
  | op, .call n as _ :: rest => by
    rw [Lower.lowerSteps]
    refine Takes.bind (.of_quiet (Quiet.liftExcept _)) fun c ↦ ?_
    split
    · refine Takes.bind (.of_quiet (dropReceiver_quiet _)) fun _ ↦ ?_
      split
      · exact Takes.throw _
      · exact Takes.bind (.of_quiet (checkArity_quiet _ _)) fun _ ↦
          Takes.bind (lowerArgs_takes as _) fun _ ↦ Takes.bind (.of_quiet (Quiet.emit rfl))
          fun _ ↦ lowerSteps_takes _ rest
    · split
      · exact Takes.throw _
      · rename_i h m _
        dsimp only
        have tail : ∀ i : Instr, jumpTarget i = none → Takes (do
            Lower.checkArity m.params as
            Lower.lowerArgs s as m.params
            Emitter.emit i
            let next ← pure (Operand.value m.ret.deref)
            Lower.lowerSteps s next rest) := fun _ hi ↦
          Takes.bind (.of_quiet (checkArity_quiet _ _)) fun _ ↦
            Takes.bind (lowerArgs_takes as _) fun _ ↦ Takes.bind (.of_quiet (Quiet.emit hi))
            fun _ ↦ Takes.bind (Takes.pure _) fun _ ↦ lowerSteps_takes _ rest
        split
        · exact Takes.bind (.of_quiet (dropReceiver_quiet _)) fun _ ↦ tail _ rfl
        · exact tail _ rfl

end

end Expressions

end ClassLang.Proofs.FreshLabels
