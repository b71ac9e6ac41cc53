import ClassLang.Proofs.AttrStores
import ClassLang.Proofs.OrderFree
import ClassLang.Proofs.RoutineLabels

namespace ClassLang.Proofs.ObjectInit

open ClassLang Runs Invariants Generation Linking RoutineLabels Registration Verdicts AttrStores

variable {α β : Type}

def ValueCode (s : Site) (e : Expr) (t : Ty) (code : List Line) : Prop :=
  ∃ st st', (Lower.lowerExpr s e).run st = .ok (t, st') ∧ st'.lines.toList = st.lines.toList ++ code

theorem ValueCode.stores {s : Site} {e : Expr} {t : Ty} {code : List Line}
    (h : ValueCode s e t code) : attrStores code = [] := by
  obtain ⟨st, st', hrun, hl⟩ := h
  obtain ⟨code', u⟩ := lowerExpr_storeFree s e st t st' hrun
  rw [List.append_cancel_left (hl.symm.trans u.lines)]
  exact u.stores

def widening (target actual : Ty) : List Line :=
  if Ty.needsWidening target actual then [.instr .i2f] else []

/-- Whether an attribute gets a first value when its object or its class is initialized: it has
an initializer or an array type. -/
def hasFirstValue (a : AttrInfo) : Bool := a.init.isSome || a.type.isArray

/-- The code that pushes an attribute's first value: the code of its initializer widened to the
attribute's type, or, without one, a new array of its declared size. -/
inductive FirstValue (s : Site) (a : AttrInfo) : List Line → Prop
  | init {e : Expr} {t : Ty} {code : List Line} :
      a.init = some e → ValueCode s e t code → FirstValue s a (code ++ widening a.type t)
  | array {elem : Ty} {n : Nat} :
      a.init = none → a.type = .array elem n →
      FirstValue s a [.instr (.pushInt n), .instr (.newArray elem)]

def storeLine (cls : String) (a : AttrInfo) : Line :=
  .instr (if a.isStatic then .putStatic cls a.name a.type else .putField cls a.name a.type)

def receiverCode (a : AttrInfo) : List Line := if a.isStatic then [] else [.instr (.load .ref 0)]

/-- The code that initializes attribute `a` of the site's class: nothing when it has no first
value, else its receiver, its first value and one store into it. -/
inductive AttrInit (s : Site) (a : AttrInfo) : List Line → Prop
  | skip : hasFirstValue a = false → AttrInit s a []
  | store {v : List Line} : hasFirstValue a = true → FirstValue s a v →
      AttrInit s a (receiverCode a ++ v ++ [storeLine s.cls a])

def AttrInits (s : Site) (as : List AttrInfo) (code : List Line) : Prop :=
  ∃ segs, List.Forall₂ (AttrInit s) as segs ∧ code = segs.flatten

/-- The stores into the attributes among `as` that get a first value, in order: whether each is
static, the class and its name. -/
def firstStores (cls : String) (as : List AttrInfo) : List (Bool × String × String) :=
  (as.filter hasFirstValue).map fun a ↦ (a.isStatic, cls, a.name)

section FirstValues

variable {s : Site} {a : AttrInfo} {v code : List Line}

theorem FirstValue.stores (h : FirstValue s a v) : attrStores v = [] := by
  cases h with
  | init _ hc =>
    rw [attrStores_append, hc.stores]
    unfold widening
    split <;> rfl
  | array _ _ => rfl

theorem AttrInit.stores (h : AttrInit s a code) :
    attrStores code = if hasFirstValue a then [(a.isStatic, s.cls, a.name)] else [] := by
  cases h with
  | skip hn => rw [hn]; rfl
  | store hv hf =>
    rw [hv, attrStores_append, attrStores_append, hf.stores]
    unfold receiverCode storeLine
    cases a.isStatic <;> rfl

theorem AttrInits.stores {as : List AttrInfo} (h : AttrInits s as code) :
    attrStores code = firstStores s.cls as := by
  obtain ⟨segs, hf, rfl⟩ := h
  induction hf with
  | nil => rfl
  | @cons a seg as segs ha _ ih =>
    rw [List.flatten_cons, attrStores_append, ha.stores, ih]
    cases hfv : hasFirstValue a <;> simp [firstStores, hfv]

end FirstValues

theorem isArray_eq_true {t : Ty} (h : t.isArray = true) : ∃ elem n, t = .array elem n := by
  cases t with
  | array elem n => exact ⟨elem, n, rfl⟩
  | _ => simp [Ty.isArray] at h

section Runs

variable (s : Site)

@[simp] theorem thisType_kind : ValueKind.of s.thisType = .ref := rfl

theorem widen_lines {target actual : Ty} {e e' : Emitter} {u : Unit}
    (h : (Lower.widen target actual).run e = .ok (u, e')) :
    e'.lines.toList = e.lines.toList ++ widening target actual := by
  unfold Lower.widen at h
  unfold widening
  split at h
  · next hw =>
    obtain ⟨f, -, rfl⟩ := emit_ok h
    simp [hw]
  · next hw =>
    cases h
    simp [hw]

def pushFirstValue (a : AttrInfo) : EmitM Unit :=
  match a.init with
  | some e => do
    let t ← Lower.lowerExpr s e
    Lower.widen a.type t
  | none => Lower.pushZero a.type

theorem initAttribute_eq (a : AttrInfo) :
    Lower.initAttribute s a = if hasFirstValue a then
      ((if !a.isStatic then Emitter.loadLocal s.thisType 0 else pure ()) >>= fun _ ↦
        pushFirstValue s a >>= fun _ ↦
        Emitter.emit (if a.isStatic then .putStatic s.cls a.name a.type
          else .putField s.cls a.name a.type))
    else pure () := by
  unfold Lower.initAttribute pushFirstValue hasFirstValue
  split
  · cases a.isStatic <;> cases a.init <;> simp
  · rfl

theorem pushFirstValue_run {a : AttrInfo} (hv : hasFirstValue a = true) {e e' : Emitter}
    {u : Unit} (h : (pushFirstValue s a).run e = .ok (u, e')) :
    ∃ v, e'.lines.toList = e.lines.toList ++ v ∧ FirstValue s a v := by
  unfold pushFirstValue at h
  split at h
  · next x hx =>
    obtain ⟨t, e₁, h₁, h₂⟩ := bind_ok h
    obtain ⟨c, u⟩ := lowerExpr_storeFree s x e t e₁ h₁
    refine ⟨c ++ widening a.type t, ?_, .init hx ⟨_, _, h₁, u.lines⟩⟩
    rw [widen_lines h₂, u.lines, List.append_assoc]
  · next hx =>
    -- without an initializer, the attribute has an array type
    rw [hasFirstValue, hx, Option.isSome_none, Bool.false_or] at hv
    obtain ⟨elem, n, ht⟩ := isArray_eq_true hv
    simp only [Lower.pushZero, ht, Ty.deref, Emitter.newArray] at h
    obtain ⟨_, e₁, h₁, h₂⟩ := bind_ok h
    obtain ⟨f₁, -, rfl⟩ := emit_ok h₁
    obtain ⟨f₂, -, rfl⟩ := emit_ok h₂
    exact ⟨_, by simp, .array hx ht⟩

theorem initAttribute_run {a : AttrInfo} {e e' : Emitter} {u : Unit}
    (h : (Lower.initAttribute s a).run e = .ok (u, e')) :
    ∃ code, e'.lines.toList = e.lines.toList ++ code ∧ AttrInit s a code := by
  rw [initAttribute_eq] at h
  split at h
  · next hv =>
    obtain ⟨_, e₁, h₁, h⟩ := bind_ok h
    obtain ⟨_, e₂, h₂, h₃⟩ := bind_ok h
    have l₁ : e₁.lines.toList = e.lines.toList ++ receiverCode a := by
      unfold receiverCode
      split at h₁
      · next hs =>
        obtain ⟨f, -, rfl⟩ := emit_ok h₁
        simp only [Bool.not_eq_true'] at hs
        simp [hs]
      · next hs =>
        cases h₁
        simp only [Bool.not_eq_true', Bool.not_eq_false] at hs
        simp [hs]
    obtain ⟨v, l₂, hfv⟩ := pushFirstValue_run s hv h₂
    obtain ⟨f, -, rfl⟩ := emit_ok h₃
    refine ⟨_, ?_, .store hv hfv⟩
    simp only [Array.toList_push, l₂, l₁, storeLine, List.append_assoc]
  · next hv =>
    cases h
    exact ⟨[], by simp, .skip (by simpa using hv)⟩

theorem initAttributes_run : ∀ {as : List AttrInfo} {e e' : Emitter} {u : Unit},
    (Lower.initAttributes s as).run e = .ok (u, e') →
      ∃ code, e'.lines.toList = e.lines.toList ++ code ∧ AttrInits s as code
  | [], e, e', u, h => by
    rw [Lower.initAttributes] at h
    cases h
    exact ⟨[], by simp, [], .nil, rfl⟩
  | a :: as, e, e', u, h => by
    rw [Lower.initAttributes] at h
    obtain ⟨_, e₁, h₁, h₂⟩ := bind_ok h
    obtain ⟨c₁, l₁, ha⟩ := initAttribute_run s h₁
    obtain ⟨c₂, l₂, segs, hf, rfl⟩ := initAttributes_run h₂
    exact ⟨c₁ ++ segs.flatten, by rw [l₂, l₁, List.append_assoc], c₁ :: segs, .cons ha hf, rfl⟩

/-- The call of the parent's constructor without arguments: the object, then
`invokespecial P/<init>()V`. -/
def superCode (parent : String) : List Line := [.instr (.load .ref 0), superLine parent]

theorem superCall_run {parent : String} {e e' : Emitter} {u : Unit}
    (h : (Lower.superCall s parent).run e = .ok (u, e')) :
    e'.lines.toList = e.lines.toList ++ superCode parent := by
  unfold Lower.superCall at h
  obtain ⟨_, e₁, h₁, h₂⟩ := bind_ok h
  obtain ⟨f₁, -, rfl⟩ := emit_ok h₁
  obtain ⟨f₂, -, rfl⟩ := emit_ok h₂
  simp [superCode, superLine]

end Runs

@[simp] theorem attrStores_superCode (parent : String) : attrStores (superCode parent) = [] := rfl

theorem stores_of_varLines {r : BlockLabels} {code : List Line} (h : VarLines r code) :
    attrStores code = [] := by
  induction code with
  | nil => rfl
  | cons x code ih =>
    obtain ⟨slot, n, t, rfl⟩ := h x List.mem_cons_self
    exact ih h.tail

/-- Lines that, past the `.var` lines of the routine's locals and its start label, begin with
`pre`: the first instructions every run of the routine executes. -/
def StartsWith (pre lines : List Line) : Prop :=
  ∃ vars rest, VarLines routineRange vars ∧ lines = vars ++ .label routineRange.start :: pre ++ rest

/-- The code of a constructor of the site's class whose parent is `parent`: first the call of
the parent's constructor, then the initialization of the instance attributes among `attrs`, in
order, which stores into each of them that has a first value once. -/
def CtorCode (s : Site) (parent : String) (attrs : List AttrInfo) (lines : List Line) : Prop :=
  ∃ stores, AttrInits s (attrs.filter (!·.isStatic)) stores ∧
    attrStores stores = firstStores s.cls (attrs.filter (!·.isStatic)) ∧
    StartsWith (superCode parent ++ stores) lines

/-- The constructor a class that declares none gets: `<init>()V`, laid out as `CtorCode` says,
storing into no attribute but the instance attributes with a first value, once each. -/
def DefaultCtor (s : Site) (parent : String) (attrs : List AttrInfo) (rc : RoutineCode) : Prop :=
  rc.header = ⟨true, false, "<init>", [], .void⟩ ∧ CtorCode s parent attrs rc.lines ∧
    attrStores rc.lines = firstStores s.cls (attrs.filter (!·.isStatic))

/-- The static initializer `<clinit>()V` of the site's class: it starts by initializing the
static attributes among `attrs` in order, and stores into no other attribute. -/
def StaticInit (s : Site) (attrs : List AttrInfo) (rc : RoutineCode) : Prop :=
  rc.header = ⟨false, true, "<clinit>", [], .void⟩ ∧
    ∃ stores, AttrInits s (attrs.filter (·.isStatic)) stores ∧ StartsWith stores rc.lines ∧
      attrStores rc.lines = firstStores s.cls (attrs.filter (·.isStatic))

/-- The routine `o` a member becomes, when the member is a constructor `k`: the instance
routine `<init>` over `k`'s parameter types, laid out as `CtorCode` says. -/
def CtorRoutine (s : Site) (parent : String) (attrs : List AttrInfo) (m : Member)
    (o : Option RoutineCode) : Prop :=
  ∀ k, m = .ctor k → ∃ rc, o = some rc ∧
    rc.header = ⟨true, false, "<init>", k.params.map (·.type), .void⟩ ∧
      CtorCode s parent attrs rc.lines

section Routines

variable (s : Site) (parent : String) (attrs : List AttrInfo) {rc : RoutineCode}
  {log log' : Array LogLine}

theorem routine_code {h : MethodHeader} {r : Receiver} {body : BlockLabels → EmitM Unit}
    (hr : runFrom (Lower.routine s h r body) log = (.ok rc, log')) :
    rc.header = h ∧ ∃ e e', VarLines routineRange e.lines.toList ∧
      (body routineRange).run e = .ok ((), e') ∧ rc.lines = e'.lines.toList := by
  obtain ⟨hh, st', hrun, hl⟩ := routine_ok s hr
  obtain ⟨ls, e, h₁, h₂⟩ := bind_ok hrun
  obtain ⟨rfl, ho⟩ := openRoutine_opened h₁
  exact ⟨hh, e, st', ho.vars, h₂, hl⟩

theorem defaultCtor_code (hr : runFrom (Lower.defaultCtor s parent attrs) log = (.ok rc, log')) :
    DefaultCtor s parent attrs rc := by
  obtain ⟨hh, e, e', hv, h, hl⟩ := routine_code s hr
  obtain ⟨_, e₁, h₁, k₁⟩ := bind_ok h
  obtain ⟨_, e₂, h₂, k₂⟩ := bind_ok k₁
  obtain ⟨_, e₃, h₃, k₃⟩ := bind_ok k₂
  cases h₁
  obtain ⟨stores, l₃, hs⟩ := initAttributes_run s h₃
  obtain ⟨rest, u⟩ := closeRoutine_storeFree routineRange none e₃ () e' k₃
  have hlines : rc.lines =
      e.lines.toList ++ .label routineRange.start :: (superCode parent ++ stores) ++ rest := by
    rw [hl, u.lines, l₃, superCall_run s h₂]
    simp
  refine ⟨hh, ⟨stores, hs, hs.stores, _, rest, hv, hlines⟩, ?_⟩
  simp [hlines, stores_of_varLines hv, hs.stores, u.stores]

theorem staticInit_code (hr : runFrom (Lower.staticInit s attrs) log = (.ok rc, log')) :
    StaticInit s attrs rc := by
  obtain ⟨hh, e, e', hv, h, hl⟩ := routine_code s hr
  obtain ⟨_, e₁, h₁, k₁⟩ := bind_ok h
  obtain ⟨_, e₂, h₂, k₂⟩ := bind_ok k₁
  cases h₁
  obtain ⟨stores, l₂, hs⟩ := initAttributes_run s h₂
  obtain ⟨rest, u⟩ := closeRoutine_storeFree routineRange none e₂ () e' k₂
  have hlines : rc.lines = e.lines.toList ++ .label routineRange.start :: stores ++ rest := by
    rw [hl, u.lines, l₂]
    simp
  refine ⟨hh, stores, hs, ⟨_, rest, hv, hlines⟩, ?_⟩
  simp [hlines, stores_of_varLines hv, hs.stores, u.stores]

theorem lowerCtor_code {k : CtorDecl}
    (hr : runFrom (Lower.lowerCtor s parent attrs k) log = (.ok rc, log')) :
    rc.header = ⟨true, false, "<init>", k.params.map (·.type), .void⟩ ∧
      CtorCode s parent attrs rc.lines := by
  obtain ⟨hh, e, e', hv, h, hl⟩ := routine_code s hr
  refine ⟨hh, ?_⟩
  obtain ⟨slots, e₁, h₁, k₁⟩ := bind_ok h
  obtain ⟨pv, kp, hpv⟩ := declareParams_writesVars routineRange k.params e slots e₁ h₁
  obtain ⟨_, e₂, h₂, close⟩ := bind_ok k₁
  obtain ⟨ps, e₃, e₄, e₅, e₈, h₃, h₄, prologue, inits, body⟩ := lowerBody_run h₂
  obtain ⟨lv, kl, hlv⟩ := declareLocals_writesVars routineRange k.body.decls e₁ ps e₃ h₃
  cases h₄
  obtain ⟨_, e₆, h₆, k₆⟩ := bind_ok prologue
  obtain ⟨_, e₇, h₇, binding⟩ := bind_ok k₆
  obtain ⟨stores, l₇, hs⟩ := initAttributes_run s h₇
  -- after the attributes' first values, everything only adds lines
  have g₁ := (bindParams_sound linesGrow_steps.toFrameSteps k.params slots).ok _ _ _ binding
  have g₂ := (initLocals_sound linesGrow_steps.toFrameSteps s ps).ok _ _ _ inits
  have g₃ := (lowerStmts_sound linesGrow_steps s k.body.stmts).ok _ _ _ body
  have g₄ := (closeRoutine_sound linesGrow_steps.toFrameSteps routineRange (some k.body)).ok _ _ _
    close
  obtain ⟨rest, hrest⟩ := ((g₁.trans g₂).trans g₃).trans g₄
  refine ⟨stores, hs, hs.stores, e.lines.toList ++ pv ++ lv, rest, (hv.append hpv).append hlv, ?_⟩
  rw [hl, ← hrest, l₇, superCall_run s h₆]
  simp [kl.appends.2, kp.appends.2]

theorem memberRoutine_ctorRoutine {m : Member} {o : Option RoutineCode}
    (hr : runFrom (Lower.memberRoutine s parent attrs m) log = (.ok o, log')) :
    CtorRoutine s parent attrs m o := by
  rintro k rfl
  obtain ⟨rc, hrc, rfl⟩ := runFrom_map_ok hr
  exact ⟨rc, rfl, lowerCtor_code s parent attrs hrc⟩

theorem initRoutines_default {c : ClassDecl} {init : List RoutineCode}
    (hi : runFrom (initRoutines s parent attrs c) log = (.ok init, log')) :
    ∃ dflt : Option RoutineCode, init = dflt.toList ∧ dflt.isSome = c.ctors.isEmpty ∧
      ∀ rc ∈ dflt, DefaultCtor s parent attrs rc := by
  unfold initRoutines at hi
  split at hi
  · next he =>
    obtain ⟨rc, hrc, rfl⟩ := runFrom_map_ok hi
    refine ⟨some rc, rfl, he.symm, fun rc' hrc' ↦ ?_⟩
    cases hrc'
    exact defaultCtor_code s parent attrs hrc
  · next he =>
    rw [← runFrom_pure_ok hi]
    exact ⟨none, rfl, by simpa using he, fun _ h ↦ nomatch h⟩

theorem clinitRoutines_static {clinit : List RoutineCode}
    (hcl : runFrom (clinitRoutines s attrs) log = (.ok clinit, log')) :
    ∃ o : Option RoutineCode, clinit = o.toList ∧ o.isSome = Lower.needsStaticInit attrs ∧
      ∀ rc ∈ o, StaticInit s attrs rc := by
  unfold clinitRoutines at hcl
  split at hcl
  · next hn =>
    obtain ⟨rc, hrc, rfl⟩ := runFrom_map_ok hcl
    refine ⟨some rc, rfl, hn.symm, fun rc' hrc' ↦ ?_⟩
    cases hrc'
    exact staticInit_code s attrs hrc
  · next hn =>
    rw [← runFrom_pure_ok hcl]
    exact ⟨none, rfl, by simpa using hn, fun _ h ↦ nomatch h⟩

end Routines

/-- How the unit `u` of class `c`, lowered for the site `s` with parent `parent`, initializes
objects and the class. Its routines are the default constructor when `c` declares no
constructor, then one optional routine per member, then the static initializer when a static
attribute of `c` has a first value. The default constructor and the routine of each declared
constructor are laid out as `CtorCode` says over `c`'s own attributes in declaration order, and
the static initializer as `StaticInit` says. -/
def InitOrder (s : Site) (parent : String) (c : ClassDecl) (u : ClassUnit) : Prop :=
  ∃ (dflt : Option RoutineCode) (rs : List (Option RoutineCode)) (clinit : Option RoutineCode),
    u.routines = dflt.toList ++ rs.filterMap id ++ clinit.toList ∧
    dflt.isSome = c.ctors.isEmpty ∧ (∀ rc ∈ dflt, DefaultCtor s parent c.declared.attrs rc) ∧
    List.Forall₂ (CtorRoutine s parent c.declared.attrs) c.members rs ∧
    clinit.isSome = c.declared.attrs.any (fun a ↦ a.isStatic && hasFirstValue a) ∧
    ∀ rc ∈ clinit, StaticInit s c.declared.attrs rc

theorem attr?_declared {c : ClassDecl} (hm : MembersWellFormed c.name c.members) {a : AttrInfo}
    (ha : a ∈ c.declared.attrs) : c.declared.attr? a.name = some a := by
  have hnd : (c.declared.attrs.map (·.name)).Nodup :=
    (OrderFree.attrNames_sublist c.name c.members).nodup hm.names_nodup
  obtain ⟨d, hd⟩ : ∃ d, c.declared.attr? a.name = some d :=
    Option.isSome_iff_exists.mp (List.find?_isSome.mpr ⟨a, ha, by simp⟩)
  have hdn : d.name = a.name := by simpa using List.find?_some hd
  rw [hd, List.inj_on_of_nodup_map hnd (List.mem_of_find?_eq_some hd) ha hdn]

theorem mapM_except_ok {f : α → Except CompileError β} {g : α → β} :
    ∀ {l : List α}, (∀ a ∈ l, f a = .ok (g a)) → l.mapM f = .ok (l.map g)
  | [], _ => rfl
  | a :: l, h => by
    rw [List.mapM_cons, h a List.mem_cons_self,
      mapM_except_ok fun b hb ↦ h b (List.mem_cons_of_mem _ hb)]
    rfl

theorem attrsInOrder_declared {c : ClassDecl} (hm : MembersWellFormed c.name c.members) :
    Lower.attrsInOrder c c.declared = .ok c.declared.attrs := by
  have hfind : ∀ a ∈ c.members.flatMap Member.attrInfos, c.declared.attr? a.name = some a :=
    fun _ ha ↦ attr?_declared hm ha
  unfold Lower.attrsInOrder ClassDecl.attrs
  show _ = Except.ok (c.members.flatMap Member.attrInfos)
  generalize c.members = ms at hfind ⊢
  induction ms with
  | nil => rfl
  | cons m ms ih =>
    have hrest := ih fun a ha ↦
      hfind a (by rw [List.flatMap_cons]; exact List.mem_append_right _ ha)
    cases m with
    | attr d =>
      simp only [List.filterMap_cons, List.flatMap_cons, List.mapM_append]
      rw [@mapM_except_ok _ _ _
        (fun v ↦ ⟨v.name, d.type, d.isStatic, d.isFinal, v.init, v.span⟩) d.vars ?_, hrest]
      · rfl
      · intro v hv
        have hmem : (⟨v.name, d.type, d.isStatic, d.isFinal, v.init, v.span⟩ : AttrInfo) ∈
            (Member.attr d :: ms).flatMap Member.attrInfos :=
          List.mem_flatMap_of_mem List.mem_cons_self (List.mem_map_of_mem hv)
        have hv' := hfind _ hmem
        simp only at hv'
        simp only [hv']
    | method _ | ctor _ | dtor _ =>
      simpa [List.filterMap_cons, Member.attrInfos] using hrest

theorem classLower_initOrder {T : ClassTable} {opts : Options} {c : ClassDecl} {u : ClassUnit}
    (hr : T.get? c.name = some c.declared)
    (hattrs : Lower.attrsInOrder c c.declared = .ok c.declared.attrs)
    (h : ∃ l₁ l₂, runFrom (c.lower T opts) l₁ = (.ok u, l₂)) :
    InitOrder ⟨T, opts, c.name⟩ (c.parent.getD opts.defaultSuper) c u := by
  obtain ⟨l, l', h⟩ := h
  rw [classLower_of_get hr] at h
  obtain ⟨_, l₁, -, h⟩ := runFrom_bind_ok h
  obtain ⟨attrs, l₂, ha, h⟩ := runFrom_bind_ok h
  obtain ⟨init, l₃, hi, h⟩ := runFrom_bind_ok h
  obtain ⟨routines, l₄, hm, h⟩ := runFrom_bind_ok h
  obtain ⟨clinit, l₅, hcl, h⟩ := runFrom_bind_ok h
  rw [← runFrom_pure_ok h]
  -- the attributes come in declaration order
  have hat : Except.ok attrs = Lower.attrsInOrder c c.declared := by
    rw [← Yields.lift (Lower.attrsInOrder c c.declared) l₁, ha]
  rw [hattrs] at hat
  cases hat
  obtain ⟨dflt, rfl, hsome, hdflt⟩ := initRoutines_default _ _ _ hi
  obtain ⟨o, rfl, hosome, ho⟩ := clinitRoutines_static _ _ hcl
  exact ⟨dflt, routines, o, rfl, hsome, hdflt,
    (mapM_ok_forall₂ hm).imp fun _ _ ⟨_, _, hr⟩ ↦ memberRoutine_ctorRoutine _ _ _ hr, hosome, ho⟩

theorem mapM_except_forall₂ {g : α → Except CompileError β} :
    ∀ {l : List α} {bs : List β}, l.mapM g = .ok bs →
      List.Forall₂ (fun a b ↦ a ∈ l ∧ g a = .ok b) l bs
  | [], bs, h => by
    cases h
    exact .nil
  | a :: l, bs, h => by
    rw [List.mapM_cons] at h
    obtain ⟨b, hb, h⟩ := Checked.except_bind_ok h
    obtain ⟨bs', hbs, h⟩ := Checked.except_bind_ok h
    cases h
    exact .cons ⟨List.mem_cons_self, hb⟩
      ((mapM_except_forall₂ hbs).imp fun _ _ ⟨hm, hg⟩ ↦ ⟨List.mem_cons_of_mem _ hm, hg⟩)

/-- Every constructor of a compiled program starts the same way. Past the `.var` lines of its
locals and its start label, it loads the object and calls the parent's constructor
`invokespecial P/<init>()V`, P the declared superclass or else the options' default one; then,
for each instance attribute its class declares, in declaration order, it stores once into the
attribute the attribute's initializer widened to its type, or a new array of its declared size,
and skips an attribute with neither; only then come its locals' initializers and statements.
Each declared constructor is such a routine over its parameter types, and a class gets
`<init>()V` of that form, storing into nothing else, exactly when it declares no constructor. A
class gets `<clinit>()V` exactly when one of its static attributes has an initializer or an
array type, and it stores exactly those static attributes, once each, in declaration order. -/
theorem object_init_order {opts : Options} {p : Program} {us : List ClassUnit}
    (h : (compile opts p).run.2 = .ok us) :
    List.Forall₂ (fun c u ↦ InitOrder ⟨tableOf p, opts, c.name⟩ (c.parent.getD opts.defaultSuper)
      c u) p.classes us := by
  rw [compile_run] at h
  obtain ⟨T, hT, hus⟩ := Checked.except_bind_ok h
  obtain ⟨hwf, rfl, -⟩ := (checkedTable_ok_iff opts p T).mp hT
  refine (mapM_except_forall₂ hus).imp fun c u ⟨hc, hu⟩ ↦ ?_
  have hr : (tableOf p).get? c.name = some c.declared :=
    Lineage.get?_name (Lineage.tableOf_sound hwf).names_nodup
      (List.mem_append_left _ (List.mem_map_of_mem hc))
  exact classLower_initOrder hr (attrsInOrder_declared (hwf.members c hc)) ⟨#[], _, Prod.ext hu rfl⟩

/-- A class `Shape` with an instance attribute `int sides := 3`, an instance array
`int[4] marks`, a static attribute `float scale := 2`, a constructor without parameters and an
entry point, and a class `Square` extending it with an attribute `float side := 1` and no
constructor of its own. -/
def shapes : Program := ⟨[
  ⟨"Shape", none, [
    .attr ⟨false, false, .int, [⟨"sides", some (.lit (.int 3) default), default⟩], default⟩,
    .attr ⟨false, false, .array .int 4, [⟨"marks", none, default⟩], default⟩,
    .attr ⟨true, false, .float, [⟨"scale", some (.lit (.int 2) default), default⟩], default⟩,
    .ctor ⟨"Shape", [], ⟨[], [], default⟩, default⟩,
    .method ⟨true, .void, "main", [], ⟨[], [], default⟩, default⟩], default⟩,
  ⟨"Square", some "Shape", [
    .attr ⟨false, false, .float, [⟨"side", some (.lit (.int 1) default), default⟩], default⟩],
    default⟩]⟩

/-- The units the compiler makes of `shapes`. -/
def shapesUnits : List ClassUnit := ((compile {} shapes).run.2).toOption.getD []

theorem shapes_init_order :
    (compile {} shapes).run.2 = .ok shapesUnits ∧
      List.Forall₂ (fun c u ↦ InitOrder ⟨tableOf shapes, {}, c.name⟩
        (c.parent.getD ({} : Options).defaultSuper) c u) shapes.classes shapesUnits := by
  have hc : (compile {} shapes).run.2 = .ok shapesUnits :=
    Checked.except_eq_ok_of_isOk _ (by decide +kernel)
  exact ⟨hc, object_init_order hc⟩

end ClassLang.Proofs.ObjectInit
