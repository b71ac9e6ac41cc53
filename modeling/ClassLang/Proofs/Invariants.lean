import ClassLang.Proofs.Runs

namespace ClassLang.Proofs.Invariants

open ClassLang Runs

theorem resolve_error {s : Site} {f : Frame} {n : String} {e : CompileError}
    (h : s.resolve f n = .error e) : ∃ m, e = .internal m := by
  unfold Site.resolve at h
  split at h
  · cases h
  · split at h
    · cases h
    · split at h
      · cases h
      · split at h
        · cases h
        · cases h
          exact ⟨_, rfl⟩

theorem accessedClass_error {op : Operand} {e : CompileError} (h : Lower.accessedClass op = .error e) :
    ∃ m, e = .internal m := by
  unfold Lower.accessedClass at h
  split at h
  · cases h
  · split at h
    · cases h
    · cases h
      exact ⟨_, rfl⟩

theorem elementOf_error {t : Ty} {e : CompileError} (h : Lower.elementOf t = .error e) :
    ∃ m, e = .internal m := by
  unfold Lower.elementOf at h
  split at h
  · cases h
  · cases h
    exact ⟨_, rfl⟩

section Expressions

variable {R : Emitter → Emitter → Prop} {P : CompileError → Prop} (hS : Steps R P) (s : Site)
include hS

theorem resolve_sound (n : String) : Sound R P (Lower.resolve s n) :=
  Sound.bind hS (Sound.get hS) fun _ ↦ Sound.liftExcept hS fun _ h ↦ resolve_error h

theorem widen_sound (target actual : Ty) : Sound R P (Lower.widen target actual) := by
  unfold Lower.widen
  split
  · exact Sound.emit hS _
  · exact Sound.pure hS _

theorem pushDefault_sound (t : Ty) : Sound R P (Emitter.pushDefault t) := by
  unfold Emitter.pushDefault
  split <;> exact Sound.emit hS _

theorem pushZero_sound (t : Ty) : Sound R P (Lower.pushZero t) := by
  unfold Lower.pushZero
  split
  · exact Sound.bind hS (Sound.emit hS _) fun _ ↦ Sound.emit hS _
  · exact pushDefault_sound hS _

theorem store_sound (p : Place) : Sound R P (Lower.store p) := by
  cases p <;> exact Sound.emit hS _

theorem dropReceiver_sound (op : Operand) : Sound R P (Lower.dropReceiver op) := by
  cases op
  · exact Sound.pure hS _
  · exact Sound.emit hS _

theorem loadLocal_sound (t : Ty) (slot : Nat) : Sound R P (Emitter.loadLocal t slot) :=
  Sound.emit hS _

theorem storeLocal_sound (t : Ty) (slot : Nat) : Sound R P (Emitter.storeLocal t slot) :=
  Sound.emit hS _

theorem loadIdent_sound (n : String) : Sound R P (Lower.loadIdent s n) := by
  unfold Lower.loadIdent
  refine Sound.bind hS (resolve_sound hS s n) fun r ↦ ?_
  cases r <;> dsimp only
  case cls c => exact Sound.throw hS _
  case loc l => exact Sound.bind hS (loadLocal_sound hS _ _) fun _ ↦ Sound.pure hS _
  case console => exact Sound.bind hS (Sound.emit hS _) fun _ ↦ Sound.pure hS _
  case attr h a =>
    split
    · exact Sound.bind hS (Sound.emit hS _) fun _ ↦ Sound.pure hS _
    · exact Sound.bind hS (loadLocal_sound hS _ _) fun _ ↦
        Sound.bind hS (Sound.emit hS _) fun _ ↦ Sound.pure hS _

theorem identPlace_sound (n : String) : Sound R P (Lower.identPlace s n) := by
  unfold Lower.identPlace
  refine Sound.bind hS (resolve_sound hS s n) fun r ↦ ?_
  cases r <;> dsimp only
  case cls c => exact Sound.throw hS _
  case loc l => exact Sound.pure hS _
  case console => exact Sound.throw hS _
  case attr h a =>
    split
    · exact Sound.pure hS _
    · exact Sound.bind hS (loadLocal_sound hS _ _) fun _ ↦ Sound.pure hS _

theorem replay_sound (c : Captured) (target : Option Ty) : Sound R P (Lower.replay c target) := by
  unfold Lower.replay
  refine Sound.bind hS (Sound.append hS _) fun _ ↦ Sound.bind hS (Sound.rewind hS _) fun _ ↦ ?_
  cases target with
  | none => exact Sound.pure hS _
  | some t => exact widen_sound hS _ _

theorem capture_sound (above : Int) {act : EmitM Ty} (h : Sound R P act) :
    Sound R P (Lower.capture above act) :=
  hS.capture above act h

theorem arithmetic_sound (op : BinOp) (k : ValueKind) : Sound R P (Emitter.arithmetic op k) := by
  unfold Emitter.arithmetic
  split
  · exact Sound.emit hS _
  · exact Sound.throw hS _

theorem newArray_sound (elem : Ty) (size : Nat) : Sound R P (Emitter.newArray elem size) :=
  Sound.bind hS (Sound.emit hS _) fun _ ↦ Sound.emit hS _

theorem logical_sound (op : BinOp) {lhs rhs : EmitM Ty} (hl : Sound R P lhs)
    (hr : Sound R P rhs) : Sound R P (Lower.logical op lhs rhs) := by
  unfold Lower.logical
  exact Sound.bind hS (Sound.newLabel hS) fun _ ↦ Sound.bind hS (Sound.newLabel hS) fun _ ↦
    Sound.bind hS hl fun _ ↦ Sound.bind hS (Sound.emit hS _) fun _ ↦ Sound.bind hS hr fun _ ↦
    Sound.bind hS (Sound.emit hS _) fun _ ↦ Sound.bind hS (Sound.label hS _) fun _ ↦
    Sound.bind hS (Sound.rewind hS _) fun _ ↦ Sound.bind hS (Sound.emit hS _) fun _ ↦
    Sound.bind hS (Sound.label hS _) fun _ ↦ Sound.pure hS _

theorem compare_sound (op : BinOp) (lhs : Ty) (rhs : Captured) :
    Sound R P (Lower.compare op lhs rhs) := by
  unfold Lower.compare
  split
  · refine Sound.bind hS (Sound.newLabel hS) fun yes ↦ Sound.bind hS (Sound.newLabel hS) fun stop ↦ ?_
    have tail : Sound R P (do
        Emitter.emit (.pushInt 0)
        Emitter.emit (.goto stop)
        Emitter.label yes
        Emitter.rewind (-1)
        Emitter.emit (.pushInt 1)
        Emitter.label stop) :=
      Sound.bind hS (Sound.emit hS _) fun _ ↦ Sound.bind hS (Sound.emit hS _) fun _ ↦
        Sound.bind hS (Sound.label hS _) fun _ ↦ Sound.bind hS (Sound.rewind hS _) fun _ ↦
        Sound.bind hS (Sound.emit hS _) fun _ ↦ Sound.label hS _
    dsimp only
    split
    · exact Sound.bind hS (widen_sound hS _ _) fun _ ↦ Sound.bind hS (replay_sound hS _ _) fun _ ↦
        Sound.bind hS (Sound.emit hS _) fun _ ↦ Sound.bind hS (Sound.emit hS _) fun _ ↦ tail
    · refine Sound.bind hS (replay_sound hS _ _) fun _ ↦ ?_
      split <;> exact Sound.bind hS (Sound.emit hS _) fun _ ↦ tail
  · exact Sound.throw hS _

theorem binary_sound (op : BinOp) (lhs : Ty) (rhs : Captured) :
    Sound R P (Lower.binary op lhs rhs) := by
  unfold Lower.binary
  split
  · rename_i r _
    dsimp only
    split
    · exact Sound.bind hS (replay_sound hS _ _) fun _ ↦ Sound.bind hS (Sound.emit hS _) fun _ ↦
        Sound.pure hS _
    split
    · exact Sound.bind hS (compare_sound hS _ _ _) fun _ ↦ Sound.pure hS _
    split
    · exact Sound.bind hS (widen_sound hS _ _) fun _ ↦ Sound.bind hS (replay_sound hS _ _) fun _ ↦
        Sound.bind hS (arithmetic_sound hS _ _) fun _ ↦ Sound.pure hS _
    refine Sound.bind hS (widen_sound hS _ _) fun _ ↦ Sound.bind hS (replay_sound hS _ _) fun _ ↦
      Sound.bind hS (arithmetic_sound hS _ _) fun _ ↦ ?_
    split
    · exact Sound.bind hS (Sound.emit hS _) fun _ ↦ Sound.bind hS (Sound.emit hS _) fun _ ↦
        Sound.pure hS _
    · exact Sound.pure hS _
  · exact Sound.throw hS _

theorem unary_sound (op : UnOp) (t : Ty) : Sound R P (Lower.unary op t) := by
  cases op
  · exact Sound.pure hS _
  · exact Sound.emit hS _
  · exact Sound.bind hS (Sound.emit hS _) fun _ ↦ Sound.emit hS _

theorem literal_sound (l : Literal) : Sound R P (Lower.literal l) := by
  cases l <;> exact Sound.bind hS (Sound.emit hS _) fun _ ↦ Sound.pure hS _

theorem fillArray_sound (elem : Ty) : ∀ (i : Nat) (cs : List Captured),
    Sound R P (Lower.fillArray elem i cs)
  | _, [] => Sound.pure hS _
  | i, c :: cs => by
    rw [Lower.fillArray]
    exact Sound.bind hS (Sound.emit hS _) fun _ ↦ Sound.bind hS (Sound.emit hS _) fun _ ↦
      Sound.bind hS (replay_sound hS _ _) fun _ ↦ Sound.bind hS (Sound.emit hS _) fun _ ↦
      fillArray_sound elem (i + 1) cs

theorem replayArgs_sound : ∀ args : List (Captured × Ty), Sound R P (Lower.replayArgs args)
  | [] => Sound.pure hS _
  | (c, p) :: rest => by
    rw [Lower.replayArgs]
    exact Sound.bind hS (replay_sound hS _ _) fun _ ↦ replayArgs_sound rest

theorem ctorParams_sound (c : String) (args : List Captured) :
    Sound R P (Lower.ctorParams s c args) := by
  unfold Lower.ctorParams
  dsimp only
  split
  · exact Sound.pure hS _
  · split
    · exact Sound.pure hS _
    · exact Sound.throw hS _

theorem checkArity_sound (params : List Ty) (args : List Expr) :
    Sound R P (Lower.checkArity params args) := by
  unfold Lower.checkArity
  split
  · exact Sound.pure hS _
  · exact Sound.throw hS _

theorem chainBase_sound (b : Expr) {act : EmitM Ty} (ha : Sound R P act) :
    Sound R P (Lower.chainBase s b act) := by
  unfold Lower.chainBase
  have hv : Sound R P (do let t ← act; pure (Operand.value t)) :=
    Sound.bind hS ha fun _ ↦ Sound.pure hS _
  split
  · refine Sound.bind hS (Sound.get hS) fun st ↦ ?_
    split
    · exact Sound.pure hS _
    · refine Sound.bind hS (resolve_sound hS s _) fun r ↦ ?_
      split
      · exact Sound.pure hS _
      · exact hv
  · exact hv

mutual

theorem lowerExpr_sound : ∀ e : Expr, Sound R P (Lower.lowerExpr s e)
  | .lit l _ => by rw [Lower.lowerExpr]; exact literal_sound hS l
  | .ident n _ => by rw [Lower.lowerExpr]; exact loadIdent_sound hS s n
  | .this _ => by
    rw [Lower.lowerExpr]
    exact Sound.bind hS (loadLocal_sound hS _ _) fun _ ↦ Sound.pure hS _
  | .binary op l r _ => by
    rw [Lower.lowerExpr]
    split
    · exact logical_sound hS op (lowerExpr_sound l) (lowerExpr_sound r)
    · exact Sound.bind hS (lowerExpr_sound l) fun _ ↦
        Sound.bind hS (capture_sound hS 0 (lowerExpr_sound r)) fun _ ↦ binary_sound hS _ _ _
  | .unary op a _ => by
    rw [Lower.lowerExpr]
    exact Sound.bind hS (lowerExpr_sound a) fun _ ↦
      Sound.bind hS (unary_sound hS _ _) fun _ ↦ Sound.pure hS _
  | .chain b ss _ => by
    rw [Lower.lowerExpr]
    refine Sound.bind hS (chainBase_sound hS s b (lowerExpr_sound b)) fun base ↦
      Sound.bind hS (lowerSteps_sound base ss) fun op ↦ ?_
    cases op
    · exact Sound.throw hS _
    · exact Sound.pure hS _
  | .array es _ => by
    rw [Lower.lowerExpr]
    exact Sound.bind hS (captureList_sound 3 0 es) fun _ ↦
      Sound.bind hS (newArray_sound hS _ _) fun _ ↦
      Sound.bind hS (fillArray_sound hS _ _ _) fun _ ↦ Sound.pure hS _
  | .new c as _ => by
    rw [Lower.lowerExpr]
    exact Sound.bind hS (captureList_sound 2 1 as) fun _ ↦
      Sound.bind hS (ctorParams_sound hS s _ _) fun _ ↦
      Sound.bind hS (Sound.emit hS _) fun _ ↦ Sound.bind hS (Sound.emit hS _) fun _ ↦
      Sound.bind hS (replayArgs_sound hS _) fun _ ↦ Sound.bind hS (Sound.emit hS _) fun _ ↦
      Sound.pure hS _
  | .paren e _ => by rw [Lower.lowerExpr]; exact lowerExpr_sound e

theorem captureList_sound (above step : Int) :
    ∀ es : List Expr, Sound R P (Lower.captureList s above step es)
  | [] => by rw [Lower.captureList]; exact Sound.pure hS _
  | e :: es => by
    rw [Lower.captureList]
    exact Sound.bind hS (capture_sound hS _ (lowerExpr_sound e)) fun _ ↦
      Sound.bind hS (captureList_sound (above + step) step es) fun _ ↦ Sound.pure hS _

theorem lowerArgs_sound : ∀ (es : List Expr) (ps : List Ty), Sound R P (Lower.lowerArgs s es ps)
  | e :: es, p :: ps => by
    rw [Lower.lowerArgs]
    exact Sound.bind hS (lowerExpr_sound e) fun _ ↦ Sound.bind hS (widen_sound hS _ _) fun _ ↦
      lowerArgs_sound es ps
  | [], _ => by simp only [Lower.lowerArgs]; exact Sound.pure hS _
  | _ :: _, [] => by simp only [Lower.lowerArgs]; exact Sound.pure hS _

theorem lowerSteps_sound : ∀ (op : Operand) (ss : List Step), Sound R P (Lower.lowerSteps s op ss)
  | op, [] => by rw [Lower.lowerSteps]; exact Sound.pure hS _
  | op, .member n _ :: rest => by
    rw [Lower.lowerSteps]
    refine Sound.bind hS (Sound.liftExcept hS fun _ h ↦ accessedClass_error h) fun c ↦ ?_
    split
    · exact Sound.throw hS _
    · dsimp only
      split
      · exact Sound.bind hS (dropReceiver_sound hS _) fun _ ↦
          Sound.bind hS (Sound.emit hS _) fun _ ↦ lowerSteps_sound _ rest
      · exact Sound.bind hS (Sound.emit hS _) fun _ ↦ lowerSteps_sound _ rest
  | op, .index i _ :: rest => by
    cases op with
    | cls c => rw [Lower.lowerSteps]; exact Sound.throw hS _
    | value t =>
      rw [Lower.lowerSteps]
      exact Sound.bind hS (Sound.liftExcept hS fun _ h ↦ elementOf_error h) fun _ ↦
        Sound.bind hS (lowerExpr_sound i) fun _ ↦ Sound.bind hS (Sound.emit hS _) fun _ ↦
        lowerSteps_sound _ rest
  | op, .call n as _ :: rest => by
    rw [Lower.lowerSteps]
    refine Sound.bind hS (Sound.liftExcept hS fun _ h ↦ accessedClass_error h) fun c ↦ ?_
    split
    · refine Sound.bind hS (dropReceiver_sound hS _) fun _ ↦ ?_
      split
      · exact Sound.throw hS _
      · exact Sound.bind hS (checkArity_sound hS _ _) fun _ ↦
          Sound.bind hS (lowerArgs_sound as _) fun _ ↦ Sound.bind hS (Sound.emit hS _) fun _ ↦
          lowerSteps_sound _ rest
    · split
      · exact Sound.throw hS _
      · rename_i h m _
        dsimp only
        have tail : ∀ i : Instr, Sound R P (do
            Lower.checkArity m.params as
            Lower.lowerArgs s as m.params
            Emitter.emit i
            let next ← pure (Operand.value m.ret.deref)
            Lower.lowerSteps s next rest) := fun _ ↦
          Sound.bind hS (checkArity_sound hS _ _) fun _ ↦
            Sound.bind hS (lowerArgs_sound as _) fun _ ↦ Sound.bind hS (Sound.emit hS _) fun _ ↦
            Sound.bind hS (Sound.pure hS _) fun _ ↦ lowerSteps_sound _ rest
        split
        · exact Sound.bind hS (dropReceiver_sound hS _) fun _ ↦ tail _
        · exact tail _

end

theorem chainPlace_sound (c : Chain) : Sound R P (Lower.chainPlace s c) := by
  unfold Lower.chainPlace
  dsimp only
  split
  · exact Sound.throw hS _
  · refine Sound.bind hS (chainBase_sound hS s _ (lowerExpr_sound hS s _)) fun _ ↦
      Sound.bind hS (lowerSteps_sound hS s _ _) fun _ ↦ ?_
    split
    · refine Sound.bind hS (Sound.liftExcept hS fun _ h ↦ accessedClass_error h) fun _ ↦ ?_
      split
      · exact Sound.throw hS _
      · split
        · exact Sound.bind hS (dropReceiver_sound hS _) fun _ ↦ Sound.pure hS _
        · exact Sound.pure hS _
    · exact Sound.bind hS (Sound.liftExcept hS fun _ h ↦ elementOf_error h) fun _ ↦
        Sound.bind hS (lowerExpr_sound hS s _) fun _ ↦ Sound.pure hS _
    · exact Sound.throw hS _

theorem targetPlace_sound (t : Target) : Sound R P (Lower.targetPlace s t) := by
  cases t with
  | ident n _ => exact identPlace_sound hS s n
  | chain c => exact chainPlace_sound hS s c

theorem stepVar_sound (v : String) (d : Direction) : Sound R P (Lower.stepVar s v d) := by
  unfold Lower.stepVar
  refine Sound.bind hS (resolve_sound hS s v) fun r ↦ ?_
  split
  · exact Sound.emit hS _
  · exact Sound.bind hS (identPlace_sound hS s v) fun _ ↦
      Sound.bind hS (loadIdent_sound hS s v) fun _ ↦
      Sound.bind hS (Sound.emit hS _) fun _ ↦
      Sound.bind hS (arithmetic_sound hS _ _) fun _ ↦ store_sound hS _

theorem lowerReturn_sound (v : Option Expr) : Sound R P (Lower.lowerReturn s v) := by
  unfold Lower.lowerReturn
  refine Sound.bind hS (Sound.get hS) fun _ ↦ ?_
  split
  · refine Sound.bind hS (lowerExpr_sound hS s _) fun _ ↦ ?_
    dsimp only
    split
    · split
      · exact Sound.bind hS (Sound.emit hS _) fun _ ↦ Sound.emit hS _
      · exact Sound.emit hS _
    · exact Sound.bind hS (widen_sound hS _ _) fun _ ↦ Sound.emit hS _
  · exact Sound.emit hS _

theorem superCall_sound (parent : String) : Sound R P (Lower.superCall s parent) :=
  Sound.bind hS (loadLocal_sound hS _ _) fun _ ↦ Sound.emit hS _

theorem initAttribute_sound (a : AttrInfo) : Sound R P (Lower.initAttribute s a) := by
  unfold Lower.initAttribute
  have store : Sound R P (if a.isStatic = true then Emitter.emit (.putStatic s.cls a.name a.type)
      else Emitter.emit (.putField s.cls a.name a.type)) := by
    split <;> exact Sound.emit hS _
  have receiver : ∀ {v : EmitM Unit}, Sound R P v → Sound R P
      (if (!a.isStatic) = true then Emitter.loadLocal s.thisType 0 >>= fun _ ↦ v else v) := by
    intro v hv
    split
    · exact Sound.bind hS (loadLocal_sound hS _ _) fun _ ↦ hv
    · exact hv
  split
  · dsimp only
    refine receiver ?_
    split
    · exact Sound.bind hS (lowerExpr_sound hS s _) fun _ ↦
        Sound.bind hS (widen_sound hS _ _) fun _ ↦ store
    · exact Sound.bind hS (pushZero_sound hS _) fun _ ↦ store
  · exact Sound.pure hS _

theorem initAttributes_sound : ∀ as : List AttrInfo, Sound R P (Lower.initAttributes s as)
  | [] => Sound.pure hS _
  | a :: as => by
    rw [Lower.initAttributes]
    exact Sound.bind hS (initAttribute_sound hS s a) fun _ ↦ initAttributes_sound as

end Expressions

theorem brkLabel_error {ls : Loops} {e : CompileError} (h : ls.brkLabel = .error e) :
    ∃ m, e = .internal m := by
  unfold Loops.brkLabel at h
  split at h
  · cases h
  · cases h
    exact ⟨_, rfl⟩

theorem contLabel_error {ls : Loops} {e : CompileError} (h : ls.contLabel = .error e) :
    ∃ m, e = .internal m := by
  unfold Loops.contLabel at h
  split at h
  · cases h
  · cases h
    exact ⟨_, rfl⟩

section Leaves

variable {R : Emitter → Emitter → Prop} {P : CompileError → Prop} (hS : Steps R P) (s : Site)
include hS

theorem assign_sound (t : Target) (rhs : Expr) (sp : Span) :
    Sound R P (Lower.lowerStmt s (.assign t rhs sp)) := by
  rw [lowerStmt_assign]
  exact Sound.bind hS (targetPlace_sound hS s t) fun _ ↦
    Sound.bind hS (lowerExpr_sound hS s rhs) fun _ ↦
    Sound.bind hS (widen_sound hS _ _) fun _ ↦ store_sound hS _

theorem brk_sound (sp : Span) : Sound R P (Lower.lowerStmt s (.brk sp)) := by
  rw [lowerStmt_brk]
  exact Sound.bind hS (Sound.get hS) fun _ ↦
    Sound.bind hS (Sound.liftExcept hS fun _ h ↦ brkLabel_error h) fun _ ↦ Sound.emit hS _

theorem cont_sound (sp : Span) : Sound R P (Lower.lowerStmt s (.cont sp)) := by
  rw [lowerStmt_cont]
  exact Sound.bind hS (Sound.get hS) fun _ ↦
    Sound.bind hS (Sound.liftExcept hS fun _ h ↦ contLabel_error h) fun _ ↦ Sound.emit hS _

theorem invoke_sound (c : Chain) (sp : Span) : Sound R P (Lower.lowerStmt s (.invoke c sp)) := by
  rw [lowerStmt_invoke]
  refine Sound.bind hS (lowerExpr_sound hS s _) fun _ ↦ ?_
  split
  · exact Sound.emit hS _
  · exact Sound.pure hS _

end Leaves

section Frames

variable {R : Emitter → Emitter → Prop} {P : CompileError → Prop} (hF : FrameSteps R P) (s : Site)
include hF

theorem newSlot_sound : Sound R P Emitter.newSlot :=
  ⟨fun st _ _ h ↦ by cases h; exact hF.newSlot st, fun _ _ h ↦ by cases h⟩

theorem bindLocal_sound (n : String) (t : Ty) (slot : Nat) :
    Sound R P (Emitter.onFrame (·.bind n t slot)) :=
  ⟨fun st _ _ h ↦ by cases h; exact hF.bind n t slot st, fun _ _ h ↦ by cases h⟩

theorem enterBlock_sound : Sound R P Emitter.enterBlock :=
  ⟨fun st _ _ h ↦ by cases h; exact hF.enterBlock st, fun _ _ h ↦ by cases h⟩

theorem exitBlock_sound : Sound R P Emitter.exitBlock where
  ok st b st' h := by
    rw [exitBlock_run] at h
    cases hb : st.frame.exitBlock with
    | ok p => rw [hb] at h; cases h; exact hF.exitBlock st p hb
    | error e => rw [hb] at h; cases h
  error st e h := by
    rw [exitBlock_run] at h
    cases hb : st.frame.exitBlock with
    | ok p => rw [hb] at h; cases h
    | error e' =>
      rw [hb] at h
      cases h
      obtain ⟨m, rfl⟩ := exitBlock_error hb
      exact hF.internal m

theorem declareVars_sound (t : Ty) (range : BlockLabels) :
    ∀ ds : List Declarator, Sound R P (Lower.declareVars t range ds)
  | [] => Sound.pure hF.toSteps _
  | d :: ds => by
    rw [Lower.declareVars]
    exact Sound.bind hF.toSteps (newSlot_sound hF) fun _ ↦
      Sound.bind hF.toSteps (Sound.line hF.toSteps _) fun _ ↦
      Sound.bind hF.toSteps (declareVars_sound t range ds) fun _ ↦ Sound.pure hF.toSteps _

theorem declareLocals_sound (range : BlockLabels) :
    ∀ ds : List VarDecl, Sound R P (Lower.declareLocals range ds)
  | [] => Sound.pure hF.toSteps _
  | d :: ds => by
    rw [Lower.declareLocals]
    exact Sound.bind hF.toSteps (declareVars_sound hF _ _ _) fun _ ↦
      Sound.bind hF.toSteps (declareLocals_sound range ds) fun _ ↦ Sound.pure hF.toSteps _

theorem initLocals_sound : ∀ ps : List Lower.Pending, Sound R P (Lower.initLocals s ps)
  | [] => Sound.pure hF.toSteps _
  | p :: ps => by
    rw [Lower.initLocals]
    have tail : Sound R P (do
        Emitter.storeLocal p.type p.slot
        Emitter.onFrame fun f ↦ f.bind p.name p.type p.slot
        Lower.initLocals s ps) :=
      Sound.bind hF.toSteps (storeLocal_sound hF.toSteps _ _) fun _ ↦
        Sound.bind hF.toSteps (bindLocal_sound hF _ _ _) fun _ ↦ initLocals_sound ps
    split
    · exact Sound.bind hF.toSteps (lowerExpr_sound hF.toSteps s _) fun _ ↦
        Sound.bind hF.toSteps (widen_sound hF.toSteps _ _) fun _ ↦ tail
    · exact Sound.bind hF.toSteps (pushZero_sound hF.toSteps _) fun _ ↦ tail

theorem openRoutine_sound (r : Receiver) : Sound R P (Lower.openRoutine s r) := by
  unfold Lower.openRoutine
  refine Sound.bind hF.toSteps (enterBlock_sound hF) fun _ ↦ ?_
  dsimp only
  cases r
  · exact Sound.bind hF.toSteps (newSlot_sound hF) fun _ ↦
      Sound.bind hF.toSteps (Sound.line hF.toSteps _) fun _ ↦ Sound.pure hF.toSteps _
  · exact Sound.bind hF.toSteps (newSlot_sound hF) fun _ ↦
      Sound.bind hF.toSteps (Sound.line hF.toSteps _) fun _ ↦ Sound.pure hF.toSteps _
  · exact Sound.pure hF.toSteps _

theorem declareParams_sound (ls : BlockLabels) :
    ∀ ps : List Param, Sound R P (Lower.declareParams ls ps)
  | [] => Sound.pure hF.toSteps _
  | p :: ps => by
    rw [Lower.declareParams]
    exact Sound.bind hF.toSteps (newSlot_sound hF) fun _ ↦
      Sound.bind hF.toSteps (Sound.line hF.toSteps _) fun _ ↦
      Sound.bind hF.toSteps (declareParams_sound ls ps) fun _ ↦ Sound.pure hF.toSteps _

theorem bindParams_sound : ∀ (ps : List Param) (slots : List Nat),
    Sound R P (Lower.bindParams ps slots)
  | p :: ps, slot :: slots => by
    rw [Lower.bindParams]
    exact Sound.bind hF.toSteps (bindLocal_sound hF _ _ _) fun _ ↦ bindParams_sound ps slots
  | [], _ => by simp only [Lower.bindParams]; exact Sound.pure hF.toSteps _
  | _ :: _, [] => by simp only [Lower.bindParams]; exact Sound.pure hF.toSteps _

theorem closeRoutine_sound (ls : BlockLabels) (body : Option Block) :
    Sound R P (Lower.closeRoutine ls body) := by
  unfold Lower.closeRoutine
  refine Sound.bind hF.toSteps (Sound.get hF.toSteps) fun _ ↦ ?_
  have tail : Sound R P (do
      Emitter.label ls.stop
      let _ ← Emitter.exitBlock
      pure ()) :=
    Sound.bind hF.toSteps (Sound.label hF.toSteps _) fun _ ↦
      Sound.bind hF.toSteps (exitBlock_sound hF) fun _ ↦ Sound.pure hF.toSteps _
  dsimp only
  split
  · exact Sound.bind hF.toSteps (Sound.emit hF.toSteps _) fun _ ↦ tail
  · exact tail

end Frames

section Statements

variable {R : Emitter → Emitter → Prop} {P : CompileError → Prop} (hT : StmtSteps R P) (s : Site)
include hT

theorem onFrame_sound (g : Frame → Frame) : Sound R P (Emitter.onFrame g) :=
  ⟨fun st _ _ h ↦ by cases h; exact hT.onFrame g st, fun _ _ h ↦ by cases h⟩

mutual

theorem lowerStmt_sound : ∀ st : Stmt, Sound R P (Lower.lowerStmt s st)
  | .assign t rhs sp => assign_sound hT.toSteps s t rhs sp
  | .cond c th el _ => by
    rw [lowerStmt_cond]
    refine Sound.bind hT.toSteps (Sound.newLabel hT.toSteps) fun _ ↦
      Sound.bind hT.toSteps (lowerExpr_sound hT.toSteps s c) fun _ ↦
      Sound.bind hT.toSteps (Sound.emit hT.toSteps _) fun _ ↦
      Sound.bind hT.toSteps (lowerStmt_sound th) fun _ ↦ ?_
    cases el with
    | none => exact Sound.label hT.toSteps _
    | some e =>
      exact Sound.bind hT.toSteps (Sound.newLabel hT.toSteps) fun _ ↦
        Sound.bind hT.toSteps (Sound.emit hT.toSteps _) fun _ ↦
        Sound.bind hT.toSteps (Sound.label hT.toSteps _) fun _ ↦
        Sound.bind hT.toSteps (lowerStmt_sound e) fun _ ↦ Sound.label hT.toSteps _
  | .loop v _ a d b body _ => by
    rw [lowerStmt_loop]
    exact Sound.bind hT.toSteps (Sound.newLabel hT.toSteps) fun _ ↦
      Sound.bind hT.toSteps (Sound.newLabel hT.toSteps) fun _ ↦
      Sound.bind hT.toSteps (Sound.newLabel hT.toSteps) fun _ ↦
      Sound.bind hT.toSteps (identPlace_sound hT.toSteps s v) fun _ ↦
      Sound.bind hT.toSteps (lowerExpr_sound hT.toSteps s a) fun _ ↦
      Sound.bind hT.toSteps (store_sound hT.toSteps _) fun _ ↦
      Sound.bind hT.toSteps (Sound.label hT.toSteps _) fun _ ↦
      Sound.bind hT.toSteps (loadIdent_sound hT.toSteps s v) fun _ ↦
      Sound.bind hT.toSteps (lowerExpr_sound hT.toSteps s b) fun _ ↦
      Sound.bind hT.toSteps (Sound.emit hT.toSteps _) fun _ ↦
      Sound.bind hT.toSteps (onFrame_sound hT _) fun _ ↦
      Sound.bind hT.toSteps (lowerStmt_sound body) fun _ ↦
      Sound.bind hT.toSteps (onFrame_sound hT _) fun _ ↦
      Sound.bind hT.toSteps (Sound.label hT.toSteps _) fun _ ↦
      Sound.bind hT.toSteps (stepVar_sound hT.toSteps s v d) fun _ ↦
      Sound.bind hT.toSteps (Sound.emit hT.toSteps _) fun _ ↦ Sound.label hT.toSteps _
  | .brk sp => brk_sound hT.toSteps s sp
  | .cont sp => cont_sound hT.toSteps s sp
  | .ret v sp => by rw [lowerStmt_ret]; exact lowerReturn_sound hT.toSteps s v
  | .block ds ss _ => by
    rw [lowerStmt_block]
    exact Sound.bind hT.toSteps (enterBlock_sound hT.toFrameSteps) fun _ ↦
      Sound.bind hT.toSteps (declareLocals_sound hT.toFrameSteps _ ds) fun _ ↦
      Sound.bind hT.toSteps (Sound.label hT.toSteps _) fun _ ↦
      Sound.bind hT.toSteps (initLocals_sound hT.toFrameSteps s _) fun _ ↦
      Sound.bind hT.toSteps (lowerStmts_sound ss) fun _ ↦
      Sound.bind hT.toSteps (Sound.label hT.toSteps _) fun _ ↦
      Sound.bind hT.toSteps (exitBlock_sound hT.toFrameSteps) fun _ ↦ Sound.pure hT.toSteps _
  | .invoke c sp => invoke_sound hT.toSteps s c sp

theorem lowerStmts_sound : ∀ sts : List Stmt, Sound R P (Lower.lowerStmts s sts)
  | [] => by rw [Lower.lowerStmts]; exact Sound.pure hT.toSteps _
  | st :: sts => by
    rw [Lower.lowerStmts]
    exact Sound.bind hT.toSteps (lowerStmt_sound st) fun _ ↦ lowerStmts_sound sts

end

theorem lowerBody_sound (ls : BlockLabels) (b : Block) {prologue : EmitM Unit}
    (hp : Sound R P prologue) : Sound R P (Lower.lowerBody s ls b prologue) :=
  Sound.bind hT.toSteps (declareLocals_sound hT.toFrameSteps _ _) fun _ ↦
    Sound.bind hT.toSteps (Sound.label hT.toSteps _) fun _ ↦ Sound.bind hT.toSteps hp fun _ ↦
    Sound.bind hT.toSteps (initLocals_sound hT.toFrameSteps s _) fun _ ↦ lowerStmts_sound hT s _

end Statements

/-- The lines of the earlier state begin the lines of the later one: nothing written is taken
back. -/
def LinesGrow (st st' : Emitter) : Prop := st.lines.toList <+: st'.lines.toList

theorem linesGrow_steps : StmtSteps LinesGrow fun _ ↦ True where
  refl _ := List.prefix_refl _
  trans h₁ h₂ := h₁.trans h₂
  internal _ := trivial
  emit i st st' h := by
    obtain ⟨f, -, rfl⟩ := emit_ok h
    exact ⟨[.instr i], by simp⟩
  rewind d st st' h := by
    obtain ⟨f, -, rfl⟩ := rewind_ok h
    exact List.prefix_refl _
  line l st := ⟨[l], by simp⟩
  newLabel _ := List.prefix_refl _
  append ls st := ⟨ls, by simp⟩
  capture above act h := by
    refine ⟨fun st c st' hc ↦ ?_, fun _ _ _ ↦ trivial⟩
    obtain ⟨f₁, st₂, f₃, -, h₂, -, -, rfl⟩ := capture_ok hc
    have hp : st.lines.toList <+: st₂.lines.toList := h.ok { st with frame := f₁ } _ _ h₂
    have he : st.lines.toList = st₂.lines.toList.take st.lines.toList.length :=
      List.prefix_iff_eq_take.mp hp
    have hex : (st₂.lines.extract 0 st.lines.size).toList = st.lines.toList := by
      rw [Array.toList_extract, List.extract_eq_take_drop, List.drop_zero, Nat.sub_zero,
        ← Array.length_toList, ← he]
    show st.lines.toList <+: (st₂.lines.extract 0 st.lines.size).toList
    exact hex ▸ List.prefix_refl _
  newSlot _ := List.prefix_refl _
  onFrame _ _ := List.prefix_refl _
  enterBlock _ := List.prefix_refl _
  exitBlock _ _ _ := List.prefix_refl _

def IsInternal (e : CompileError) : Prop := ∃ m, e = .internal m

theorem internal_steps : StmtSteps (fun _ _ ↦ True) IsInternal where
  refl _ := trivial
  trans _ _ := trivial
  internal m := ⟨m, rfl⟩
  emit _ _ _ _ := trivial
  rewind _ _ _ _ := trivial
  line _ _ := trivial
  newLabel _ := trivial
  append _ _ := trivial
  capture above act h := by
    refine ⟨fun _ _ _ _ ↦ trivial, fun st e he ↦ ?_⟩
    rcases capture_error he with hi | ⟨st₁, h₁⟩
    · exact hi
    · exact h.error _ _ h₁
  newSlot _ := trivial
  onFrame _ _ := trivial
  enterBlock _ := trivial
  exitBlock _ _ _ := trivial

end ClassLang.Proofs.Invariants
