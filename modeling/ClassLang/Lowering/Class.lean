import ClassLang.Lowering.Routine

namespace ClassLang

namespace Lower

/-- The header of a method: the entry point is `main` with the argument array. -/
def methodHeader (m : MethodDecl) : MethodHeader :=
  if m.isEntryPoint then ⟨true, true, "main", [.array .string 0], .void⟩
  else ⟨true, m.isStatic, m.name, m.params.map (·.type), m.ret⟩

/-- A method, the entry point included. -/
def lowerMethod (s : Site) (m : MethodDecl) : Logged RoutineCode :=
  let r : Receiver := if m.isEntryPoint then .args else if m.isStatic then .none else .this
  routine s (methodHeader m) r fun ls ↦ do
    let slots ← declareParams ls m.params
    lowerBody s ls m.body (bindParams m.params slots)
    closeRoutine ls (some m.body)

def lowerCtor (s : Site) (parent : String) (attrs : List AttrInfo) (k : CtorDecl) :
    Logged RoutineCode :=
  routine s ⟨true, false, "<init>", k.params.map (·.type), .void⟩ .this fun ls ↦ do
    let slots ← declareParams ls k.params
    lowerBody s ls k.body do
      superCall s parent
      initAttributes s (attrs.filter (!·.isStatic))
      bindParams k.params slots
    closeRoutine ls (some k.body)

def defaultCtor (s : Site) (parent : String) (attrs : List AttrInfo) : Logged RoutineCode :=
  routine s ⟨true, false, "<init>", [], .void⟩ .this fun ls ↦ do
    Emitter.label ls.start
    superCall s parent
    initAttributes s (attrs.filter (!·.isStatic))
    closeRoutine ls none

/-- The destructor, as `finalize`. -/
def lowerDtor (s : Site) (d : DtorDecl) : Logged RoutineCode :=
  routine s ⟨true, false, "finalize", [], .void⟩ .this fun ls ↦ do
    lowerBody s ls d.body (pure ())
    closeRoutine ls (some d.body)

def staticInit (s : Site) (attrs : List AttrInfo) : Logged RoutineCode :=
  routine s ⟨false, true, "<clinit>", [], .void⟩ .none fun ls ↦ do
    Emitter.label ls.start
    initAttributes s (attrs.filter (·.isStatic))
    closeRoutine ls none

def memberRoutine (s : Site) (parent : String) (attrs : List AttrInfo) :
    Member → Logged (Option RoutineCode)
  | .attr _ => pure none
  | .method m => some <$> lowerMethod s m
  | .ctor k => some <$> lowerCtor s parent attrs k
  | .dtor d => some <$> lowerDtor s d

def attrsInOrder (c : ClassDecl) (r : ClassInfo) : Except CompileError (List AttrInfo) :=
  (c.attrs.flatMap (·.vars)).mapM fun v ↦
    match r.attr? v.name with
    | some a => .ok a
    | none => .error (.internal ("unregistered attribute " ++ c.name ++ "." ++ v.name))

def needsStaticInit (attrs : List AttrInfo) : Bool :=
  attrs.any fun a ↦ a.isStatic && (a.init.isSome || a.type.isArray)

end Lower

def AttrInfo.field (a : AttrInfo) : FieldDecl := ⟨a.name, a.type, a.isStatic, a.isFinal⟩

/-- The assembly unit of a class, from its registered record. -/
def ClassDecl.lower (table : ClassTable) (opts : Options) (c : ClassDecl) : Logged ClassUnit := do
  Logged.write .debug ("generating class " ++ c.name)
  let some r := table.get? c.name | throw (.internal ("unregistered class " ++ c.name))
  let attrs ← Logged.lift (Lower.attrsInOrder c r)
  let parent := c.parent.getD opts.defaultSuper
  let s : Site := ⟨table, opts, r.name⟩
  let init ← if c.ctors.isEmpty then (fun r ↦ [r]) <$> Lower.defaultCtor s parent attrs
    else pure []
  let routines ← c.members.mapM (Lower.memberRoutine s parent attrs)
  let clinit ← if Lower.needsStaticInit attrs then (fun r ↦ [r]) <$> Lower.staticInit s attrs
    else pure []
  return {
    cls := c.name
    file := c.name ++ "." ++ opts.unitExt
    source := c.name ++ "." ++ opts.sourceExt
    parent := parent
    fields := attrs.map AttrInfo.field
    routines := init ++ routines.filterMap id ++ clinit }

def Program.lower (table : ClassTable) (opts : Options) (p : Program) : Logged (List ClassUnit) :=
  p.classes.mapM (ClassDecl.lower table opts)

end ClassLang
