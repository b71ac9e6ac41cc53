import ClassLang.Registry.Hierarchy
import ClassLang.Registry.Console
import ClassLang.Log

namespace ClassLang.Registration

/-- The member names seen so far in a class. -/
structure Names where
  used : List String
  namedCtor : Bool
  namedDtor : Bool

def Names.collides (ns : Names) (n cls : String) : Bool :=
  ns.used.contains n || (n == cls && (ns.namedCtor || ns.namedDtor))

abbrev Members := Names × ClassInfo

def addAttrs (d : AttrDecl) : List Declarator → Members → Except CompileError Members
  | [], st => .ok st
  | v :: vs, (ns, r) =>
    if ns.collides v.name r.name then
      .error (.redeclared (if d.isFinal then .constant else .attr) v.name v.span)
    else
      addAttrs d vs ({ ns with used := ns.used ++ [v.name] },
        { r with attrs := r.attrs ++ [⟨v.name, d.type, d.isStatic, d.isFinal, v.init, v.span⟩] })

def addMember (st : Members) : Member → Except CompileError Members
  | .attr d => addAttrs d d.vars st
  | .method m =>
    let (ns, r) := st
    if ns.collides m.name r.name then .error (.redeclared .method m.name m.span)
    else .ok ({ ns with used := ns.used ++ [m.name] },
      { r with methods := r.methods ++ [⟨m.name, m.ret, m.params.map (·.type), m.isStatic, m.span⟩] })
  | .ctor c =>
    let (ns, r) := st
    let sig : Signature := ⟨c.params.map (·.type)⟩
    if ns.used.contains c.name then .error (.redeclared .ctor c.name c.span)
    else if (r.ctor? sig).isSome then .error (.redeclared .ctor r.name c.span)
    else
      let ns := if c.name == r.name then { ns with namedCtor := true }
        else { ns with used := ns.used ++ [c.name] }
      .ok (ns, { r with ctors := r.ctors ++ [⟨sig, c.span⟩] })
  | .dtor d =>
    let (ns, r) := st
    if ns.used.contains d.name then .error (.redeclared .dtor d.name d.span)
    else if r.dtor.isSome then .error (.redeclared .dtor r.name d.span)
    else
      let ns := if d.name == r.name then { ns with namedDtor := true }
        else { ns with used := ns.used ++ [d.name] }
      .ok (ns, { r with dtor := some d.span })

def record (c : ClassDecl) : Except CompileError ClassInfo := do
  let (_, r) ← c.members.foldlM addMember (⟨[], false, false⟩, ClassInfo.empty c.name c.parent c.span)
  return r

def declaresEntry (c : ClassDecl) : Bool := c.methods.any MethodDecl.isEntryPoint

def checkParents (t : ClassTable) : List ClassDecl → Except CompileError Unit
  | [] => .ok ()
  | c :: cs =>
    match c.parent with
    | some p => if t.contains p then checkParents t cs else .error (.undeclared .cls p c.span)
    | none => checkParents t cs

def entryText : Option String → String
  | some n => "Some(" ++ Text.quoteSource n ++ ")"
  | none => "None"

end Registration

open Registration in
/-- The class table of a program, or the first registration error. -/
def ClassTable.ofProgram (p : Program) : Logged ClassTable := do
  let t ← Logged.lift <| p.classes.foldlM
    (fun t c ↦ t.register (ClassInfo.empty c.name c.parent c.span)) ClassTable.empty
  Logged.lift (checkParents t p.classes)
  Logged.lift t.checkAcyclic
  let t ← p.classes.foldlM (fun t c ↦ do
    Logged.write .debug ("registering members of class " ++ c.name)
    let r ← Logged.lift (record c)
    let t := t.update r
    return if declaresEntry c then { t with entry := some c.name } else t) t
  let t ← if t.contains Console.className then pure t else Logged.lift (t.register Console.record)
  Logged.write .debug ("class table built: " ++ toString t.size ++ " classes, entry point " ++
    entryText t.entry)
  return t

end ClassLang
