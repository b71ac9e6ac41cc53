import ClassLang.Assembly.Emitter
import ClassLang.Registry.Console
import ClassLang.Typing.Compat
import ClassLang.Options

namespace ClassLang

/-- The class whose routine is written, with the table and the build options. -/
structure Site where
  table : ClassTable
  opts : Options
  cls : String

/-- What a bare name stands for while code is written. -/
inductive Resolved where
  | cls (name : String)
  | loc (sym : LocalSym)
  | console
  | attr (host : ClassInfo) (a : AttrInfo)

/-- Where a value is stored. -/
inductive Place where
  | loc (slot : Nat) (type : Ty)
  | static (host name : String) (type : Ty)
  | field (host name : String) (type : Ty)
  | element (type : Ty)

/-- A chain's result so far: a class reached by name, which pushed nothing, or a value on top
of the stack. -/
inductive Operand where
  | cls (name : String)
  | value (type : Ty)

/-- Code compiled ahead of its place, with the type of the value it pushes. -/
structure Captured where
  lines : List Line
  type : Ty

def Place.type : Place → Ty
  | .loc _ t | .static _ _ t | .field _ _ t | .element t => t

namespace Site

def thisType (s : Site) : Ty := .cls s.cls

/-- Looks up a bare name: a class, then a local of the frame, then the console, then an
attribute seen from the site's class. -/
def resolve (s : Site) (f : Frame) (n : String) : Except CompileError Resolved :=
  match s.table.get? n with
  | some r => .ok (.cls r.name)
  | none =>
    match f.lookup n with
    | some l => .ok (.loc l)
    | none =>
      if n == Console.binding then .ok .console
      else match s.table.findAttr s.cls n with
        | some (h, a) => .ok (.attr h a)
        | none => .error (.internal ("unresolved identifier `" ++ n ++ "`"))

end Site

namespace Lower

def resolve (s : Site) (n : String) : EmitM Resolved := do
  Emitter.liftExcept (s.resolve (← get).frame n)

def widen (target actual : Ty) : EmitM Unit :=
  if Ty.needsWidening target actual then Emitter.emit .i2f else pure ()

/-- The value of a declaration without initializer: an array of the declared size, else the
type's zero. -/
def pushZero (t : Ty) : EmitM Unit :=
  match t.deref with
  | .array e n => Emitter.newArray e n
  | u => Emitter.pushDefault u

def store : Place → EmitM Unit
  | .loc slot t => Emitter.storeLocal t slot
  | .static h n t => Emitter.emit (.putStatic h n t)
  | .field h n t => Emitter.emit (.putField h n t)
  | .element t => Emitter.emit (.arrayStore t)

def capture (above : Int) (act : EmitM Ty) : EmitM Captured := do
  Emitter.rewind above
  let m ← Emitter.mark
  let t ← act
  let ls ← Emitter.takeFrom m
  Emitter.rewind (-(above + 1))
  return ⟨ls, t⟩

def replay (c : Captured) (target : Option Ty) : EmitM Unit := do
  Emitter.append c.lines
  Emitter.rewind 1
  match target with
  | some t => widen t c.type
  | none => pure ()

def loadIdent (s : Site) (n : String) : EmitM Ty := do
  match ← resolve s n with
  | .loc l =>
    Emitter.loadLocal l.type l.slot
    return l.type.deref
  | .attr h a =>
    if a.isStatic then Emitter.emit (.getStatic h.name a.name a.type)
    else
      Emitter.loadLocal s.thisType 0
      Emitter.emit (.getField h.name a.name a.type)
    return a.type.deref
  | .console =>
    Emitter.emit .pushNull
    return .cls Console.className
  | .cls c => throw (.internal ("class `" ++ c ++ "` used as a value"))

def identPlace (s : Site) (n : String) : EmitM Place := do
  match ← resolve s n with
  | .loc l => return .loc l.slot l.type
  | .attr h a =>
    if a.isStatic then return .static h.name a.name a.type
    else
      Emitter.loadLocal s.thisType 0
      return .field h.name a.name a.type
  | .cls _ | .console => throw (.internal ("`" ++ n ++ "` is not assignable"))

def accessedClass : Operand → Except CompileError String
  | .cls c => .ok c
  | .value t =>
    match t.deref.className? with
    | some c => .ok c
    | none => .error (.internal ("member access on `" ++ t.text ++ "`"))

def elementOf (t : Ty) : Except CompileError Ty :=
  match t.deref.element? with
  | some e => .ok e
  | none => .error (.internal ("indexing `" ++ t.text ++ "`"))

def dropReceiver : Operand → EmitM Unit
  | .value _ => Emitter.emit .pop
  | .cls _ => pure ()

end Lower

end ClassLang
