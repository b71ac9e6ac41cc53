import ClassLang.Error
import ClassLang.Registry.Record

namespace ClassLang

/-- The class table. -/
structure ClassTable where
  classes : List ClassInfo
  entry : Option String
  deriving Repr, Inhabited

namespace ClassTable

def empty : ClassTable := ⟨[], none⟩

/-- The record of the class named `n`. -/
def get? (t : ClassTable) (n : String) : Option ClassInfo := t.classes.find? (·.name == n)

def contains (t : ClassTable) (n : String) : Bool := t.classes.any (·.name == n)

def size (t : ClassTable) : Nat := t.classes.length

def register (t : ClassTable) (c : ClassInfo) : Except CompileError ClassTable :=
  if t.contains c.name then .error (.redeclared .cls c.name c.span)
  else .ok { t with classes := t.classes ++ [c] }

def update (t : ClassTable) (c : ClassInfo) : ClassTable :=
  { t with classes := t.classes.map fun r ↦ if r.name == c.name then c else r }

def climb (t : ClassTable) : Nat → List String → Option ClassInfo → List ClassInfo
  | 0, _, _ => []
  | _, _, none => []
  | fuel + 1, seen, some c =>
    if seen.contains c.name then []
    else c :: t.climb fuel (c.name :: seen) (c.parent.bind t.get?)

/-- The class named `n` followed by its parents, stopping at an unregistered parent or at a
class met before; empty when `n` is not registered. -/
def lineage (t : ClassTable) (n : String) : List ClassInfo :=
  t.climb t.classes.length [] (t.get? n)

def ancestors (t : ClassTable) (n : String) : List ClassInfo := (t.lineage n).drop 1

def isSubtype (t : ClassTable) (sub sup : String) : Bool := (t.lineage sub).any (·.name == sup)

/-- The attribute `n` as seen from class `c`, with the class that declares it. -/
def findAttr (t : ClassTable) (c n : String) : Option (ClassInfo × AttrInfo) :=
  (t.lineage c).findSome? fun h ↦ (h.attr? n).map (h, ·)

def findMethod (t : ClassTable) (c n : String) : Option (ClassInfo × MethodInfo) :=
  (t.lineage c).findSome? fun h ↦ (h.method? n).map (h, ·)

/-- The constructor of class `c` with exactly the signature `s`. -/
def findCtor (t : ClassTable) (c : String) (s : Signature) : Option CtorInfo :=
  (t.get? c).bind (·.ctor? s)

def ctors (t : ClassTable) (c : String) : List CtorInfo :=
  match t.get? c with
  | some r => r.ctors
  | none => []

def isBuiltin (t : ClassTable) (n : String) : Bool :=
  match t.get? n with
  | some r => r.builtin
  | none => false

end ClassTable

end ClassLang

namespace ClassLang

def ClassInfo.attrsByName (c : ClassInfo) : List AttrInfo :=
  c.attrs.mergeSort fun a b ↦ decide (a.name ≤ b.name)

def ClassInfo.methodsByName (c : ClassInfo) : List MethodInfo :=
  c.methods.mergeSort fun a b ↦ decide (a.name ≤ b.name)

def ClassInfo.ctorTexts (c : ClassInfo) : List String :=
  (c.ctors.map (·.sig.text)).mergeSort fun a b ↦ decide (a ≤ b)

end ClassLang
