import ClassLang.Registry.Table
import ClassLang.Registry.Overloads

namespace ClassLang

/-- Whether a value of type `actual` may be stored where `expected` is declared. -/
def Ty.compatible (t : ClassTable) (expected actual : Ty) : Bool :=
  if expected.isError || actual.isError then true
  else match expected with
    | .ref inner => inner.sameAs actual
    | _ =>
      if expected.sameAs actual then true
      else if actual.isNil then expected.isNullable
      else match expected, actual with
        | .prim _, _ => expected.isFloat && actual.isInt
        | .cls sup, .cls sub => t.isSubtype sub sup
        | .array e n, .array a m => n == m && e.sameAs a
        | _, _ => false

/-- Whether storing `actual` where `target` is declared turns an integer into a float. -/
def Ty.needsWidening (target actual : Ty) : Bool := target.deref.isFloat && actual.isInt

def Signature.accepts (t : ClassTable) (s : Signature) (args : List Ty) : Bool :=
  s.types.length == args.length && (s.types.zip args).all fun (p, a) ↦ Ty.compatible t p a

/-- The constructor of class `c` that arguments of types `args` call, when a scan of a class's
constructors sees them in the order `order` gives: the one with exactly that signature, or else,
of those that accept the arguments, the one whose signature text is least, the first in that
order on a tie. -/
def ClassTable.resolveCtorBy (order : ClassInfo → List CtorInfo) (t : ClassTable) (c : String)
    (args : List Ty) : Option CtorInfo :=
  match t.findCtor c ⟨args⟩ with
  | some k => some k
  | none =>
    let inOrder := match t.get? c with
      | some r => order r
      | none => []
    let cands := inOrder.filter fun k ↦ k.sig.accepts t args
    cands.foldl (fun best k ↦
      match best with
      | some b => if k.sig.text < b.sig.text then some k else some b
      | none => some k) none

/-- The constructor a `new` calls: the scan sees a class's constructors in bucket order. -/
def ClassTable.resolveCtor (t : ClassTable) (c : String) (args : List Ty) : Option CtorInfo :=
  t.resolveCtorBy ClassInfo.ctorsInBucketOrder c args

end ClassLang
