namespace ClassLang

/-- The primitive kinds of values. -/
inductive Prim where
  | int
  | float
  | bool
  | string
  | void
  deriving DecidableEq, Repr, Inhabited

namespace Prim

def name : Prim → String
  | int => "int"
  | float => "float"
  | bool => "boolean"
  | string => "string"
  | void => "void"

def all : List Prim := [int, float, bool, string, void]

end Prim

/-- The types of the language. -/
inductive Ty where
  | prim (p : Prim)
  | array (elem : Ty) (size : Nat)
  | cls (name : String)
  | ref (inner : Ty)
  | nil
  | error
  deriving DecidableEq, Repr, Inhabited

namespace Ty

abbrev int : Ty := prim .int
abbrev float : Ty := prim .float
abbrev bool : Ty := prim .bool
abbrev string : Ty := prim .string
abbrev void : Ty := prim .void

def text : Ty → String
  | prim p => p.name
  | array e n => e.text ++ "[" ++ toString n ++ "]"
  | cls n => n
  | ref t => t.text ++ " &"
  | nil => "nil"
  | error => "<error>"

/-- Structural equality that refuses the error sentinel on either side. -/
def sameAs : Ty → Ty → Bool
  | prim p, prim q => p == q
  | array a n, array b m => n == m && a.sameAs b
  | cls a, cls b => a == b
  | ref a, ref b => a.sameAs b
  | nil, nil => true
  | _, _ => false

def deref : Ty → Ty
  | ref t => t
  | t => t

def hasError : Ty → Bool
  | array e _ => e.hasError
  | ref t => t.hasError
  | error => true
  | _ => false

def isInt : Ty → Bool
  | prim .int => true
  | _ => false

def isFloat : Ty → Bool
  | prim .float => true
  | _ => false

def isBool : Ty → Bool
  | prim .bool => true
  | _ => false

def isString : Ty → Bool
  | prim .string => true
  | _ => false

def isVoid : Ty → Bool
  | prim .void => true
  | _ => false

def isNumeric (t : Ty) : Bool := t.isInt || t.isFloat

def isPrim : Ty → Bool
  | prim _ => true
  | _ => false

def isArray : Ty → Bool
  | array _ _ => true
  | _ => false

def isClass : Ty → Bool
  | cls _ => true
  | _ => false

def isNil : Ty → Bool
  | nil => true
  | _ => false

def isError : Ty → Bool
  | error => true
  | _ => false

def isNullable (t : Ty) : Bool := t.isClass || t.isArray

def className? : Ty → Option String
  | cls n => some n
  | _ => none

def element? : Ty → Option Ty
  | array e _ => some e
  | _ => none

@[simp] theorem sameAs_error_left (t : Ty) : error.sameAs t = false := by
  cases t <;> rfl

@[simp] theorem sameAs_error_right (t : Ty) : t.sameAs error = false := by
  cases t <;> rfl

@[simp] theorem deref_ref (t : Ty) : (ref t).deref = t := rfl

theorem sameAs_iff (a b : Ty) : a.sameAs b = true ↔ a = b ∧ a.hasError = false := by
  induction a generalizing b with
  | prim p => cases b <;> simp [sameAs, hasError]
  | array e n ih =>
    cases b <;> simp [sameAs, hasError, ih]
    constructor
    · rintro ⟨rfl, rfl, h⟩; exact ⟨⟨rfl, rfl⟩, h⟩
    · rintro ⟨⟨rfl, rfl⟩, h⟩; exact ⟨rfl, rfl, h⟩
  | cls n => cases b <;> simp [sameAs, hasError]
  | ref t ih => cases b <;> simp [sameAs, hasError, ih]
  | nil => cases b <;> simp [sameAs, hasError]
  | error => simp [sameAs, hasError]

end Ty

end ClassLang
