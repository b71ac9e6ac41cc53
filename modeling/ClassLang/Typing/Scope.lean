import ClassLang.Error
import ClassLang.Types

namespace ClassLang

/-- What a scope knows of a name. -/
structure Binding where
  type : Ty
  isFinal : Bool
  span : Span
  deriving Repr, Inhabited

abbrev ScopeFrame := List (String × Binding)

/-- The stack of frames, innermost first. -/
structure ScopeStack where
  frames : List ScopeFrame := []
  deriving Repr, Inhabited

namespace ScopeStack

def push (s : ScopeStack) : ScopeStack := ⟨[] :: s.frames⟩

def pop (s : ScopeStack) : ScopeStack := ⟨s.frames.drop 1⟩

def frameFind? (f : ScopeFrame) (n : String) : Option Binding := (f.find? (·.1 == n)).map (·.2)

def split (s : ScopeStack) : ScopeFrame × List ScopeFrame :=
  match s.frames with
  | f :: rest => (f, rest)
  | [] => ([], [])

def bind (s : ScopeStack) (n : String) (b : Binding) : ScopeStack :=
  let (f, rest) := s.split
  ⟨((n, b) :: f.filter (·.1 != n)) :: rest⟩

def lookupCurrent (s : ScopeStack) (n : String) : Option Binding :=
  match s.frames with
  | f :: _ => frameFind? f n
  | [] => none

def lookup (s : ScopeStack) (n : String) : Option Binding :=
  s.frames.findSome? (frameFind? · n)

/-- Declares a local: a name bound in the innermost frame is a redeclaration of a constant or a
variable, at `span`. -/
def declareLocal (s : ScopeStack) (n : String) (t : Ty) (isFinal : Bool) (span : Span) :
    Except CompileError ScopeStack :=
  if (frameFind? s.split.1 n).isSome then
    .error (.redeclared (if isFinal then .constant else .localVar) n span)
  else .ok (s.bind n ⟨t, isFinal, span⟩)

def declareParam (s : ScopeStack) (n : String) (t : Ty) (span : Span) :
    Except CompileError ScopeStack :=
  if (frameFind? s.split.1 n).isSome then .error (.redeclared .param n span)
  else .ok (s.bind n ⟨t, false, span⟩)

end ScopeStack

end ClassLang
