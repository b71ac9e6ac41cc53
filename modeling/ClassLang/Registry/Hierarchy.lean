import ClassLang.Registry.Table

namespace ClassLang.Hierarchy

/-- The walk from `i` up unseen parents, as the first round makes it: the classes reached, in
order, and the seen list after it; or the class found to be its own parent. -/
def walk (par : Nat → Option Nat) : Nat → List Nat → Nat → Except Nat (List Nat × List Nat)
  | 0, seen, _ => .ok ([], seen)
  | fuel + 1, seen, i =>
    match par i with
    | none => .ok ([i], i :: seen)
    | some p =>
      if p = i then .error i
      else if seen.contains p then .ok ([i], i :: seen)
      else match walk par fuel (i :: seen) p with
        | .ok (path, seen) => .ok (i :: path, seen)
        | .error j => .error j

/-- The first round over the classes `todo`: the finishing list, or a class that is its own
parent. -/
def finishOrder (par : Nat → Option Nat) (n : Nat) :
    List Nat → List Nat → List Nat → Except Nat (List Nat)
  | [], _, done => .ok done
  | i :: todo, seen, done =>
    if seen.contains i then finishOrder par n todo seen done
    else match walk par n seen i with
      | .ok (path, seen) => finishOrder par n todo seen (done ++ path.reverse)
      | .error j => .error j

/-- The second round over `order`: the earliest registered unseen child of the first class that
has one when it is reached. -/
def secondRound (par : Nat → Option Nat) (n : Nat) : List Nat → List Nat → Option Nat
  | [], _ => none
  | i :: order, seen =>
    if seen.contains i then secondRound par n order seen
    else
      let seen := i :: seen
      match (List.range n).find? fun j ↦ par j == some i && !seen.contains j with
      | some j => some j
      | none => secondRound par n order seen

/-- The class reported for a cycle of the graph on `n` classes with parents `par`, if there
is a cycle. -/
def cycleWitness (n : Nat) (par : Nat → Option Nat) : Option Nat :=
  match finishOrder par n (List.range n) [] [] with
  | .error j => some j
  | .ok done => secondRound par n done.reverse []

end Hierarchy

def ClassTable.indexOf? (cs : List ClassInfo) (name : String) : Option Nat :=
  cs.findIdx? (·.name == name)

/-- Refuses a table whose inheritance graph has a cycle, naming the class that the cycle search
`search` reports, at that class's span. -/
def ClassTable.checkAcyclicBy (search : Nat → (Nat → Option Nat) → Option Nat) (t : ClassTable) :
    Except CompileError Unit :=
  let cs := t.classes
  let par := fun i ↦ (cs[i]?.bind (·.parent)).bind (ClassTable.indexOf? cs)
  match search cs.length par with
  | none => .ok ()
  | some j =>
    match cs[j]? with
    | some c => .error (.circularInheritance c.name c.span)
    | none => .ok ()

def ClassTable.checkAcyclic (t : ClassTable) : Except CompileError Unit :=
  t.checkAcyclicBy Hierarchy.cycleWitness

end ClassLang
