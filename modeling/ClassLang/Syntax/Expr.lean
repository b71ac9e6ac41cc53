import ClassLang.Source.Span
import ClassLang.Types
import ClassLang.Number.Text
import ClassLang.Text.Quoted
import ClassLang.Syntax.Operator

namespace ClassLang

/-- Literal constants. -/
inductive Literal where
  | int (v : Int)
  | float (v : Binary64)
  | bool (v : Bool)
  | str (v : String)
  | nil
  deriving DecidableEq, Repr, Inhabited

def Literal.text : Literal → String
  | .int v => toString v
  | .float v => v.text .source
  | .bool v => if v then "true" else "false"
  | .str v => Text.quoteSource v
  | .nil => "nil"

mutual

/-- Expressions. -/
inductive Expr where
  | lit (l : Literal) (span : Span)
  | ident (name : String) (span : Span)
  | this (span : Span)
  | binary (op : BinOp) (lhs rhs : Expr) (span : Span)
  | unary (op : UnOp) (arg : Expr) (span : Span)
  | chain (base : Expr) (steps : List Step) (span : Span)
  | array (elems : List Expr) (span : Span)
  | new (cls : String) (args : List Expr) (span : Span)
  | paren (inner : Expr) (span : Span)
  deriving Repr, Inhabited

/-- The steps of a postfix chain. -/
inductive Step where
  | member (name : String) (span : Span)
  | index (idx : Expr) (span : Span)
  | call (name : String) (args : List Expr) (span : Span)
  deriving Repr, Inhabited

end

/-- A postfix chain on its own, as assignment targets and call statements hold it. -/
structure Chain where
  base : Expr
  steps : List Step
  span : Span
  deriving Repr, Inhabited

namespace Expr

def span : Expr → Span
  | lit _ s | ident _ s | this s | binary _ _ _ s | unary _ _ s | chain _ _ s | array _ s
  | new _ _ s | paren _ s => s

def unparen : Expr → Expr
  | paren e _ => e.unparen
  | e => e

def toChain : Expr → Chain
  | chain b ss s => ⟨b, ss, s⟩
  | e => ⟨e, [], e.span⟩

end Expr

namespace Step

def span : Step → Span
  | member _ s | index _ s | call _ _ s => s

def isCall : Step → Bool
  | call .. => true
  | _ => false

end Step

namespace Chain

def toExpr (c : Chain) : Expr := .chain c.base c.steps c.span

def hasCall (c : Chain) : Bool := c.steps.any Step.isCall

def endsInCall (c : Chain) : Bool :=
  match c.steps.getLast? with
  | some s => s.isCall
  | none => false

def coverSpan (base : Expr) (steps : List Step) : Span :=
  steps.foldl (fun s st ↦ s.cover st.span) base.span

end Chain

def Expr.mkBinary (op : BinOp) (l r : Expr) : Expr := .binary op l r (l.span.cover r.span)

def Expr.mkUnary (op : UnOp) (e : Expr) : Expr := .unary op e e.span

def Expr.mkParen (e : Expr) : Expr := .paren e e.span

def Expr.mkChain (b : Expr) (ss : List Step) : Expr := .chain b ss (Chain.coverSpan b ss)

mutual

def Expr.text : Expr → String
  | .lit l _ => l.text
  | .ident n _ => n
  | .this _ => "this"
  | .binary op l r _ => l.text ++ " " ++ op.text ++ " " ++ r.text
  | .unary op e _ => op.text ++ e.text
  | .chain b ss _ => b.text ++ Step.listText ss
  | .array es _ => "\x7b" ++ Expr.listText es ++ "\x7d"
  | .new c as _ => "new " ++ c ++ "(" ++ Expr.listText as ++ ")"
  | .paren e _ => "(" ++ e.text ++ ")"

def Expr.listText : List Expr → String
  | [] => ""
  | [e] => e.text
  | e :: es => e.text ++ ", " ++ Expr.listText es

def Step.text : Step → String
  | .member n _ => "." ++ n
  | .index i _ => "[" ++ i.text ++ "]"
  | .call n as _ => "." ++ n ++ "(" ++ Expr.listText as ++ ")"

def Step.listText : List Step → String
  | [] => ""
  | s :: ss => s.text ++ Step.listText ss

end

def Chain.text (c : Chain) : String := c.base.text ++ Step.listText c.steps

end ClassLang
