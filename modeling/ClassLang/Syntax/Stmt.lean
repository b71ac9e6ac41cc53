import ClassLang.Syntax.Expr

namespace ClassLang

/-- A declarator: a declared name with an optional initializer. -/
structure Declarator where
  name : String
  init : Option Expr
  span : Span
  deriving Repr, Inhabited

/-- A declaration of local variables or constants of one type. -/
structure VarDecl where
  isFinal : Bool
  type : Ty
  vars : List Declarator
  span : Span
  deriving Repr, Inhabited

/-- The place an assignment writes. -/
inductive Target where
  | ident (name : String) (span : Span)
  | chain (c : Chain)
  deriving Repr, Inhabited

/-- Statements. -/
inductive Stmt where
  | assign (target : Target) (rhs : Expr) (span : Span)
  | cond (test : Expr) (thenS : Stmt) (elseS : Option Stmt) (span : Span)
  | loop (var : String) (varSpan : Span) (start : Expr) (dir : Direction) (stop : Expr)
      (body : Stmt) (span : Span)
  | brk (span : Span)
  | cont (span : Span)
  | ret (value : Option Expr) (span : Span)
  | block (decls : List VarDecl) (stmts : List Stmt) (span : Span)
  | invoke (call : Chain) (span : Span)
  deriving Repr, Inhabited

/-- A block: its declarations, then its statements. -/
structure Block where
  decls : List VarDecl
  stmts : List Stmt
  span : Span
  deriving Repr, Inhabited

namespace Target

def span : Target → Span
  | ident _ s => s
  | chain c => c.span

def text : Target → String
  | ident n _ => n
  | chain c => c.text

def ofExpr : Expr → Target
  | .ident n s => ident n s
  | e => chain e.toChain

end Target

namespace Stmt

def span : Stmt → Span
  | assign _ _ s | cond _ _ _ s | loop _ _ _ _ _ _ s | brk s | cont s | ret _ s | block _ _ s
  | invoke _ s => s

def text : Stmt → String
  | assign t e _ => t.text ++ " := " ++ e.text
  | cond c _ _ _ => "if " ++ c.text ++ " then"
  | loop v _ a d b _ _ => "for " ++ v ++ " := " ++ a.text ++ " " ++ d.text ++ " " ++ b.text ++ " do"
  | brk _ => "break"
  | cont _ => "continue"
  | ret (some e) _ => "return " ++ e.text
  | ret none _ => "return"
  | block .. => "\x7b...\x7d"
  | invoke c _ => c.text

def mkAssign (t : Target) (e : Expr) : Stmt := assign t e t.span

def mkInvoke (c : Chain) : Stmt := invoke c c.span

end Stmt

def Block.toStmt (b : Block) : Stmt := .block b.decls b.stmts b.span

def Declarator.text (d : Declarator) : String :=
  match d.init with
  | some e => d.name ++ " := " ++ e.text
  | none => d.name

def Declarator.listText (ds : List Declarator) : String :=
  ", ".intercalate (ds.map Declarator.text)

def VarDecl.text (d : VarDecl) : String :=
  (if d.isFinal then "final " else "") ++ d.type.text ++ " " ++ Declarator.listText d.vars

end ClassLang
