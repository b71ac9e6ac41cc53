import ClassLang.Source.Span

namespace ClassLang

/-- The kinds of declarations a redeclaration can be about. -/
inductive DeclKind where
  | cls | attr | constant | method | ctor | dtor | localVar | param
  deriving DecidableEq, Repr, Inhabited

def DeclKind.text : DeclKind → String
  | cls => "Class"
  | attr => "Attribute"
  | constant => "Constant"
  | method => "Method"
  | ctor => "Constructor"
  | dtor => "Destructor"
  | localVar => "Variable"
  | param => "Parameter"

/-- The kinds of names that can be undeclared. -/
inductive NameKind where
  | identifier | cls | attr | method
  deriving DecidableEq, Repr, Inhabited

def NameKind.text : NameKind → String
  | identifier => "Identifier"
  | cls => "Class"
  | attr => "Attribute"
  | method => "Method"

/-- Why compilation stopped. `construct` is the rendering of the offending node. -/
inductive CompileError where
  | redeclared (kind : DeclKind) (name : String) (span : Span)
  | undeclared (kind : NameKind) (name : String) (span : Span)
  | assignToConstant (construct : String) (span : Span)
  | mismatchInStatement (construct : String) (span : Span)
  | mismatchInExpression (construct : String) (span : Span)
  | mismatchInConstant (construct : String) (span : Span)
  | mustInLoop (construct : String) (span : Span)
  | illegalConstant (construct : String) (span : Span)
  | illegalArrayLiteral (construct : String) (span : Span)
  | illegalMemberAccess (construct : String) (span : Span)
  | noEntryPoint
  | circularInheritance (name : String) (span : Span)
  | internal (message : String)
  deriving DecidableEq, Repr, Inhabited

namespace CompileError

def span : CompileError → Span
  | redeclared _ _ s | undeclared _ _ s | assignToConstant _ s | mismatchInStatement _ s
  | mismatchInExpression _ s | mismatchInConstant _ s | mustInLoop _ s | illegalConstant _ s
  | illegalArrayLiteral _ s | illegalMemberAccess _ s | circularInheritance _ s => s
  | noEntryPoint | internal _ => Span.origin

def message : CompileError → String
  | redeclared k n s => "at " ++ s.text ++ ": Redeclared " ++ k.text ++ ": " ++ n
  | undeclared k n s => "at " ++ s.text ++ ": Undeclared " ++ k.text ++ ": " ++ n
  | assignToConstant c s => "at " ++ s.text ++ ": Cannot Assign To Constant: " ++ c
  | mismatchInStatement c s => "at " ++ s.text ++ ": Type Mismatch In Statement: " ++ c
  | mismatchInExpression c s => "at " ++ s.text ++ ": Type Mismatch In Expression: " ++ c
  | mismatchInConstant c s => "at " ++ s.text ++ ": Type Mismatch In Constant: " ++ c
  | mustInLoop c s => "at " ++ s.text ++ ": " ++ c ++ " Must In Loop"
  | illegalConstant c s => "at " ++ s.text ++ ": Illegal Constant Expression: " ++ c
  | illegalArrayLiteral c s => "at " ++ s.text ++ ": Illegal Array Literal: " ++ c
  | illegalMemberAccess c s => "at " ++ s.text ++ ": Illegal Member Access: " ++ c
  | noEntryPoint => "No Entry Point"
  | circularInheritance n s => "at " ++ s.text ++ ": circular inheritance for '" ++ n ++ "'"
  | internal m => "internal compiler error: " ++ m

def isPriority : CompileError → Bool
  | redeclared .. | undeclared .. | illegalMemberAccess .. => true
  | _ => false

end CompileError

end ClassLang
