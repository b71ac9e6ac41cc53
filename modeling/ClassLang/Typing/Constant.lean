import ClassLang.Typing.Context
import ClassLang.Typing.Expr

namespace ClassLang

def Literal.isConstant : Literal → Bool
  | .nil => false
  | _ => true

mutual

def isConstant (cx : Context) : Expr → Bool
  | .lit l _ => l.isConstant
  | .array es _ => allConstant cx es
  | .binary _ l r _ => isConstant cx l && isConstant cx r
  | .unary _ a _ => isConstant cx a
  | .paren e _ => isConstant cx e
  | .ident n _ => cx.isFinalName n
  | .chain b ss _ =>
    match b, ss with
    | .ident n _, _ =>
      (match cx.scopes.lookup n with
        | some bd => bd.isFinal
        | none => false) && constantIndexes cx ss
    | .this _, [.member n _] => cx.isFinalAttr n
    | _, _ => false
  | .this _ | .new .. => false

def allConstant (cx : Context) : List Expr → Bool
  | [] => true
  | e :: es => isConstant cx e && allConstant cx es

def constantIndexes (cx : Context) : List Step → Bool
  | [] => true
  | .index i _ :: ss => isConstant cx i && constantIndexes cx ss
  | _ :: _ => false

end

mutual

def isAttrConstant (cx : Context) : Expr → Bool
  | .lit l _ => l.isConstant
  | .new .. => true
  | .array es _ => allAttrConstant cx es
  | .binary _ l r _ => isAttrConstant cx l && isAttrConstant cx r
  | .unary _ a _ => isAttrConstant cx a
  | .paren e _ => isAttrConstant cx e
  | .ident n _ => cx.isFinalName n
  | .chain b ss _ =>
    match ss with
    | .member n _ :: rest => b.isThisBase && cx.isFinalAttr n && attrConstantIndexes cx rest
    | _ => false
  | .this _ => false

def allAttrConstant (cx : Context) : List Expr → Bool
  | [] => true
  | e :: es => isAttrConstant cx e && allAttrConstant cx es

def attrConstantIndexes (cx : Context) : List Step → Bool
  | [] => true
  | .index i _ :: ss => isAttrConstant cx i && attrConstantIndexes cx ss
  | _ :: _ => false

end

end ClassLang
