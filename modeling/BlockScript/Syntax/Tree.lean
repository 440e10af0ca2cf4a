import BlockScript.Token

/-! # Syntax trees

A program is a list of statements. Besides what the grammar produces, a tree may lack a node or hold a node of a type
that the language does not know: whoever builds trees by hand can do both, and the evaluator answers for both. -/

namespace BlockScript

abbrev Name := Bytes

/-- Operators keep their whole token, so that a tree tells how and where it was written. -/
inductive Expr where
  | number (value : Float)
  | string (value : Bytes)
  | identifier (name : Name)
  | assign (name : Name) (value : Expr)
  | binary (operator : Token) (left right : Expr)
  | logical (operator : Token) (left right : Expr)
  | unary (operator : Token) (operand : Expr)
  | call (callee : Expr) (arguments : List Expr)
  | missing
  | foreign (type : Bytes)
  deriving Inhabited

inductive DeclKind where
  | var
  | const
  | final
  /-- A kind without a keyword of its own: constant, and written like a variable. -/
  | unnamed
  deriving DecidableEq, Repr

namespace DeclKind

def isConstant : DeclKind → Bool
  | .var => false
  | _ => true

def text : DeclKind → Bytes
  | .const => ascii "const"
  | .final => ascii "final"
  | .var | .unnamed => ascii "var"

end DeclKind

inductive Stmt where
  | program (body : List Stmt)
  | declare (kind : DeclKind) (name : Name) (value : Option Expr)
  | function (name : Name) (parameters : List Name) (body : List Stmt)
  /-- `arms` are the further conditions with their bodies, tried in order. -/
  | ifElse (check : Expr) (body : List Stmt) (arms : List (Expr × List Stmt)) (otherwise : Option (List Stmt))
  | whileLoop (check : Expr) (body : List Stmt)
  | expr (value : Expr)
  | missing
  | foreign (type : Bytes)
  deriving Inhabited

abbrev Block := List Stmt

abbrev Program := List Stmt

end BlockScript
