import BlockScript.Value

/-! # Runtime errors -/

namespace BlockScript

inductive LogicalOp where
  | and
  | or
  deriving DecidableEq, Repr

namespace LogicalOp

def text : LogicalOp → Bytes
  | .and => ascii "and"
  | .or => ascii "or"

def ofLexeme? (lexeme : Bytes) : Option LogicalOp :=
  if lexeme = ascii "and" || lexeme = ascii "&&" then some .and
  else if lexeme = ascii "or" || lexeme = ascii "||" then some .or
  else none

end LogicalOp

inductive Construct where
  | conditional
  | loop
  deriving DecidableEq, Repr

def Construct.text : Construct → Bytes
  | .conditional => ascii "if"
  | .loop => ascii "while"

inductive Mismatch where
  | condition (construct : Construct) (got : ValueType)
  | binary (operator : Bytes) (left right : ValueType)
  | unary (operator : Bytes) (operand : ValueType)
  | logical (operator : LogicalOp) (got : ValueType)
  | unknownLogical (operator : Bytes)
  | notCallable (got : ValueType)
  /-- A mismatch that an expression evaluator supplied from outside reports in its own words. -/
  | reported (name detail : Bytes)
  deriving DecidableEq, Repr

def Mismatch.detail : Mismatch → Bytes
  | condition construct got => construct.text ++ ascii " condition must be boolean, got " ++ got.text
  | binary operator left right =>
    ascii "operator " ++ operator ++ ascii " not defined for " ++ left.text ++ ascii " and " ++ right.text
  | unary operator operand => ascii "operator " ++ operator ++ ascii " not defined for " ++ operand.text
  | logical operator got => ascii "operator " ++ operator.text ++ ascii " expects booleans, got " ++ got.text
  | unknownLogical operator => ascii "unknown logical operator " ++ operator
  | notCallable got => got.text ++ ascii " is not callable"
  | reported _ detail => detail

inductive RuntimeError where
  | duplicateDeclaration (name : Name)
  | undeclaredVariable (name : Name)
  | immutableAssignment (name : Name)
  | typeMismatch (mismatch : Mismatch)
  | unsupportedStatement (node : Bytes)
  | wrongArgumentCount (function : Name) (expected got : Nat)
  deriving DecidableEq, Repr

namespace RuntimeError

def cause : RuntimeError → Bytes
  | duplicateDeclaration _ => ascii "Variable already declared in this scope"
  | undeclaredVariable _ => ascii "Undeclared variable"
  | immutableAssignment _ => ascii "Cannot assign to a constant"
  | typeMismatch _ => ascii "Type mismatch"
  | unsupportedStatement _ => ascii "Unsupported statement"
  | wrongArgumentCount .. => ascii "Invalid number of arguments"

def name : RuntimeError → Name
  | duplicateDeclaration name | undeclaredVariable name | immutableAssignment name => name
  | typeMismatch (.reported name _) => name
  | typeMismatch _ => []
  | unsupportedStatement _ => []
  | wrongArgumentCount function _ _ => function

def detail : RuntimeError → Bytes
  | duplicateDeclaration _ | undeclaredVariable _ | immutableAssignment _ => []
  | typeMismatch mismatch => mismatch.detail
  | unsupportedStatement node => node
  | wrongArgumentCount _ expected got =>
    ascii "expected " ++ Bytes.ofNat expected ++ ascii ", got " ++ Bytes.ofNat got

def message (e : RuntimeError) : Bytes :=
  let name := if e.name.isEmpty then [] else ascii ": " ++ e.name
  let detail := if e.detail.isEmpty then [] else ascii " (" ++ e.detail ++ ascii ")"
  e.cause ++ name ++ detail

end RuntimeError

end BlockScript
