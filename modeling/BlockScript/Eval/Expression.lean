import BlockScript.Eval.Statement
import BlockScript.Eval.Operator

/-! # Evaluation of expressions

The evaluator that programs are run with. Operands are evaluated from left to right, a logical operator leaves its right
operand alone when the left one decides, and a call runs the body of the function with this same evaluator. -/

namespace BlockScript.Eval

variable {σ : Type}

def operand (exprs : ExprEvaluator σ) (operator : LogicalOp) (e : Expr) (s : ScopeId) : Eval σ Bool := do
  match ← exprs e s with
  | .boolean b => return b
  | value => fail (.typeMismatch (.logical operator value.type))

/-- Whether the left operand alone gives the result, which is then the operand itself. -/
def decides : LogicalOp → Bool → Bool
  | .or, b => b
  | .and, b => !b

def logical (exprs : ExprEvaluator σ) (operator : LogicalOp) (left right : Expr) (s : ScopeId) : Eval σ Value := do
  let x ← operand exprs operator left s
  if decides operator x then return .boolean x
  else return .boolean (← operand exprs operator right s)

def evalAll (exprs : ExprEvaluator σ) (s : ScopeId) : List Expr → Eval σ (List Value)
  | [] => return []
  | e :: rest => do
    let value ← exprs e s
    let values ← evalAll exprs s rest
    return value :: values

def evalExpr : (bound : Nat) → ExprEvaluator σ
  | 0, _, _ => throw .exhausted
  | bound + 1, e, s =>
    match e with
    | .number value => return .number value
    | .string value => return .string value
    | .identifier name => lookup s name
    | .assign name value => do
      let value ← evalExpr bound value s
      assign s name value
    | .binary operator left right => do
      let x ← evalExpr bound left s
      let y ← evalExpr bound right s
      ofExcept (Operator.applyBinary operator.lexeme x y)
    | .logical operator left right =>
      match LogicalOp.ofLexeme? operator.lexeme with
      | some op => logical (evalExpr bound) op left right s
      | none => fail (.typeMismatch (.unknownLogical operator.lexeme))
    | .unary operator operand => do
      let x ← evalExpr bound operand s
      ofExcept (Operator.applyUnary operator.lexeme x)
    | .call callee arguments => do
      let f ← evalExpr bound callee s
      let values ← evalAll (evalExpr bound) s arguments
      match f with
      | .function f => invoke (exec (evalExpr bound) bound) f values
      | value => fail (.typeMismatch (.notCallable value.type))
    | .missing => fail (.unsupportedStatement missingText)
    | .foreign type => fail (.unsupportedStatement (bracketed type))

def evaluate (bound : Nat) : StmtEvaluator σ := exec (evalExpr bound) bound

end BlockScript.Eval
