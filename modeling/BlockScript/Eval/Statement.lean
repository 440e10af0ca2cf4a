import BlockScript.Eval.Machine
import BlockScript.Syntax.Render

/-! # Evaluation of statements

Statements are evaluated over any evaluator of expressions: it is a parameter, and statements reach it only where they
hand over an expression. Nesting and iteration are bounded by a number; an evaluation that runs out of it is exhausted,
which is told apart from failure. -/

namespace BlockScript

abbrev ExprEvaluator (σ : Type) := Expr → ScopeId → Eval σ Value

abbrev StmtEvaluator (σ : Type) := Stmt → ScopeId → Eval σ Value

namespace Eval

variable {σ : Type}

/-- Evaluates statements in order; the value is that of the last one, or `last` if there are none. -/
def sequence (eval : StmtEvaluator σ) (s : ScopeId) : (last : Value) → List Stmt → Eval σ Value
  | last, [] => return last
  | _, stmt :: rest => do
    let value ← eval stmt s
    sequence eval s value rest

def runIn (eval : StmtEvaluator σ) (body : Block) (s : ScopeId) : Eval σ Value := do
  record (.enterBlock (← depth s))
  sequence eval s .null body

/-- Evaluates a block in a new scope nested in `parent`. -/
def runBlock (eval : StmtEvaluator σ) (body : Block) (parent : ScopeId) : Eval σ Value := do
  runIn eval body (← newScope (some parent))

def condition (exprs : ExprEvaluator σ) (construct : Construct) (check : Expr) (s : ScopeId) : Eval σ Bool := do
  match ← exprs check s with
  | .boolean b => return b
  | value => fail (.typeMismatch (.condition construct value.type))

def chooseBranch (exprs : ExprEvaluator σ) (s : ScopeId) (otherwise : Option Block) :
    List (Expr × Block) → Eval σ (Option Block)
  | [] => return otherwise
  | (check, body) :: arms => do
    if ← condition exprs .conditional check s then return some body
    else chooseBranch exprs s otherwise arms

/-- The value of a branch is dropped. -/
def runBranch (eval : StmtEvaluator σ) (branch : Option Block) (s : ScopeId) : Eval σ Value := do
  match branch with
  | some body =>
    let _ ← runBlock eval body s
    return .null
  | none => return .null

def bindAll (s : ScopeId) : List (Name × Value) → Eval σ Unit
  | [] => return ()
  | (name, value) :: rest => do
    let _ ← declare s name value false
    bindAll s rest

/-- Runs the body of a function in a new scope nested in the one it was declared in. The value of the last statement of
the body is the result. -/
def invoke (eval : StmtEvaluator σ) (f : Closure) (arguments : List Value) : Eval σ Value := do
  if arguments.length ≠ f.parameters.length then
    fail (.wrongArgumentCount f.name f.parameters.length arguments.length)
  else
    let s ← newScope f.scope?
    bindAll s (f.parameters.zip arguments)
    record (.call f.name (← depth s))
    runIn eval f.body s

def initialValue (exprs : ExprEvaluator σ) (value : Option Expr) (s : ScopeId) : Eval σ Value :=
  match value with
  | some e => exprs e s
  | none => return .null

def exec (exprs : ExprEvaluator σ) : (bound : Nat) → StmtEvaluator σ
  | 0, _, _ => throw .exhausted
  | bound + 1, stmt, s =>
    match stmt with
    | .program body => runIn (exec exprs bound) body s
    | .declare kind name value => do
      let value ← initialValue exprs value s
      record (.declare name kind (← depth s))
      declare s name value kind.isConstant
    | .function name parameters body => do
      record (.declareFunction name (← depth s))
      declare s name (.function ⟨name, parameters, .declaredIn s, body⟩) true
    | .ifElse check body arms otherwise => do
      let branch ← chooseBranch exprs s otherwise ((check, body) :: arms)
      runBranch (exec exprs bound) branch s
    | .whileLoop check body => do
      if ← condition exprs .loop check s then
        let _ ← runBlock (exec exprs bound) body s
        exec exprs bound (.whileLoop check body) s
      else return .null
    | .expr e => exprs e s
    | .missing => fail (.unsupportedStatement missingText)
    | .foreign type => fail (.unsupportedStatement (bracketed type))

/-- The value that a statement has although it fails: a condition has one as soon as a body is chosen, whatever becomes
of the body. -/
def valueDespiteFailure? (exprs : ExprEvaluator σ) (stmt : Stmt) (s : ScopeId) (w : World σ) : Option Value :=
  match stmt with
  | .ifElse check body arms otherwise =>
    match (chooseBranch exprs s otherwise ((check, body) :: arms)).run w with
    | .ok _ _ => some .null
    | .error _ _ => none
  | _ => none

end Eval

end BlockScript
