import BlockScript.Eval.Expression
import BlockScript.Syntax.Parse
import BlockScript.Token.Scan

/-! # Running programs

A program runs in a fresh world that holds the global scope alone. A session runs one source after the other in the same
world, so what one declares is visible to the next. -/

namespace BlockScript

inductive SourceError where
  | lexical (error : LexError)
  | grammatical (errors : List ParseError)
  deriving DecidableEq, Repr

def SourceError.message : SourceError → Bytes
  | lexical error => error.message
  | grammatical errors => ParseError.messages errors

def Program.ofSource (source terminator : Bytes) : Except SourceError Program :=
  match Source.tokens source terminator with
  | .error e => .error (.lexical e)
  | .ok tokens =>
    match Program.ofTokens tokens with
    | .error errors => .error (.grammatical errors)
    | .ok program => .ok program

def globalScope : ScopeId := 0

def World.initial : World Unit := ⟨Store.initial, #[], ()⟩

def Eval.result {σ α : Type} (m : Eval σ α) (w : World σ) : Except Halt α × World σ :=
  match m.run w with
  | .ok a w => (.ok a, w)
  | .error halt w => (.error halt, w)

/-- More nesting and iteration than any run takes that ends in practice. -/
def ampleBound : Nat := Nat.pow 2 60

def Program.run (bound : Nat) (program : Program) : Except Halt Value × World Unit :=
  (Eval.evaluate bound (.program program) globalScope).result World.initial

inductive RunError where
  | source (error : SourceError)
  | halted (halt : Halt)
  deriving DecidableEq, Repr

def Halt.message : Halt → Bytes
  | failed error => error.message
  | exhausted => ascii "Evaluation does not end"

def RunError.message : RunError → Bytes
  | source error => error.message
  | halted halt => halt.message

structure Session where
  world : World Unit

namespace Session

def start : Session := ⟨World.initial⟩

def eval (bound : Nat) (source terminator : Bytes) (session : Session) : Except RunError Value × Session :=
  match Program.ofSource source terminator with
  | .error e => (.error (.source e), session)
  | .ok program =>
    match (Eval.evaluate bound (.program program) globalScope).result session.world with
    | (.ok value, world) => (.ok value, ⟨world⟩)
    | (.error halt, world) => (.error (.halted halt), ⟨world⟩)

end Session

end BlockScript
