import BlockScript.Store

/-! # The state of an evaluation

An evaluation carries a world along: the store of scopes, the trace of what has happened so far, and the state of
whoever evaluates the expressions. It ends with a value or stops; the world stays as it was left in either case. -/

namespace BlockScript

inductive Event where
  | declare (name : Name) (kind : DeclKind) (depth : Nat)
  | declareFunction (name : Name) (depth : Nat)
  | enterBlock (depth : Nat)
  | call (name : Name) (depth : Nat)
  deriving DecidableEq, Repr

structure World (σ : Type) where
  store : Store
  trace : Array Event
  /-- The state of the expression evaluator. -/
  host : σ

inductive Halt where
  | failed (error : RuntimeError)
  /-- The bound on nesting and iteration is used up. -/
  | exhausted
  deriving DecidableEq, Repr

abbrev Eval (σ : Type) := EStateM Halt (World σ)

namespace Eval

variable {σ : Type}

def fail {α : Type} (error : RuntimeError) : Eval σ α := throw (.failed error)

def ofExcept {α : Type} : Except RuntimeError α → Eval σ α
  | .ok a => pure a
  | .error e => fail e

def record (event : Event) : Eval σ Unit := modify fun w => { w with trace := w.trace.push event }

def depth (s : ScopeId) : Eval σ Nat := return (← get).store.depth s

def newScope (parent : Option ScopeId) : Eval σ ScopeId :=
  modifyGet fun w => (w.store.size, { w with store := w.store.add (.empty parent) })

def onStore (f : Store → Store) : Eval σ Unit := modify fun w => { w with store := f w.store }

def declare (s : ScopeId) (name : Name) (value : Value) (constant : Bool) : Eval σ Value := do
  ofExcept ((← get).store.declarable s name)
  onStore fun h => h.bind s name ⟨value, constant⟩
  return value

def assign (s : ScopeId) (name : Name) (value : Value) : Eval σ Value := do
  let owner ← ofExcept ((← get).store.assignable s name)
  onStore fun h => h.overwrite owner name value
  return value

def lookup (s : ScopeId) (name : Name) : Eval σ Value := do
  ofExcept ((← get).store.lookup s name)

end Eval

end BlockScript
