import BlockScript.Eval.Error

/-! # The store of scopes

A scope binds names to values and is nested in at most one other scope. Running blocks and function values share
scopes, so all scopes live in one store and are referred to by number, in the order of their creation. The scopes that
a scope is nested in, innermost first, are its chain; names are looked up along it. -/

namespace BlockScript

structure Binding where
  value : Value
  constant : Bool

structure Scope where
  parent : Option ScopeId
  bindings : List (Name × Binding)

namespace Scope

def empty (parent : Option ScopeId) : Scope := ⟨parent, []⟩

def globals : Scope :=
  ⟨none,
   [(ascii "true", ⟨.boolean true, true⟩),
    (ascii "false", ⟨.boolean false, true⟩),
    (ascii "null", ⟨.null, true⟩)]⟩

def find? (scope : Scope) (name : Name) : Option Binding := scope.bindings.lookup name

def binds (scope : Scope) (name : Name) : Bool := (scope.find? name).isSome

def insert (scope : Scope) (name : Name) (binding : Binding) : Scope :=
  ⟨scope.parent, scope.bindings ++ [(name, binding)]⟩

def update (scope : Scope) (name : Name) (value : Value) : Scope :=
  ⟨scope.parent, scope.bindings.map fun (n, b) => if n = name then (n, ⟨value, b.constant⟩) else (n, b)⟩

end Scope

structure Store where
  scopes : Array Scope

namespace Store

def empty : Store := ⟨#[]⟩

def initial : Store := ⟨#[Scope.globals]⟩

def size (h : Store) : Nat := h.scopes.size

def get? (h : Store) (s : ScopeId) : Option Scope := h.scopes[s]?

/-- Adds a scope; its number is the size that the store had before. -/
def add (h : Store) (scope : Scope) : Store := ⟨h.scopes.push scope⟩

def modify (h : Store) (s : ScopeId) (f : Scope → Scope) : Store := ⟨h.scopes.modify s f⟩

def parent? (h : Store) (s : ScopeId) : Option ScopeId := (h.get? s).bind Scope.parent

/-- A scope and those it is nested in, innermost first. A parent is always older than its children. -/
def chain (h : Store) (s : ScopeId) : List ScopeId :=
  match h.get? s with
  | none => []
  | some scope =>
    match scope.parent with
    | none => [s]
    | some p => if p < s then s :: h.chain p else [s]
termination_by s

def depth (h : Store) (s : ScopeId) : Nat := (h.chain s).length - 1

def binding? (h : Store) (s : ScopeId) (name : Name) : Option Binding := (h.get? s).bind (Scope.find? · name)

def owner? (h : Store) (s : ScopeId) (name : Name) : Option ScopeId :=
  (h.chain s).find? fun t => (h.binding? t name).isSome

def declarable (h : Store) (s : ScopeId) (name : Name) : Except RuntimeError Unit :=
  match h.binding? s name with
  | some _ => .error (.duplicateDeclaration name)
  | none => .ok ()

def bind (h : Store) (s : ScopeId) (name : Name) (binding : Binding) : Store :=
  h.modify s fun scope => scope.insert name binding

def declare (h : Store) (s : ScopeId) (name : Name) (binding : Binding) : Except RuntimeError Store := do
  h.declarable s name
  return h.bind s name binding

def assignable (h : Store) (s : ScopeId) (name : Name) : Except RuntimeError ScopeId :=
  match h.owner? s name with
  | none => .error (.undeclaredVariable name)
  | some t => if (h.binding? t name).any Binding.constant then .error (.immutableAssignment name) else .ok t

def overwrite (h : Store) (s : ScopeId) (name : Name) (value : Value) : Store :=
  h.modify s fun scope => scope.update name value

def assign (h : Store) (s : ScopeId) (name : Name) (value : Value) : Except RuntimeError Store := do
  let owner ← h.assignable s name
  return h.overwrite owner name value

def lookup (h : Store) (s : ScopeId) (name : Name) : Except RuntimeError Value :=
  match (h.owner? s name).bind (h.binding? · name) with
  | none => .error (.undeclaredVariable name)
  | some binding => .ok binding.value

end Store

end BlockScript
