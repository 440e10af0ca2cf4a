import BlockScript.Proofs.MachineLemmas

/-!
# Transcribing trees

A transcription gives every name another one, and every operator and kind of
declaration another spelling of the same meaning. It carries over to trees,
values and whole stores.
-/

namespace BlockScript

structure Transcription where
  name : Name → Name
  operator : Token → Token
  connective : Token → Token
  kind : DeclKind → DeclKind
  name_inj {m n} : name m = name n → m = n
  lexeme_operator t : (operator t).lexeme = t.lexeme
  meaning_connective t : LogicalOp.ofLexeme? (connective t).lexeme = LogicalOp.ofLexeme? t.lexeme
  lexeme_connective {t} : LogicalOp.ofLexeme? t.lexeme = none → (connective t).lexeme = t.lexeme
  isConstant_kind k : (kind k).isConstant = k.isConstant

namespace Transcription

variable (T : Transcription)

theorem name_eq_name {m n : Name} : T.name m = T.name n ↔ m = n := ⟨T.name_inj, congrArg T.name⟩

/-! ## Trees -/

mutual

def expr : Expr → Expr
  | .number value => .number value
  | .string value => .string value
  | .identifier name => .identifier (T.name name)
  | .assign name value => .assign (T.name name) (expr value)
  | .binary t left right => .binary (T.operator t) (expr left) (expr right)
  | .logical t left right => .logical (T.connective t) (expr left) (expr right)
  | .unary t operand => .unary (T.operator t) (expr operand)
  | .call callee arguments => .call (expr callee) (exprs arguments)
  | .missing => .missing
  | .foreign type => .foreign type

def exprs : List Expr → List Expr
  | [] => []
  | e :: es => expr e :: exprs es

end

mutual

def stmt : Stmt → Stmt
  | .program body => .program (block body)
  | .declare kind name value => .declare (T.kind kind) (T.name name) (value.map T.expr)
  | .function name parameters body => .function (T.name name) (parameters.map T.name) (block body)
  | .ifElse check body elseIfs rest => .ifElse (T.expr check) (block body) (arms elseIfs) (otherwise rest)
  | .whileLoop check body => .whileLoop (T.expr check) (block body)
  | .expr e => .expr (T.expr e)
  | .missing => .missing
  | .foreign type => .foreign type

def block : List Stmt → List Stmt
  | [] => []
  | s :: ss => stmt s :: block ss

def arms : List (Expr × List Stmt) → List (Expr × List Stmt)
  | [] => []
  | (check, body) :: rest => (T.expr check, block body) :: arms rest

def otherwise : Option (List Stmt) → Option (List Stmt)
  | none => none
  | some body => some (block body)

end

theorem exprs_eq_map (es : List Expr) : T.exprs es = es.map T.expr := by
  induction es with
  | nil => simp [exprs]
  | cons e es ih => simp [exprs, ih]

theorem block_eq_map (ss : List Stmt) : T.block ss = ss.map T.stmt := by
  induction ss with
  | nil => simp [block]
  | cons s ss ih => simp [block, ih]

theorem block_append (a b : List Stmt) : T.block (a ++ b) = T.block a ++ T.block b := by
  rw [block_eq_map, block_eq_map, block_eq_map, List.map_append]

theorem arms_eq_map (elseIfs : List (Expr × List Stmt)) :
    T.arms elseIfs = elseIfs.map fun (check, body) => (T.expr check, T.block body) := by
  induction elseIfs with
  | nil => simp [arms]
  | cons arm elseIfs ih => simp [arms, ih]

theorem otherwise_eq_map (rest : Option (List Stmt)) : T.otherwise rest = rest.map T.block := by
  cases rest <;> simp [otherwise]

/-! ## Values and stores -/

def closure (f : Closure) : Closure := ⟨T.name f.name, f.parameters.map T.name, f.origin, T.block f.body⟩

def value : Value → Value
  | .function f => .function (T.closure f)
  | v => v

def binding (b : Binding) : Binding := ⟨T.value b.value, b.constant⟩

def scope (s : Scope) : Scope := ⟨s.parent, s.bindings.map fun (name, b) => (T.name name, T.binding b)⟩

def store (h : Store) : Store := ⟨h.scopes.map T.scope⟩

def error : RuntimeError → RuntimeError
  | .duplicateDeclaration name => .duplicateDeclaration (T.name name)
  | .undeclaredVariable name => .undeclaredVariable (T.name name)
  | .immutableAssignment name => .immutableAssignment (T.name name)
  | .wrongArgumentCount function expected got => .wrongArgumentCount (T.name function) expected got
  | e => e

def halt : Halt → Halt
  | .failed e => .failed (T.error e)
  | .exhausted => .exhausted

theorem halt_eq_self (hT : ∀ name, T.name name = name) (halt : Halt) : T.halt halt = halt := by
  cases halt with
  | failed e => cases e <;> simp only [Transcription.halt, error, hT]
  | exhausted => rfl

end Transcription

end BlockScript
