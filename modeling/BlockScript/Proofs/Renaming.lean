import Mathlib.Logic.Equiv.Basic
import BlockScript.Proofs.Scoping
import BlockScript.Proofs.TranscribedRuns

/-!
# Names matter through equality alone

A renaming changes every name of a tree, of the scopes and of the functions
that they bind. As long as different names stay different, the renamed tree
does in the renamed store what the tree does in the store: nothing is made of
the text of a name.
-/

namespace BlockScript

def RuntimeError.isAboutName : RuntimeError → Bool
  | .duplicateDeclaration _ | .undeclaredVariable _ | .immutableAssignment _ | .wrongArgumentCount .. => true
  | .typeMismatch _ | .unsupportedStatement _ => false

namespace Transcription

variable (T : Transcription)

def outcome : Except Halt Value → Except Halt Value
  | .ok v => .ok (T.value v)
  | .error halt => .error (T.halt halt)

theorem cause_error (e : RuntimeError) : (T.error e).cause = e.cause := by
  cases e <;> rfl

theorem detail_error (e : RuntimeError) : (T.error e).detail = e.detail := by
  cases e <;> rfl

theorem name_error (e : RuntimeError) : (T.error e).name = if e.isAboutName then T.name e.name else e.name := by
  cases e <;> rfl

theorem outcome_evaluate {σ τ : Type} (bound : Nat) (stmt : Stmt) (s : ScopeId) {w : World σ} {w' : World τ}
    (hw : w'.store = T.store w.store) :
    ((Eval.evaluate bound (T.stmt stmt) s).result w').1 = T.outcome ((Eval.evaluate bound stmt s).result w).1 := by
  rw [(T.result_evaluate bound stmt s hw).1]
  cases ((Eval.evaluate bound stmt s).result w).1 <;> rfl

theorem store_initial (hT : ∀ name ∈ globalNames, T.name name = name) : T.store Store.initial = Store.initial := by
  have htrue : T.name (ascii "true") = ascii "true" := hT _ (by simp [globalNames])
  have hfalse : T.name (ascii "false") = ascii "false" := hT _ (by simp [globalNames])
  have hnull : T.name (ascii "null") = ascii "null" := hT _ (by simp [globalNames])
  simp [store, Store.initial, scope, Scope.globals, htrue, hfalse, hnull, binding, value]

theorem run_block (hT : ∀ name ∈ globalNames, T.name name = name) (bound : Nat) (program : Program) :
    (Program.run bound (T.block program)).1 = T.outcome (program.run bound).1 ∧
      (Program.run bound (T.block program)).2.store = T.store (program.run bound).2.store := by
  have hstmt : T.stmt (.program program) = .program (T.block program) := by rw [stmt]
  have hstore : World.initial.store = T.store World.initial.store := (T.store_initial hT).symm
  unfold Program.run
  rw [← hstmt]
  exact ⟨T.outcome_evaluate bound _ globalScope hstore, (T.result_evaluate bound _ globalScope hstore).2⟩

def renamed (ρ : Name → Name) (hρ : Function.Injective ρ) : Transcription where
  name := ρ
  operator t := t
  connective t := t
  kind k := k
  name_inj h := hρ h
  lexeme_operator _ := rfl
  meaning_connective _ := rfl
  lexeme_connective _ := rfl
  isConstant_kind _ := rfl

end Transcription

/-- Evaluation commutes with every renaming that keeps names apart, and so do runs of programs if the names of the
global scope stay. A renamed error has the same cause and detail, and the new name if it is about one. -/
theorem evaluate_commutes_with_renaming (ρ : Name → Name) (hρ : Function.Injective ρ) :
    let T := Transcription.renamed ρ hρ
    (∀ {σ τ : Type} (bound : Nat) (stmt : Stmt) (s : ScopeId) (w : World σ) (w' : World τ),
      w'.store = T.store w.store →
        ((Eval.evaluate bound (T.stmt stmt) s).result w').1 = T.outcome ((Eval.evaluate bound stmt s).result w).1 ∧
        ((Eval.evaluate bound (T.stmt stmt) s).result w').2.store =
          T.store ((Eval.evaluate bound stmt s).result w).2.store) ∧
    (∀ e : RuntimeError, (T.error e).cause = e.cause ∧ (T.error e).detail = e.detail ∧
      (T.error e).name = if e.isAboutName then ρ e.name else e.name) ∧
    ((∀ name ∈ globalNames, ρ name = name) → ∀ (bound : Nat) (program : Program),
      (Program.run bound (T.block program)).1 = T.outcome (program.run bound).1 ∧
      (Program.run bound (T.block program)).2.store = T.store (program.run bound).2.store) := by
  intro T
  refine ⟨?_, ?_, ?_⟩
  · intro σ τ bound stmt s w w' hw
    exact ⟨T.outcome_evaluate bound stmt s hw, (T.result_evaluate bound stmt s hw).2⟩
  · intro e
    exact ⟨T.cause_error e, T.detail_error e, T.name_error e⟩
  · intro hnames bound program
    exact T.run_block hnames bound program

namespace Renaming

def x : Name := ascii "x"

def f : Name := ascii "f"

def selfish : Program :=
  [.function f [f] [.expr (.identifier f)],
   .declare .var x (some (.call (.identifier f) [.string f])),
   .expr (.assign f (.identifier x))]

theorem evaluate_swapped :
    let swapped := Equiv.swap x f
    let T := Transcription.renamed swapped swapped.injective
    (∀ name ∈ globalNames, swapped name = name) ∧
    (Program.run 20 selfish).1.map (fun _ => ()) = .error (.failed (.immutableAssignment f)) ∧
    (Program.run 20 (T.block selfish)).1 = T.outcome (Program.run 20 selfish).1 ∧
    (Program.run 20 (T.block selfish)).1.map (fun _ => ()) = .error (.failed (.immutableAssignment x)) ∧
    (∃ w w' : World Unit, w'.store = T.store w.store ∧
      ((Eval.evaluate 20 (T.stmt (.program selfish)) globalScope).result w').2.store =
        T.store ((Eval.evaluate 20 (.program selfish) globalScope).result w).2.store) := by
  intro swapped T
  obtain ⟨hstmt, -, hrun⟩ := evaluate_commutes_with_renaming swapped swapped.injective
  have hnames : ∀ name ∈ globalNames, swapped name = name := by decide
  refine ⟨hnames, by decide +kernel, (hrun hnames 20 selfish).1, by decide +kernel, ?_⟩
  exact ⟨World.initial, ⟨T.store Store.initial, #[], ()⟩, rfl, (hstmt 20 (.program selfish) globalScope _ _ rfl).2⟩

end Renaming

end BlockScript
