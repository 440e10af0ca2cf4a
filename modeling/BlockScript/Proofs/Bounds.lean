import BlockScript.Proofs.MachineLemmas
import BlockScript.Session

/-!
# Bounds do not matter

The bound on nesting and iteration can cut an evaluation short, but an
evaluation that ends within it ends the same way with every larger bound. So it
makes sense to say that a statement finishes, with no bound in sight.
-/

namespace BlockScript

namespace Eval

section

variable {σ α β : Type}

/-- Where `x` is not exhausted, `y` does the same. -/
def Settles (x y : Eval σ α) : Prop := ∀ w, (∃ w', x.run w = .error .exhausted w') ∨ y.run w = x.run w

theorem Settles.refl (x : Eval σ α) : Settles x x := fun _ => .inr rfl

theorem Settles.exhausted (y : Eval σ α) : Settles (throw .exhausted) y := fun w => .inl ⟨w, rfl⟩

theorem Settles.bind {x y : Eval σ α} {k l : α → Eval σ β} (hxy : Settles x y) (hkl : ∀ a, Settles (k a) (l a)) :
    Settles (x >>= k) (y >>= l) := by
  intro w
  rw [run_bind, run_bind]
  rcases hxy w with ⟨w', hx⟩ | hy
  · exact .inl ⟨w', by rw [hx]⟩
  · rw [hy]
    cases x.run w with
    | ok a w' => exact hkl a w'
    | error halt w' => exact .inr rfl

end

variable {σ : Type} {exprs exprs' : ExprEvaluator σ} {eval eval' : StmtEvaluator σ}

/-! ## Statements -/

theorem sequence_settles (h : ∀ stmt s, Settles (eval stmt s) (eval' stmt s)) (s : ScopeId) (last : Value)
    (body : Block) : Settles (sequence eval s last body) (sequence eval' s last body) := by
  induction body generalizing last with
  | nil => exact .refl _
  | cons stmt body ih => exact .bind (h stmt s) ih

theorem runIn_settles (h : ∀ stmt s, Settles (eval stmt s) (eval' stmt s)) (body : Block) (s : ScopeId) :
    Settles (runIn eval body s) (runIn eval' body s) :=
  .bind (.refl _) fun _ => .bind (.refl _) fun _ => sequence_settles h s .null body

theorem runBlock_settles (h : ∀ stmt s, Settles (eval stmt s) (eval' stmt s)) (body : Block) (s : ScopeId) :
    Settles (runBlock eval body s) (runBlock eval' body s) := .bind (.refl _) (runIn_settles h body)

theorem condition_settles (h : ∀ e s, Settles (exprs e s) (exprs' e s)) (construct : Construct) (check : Expr)
    (s : ScopeId) : Settles (condition exprs construct check s) (condition exprs' construct check s) :=
  .bind (h check s) fun _ => .refl _

theorem chooseBranch_settles (h : ∀ e s, Settles (exprs e s) (exprs' e s)) (s : ScopeId) (otherwise : Option Block)
    (arms : List (Expr × Block)) :
    Settles (chooseBranch exprs s otherwise arms) (chooseBranch exprs' s otherwise arms) := by
  induction arms with
  | nil => exact .refl _
  | cons arm arms ih =>
    refine .bind (condition_settles h .conditional arm.1 s) ?_
    intro b
    cases b with
    | true => exact .refl _
    | false => exact ih

theorem runBranch_settles (h : ∀ stmt s, Settles (eval stmt s) (eval' stmt s)) (branch : Option Block) (s : ScopeId) :
    Settles (runBranch eval branch s) (runBranch eval' branch s) := by
  cases branch with
  | none => exact .refl _
  | some body => exact .bind (runBlock_settles h body s) fun _ => .refl _

theorem invoke_settles (h : ∀ stmt s, Settles (eval stmt s) (eval' stmt s)) (f : Closure) (arguments : List Value) :
    Settles (invoke eval f arguments) (invoke eval' f arguments) := by
  unfold invoke
  split
  · exact .refl _
  · exact .bind (.refl _) fun s => .bind (.refl _) fun _ => .bind (.refl _) fun _ => .bind (.refl _) fun _ =>
      runIn_settles h f.body s

theorem initialValue_settles (h : ∀ e s, Settles (exprs e s) (exprs' e s)) (value : Option Expr) (s : ScopeId) :
    Settles (initialValue exprs value s) (initialValue exprs' value s) := by
  cases value with
  | none => exact .refl _
  | some e => exact h e s

theorem exec_settles (h : ∀ e s, Settles (exprs e s) (exprs' e s)) {bound bound' : Nat} (hb : bound ≤ bound')
    (stmt : Stmt) (s : ScopeId) : Settles (exec exprs bound stmt s) (exec exprs' bound' stmt s) := by
  induction bound generalizing bound' stmt s with
  | zero => exact .exhausted _
  | succ bound ih =>
    obtain ⟨bound', rfl⟩ : ∃ n, bound' = n + 1 := Nat.exists_eq_add_one.mpr (Nat.lt_of_lt_of_le (Nat.succ_pos _) hb)
    have heval : ∀ stmt s, Settles (exec exprs bound stmt s) (exec exprs' bound' stmt s) :=
      ih (Nat.le_of_succ_le_succ hb)
    cases stmt with
    | program body => exact runIn_settles heval body s
    | declare kind name value => exact .bind (initialValue_settles h value s) fun _ => .refl _
    | function name parameters body => exact .refl _
    | ifElse check body arms otherwise =>
      exact .bind (chooseBranch_settles h s otherwise _) fun branch => runBranch_settles heval branch s
    | whileLoop check body =>
      refine .bind (condition_settles h .loop check s) ?_
      intro b
      cases b with
      | false => exact .refl _
      | true => exact .bind (runBlock_settles heval body s) fun _ => heval (.whileLoop check body) s
    | expr e => exact h e s
    | missing => exact .refl _
    | foreign type => exact .refl _

/-! ## Expressions -/

theorem operand_settles (h : ∀ e s, Settles (exprs e s) (exprs' e s)) (op : LogicalOp) (e : Expr) (s : ScopeId) :
    Settles (operand exprs op e s) (operand exprs' op e s) := .bind (h e s) fun _ => .refl _

theorem logical_settles (h : ∀ e s, Settles (exprs e s) (exprs' e s)) (op : LogicalOp) (left right : Expr)
    (s : ScopeId) : Settles (logical exprs op left right s) (logical exprs' op left right s) := by
  refine .bind (operand_settles h op left s) ?_
  intro x
  split
  · exact .refl _
  · exact .bind (operand_settles h op right s) fun _ => .refl _

theorem evalAll_settles (h : ∀ e s, Settles (exprs e s) (exprs' e s)) (s : ScopeId) (es : List Expr) :
    Settles (evalAll exprs s es) (evalAll exprs' s es) := by
  induction es with
  | nil => exact .refl _
  | cons e es ih => exact .bind (h e s) fun _ => .bind ih fun _ => .refl _

theorem evalExpr_settles {bound bound' : Nat} (hb : bound ≤ bound') (e : Expr) (s : ScopeId) :
    Settles (evalExpr bound e s : Eval σ Value) (evalExpr bound' e s) := by
  induction bound generalizing bound' e s with
  | zero => exact .exhausted _
  | succ bound ih =>
    obtain ⟨bound', rfl⟩ : ∃ n, bound' = n + 1 := Nat.exists_eq_add_one.mpr (Nat.lt_of_lt_of_le (Nat.succ_pos _) hb)
    have hle := Nat.le_of_succ_le_succ hb
    have hexprs : ∀ e s, Settles (evalExpr bound e s : Eval σ Value) (evalExpr bound' e s) := ih hle
    cases e with
    | assign name value => exact .bind (hexprs value s) fun _ => .refl _
    | binary operator left right => exact .bind (hexprs left s) fun _ => .bind (hexprs right s) fun _ => .refl _
    | logical operator left right =>
      simp only [evalExpr]
      split
      · exact logical_settles hexprs _ left right s
      · exact .refl _
    | unary operator operand => exact .bind (hexprs operand s) fun _ => .refl _
    | call callee arguments =>
      refine .bind (hexprs callee s) fun f => .bind (evalAll_settles hexprs s arguments) fun values => ?_
      cases f with
      | function f => exact invoke_settles (exec_settles hexprs hle) f values
      | _ => exact .refl _
    | number _ | string _ | identifier _ | missing | foreign _ => exact .refl _

/-! ## Finished evaluations -/

/-- Under some bound, the statement ends with this value or error and leaves this world. -/
def Finishes (stmt : Stmt) (s : ScopeId) (w : World σ) (r : Except RuntimeError Value) (w' : World σ) : Prop :=
  ∃ bound, (evaluate bound stmt s).result w = (r.mapError .failed, w')

theorem Settles.result_eq {x y : Eval σ Value} (h : Settles x y) {w w' : World σ} {r : Except RuntimeError Value}
    (hx : x.result w = (r.mapError .failed, w')) : y.result w = (r.mapError .failed, w') := by
  rcases h w with ⟨w₁, hexhausted⟩ | hsame
  · -- then `r` would be exhausted, and it is not even able to say so
    unfold result at hx
    rw [hexhausted] at hx
    cases r <;> cases hx
  · rw [← hx]
    unfold result
    rw [hsame]

namespace Finishes

variable {stmt : Stmt} {s : ScopeId} {w w₁ w₂ : World σ} {r r' : Except RuntimeError Value}

theorem of_exec {depth bound : Nat} (h : (exec (evalExpr depth) bound stmt s).result w = (r.mapError .failed, w₁)) :
    Finishes stmt s w r w₁ :=
  ⟨max depth bound,
    (exec_settles (evalExpr_settles (Nat.le_max_left ..)) (Nat.le_max_right ..) stmt s).result_eq h⟩

theorem of_outcome {depth bound : Nat} (h : ((exec (evalExpr depth) bound stmt s).result w).1 = r.mapError .failed) :
    Finishes stmt s w r ((exec (evalExpr depth) bound stmt s).result w).2 := .of_exec (Prod.ext h rfl)

theorem exec_eq (h : Finishes stmt s w r w₁) :
    ∃ n, ∀ {depth bound}, n ≤ depth → n ≤ bound →
      (exec (evalExpr depth) bound stmt s).result w = (r.mapError .failed, w₁) := by
  obtain ⟨n, hn⟩ := h
  exact ⟨n, fun hd hb => (exec_settles (evalExpr_settles hd) hb stmt s).result_eq hn⟩

theorem unique (h : Finishes stmt s w r w₁) (h' : Finishes stmt s w r' w₂) : r' = r ∧ w₂ = w₁ := by
  obtain ⟨n, hn⟩ := h.exec_eq
  obtain ⟨m, hm⟩ := h'.exec_eq
  have heq := (hn (Nat.le_max_left n m) (Nat.le_max_left n m)).symm.trans
    (hm (Nat.le_max_right n m) (Nat.le_max_right n m))
  obtain ⟨hr, hw⟩ := Prod.mk.inj heq
  refine ⟨?_, hw.symm⟩
  cases r with
  | ok v =>
    cases r' with
    | ok v' => cases hr; rfl
    | error e' => cases hr
  | error e =>
    cases r' with
    | ok v' => cases hr
    | error e' => cases hr; rfl

end Finishes

end Eval

end BlockScript
