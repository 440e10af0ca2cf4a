import BlockScript.Proofs.Bounds
import BlockScript.Proofs.HollowScopes

/-!
# An else-if is an if inside an else

Written as a chain, all conditions are checked in the scope of the statement;
nested, the second one is checked in the scope of the else body, which declares
nothing. The two forms end alike, and what they leave behind differs by that
one scope.
-/

namespace BlockScript

/-! ## Adding a hollow scope -/

theorem Value.HeldBy.skip_eq {h : Store} {v : Value} (hv : v.HeldBy h) : v.skip h.size = v := by
  cases v with
  | function f =>
    obtain ⟨name, parameters, origin, body⟩ := f
    cases origin with
    | declaredIn s =>
      have hs : ScopeId.skip h.size s = s := ScopeId.skip_of_lt (hv s rfl)
      simp [Value.skip, Closure.skip, Origin.skip, hs]
    | supplied tag => rfl
  | _ => rfl

theorem Store.WellFormed.skips_add {h : Store} {s : ScopeId} (hw : h.WellFormed) (hs : s < h.size) :
    Skips h.size s h (h.add (.empty (some s))) where
  size_le := Nat.le_refl _
  size_eq := size_add ..
  hollow := by
    refine ⟨?_, hs, ?_⟩
    · rw [parent?_add, if_pos rfl]
      rfl
    · rw [names_add_empty, names, get?_eq_none (Nat.le_refl _)]
      rfl
  parent t := by
    refine .inl ?_
    rcases Nat.lt_or_ge t h.size with ht | ht
    · rw [ScopeId.skip_of_lt ht, parent?_add, if_neg (Nat.ne_of_lt ht)]
      cases hp : h.parent? t with
      | none => rfl
      | some p => rw [Option.map_some, ScopeId.skip_of_lt (Nat.lt_trans (hw.parent_lt hp) ht)]
    · have hnew : t + 1 ≠ h.size := Nat.ne_of_gt (Nat.lt_succ_of_le ht)
      rw [ScopeId.skip_of_le ht, parent?_add, if_neg hnew, parent?, parent?, get?_eq_none ht,
        get?_eq_none (Nat.le_succ_of_le ht)]
      rfl
  binding t name := by
    rw [binding?_add_empty]
    rcases Nat.lt_or_ge t h.size with ht | ht
    · rw [ScopeId.skip_of_lt ht]
      cases hb : h.binding? t name with
      | none => rfl
      | some b =>
        obtain ⟨v, constant⟩ := b
        rw [Option.map_some, Binding.skip, (hw.held hb).skip_eq]
    · rw [ScopeId.skip_of_le ht, binding?, binding?, get?_eq_none ht, get?_eq_none (Nat.le_succ_of_le ht)]
      rfl

/-! ## A condition inside a hollow scope -/

namespace Skipping

variable {σ τ : Type} {x s : ScopeId}

theorem chooseBranch_inside (depth : Nat) (otherwise : Option Block) (arms : List (Expr × Block)) :
    (coupling x s).Coupled () (fun _ branch branch' => branch' = branch)
      (Eval.chooseBranch (Eval.evalExpr depth) s otherwise arms : Eval σ (Option Block))
      (Eval.chooseBranch (Eval.evalExpr depth) x otherwise arms : Eval τ (Option Block)) := by
  intro w w' hw
  have hs : Past x s s := (ScopeId.skip_of_lt hw.hollow.older).symm
  have hcoupled := Coupling.chooseBranch_coupled (C := coupling x s) (Coupling.evalExpr_coupled (σ := σ) (τ := τ) depth)
    otherwise arms (m := ()) hs w w' hw
  have harms : (coupling x s).transcription.arms arms = arms := Transcription.arms_moved_id arms
  have hotherwise : (coupling x s).transcription.otherwise otherwise = otherwise :=
    Transcription.otherwise_moved_id otherwise
  rw [harms, hotherwise] at hcoupled
  rw [Hollow.chooseBranch_eq (Discipline.evalExpr_sound depth) (Hollow.evalExpr_ignores depth) otherwise arms hw.hollow]
  revert hcoupled
  generalize (Eval.chooseBranch (Eval.evalExpr depth) s otherwise arms : Eval σ (Option Block)).run w = r
  generalize (Eval.chooseBranch (Eval.evalExpr depth) s otherwise arms : Eval τ (Option Block)).run w' = r'
  intro hcoupled
  cases hcoupled with
  | error hg hstore => exact .error hg hstore
  | @ok _ branch _ _ _ hg hstore hbranch =>
    refine .ok hg hstore ?_
    rw [hbranch]
    cases branch with
    | none => rfl
    | some body => exact congrArg some (Transcription.block_moved_id body)

theorem newScope_inside :
    (coupling x s).Coupled () (coupling x s).scope (Eval.newScope (some s) : Eval σ ScopeId)
      (Eval.newScope (some x) : Eval τ ScopeId) := by
  intro w w' hw
  exact .ok (n := ()) trivial (hw.add (.inr ⟨rfl, rfl⟩)) (hw.size_eq.trans (ScopeId.skip_of_le hw.size_le).symm)

theorem runBranch_inside {eval : StmtEvaluator σ} {eval' : StmtEvaluator τ}
    (heval : (coupling x s).StmtCoupled eval eval') (branch : Option Block) :
    (coupling x s).Coupled () (coupling x s).values (Eval.runBranch eval branch s) (Eval.runBranch eval' branch x) := by
  cases branch with
  | none => exact .pure Coupling.values_null
  | some body =>
    have hbody : (coupling x s).transcription.block body = body := Transcription.block_moved_id body
    have hblock : (coupling x s).Coupled () (coupling x s).values (Eval.runBlock eval body s)
        (Eval.runBlock eval' body x) := by
      refine .bind newScope_inside ?_
      intro _ t t' _ ht
      have hrun := Coupling.runIn_coupled heval ht body
      rwa [hbody] at hrun
    exact .bind hblock fun _ _ => .pure Coupling.values_null

theorem ifElse_inside (depth bound : Nat) (check : Expr) (body : Block) (arms : List (Expr × Block))
    (otherwise : Option Block) :
    Alike x s (Eval.exec (Eval.evalExpr depth) (bound + 1) (.ifElse check body arms otherwise) s : Eval σ Value)
      (Eval.exec (Eval.evalExpr depth) (bound + 1) (.ifElse check body arms otherwise) x : Eval τ Value) := by
  refine alike_of_coupled (.bind (chooseBranch_inside depth otherwise ((check, body) :: arms)) ?_)
  intro _ branch _ _ hbranch
  cases hbranch
  exact runBranch_inside (Coupling.exec_coupled (Coupling.evalExpr_coupled depth) bound) branch

end Skipping

/-! ## The two forms -/

namespace Eval

variable {σ : Type} {exprs : ExprEvaluator σ}

theorem run_ifElse (bound : Nat) (check : Expr) (body : Block) (arms : List (Expr × Block)) (otherwise : Option Block)
    (s : ScopeId) (w : World σ) :
    (exec exprs (bound + 1) (.ifElse check body arms otherwise) s).run w =
      match (condition exprs .conditional check s).run w with
      | .error halt w₁ => .error halt w₁
      | .ok true w₁ => (runBranch (exec exprs bound) (some body) s).run w₁
      | .ok false w₁ =>
        (do runBranch (exec exprs bound) (← chooseBranch exprs s otherwise arms) s : Eval σ Value).run w₁ := by
  rw [exec, chooseBranch, run_bind, run_bind]
  cases (condition exprs .conditional check s).run w with
  | error halt w₁ => rfl
  | ok b w₁ => cases b <;> simp only [run_bind] <;> rfl

theorem result_ifElse_map (bound : Nat) (check : Expr) (body : Block) (arms : List (Expr × Block))
    (otherwise : Option Block) (s : ScopeId) (w : World σ) (f : Value → Value) (hf : f .null = .null) :
    ((exec exprs (bound + 1) (.ifElse check body arms otherwise) s).result w).1.map f =
      ((exec exprs (bound + 1) (.ifElse check body arms otherwise) s).result w).1 := by
  have hbranch : ∀ branch (w : World σ) v w', (runBranch (exec exprs bound) branch s).run w = .ok v w' → v = .null := by
    intro branch w v w' h
    cases branch with
    | none => cases h; rfl
    | some body =>
      rw [runBranch, run_bind] at h
      cases hrun : (runBlock (exec exprs bound) body s).run w with
      | error halt w₁ => rw [hrun] at h; cases h
      | ok u w₁ => rw [hrun] at h; cases h; rfl
  unfold result
  rw [exec, run_bind]
  cases (chooseBranch exprs s otherwise ((check, body) :: arms)).run w with
  | error halt w₁ => rfl
  | ok branch w₁ =>
    simp only []
    cases hrun : (runBranch (exec exprs bound) branch s).run w₁ with
    | error halt w₂ => rfl
    | ok v w₂ => rw [hbranch branch w₁ v w₂ hrun]; exact congrArg Except.ok hf

def entered (s : ScopeId) (w : World σ) : World σ :=
  let store := w.store.add (.empty (some s))
  { w with store, trace := w.trace.push (.enterBlock (store.depth w.store.size)) }

theorem result_runBranch_single (eval : StmtEvaluator σ) (stmt : Stmt) (s : ScopeId) (w : World σ) :
    (runBranch eval (some [stmt]) s).result w =
      (((eval stmt w.store.size).result (entered s w)).1.map (fun _ => .null),
        ((eval stmt w.store.size).result (entered s w)).2) := by
  have hblock : (runBlock eval [stmt] s).run w = (eval stmt w.store.size).run (entered s w) := by
    change (eval stmt w.store.size >>= fun v => pure v : Eval σ Value).run (entered s w) = _
    rw [run_bind]
    cases (eval stmt w.store.size).run (entered s w) <;> rfl
  unfold result
  rw [runBranch, run_bind, hblock]
  cases (eval stmt w.store.size).run (entered s w) <;> rfl

end Eval

namespace ElseIf

variable {σ : Type} (s : ScopeId) (check : Expr) (body : Block) (check' : Expr) (body' : Block)
  (arms : List (Expr × Block)) (otherwise : Option Block)

def chained : Stmt := .ifElse check body ((check', body') :: arms) otherwise

def nested : Stmt := .ifElse check body [] (some [.ifElse check' body' arms otherwise])

/-- How the stores differ that the two forms leave: not at all, or by a scope that did not exist before. -/
def Differ (h₀ h h' : Store) : Prop := h' = h ∨ ∃ x, h₀.size ≤ x ∧ Store.Skips x s h h'

variable {s}

theorem result_else {w w₁ : World σ} (hw : w.store.WellFormed) (hs : s < w.store.size) (depth bound : Nat)
    (hcheck : (Eval.condition (Eval.evalExpr depth) .conditional check s).run w = .ok false w₁) :
    let r := (Eval.exec (Eval.evalExpr depth) (bound + 1) (chained check body check' body' arms otherwise) s).result w
    let r' := (Eval.exec (Eval.evalExpr depth) (bound + 2) (nested check body check' body' arms otherwise) s).result w
    r'.1 = r.1 ∧ Differ s w.store r.2.store r'.2.store := by
  intro r r'
  have hsound : persistence.Ensures persistence.grows (Eval.condition (Eval.evalExpr depth) .conditional check s) w
      fun _ _ => True := Discipline.condition_sound (Discipline.evalExpr_sound depth) .conditional (Γ := ()) hw hs trivial
  unfold Discipline.Ensures at hsound
  rw [hcheck] at hsound
  obtain ⟨hw₁, hextends, -⟩ := hsound
  have hs₁ : s < w₁.store.size := Nat.lt_of_lt_of_le hs hextends.size_le
  let inner : Stmt := .ifElse check' body' arms otherwise
  have hr : r = (Eval.exec (Eval.evalExpr depth) (bound + 1) inner s).result w₁ := by
    change Eval.result _ _ = _
    unfold Eval.result
    rw [chained, Eval.run_ifElse, hcheck]
    rfl
  have hr' : r' = (Eval.runBranch (Eval.exec (Eval.evalExpr depth) (bound + 1)) (some [inner]) s).result w₁ := by
    change Eval.result _ _ = _
    unfold Eval.result
    rw [nested, Eval.run_ifElse, hcheck]
    rfl
  have halike := Skipping.ifElse_inside depth bound check' body' arms otherwise w₁ (Eval.entered s w₁)
    (hw₁.skips_add hs₁)
  rw [hr', hr, Eval.result_runBranch_single]
  refine ⟨?_, .inr ⟨w₁.store.size, hextends.size_le, halike.2⟩⟩
  rw [halike.1, Eval.result_ifElse_map _ _ _ _ _ _ _ _ rfl, Eval.result_ifElse_map _ _ _ _ _ _ _ _ rfl]

/-- Either the else is not reached, and the forms do the same under every bound, or it is, and the nested form needs a
bound that is larger by one. -/
theorem results_differ {w : World σ} (hw : w.store.WellFormed) (hs : s < w.store.size) (depth : Nat) :
    let run (bound : Nat) (stmt : Stmt) := (Eval.exec (Eval.evalExpr depth) bound stmt s).result w
    (∀ bound, run (bound + 1) (nested check body check' body' arms otherwise) =
      run (bound + 1) (chained check body check' body' arms otherwise)) ∨
    ∀ bound, (run (bound + 2) (nested check body check' body' arms otherwise)).1 =
        (run (bound + 1) (chained check body check' body' arms otherwise)).1 ∧
      Differ s w.store (run (bound + 1) (chained check body check' body' arms otherwise)).2.store
        (run (bound + 2) (nested check body check' body' arms otherwise)).2.store := by
  intro run
  cases hcheck : (Eval.condition (Eval.evalExpr depth) .conditional check s).run w with
  | error halt w₁ =>
    refine .inl fun bound => ?_
    simp only [run, chained, nested, Eval.result, Eval.run_ifElse, hcheck]
  | ok b w₁ =>
    cases b with
    | true =>
      refine .inl fun bound => ?_
      simp only [run, chained, nested, Eval.result, Eval.run_ifElse, hcheck]
    | false => exact .inr fun bound => result_else check body check' body' arms otherwise hw hs depth bound hcheck

theorem Differ.refl (h₀ h : Store) : Differ s h₀ h h := .inl rfl

theorem chained_of_nested {w w₂ : World σ} (hw : w.store.WellFormed) (hs : s < w.store.size)
    {r : Except RuntimeError Value} (h : Eval.Finishes (nested check body check' body' arms otherwise) s w r w₂) :
    ∃ w₁, Eval.Finishes (chained check body check' body' arms otherwise) s w r w₁ ∧
      Differ s w.store w₁.store w₂.store := by
  obtain ⟨n, hn⟩ := h.exec_eq
  have hnested := hn (Nat.le_refl n) (Nat.le_add_right n 2)
  rcases results_differ check body check' body' arms otherwise hw hs n with hsame | hdiffer
  · exact ⟨w₂, .of_exec ((hsame (n + 1)).symm.trans hnested), .refl _ _⟩
  · obtain ⟨hr, hstores⟩ := hdiffer n
    dsimp only at hr hstores
    rw [hnested] at hr hstores
    exact ⟨_, .of_outcome hr.symm, hstores⟩

theorem nested_of_chained {w w₁ : World σ} (hw : w.store.WellFormed) (hs : s < w.store.size)
    {r : Except RuntimeError Value} (h : Eval.Finishes (chained check body check' body' arms otherwise) s w r w₁) :
    ∃ w₂, Eval.Finishes (nested check body check' body' arms otherwise) s w r w₂ := by
  obtain ⟨n, hn⟩ := h.exec_eq
  have hchained := hn (Nat.le_refl n) (Nat.le_add_right n 1)
  rcases results_differ check body check' body' arms otherwise hw hs n with hsame | hdiffer
  · exact ⟨w₁, .of_exec ((hsame n).trans hchained)⟩
  · obtain ⟨hr, -⟩ := hdiffer n
    dsimp only at hr
    rw [hchained] at hr
    exact ⟨_, .of_outcome hr⟩

end ElseIf

/-- A condition with a further branch and the same with that branch nested in its else body: both finish or neither
does, and if they do, with the same value or error. The stores they leave are the same, or differ by the scope of the
else body, which did not exist before and binds nothing. From then on nothing that runs in corresponding scopes can
tell the two apart, and it leaves again such stores. -/
theorem elseIf_means_nested_if {σ : Type} (w : World σ) (s : ScopeId) (hw : w.store.WellFormed) (hs : s < w.store.size)
    (check : Expr) (body : Block) (check' : Expr) (body' : Block) (arms : List (Expr × Block))
    (otherwise : Option Block) :
    let chained : Stmt := .ifElse check body ((check', body') :: arms) otherwise
    let nested : Stmt := .ifElse check body [] (some [.ifElse check' body' arms otherwise])
    ((∃ r w', Eval.Finishes chained s w r w') ↔ ∃ r w', Eval.Finishes nested s w r w') ∧
    (∀ r r' w₁ w₂, Eval.Finishes chained s w r w₁ → Eval.Finishes nested s w r' w₂ →
      r' = r ∧ (w₂.store = w₁.store ∨ ∃ x, w.store.size ≤ x ∧ Store.Skips x s w₁.store w₂.store)) ∧
    ∀ x,
      (∀ bound stmt t, Skipping.Alike x s (Eval.evaluate bound stmt t : Eval σ Value)
        (Eval.evaluate bound stmt (ScopeId.skip x t) : Eval σ Value)) ∧
      (∀ bound f arguments, Skipping.Alike x s (Eval.invoke (Eval.evaluate bound) f arguments : Eval σ Value)
        (Eval.invoke (Eval.evaluate bound) (f.skip x) (arguments.map (Value.skip x)) : Eval σ Value)) ∧
      (∀ t name, Skipping.Alike x s (Eval.lookup t name : Eval σ Value)
        (Eval.lookup (ScopeId.skip x t) name : Eval σ Value)) ∧
      (∀ t name v, Skipping.Alike x s (Eval.assign t name v : Eval σ Value)
        (Eval.assign (ScopeId.skip x t) name (v.skip x) : Eval σ Value)) ∧
      ∀ t name v constant, Skipping.Alike x s (Eval.declare t name v constant : Eval σ Value)
        (Eval.declare (ScopeId.skip x t) name (v.skip x) constant : Eval σ Value) := by
  intro chained nested
  refine ⟨⟨?_, ?_⟩, ?_, ?_⟩
  · rintro ⟨r, w₁, h⟩
    exact ⟨r, ElseIf.nested_of_chained check body check' body' arms otherwise hw hs h⟩
  · rintro ⟨r, w₂, h⟩
    obtain ⟨w₁, h, -⟩ := ElseIf.chained_of_nested check body check' body' arms otherwise hw hs h
    exact ⟨r, w₁, h⟩
  · intro r r' w₁ w₂ hchained hnested
    obtain ⟨w₁', h, hdiffer⟩ := ElseIf.chained_of_nested check body check' body' arms otherwise hw hs hnested
    obtain ⟨rfl, rfl⟩ := hchained.unique h
    exact ⟨rfl, hdiffer⟩
  · intro x
    exact ⟨Skipping.evaluate_alike x s, Skipping.invoke_alike x s, Skipping.lookup_alike x s, Skipping.assign_alike x s,
      Skipping.declare_alike x s⟩

namespace ElseIf

def g : Name := ascii "g"

def oneVariable : World Unit := ⟨Store.initial.bind globalScope g ⟨.null, false⟩, #[], ()⟩

def handsOver : Block :=
  [.function (ascii "f") [] [.expr (.assign g (.identifier (ascii "f")))], .expr (.assign g (.identifier (ascii "f")))]

theorem finishes_of_ok (bound : Nat) (stmt : Stmt) (w : World Unit)
    (h : ((Eval.evaluate bound stmt globalScope).result w).1.map (fun _ => ()) = .ok ()) :
    ∃ v, Eval.Finishes stmt globalScope w (.ok v) ((Eval.evaluate bound stmt globalScope).result w).2 := by
  cases hrun : ((Eval.evaluate bound stmt globalScope).result w).1 with
  | ok v => exact ⟨v, bound, Prod.ext hrun rfl⟩
  | error halt =>
    rw [hrun] at h
    cases h

theorem nested_handsOver :
    oneVariable.store.WellFormed ∧ globalScope < oneVariable.store.size ∧
    ∃ r w₁ w₂ x,
      Eval.Finishes (.ifElse (.identifier (ascii "false")) [] [(.identifier (ascii "true"), handsOver)] none)
        globalScope oneVariable r w₁ ∧
      Eval.Finishes (.ifElse (.identifier (ascii "false")) []
        [] (some [.ifElse (.identifier (ascii "true")) handsOver [] none])) globalScope oneVariable r w₂ ∧
      Store.Skips x globalScope w₁.store w₂.store ∧
      ((Eval.evaluate 9 (.expr (.call (.identifier g) [])) (ScopeId.skip x globalScope)).result w₂).1 =
        ((Eval.evaluate 9 (.expr (.call (.identifier g) [])) globalScope).result w₁).1.map (Value.skip x) := by
  have hw : oneVariable.store.WellFormed := Store.WellFormed.initial.bind _ _ (.of_plain rfl)
  have hs : globalScope < oneVariable.store.size := by decide
  obtain ⟨-, hfinish, hlater⟩ := elseIf_means_nested_if oneVariable globalScope hw hs (.identifier (ascii "false")) []
    (.identifier (ascii "true")) handsOver [] none
  obtain ⟨v, hchained⟩ := finishes_of_ok 9
    (.ifElse (.identifier (ascii "false")) [] [(.identifier (ascii "true"), handsOver)] none) oneVariable
    (by decide +kernel)
  obtain ⟨v', hnested⟩ := finishes_of_ok 9
    (.ifElse (.identifier (ascii "false")) [] [] (some [.ifElse (.identifier (ascii "true")) handsOver [] none]))
    oneVariable (by decide +kernel)
  obtain ⟨hr, hsame | ⟨x, -, hskips⟩⟩ := hfinish _ _ _ _ hchained hnested
  · have hsize := congrArg Store.size hsame
    exact absurd hsize (by decide +kernel)
  · rw [hr] at hnested
    exact ⟨hw, hs, _, _, _, x, hchained, hnested, hskips, ((hlater x).1 9 _ globalScope _ _ hskips).1⟩

end ElseIf

end BlockScript
