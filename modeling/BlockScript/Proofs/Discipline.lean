import BlockScript.Proofs.MachineLemmas

/-!
# Disciplines of evaluation

Many facts about evaluation have the same shape: a store keeps an invariant
and changes only in certain ways, scopes and values have a property that no
change takes away, and only certain errors come up, because the syntax that
runs was checked against what is known of the scope it runs in. A discipline
is such a fact with its assumptions about single operations. `evaluate_sound`
carries it through whole evaluations, successful or not.
-/

namespace BlockScript

structure Statics where
  Context : Type
  /-- What is known of a new scope nested in one that `Γ` describes. -/
  inner : Context → Context
  declared : Context → Name → Context
  expr : Context → Expr → Prop
  stmt : Context → Stmt → Prop

namespace Statics

variable (S : Statics)

mutual

def after : S.Context → Stmt → S.Context
  | Γ, .declare _ name _ => S.declared Γ name
  | Γ, .function name _ _ => S.declared Γ name
  | Γ, .program body => afterAll Γ body
  | Γ, _ => Γ

def afterAll : S.Context → List Stmt → S.Context
  | Γ, [] => Γ
  | Γ, stmt :: rest => afterAll (after Γ stmt) rest

end

/-- Every statement is checked against what is known once those in front of it have run. -/
def block : S.Context → List Stmt → Prop
  | _, [] => True
  | Γ, stmt :: rest => S.stmt Γ stmt ∧ block (S.after Γ stmt) rest

theorem block_of_forall (hs : ∀ Γ stmt, S.stmt Γ stmt) (Γ : S.Context) (body : List Stmt) : S.block Γ body := by
  induction body generalizing Γ with
  | nil => trivial
  | cons stmt body ih => exact ⟨hs Γ stmt, ih _⟩

theorem afterAll_nil (Γ : S.Context) : S.afterAll Γ [] = Γ := by simp only [afterAll]

mutual

theorem after_eq (hS : ∀ Γ name, S.declared Γ name = Γ) (Γ : S.Context) : ∀ stmt : Stmt, S.after Γ stmt = Γ
  | .program body => by rw [after, afterAll_eq hS Γ body]
  | .declare _ name _ | .function name _ _ => by rw [after, hS Γ name]
  | .ifElse .. | .whileLoop .. | .expr _ | .missing | .foreign _ => by simp [after]

theorem afterAll_eq (hS : ∀ Γ name, S.declared Γ name = Γ) (Γ : S.Context) : ∀ body : List Stmt, S.afterAll Γ body = Γ
  | [] => by rw [afterAll]
  | stmt :: rest => by rw [afterAll, after_eq hS Γ stmt, afterAll_eq hS Γ rest]

end

theorem block_of_mem (hS : ∀ Γ name, S.declared Γ name = Γ) {Γ : S.Context} {body : List Stmt}
    (h : ∀ stmt ∈ body, S.stmt Γ stmt) : S.block Γ body := by
  induction body with
  | nil => trivial
  | cons stmt body ih =>
    refine ⟨h stmt List.mem_cons_self, ?_⟩
    rw [S.after_eq hS]
    exact ih fun s hs => h s (List.mem_cons_of_mem _ hs)

theorem block_append (Γ : S.Context) (a b : List Stmt) :
    S.block Γ (a ++ b) ↔ S.block Γ a ∧ S.block (S.afterAll Γ a) b := by
  induction a generalizing Γ with
  | nil => simp [block, afterAll]
  | cons stmt a ih => simp [block, afterAll, ih, and_assoc]

end Statics

def Stmt.opensScope : Stmt → Bool
  | .ifElse .. | .whileLoop .. => true
  | _ => false

/-- A parameter is a variable that the call declares. -/
def Closure.declarations (f : Closure) : List Stmt := f.parameters.map fun name => .declare .var name none

structure Discipline extends Statics where
  inv : Store → Prop
  value : Store → Value → Prop
  scope : Store → ScopeId → Context → Prop
  grows : Store → Store → Prop
  growsIn : ScopeId → Store → Store → Prop
  stops : RuntimeError → Prop
  /-- Whether scopes may be nested in one that `Γ` describes, other than by calls. -/
  opens : Context → Prop := fun _ => True
  -- how the parts of a checked tree are checked
  expr_assign {Γ name e} : expr Γ (.assign name e) → expr Γ e
  expr_binary {Γ t l r} : expr Γ (.binary t l r) → expr Γ l ∧ expr Γ r
  expr_logical {Γ t l r} : expr Γ (.logical t l r) → expr Γ l ∧ expr Γ r
  expr_unary {Γ t e} : expr Γ (.unary t e) → expr Γ e
  expr_call {Γ callee arguments} : expr Γ (.call callee arguments) → expr Γ callee ∧ ∀ e ∈ arguments, expr Γ e
  stmt_program {Γ body} : stmt Γ (.program body) → toStatics.block Γ body
  stmt_declare {Γ kind name e} : stmt Γ (.declare kind name (some e)) → expr Γ e
  stmt_ifElse {Γ check body arms otherwise} : stmt Γ (.ifElse check body arms otherwise) →
    (∀ arm ∈ (check, body) :: arms, expr Γ arm.1 ∧ toStatics.block (inner Γ) arm.2) ∧
      ∀ rest, otherwise = some rest → toStatics.block (inner Γ) rest
  stmt_while {Γ check body} : stmt Γ (.whileLoop check body) → expr Γ check ∧ toStatics.block (inner Γ) body
  stmt_expr {Γ e} : stmt Γ (.expr e) → expr Γ e
  stmt_opens {Γ s} : stmt Γ s → s.opensScope = true → opens Γ := by exact fun _ _ => trivial
  -- change is gradual, and what is known stays known
  grows_refl h : grows h h
  grows_trans {h₁ h₂ h₃} : grows h₁ h₂ → grows h₂ h₃ → grows h₁ h₃
  growsIn_of_grows {s h h'} : grows h h' → growsIn s h h'
  growsIn_trans {s h₁ h₂ h₃} : growsIn s h₁ h₂ → growsIn s h₂ h₃ → growsIn s h₁ h₃
  scope_mono {h h' s Γ} : grows h h' → scope h s Γ → scope h' s Γ
  value_mono {s h h' v} : growsIn s h h' → value h v → value h' v
  value_plain {h v} : v.isPlain = true → value h v
  -- the operations on scopes
  enter {h s Γ} : inv h → scope h s Γ → opens Γ →
    inv (h.add (.empty (some s))) ∧ scope (h.add (.empty (some s))) h.size (inner Γ)
  leave {h parent h'} : growsIn h.size (h.add (.empty parent)) h' → grows h h'
  call {h f} : inv h → value h (.function f) → inv (h.add (.empty f.scope?)) ∧
    ∃ Γ, scope (h.add (.empty f.scope?)) h.size Γ ∧ toStatics.block Γ (f.declarations ++ f.body)
  lookup {h s Γ name} : inv h → scope h s Γ → expr Γ (.identifier name) →
    match h.lookup s name with
    | .ok v => value h v
    | .error e => stops e
  assign {h s Γ name e v} : inv h → scope h s Γ → expr Γ (.assign name e) → value h v →
    match h.assignable s name with
    | .ok t => inv (h.overwrite t name v) ∧ grows h (h.overwrite t name v)
    | .error e => stops e
  declare {h s Γ kind name e v} : inv h → scope h s Γ → stmt Γ (.declare kind name e) → value h v →
    match h.declarable s name with
    | .ok () => inv (h.bind s name ⟨v, kind.isConstant⟩) ∧ growsIn s h (h.bind s name ⟨v, kind.isConstant⟩) ∧
        scope (h.bind s name ⟨v, kind.isConstant⟩) s (declared Γ name)
    | .error e => stops e
  function {h s Γ name parameters body} : inv h → scope h s Γ → stmt Γ (.function name parameters body) →
    let v := Value.function ⟨name, parameters, .declaredIn s, body⟩
    match h.declarable s name with
    | .ok () => inv (h.bind s name ⟨v, true⟩) ∧ growsIn s h (h.bind s name ⟨v, true⟩) ∧
        scope (h.bind s name ⟨v, true⟩) s (declared Γ name) ∧ value (h.bind s name ⟨v, true⟩) v
    | .error e => stops e
  -- the errors of the evaluator itself
  stops_condition {h construct v} : value h v → v.type ≠ .boolean → stops (.typeMismatch (.condition construct v.type))
  stops_operand {h op v} : value h v → v.type ≠ .boolean → stops (.typeMismatch (.logical op v.type))
  stops_callee {h v} : value h v → v.type ≠ .function → stops (.typeMismatch (.notCallable v.type))
  stops_arity name expected got : stops (.wrongArgumentCount name expected got)
  stops_binary {h Γ t l r x y e} : expr Γ (.binary t l r) → value h x → value h y →
    Operator.applyBinary t.lexeme x y = .error e → stops e
  stops_unary {h Γ t l x e} : expr Γ (.unary t l) → value h x → Operator.applyUnary t.lexeme x = .error e → stops e
  stops_logical {Γ t l r} : expr Γ (.logical t l r) → LogicalOp.ofLexeme? t.lexeme = none →
    stops (.typeMismatch (.unknownLogical t.lexeme))
  stops_missing {Γ} : expr Γ .missing ∨ stmt Γ .missing → stops (.unsupportedStatement missingText)
  stops_foreign {Γ type} : expr Γ (.foreign type) ∨ stmt Γ (.foreign type) →
    stops (.unsupportedStatement (bracketed type))

namespace Discipline

variable (D : Discipline) {σ α β : Type} {rel : Store → Store → Prop} {w : World σ}

/-! ## Keeping to a discipline -/

/-- Run in `w`, the evaluation `m` keeps to the discipline, and `post` holds of its value if it has one. -/
def Ensures (rel : Store → Store → Prop) (m : Eval σ α) (w : World σ) (post : α → Store → Prop) : Prop :=
  match m.run w with
  | .ok a w' => D.inv w'.store ∧ rel w.store w'.store ∧ post a w'.store
  | .error halt w' => D.inv w'.store ∧ rel w.store w'.store ∧ ∀ e, halt = .failed e → D.stops e

variable {D} {m : Eval σ α} {k : α → Eval σ β} {P : α → Store → Prop} {Q : β → Store → Prop}

theorem Ensures.pure {a : α} (hi : D.inv w.store) (hr : rel w.store w.store) (hp : P a w.store) :
    D.Ensures rel (Pure.pure a) w P := ⟨hi, hr, hp⟩

theorem Ensures.fail {e : RuntimeError} (hi : D.inv w.store) (hr : rel w.store w.store) (he : D.stops e) :
    D.Ensures rel (Eval.fail e) w P := by
  refine ⟨hi, hr, ?_⟩
  intro e' h
  cases h
  exact he

theorem Ensures.exhausted (hi : D.inv w.store) (hr : rel w.store w.store) :
    D.Ensures rel (throw .exhausted) w P := by
  refine ⟨hi, hr, ?_⟩
  intro e h
  cases h

theorem Ensures.bind (htrans : ∀ {h₁ h₂ h₃}, rel h₁ h₂ → rel h₂ h₃ → rel h₁ h₃) (hm : D.Ensures rel m w P)
    (hk : ∀ a w', D.inv w'.store → rel w.store w'.store → P a w'.store → D.Ensures rel (k a) w' Q) :
    D.Ensures rel (m >>= k) w Q := by
  unfold Ensures at hm ⊢
  rw [Eval.run_bind]
  cases hrun : m.run w with
  | error halt w' => simpa only [hrun] using hm
  | ok a w' =>
    simp only [hrun] at hm
    obtain ⟨hi, hr, hp⟩ := hm
    have := hk a w' hi hr hp
    unfold Ensures at this
    simp only []
    cases hrun' : (k a).run w' with
    | error halt w'' =>
      simp only [hrun'] at this
      exact ⟨this.1, htrans hr this.2.1, this.2.2⟩
    | ok b w'' =>
      simp only [hrun'] at this
      exact ⟨this.1, htrans hr this.2.1, this.2.2⟩

theorem Ensures.mono {rel' : Store → Store → Prop} {P' : α → Store → Prop} (hm : D.Ensures rel m w P)
    (hrel : ∀ h, rel w.store h → rel' w.store h) (hpost : ∀ a h, D.inv h → rel w.store h → P a h → P' a h) :
    D.Ensures rel' m w P' := by
  unfold Ensures at hm ⊢
  cases hrun : m.run w with
  | error halt w' =>
    simp only [hrun] at hm
    exact ⟨hm.1, hrel _ hm.2.1, hm.2.2⟩
  | ok a w' =>
    simp only [hrun] at hm
    exact ⟨hm.1, hrel _ hm.2.1, hpost a _ hm.1 hm.2.1 hm.2.2⟩

/-- What runs in a scope of its own is, seen from outside, like an expression. -/
theorem Ensures.enclosed {parent : Option ScopeId} {k : ScopeId → Eval σ β}
    (hk : D.Ensures (D.growsIn w.store.size) (k w.store.size)
      { w with store := w.store.add (.empty parent) } Q) :
    D.Ensures D.grows (Eval.newScope parent >>= k) w Q := by
  unfold Ensures at hk ⊢
  change match (k w.store.size).run { w with store := w.store.add (.empty parent) } with
    | .ok a w' => _ | .error halt w' => _
  cases hrun : (k w.store.size).run { w with store := w.store.add (.empty parent) } with
  | error halt w' =>
    simp only [hrun] at hk
    exact ⟨hk.1, D.leave hk.2.1, hk.2.2⟩
  | ok a w' =>
    simp only [hrun] at hk
    exact ⟨hk.1, D.leave hk.2.1, hk.2.2⟩

variable (D)

def ExprSound (exprs : ExprEvaluator σ) : Prop :=
  ∀ Γ e s (w : World σ), D.inv w.store → D.scope w.store s Γ → D.expr Γ e →
    D.Ensures D.grows (exprs e s) w fun v h => D.value h v

def StmtSound (eval : StmtEvaluator σ) : Prop :=
  ∀ Γ stmt s (w : World σ), D.inv w.store → D.scope w.store s Γ → D.stmt Γ stmt →
    D.Ensures (D.growsIn s) (eval stmt s) w fun v h => D.value h v ∧ D.scope h s (D.after Γ stmt)

/-! ## Statements -/

section

variable {D} {exprs : ExprEvaluator σ} {eval : StmtEvaluator σ} {s : ScopeId} {Γ : D.Context}

theorem value_null {h : Store} : D.value h .null := D.value_plain rfl

theorem sequence_sound (heval : D.StmtSound eval) (body : Block) (hi : D.inv w.store) (hs : D.scope w.store s Γ)
    (hb : D.block Γ body) {last : Value} (hl : D.value w.store last) :
    D.Ensures (D.growsIn s) (Eval.sequence eval s last body) w fun v h =>
      D.value h v ∧ D.scope h s (D.afterAll Γ body) := by
  induction body generalizing w Γ last with
  | nil => exact .pure hi (D.growsIn_of_grows (D.grows_refl _)) ⟨hl, hs⟩
  | cons stmt rest ih =>
    refine .bind D.growsIn_trans (heval Γ stmt s w hi hs hb.1) ?_
    intro v w' hi' _ hv
    exact ih hi' hv.2 hb.2 hv.1

theorem runIn_sound (heval : D.StmtSound eval) (body : Block) (hi : D.inv w.store) (hs : D.scope w.store s Γ)
    (hb : D.block Γ body) :
    D.Ensures (D.growsIn s) (Eval.runIn eval body s) w fun v h =>
      D.value h v ∧ D.scope h s (D.afterAll Γ body) :=
  -- the record of the block is all that comes before its statements
  sequence_sound (w := { w with trace := w.trace.push (.enterBlock (w.store.depth s)) }) heval body hi hs hb value_null

theorem runBlock_sound (heval : D.StmtSound eval) (body : Block) (hi : D.inv w.store) (hs : D.scope w.store s Γ)
    (hb : D.block (D.inner Γ) body) (ho : D.opens Γ := by trivial) :
    D.Ensures D.grows (Eval.runBlock eval body s) w fun v h => D.value h v := by
  obtain ⟨hi', hs'⟩ := D.enter hi hs ho
  exact .enclosed ((runIn_sound heval body hi' hs' hb).mono (fun _ h => h) fun _ _ _ _ hv => hv.1)

theorem condition_sound (hexprs : D.ExprSound exprs) (construct : Construct) {check : Expr} (hi : D.inv w.store)
    (hs : D.scope w.store s Γ) (hc : D.expr Γ check) :
    D.Ensures D.grows (Eval.condition exprs construct check s) w fun _ _ => True := by
  refine .bind D.grows_trans (hexprs Γ check s w hi hs hc) ?_
  intro v w' hi' _ hv
  cases v with
  | boolean b => exact .pure hi' (D.grows_refl _) trivial
  | _ => exact .fail hi' (D.grows_refl _) (D.stops_condition hv (by simp [Value.type]))

theorem chooseBranch_sound (hexprs : D.ExprSound exprs) {otherwise : Option Block}
    (ho : ∀ body, otherwise = some body → D.block (D.inner Γ) body) (arms : List (Expr × Block))
    (ha : ∀ arm ∈ arms, D.expr Γ arm.1 ∧ D.block (D.inner Γ) arm.2) (hi : D.inv w.store) (hs : D.scope w.store s Γ) :
    D.Ensures D.grows (Eval.chooseBranch exprs s otherwise arms) w fun branch _ =>
      ∀ body, branch = some body → D.block (D.inner Γ) body := by
  induction arms generalizing w with
  | nil => exact .pure hi (D.grows_refl _) ho
  | cons arm arms ih =>
    obtain ⟨hcheck, hbody⟩ := ha arm List.mem_cons_self
    refine .bind D.grows_trans (condition_sound hexprs .conditional hi hs hcheck) ?_
    intro b w' hi' hg _
    cases b with
    | true =>
      refine .pure hi' (D.grows_refl _) ?_
      intro body h
      cases h
      exact hbody
    | false => exact ih (fun arm h => ha arm (List.mem_cons_of_mem _ h)) hi' (D.scope_mono hg hs)

theorem runBranch_sound (heval : D.StmtSound eval) {branch : Option Block} (hi : D.inv w.store)
    (hs : D.scope w.store s Γ) (hb : ∀ body, branch = some body → D.block (D.inner Γ) body) (ho : D.opens Γ) :
    D.Ensures D.grows (Eval.runBranch eval branch s) w fun v h => D.value h v := by
  cases branch with
  | none => exact .pure hi (D.grows_refl _) value_null
  | some body =>
    refine .bind D.grows_trans (runBlock_sound heval body hi hs (hb body rfl) ho) ?_
    intro _ w' hi' _ _
    exact .pure hi' (D.grows_refl _) value_null

theorem declare_sound (kind : DeclKind) {name : Name} {e : Option Expr} {v : Value} (hi : D.inv w.store)
    (hs : D.scope w.store s Γ) (hstmt : D.stmt Γ (.declare kind name e)) (hv : D.value w.store v) :
    D.Ensures (D.growsIn s) (Eval.declare s name v kind.isConstant) w fun v h =>
      D.value h v ∧ D.scope h s (D.declared Γ name) := by
  have hd := D.declare hi hs hstmt hv
  unfold Ensures
  rw [Eval.run_declare]
  cases hrun : w.store.declarable s name with
  | error e =>
    simp only [hrun] at hd ⊢
    refine ⟨hi, D.growsIn_of_grows (D.grows_refl _), ?_⟩
    intro e' h
    cases h
    exact hd
  | ok _ =>
    simp only [hrun] at hd
    obtain ⟨hi', hg, hs'⟩ := hd
    exact ⟨hi', hg, D.value_mono hg hv, hs'⟩

theorem bindAll_sound (names : List Name) (values : List Value) (hlen : values.length = names.length)
    (hi : D.inv w.store) (hs : D.scope w.store s Γ)
    (hb : D.block Γ (names.map fun name => .declare .var name none)) (hv : ∀ v ∈ values, D.value w.store v) :
    D.Ensures (D.growsIn s) (Eval.bindAll s (names.zip values)) w fun _ h =>
      D.scope h s (D.afterAll Γ (names.map fun name => .declare .var name none)) := by
  induction names generalizing values w Γ with
  | nil => exact .pure hi (D.growsIn_of_grows (D.grows_refl _)) hs
  | cons name names ih =>
    cases values with
    | nil => cases hlen
    | cons v values =>
      refine .bind D.growsIn_trans (declare_sound .var hi hs hb.1 (hv v List.mem_cons_self)) ?_
      intro _ w' hi' hg hs'
      refine ih values (Nat.succ.inj hlen) hi' hs'.2 hb.2 ?_
      intro u hu
      exact D.value_mono hg (hv u (List.mem_cons_of_mem _ hu))

theorem invoke_sound (heval : D.StmtSound eval) {f : Closure} {arguments : List Value} (hi : D.inv w.store)
    (hf : D.value w.store (.function f)) (ha : ∀ v ∈ arguments, D.value w.store v) :
    D.Ensures D.grows (Eval.invoke eval f arguments) w fun v h => D.value h v := by
  unfold Eval.invoke
  split
  · exact .fail hi (D.grows_refl _) (D.stops_arity ..)
  · rename_i hlen
    obtain ⟨hi', Γ, hs, hb⟩ := D.call hi hf
    obtain ⟨hparams, hbody⟩ := (D.block_append Γ _ _).mp hb
    -- the scope of the call is new, so the arguments are still what they were
    have hgrow : D.growsIn w.store.size w.store (w.store.add (.empty f.scope?)) :=
      D.growsIn_of_grows (D.leave (D.growsIn_of_grows (D.grows_refl _)))
    refine .enclosed (.bind D.growsIn_trans (bindAll_sound (w := { w with store := w.store.add (.empty f.scope?) })
      f.parameters arguments (Decidable.not_not.mp hlen) hi' hs hparams fun v hv => D.value_mono hgrow (ha v hv)) ?_)
    intro _ w' hi'' _ hs'
    exact (runIn_sound (w := { w' with trace := w'.trace.push (.call f.name (w'.store.depth w.store.size)) })
      heval f.body hi'' hs' hbody).mono (fun _ h => h) fun _ _ _ _ hv => hv.1

theorem initialValue_sound (hexprs : D.ExprSound exprs) (value : Option Expr) (hi : D.inv w.store)
    (hs : D.scope w.store s Γ) (he : ∀ e, value = some e → D.expr Γ e) :
    D.Ensures D.grows (Eval.initialValue exprs value s) w fun v h => D.value h v := by
  cases value with
  | none => exact .pure hi (D.grows_refl _) value_null
  | some e => exact hexprs Γ e s w hi hs (he e rfl)

theorem function_sound {name : Name} {parameters : List Name} {body : Block} (hi : D.inv w.store)
    (hs : D.scope w.store s Γ) (hstmt : D.stmt Γ (.function name parameters body)) :
    D.Ensures (D.growsIn s) (Eval.declare s name (.function ⟨name, parameters, .declaredIn s, body⟩) true) w
      fun v h => D.value h v ∧ D.scope h s (D.declared Γ name) := by
  have hd := D.function hi hs hstmt
  unfold Ensures
  rw [Eval.run_declare]
  cases hrun : w.store.declarable s name with
  | error e =>
    simp only [hrun] at hd ⊢
    refine ⟨hi, D.growsIn_of_grows (D.grows_refl _), ?_⟩
    intro e' h
    cases h
    exact hd
  | ok _ =>
    simp only [hrun] at hd
    obtain ⟨hi', hg, hs', hv⟩ := hd
    exact ⟨hi', hg, hv, hs'⟩

theorem Ensures.asStatement {m : Eval σ Value} (hs : D.scope w.store s Γ)
    (hm : D.Ensures D.grows m w fun v h => D.value h v) :
    D.Ensures (D.growsIn s) m w fun v h => D.value h v ∧ D.scope h s Γ :=
  hm.mono (fun _ => D.growsIn_of_grows) fun _ _ _ hg hv => ⟨hv, D.scope_mono hg hs⟩

theorem exec_sound (hexprs : D.ExprSound exprs) (bound : Nat) : D.StmtSound (Eval.exec exprs bound) := by
  induction bound with
  | zero =>
    intro Γ stmt s w hi _ _
    exact .exhausted hi (D.growsIn_of_grows (D.grows_refl _))
  | succ bound ih =>
    intro Γ stmt s w hi hs hstmt
    have here : D.growsIn s w.store w.store := D.growsIn_of_grows (D.grows_refl _)
    cases stmt with
    | program body => exact runIn_sound ih body hi hs (D.stmt_program hstmt)
    | declare kind name value =>
      refine .bind D.growsIn_trans
        ((initialValue_sound hexprs value hi hs fun e h => D.stmt_declare (h ▸ hstmt)).mono
          (fun _ => D.growsIn_of_grows) fun _ _ _ hg hv => And.intro hg hv) ?_
      intro v w' hi' _ hv
      exact declare_sound (w := { w' with trace := w'.trace.push (.declare name kind (w'.store.depth s)) }) kind hi'
        (D.scope_mono hv.1 hs) hstmt hv.2
    | function name parameters body =>
      exact function_sound (w := { w with trace := w.trace.push (.declareFunction name (w.store.depth s)) }) hi hs hstmt
    | ifElse check body arms otherwise =>
      obtain ⟨harms, hother⟩ := D.stmt_ifElse hstmt
      refine .asStatement hs (.bind D.grows_trans (chooseBranch_sound hexprs hother _ harms hi hs) ?_)
      intro branch w' hi' hg hb
      exact runBranch_sound ih hi' (D.scope_mono hg hs) hb (D.stmt_opens hstmt rfl)
    | whileLoop check body =>
      obtain ⟨hcheck, hbody⟩ := D.stmt_while hstmt
      refine .bind D.growsIn_trans ((condition_sound hexprs .loop hi hs hcheck).mono (fun _ => D.growsIn_of_grows)
        fun _ _ _ hg _ => D.scope_mono hg hs) ?_
      intro b w' hi' _ hs'
      cases b with
      | false => exact .pure hi' (D.growsIn_of_grows (D.grows_refl _)) ⟨value_null, hs'⟩
      | true =>
        refine .bind D.growsIn_trans (.asStatement hs' (runBlock_sound ih body hi' hs' hbody (D.stmt_opens hstmt rfl))) ?_
        intro _ w'' hi'' _ hv
        exact ih Γ (.whileLoop check body) s w'' hi'' hv.2 hstmt
    | expr e => exact .asStatement hs (hexprs Γ e s w hi hs (D.stmt_expr hstmt))
    | missing => exact .fail hi here (D.stops_missing (.inr hstmt))
    | foreign type => exact .fail hi here (D.stops_foreign (.inr hstmt))

/-! ## Expressions -/

theorem operand_sound (hexprs : D.ExprSound exprs) (op : LogicalOp) {e : Expr} (hi : D.inv w.store)
    (hs : D.scope w.store s Γ) (he : D.expr Γ e) :
    D.Ensures D.grows (Eval.operand exprs op e s) w fun _ _ => True := by
  refine .bind D.grows_trans (hexprs Γ e s w hi hs he) ?_
  intro v w' hi' _ hv
  cases v with
  | boolean b => exact .pure hi' (D.grows_refl _) trivial
  | _ => exact .fail hi' (D.grows_refl _) (D.stops_operand hv (by simp [Value.type]))

theorem logical_sound (hexprs : D.ExprSound exprs) (op : LogicalOp) {left right : Expr} (hi : D.inv w.store)
    (hs : D.scope w.store s Γ) (hl : D.expr Γ left) (hr : D.expr Γ right) :
    D.Ensures D.grows (Eval.logical exprs op left right s) w fun v h => D.value h v := by
  refine .bind D.grows_trans (operand_sound hexprs op hi hs hl) ?_
  intro x w' hi' hg _
  split
  · exact .pure hi' (D.grows_refl _) (D.value_plain rfl)
  · refine .bind D.grows_trans (operand_sound hexprs op hi' (D.scope_mono hg hs) hr) ?_
    intro y w'' hi'' _ _
    exact .pure hi'' (D.grows_refl _) (D.value_plain rfl)

theorem evalAll_sound (hexprs : D.ExprSound exprs) (es : List Expr) (hi : D.inv w.store) (hs : D.scope w.store s Γ)
    (he : ∀ e ∈ es, D.expr Γ e) :
    D.Ensures D.grows (Eval.evalAll exprs s es) w fun vs h => ∀ v ∈ vs, D.value h v := by
  induction es generalizing w with
  | nil => exact .pure hi (D.grows_refl _) fun v hv => by cases hv
  | cons e es ih =>
    refine .bind D.grows_trans (hexprs Γ e s w hi hs (he e List.mem_cons_self)) ?_
    intro v w' hi' hg hv
    refine .bind D.grows_trans ((ih hi' (D.scope_mono hg hs) fun e h => he e (List.mem_cons_of_mem _ h)).mono
      (fun _ h => h) fun vs h _ hg' hvs => And.intro hg' hvs) ?_
    intro vs w'' hi'' _ hvs
    refine .pure hi'' (D.grows_refl _) ?_
    intro u hu
    rcases List.mem_cons.mp hu with rfl | hu
    · exact D.value_mono (D.growsIn_of_grows (s := s) hvs.1) hv
    · exact hvs.2 u hu

theorem ofExcept_sound {r : Except RuntimeError Value} (hi : D.inv w.store)
    (hok : ∀ v, r = .ok v → v.isPlain = true) (herr : ∀ e, r = .error e → D.stops e) :
    D.Ensures D.grows (Eval.ofExcept r) w fun v h => D.value h v := by
  cases r with
  | ok v => exact .pure hi (D.grows_refl _) (D.value_plain (hok v rfl))
  | error e => exact .fail hi (D.grows_refl _) (herr e rfl)

theorem lookup_sound {name : Name} (hi : D.inv w.store) (hs : D.scope w.store s Γ)
    (he : D.expr Γ (.identifier name)) :
    D.Ensures D.grows (Eval.lookup s name) w fun v h => D.value h v := by
  have hl := D.lookup hi hs he
  unfold Ensures
  rw [Eval.run_lookup]
  cases hrun : w.store.lookup s name with
  | ok v =>
    simp only [hrun] at hl
    exact ⟨hi, D.grows_refl _, hl⟩
  | error e =>
    simp only [hrun] at hl
    refine ⟨hi, D.grows_refl _, ?_⟩
    intro e' h
    cases h
    exact hl

theorem assign_sound {name : Name} {e : Expr} {v : Value} (hi : D.inv w.store) (hs : D.scope w.store s Γ)
    (he : D.expr Γ (.assign name e)) (hv : D.value w.store v) :
    D.Ensures D.grows (Eval.assign s name v) w fun v h => D.value h v := by
  have ha := D.assign hi hs he hv
  unfold Ensures
  rw [Eval.run_assign]
  cases hrun : w.store.assignable s name with
  | ok t =>
    simp only [hrun] at ha
    exact ⟨ha.1, ha.2, D.value_mono (D.growsIn_of_grows (s := s) ha.2) hv⟩
  | error e =>
    simp only [hrun] at ha
    refine ⟨hi, D.grows_refl _, ?_⟩
    intro e' h
    cases h
    exact ha

theorem evalExpr_sound (bound : Nat) : D.ExprSound (Eval.evalExpr bound : ExprEvaluator σ) := by
  induction bound with
  | zero =>
    intro Γ e s w hi _ _
    exact .exhausted hi (D.grows_refl _)
  | succ bound ih =>
    intro Γ e s w hi hs he
    cases e with
    | number x => exact .pure hi (D.grows_refl _) (D.value_plain rfl)
    | string x => exact .pure hi (D.grows_refl _) (D.value_plain rfl)
    | identifier name => exact lookup_sound hi hs he
    | assign name value =>
      refine .bind D.grows_trans (ih Γ value s w hi hs (D.expr_assign he)) ?_
      intro v w' hi' hg hv
      exact assign_sound hi' (D.scope_mono hg hs) he hv
    | binary operator left right =>
      obtain ⟨hl, hr⟩ := D.expr_binary he
      refine .bind D.grows_trans (ih Γ left s w hi hs hl) ?_
      intro x w' hi' hg hx
      refine .bind D.grows_trans ((ih Γ right s w' hi' (D.scope_mono hg hs) hr).mono (fun _ h => h)
        fun _ _ _ hg' hy => And.intro hg' hy) ?_
      intro y w'' hi'' _ hy
      have hx' := D.value_mono (D.growsIn_of_grows (s := s) hy.1) hx
      exact ofExcept_sound hi'' (fun _ => Operator.applyBinary_plain) fun _ => D.stops_binary he hx' hy.2
    | logical operator left right =>
      obtain ⟨hl, hr⟩ := D.expr_logical he
      simp only [Eval.evalExpr]
      split
      · exact logical_sound ih _ hi hs hl hr
      · rename_i hop
        exact .fail hi (D.grows_refl _) (D.stops_logical he hop)
    | unary operator operand =>
      refine .bind D.grows_trans (ih Γ operand s w hi hs (D.expr_unary he)) ?_
      intro x w' hi' _ hx
      exact ofExcept_sound hi' (fun _ => Operator.applyUnary_plain) fun _ => D.stops_unary he hx
    | call callee arguments =>
      obtain ⟨hcallee, hargs⟩ := D.expr_call he
      refine .bind D.grows_trans (ih Γ callee s w hi hs hcallee) ?_
      intro f w' hi' hg hf
      refine .bind D.grows_trans ((evalAll_sound ih arguments hi' (D.scope_mono hg hs) hargs).mono (fun _ h => h)
        fun _ _ _ hg' hvs => And.intro hg' hvs) ?_
      intro values w'' hi'' _ hvs
      have hf' := D.value_mono (D.growsIn_of_grows (s := s) hvs.1) hf
      cases f with
      | function f => exact invoke_sound (exec_sound ih bound) hi'' hf' hvs.2
      | _ => exact .fail hi'' (D.grows_refl _) (D.stops_callee hf' (by simp [Value.type]))
    | missing => exact .fail hi (D.grows_refl _) (D.stops_missing (.inl he))
    | foreign type => exact .fail hi (D.grows_refl _) (D.stops_foreign (.inl he))

theorem evaluate_sound (bound : Nat) : D.StmtSound (Eval.evaluate bound : StmtEvaluator σ) :=
  exec_sound (evalExpr_sound bound) bound

end

end Discipline

end BlockScript
