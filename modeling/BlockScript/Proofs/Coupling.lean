import Mathlib.Data.List.Forall2
import BlockScript.Proofs.Transcription

/-!
# Two runs side by side

A program and its transcription run in two stores whose scopes correspond to
each other. A coupling says what correspondence means and how it survives the
operations on scopes; `evaluate_coupled` carries it through whole runs: both
end alike, with corresponding values or the same failure, and leave stores that
correspond. What is recorded on the way does not matter.
-/

namespace BlockScript

/-! ## Corresponding values -/

inductive Origin.Related (ρ : ScopeId → ScopeId → Prop) : Origin → Origin → Prop
  | declaredIn {s s'} : ρ s s' → Related ρ (.declaredIn s) (.declaredIn s')
  | supplied tag : Related ρ (.supplied tag) (.supplied tag)

structure Closure.Related (T : Transcription) (ρ : ScopeId → ScopeId → Prop) (f g : Closure) : Prop where
  name : g.name = T.name f.name
  parameters : g.parameters = f.parameters.map T.name
  origin : f.origin.Related ρ g.origin
  body : g.body = T.block f.body

def Value.isFunction : Value → Bool
  | .function _ => true
  | _ => false

inductive Value.Related (T : Transcription) (ρ : ScopeId → ScopeId → Prop) : Value → Value → Prop
  | plain {v} : v.isFunction = false → Related T ρ v v
  | function {f g} : Closure.Related T ρ f g → Related T ρ (.function f) (.function g)

section Related

variable {T : Transcription} {ρ ρ' : ScopeId → ScopeId → Prop} {v v' u u' : Value}

theorem Value.Related.of_isPlain (h : v.isPlain = true) : v.Related T ρ v := by
  cases v with
  | function => cases h
  | _ => exact .plain rfl

theorem Origin.Related.mono (hρ : ∀ {s s'}, ρ s s' → ρ' s s') {o o' : Origin} (h : o.Related ρ o') : o.Related ρ' o' := by
  cases h with
  | declaredIn hs => exact .declaredIn (hρ hs)
  | supplied tag => exact .supplied tag

theorem Value.Related.mono (hρ : ∀ {s s'}, ρ s s' → ρ' s s') (h : v.Related T ρ v') : v.Related T ρ' v' := by
  cases h with
  | plain hv => exact .plain hv
  | function hf => exact .function ⟨hf.name, hf.parameters, hf.origin.mono hρ, hf.body⟩

theorem Value.Related.type_eq (h : v.Related T ρ v') : v'.type = v.type := by
  cases h <;> rfl

theorem Origin.Related.eq_iff (hρ : ∀ {s s' t t'}, ρ s s' → ρ t t' → (s' = t' ↔ s = t)) {o o' p p' : Origin}
    (ho : o.Related ρ o') (hp : p.Related ρ p') : o' = p' ↔ o = p := by
  cases ho with
  | declaredIn hs =>
    cases hp with
    | declaredIn ht => simpa using hρ hs ht
    | supplied => simp
  | supplied =>
    cases hp with
    | declaredIn => simp
    | supplied => simp

theorem Value.Related.same_eq (hρ : ∀ {s s' t t'}, ρ s s' → ρ t t' → (s' = t' ↔ s = t)) (hv : v.Related T ρ v')
    (hu : u.Related T ρ u') : v'.same u' = v.same u := by
  cases hv with
  | plain hv =>
    cases hu with
    | plain => rfl
    | function => cases v <;> first | rfl | cases hv
  | function hf =>
    cases hu with
    | plain hu => cases u <;> first | rfl | cases hu
    | function hg =>
      have horigin := Origin.Related.eq_iff hρ hf.origin hg.origin
      simp [Value.same, horigin, hf.name, hg.name, T.name_eq_name]

theorem Operator.arithmetic?_of_isFunction {op : Bytes} {x y : Value} (h : x.isFunction = true ∨ y.isFunction = true) :
    arithmetic? op x y = none := by
  unfold arithmetic?
  split
  · simp [Value.isFunction] at h
  · simp [Value.isFunction] at h
  · rfl

theorem Operator.applyBinary_related (hρ : ∀ {s s' t t'}, ρ s s' → ρ t t' → (s' = t' ↔ s = t))
    (hv : v.Related T ρ v') (hu : u.Related T ρ u') (op : Bytes) : applyBinary op v' u' = applyBinary op v u := by
  have harith : arithmetic? op v' u' = arithmetic? op v u := by
    cases hv with
    | plain =>
      cases hu with
      | plain => rfl
      | function => rw [arithmetic?_of_isFunction (.inr rfl), arithmetic?_of_isFunction (.inr rfl)]
    | function => rw [arithmetic?_of_isFunction (.inl rfl), arithmetic?_of_isFunction (.inl rfl)]
  simp only [applyBinary, hv.same_eq hρ hu, harith, hv.type_eq, hu.type_eq]

theorem Operator.applyUnary_related (hv : v.Related T ρ v') (op : Bytes) : applyUnary op v' = applyUnary op v := by
  cases hv <;> rfl

end Related

/-- When the scopes of two runs correspond. What corresponds is known in terms of a `Match`, which grows as scopes are
added. -/
structure Coupling where
  transcription : Transcription
  Match : Type
  grows : Match → Match → Prop
  scope : Match → ScopeId → ScopeId → Prop
  store : Match → Store → Store → Prop
  grows_refl m : grows m m
  grows_trans {m n k} : grows m n → grows n k → grows m k
  scope_mono {m n s s'} : grows m n → scope m s s' → scope n s s'
  scope_inj {m s s' t t'} : scope m s s' → scope m t t' → (s' = t' ↔ s = t)
  enter {m h h' p p'} : store m h h' → Option.Rel (scope m) p p' →
    ∃ n, grows m n ∧ store n (h.add (.empty p)) (h'.add (.empty p')) ∧ scope n h.size h'.size
  lookup {m h h' s s'} name : store m h h' → scope m s s' →
    match h.lookup s name, h'.lookup s' (transcription.name name) with
    | .ok v, .ok v' => v.Related transcription (scope m) v'
    | .error e, .error e' => e' = transcription.error e
    | _, _ => False
  assign {m h h' s s' v v'} name : store m h h' → scope m s s' → v.Related transcription (scope m) v' →
    match h.assignable s name, h'.assignable s' (transcription.name name) with
    | .ok t, .ok t' => store m (h.overwrite t name v) (h'.overwrite t' (transcription.name name) v')
    | .error e, .error e' => e' = transcription.error e
    | _, _ => False
  declare {m h h' s s' v v'} name constant : store m h h' → scope m s s' → v.Related transcription (scope m) v' →
    match h.declarable s name, h'.declarable s' (transcription.name name) with
    | .ok (), .ok () => store m (h.bind s name ⟨v, constant⟩) (h'.bind s' (transcription.name name) ⟨v', constant⟩)
    | .error e, .error e' => e' = transcription.error e
    | _, _ => False

namespace Coupling

/-! ## Coupled evaluations -/

section

variable (C : Coupling) {σ τ α β α' β' : Type}

inductive Outcomes (m : C.Match) (rel : C.Match → α → β → Prop) :
    EStateM.Result Halt (World σ) α → EStateM.Result Halt (World τ) β → Prop
  | ok {n a b w w'} : C.grows m n → C.store n w.store w'.store → rel n a b → Outcomes m rel (.ok a w) (.ok b w')
  | error {n halt w w'} : C.grows m n → C.store n w.store w'.store →
      Outcomes m rel (.error halt w) (.error (C.transcription.halt halt) w')

def Coupled (m : C.Match) (rel : C.Match → α → β → Prop) (x : Eval σ α) (y : Eval τ β) : Prop :=
  ∀ w w', C.store m w.store w'.store → C.Outcomes m rel (x.run w) (y.run w')

def values (m : C.Match) (v v' : Value) : Prop := v.Related C.transcription (C.scope m) v'

variable {C} {m : C.Match} {R : C.Match → α → β → Prop} {Q : C.Match → α' → β' → Prop} {x : Eval σ α} {y : Eval τ β}

theorem Coupled.pure {a : α} {b : β} (h : R m a b) : C.Coupled m R (Pure.pure a : Eval σ α) (Pure.pure b : Eval τ β) :=
  fun _ _ hw => .ok (C.grows_refl m) hw h

theorem Coupled.fail (e : RuntimeError) :
    C.Coupled m R (Eval.fail e : Eval σ α) (Eval.fail (C.transcription.error e) : Eval τ β) :=
  fun _ _ hw => .error (C.grows_refl m) hw

theorem Coupled.exhausted : C.Coupled m R (throw .exhausted : Eval σ α) (throw .exhausted : Eval τ β) :=
  fun _ _ hw => .error (C.grows_refl m) hw

theorem Coupled.bind {k : α → Eval σ α'} {l : β → Eval τ β'} (hxy : C.Coupled m R x y)
    (hk : ∀ {n a b}, C.grows m n → R n a b → C.Coupled n Q (k a) (l b)) : C.Coupled m Q (x >>= k) (y >>= l) := by
  intro w w' hw
  have h := hxy w w' hw
  rw [Eval.run_bind, Eval.run_bind]
  revert h
  generalize x.run w = r
  generalize y.run w' = r'
  intro h
  cases h with
  | error hg hs => exact .error hg hs
  | ok hg hs hab =>
    have h := hk hg hab _ _ hs
    revert h
    simp only []
    generalize (k _).run _ = r
    generalize (l _).run _ = r'
    intro h
    cases h with
    | error hg' hs' => exact .error (C.grows_trans hg hg') hs'
    | ok hg' hs' hq => exact .ok (C.grows_trans hg hg') hs' hq

theorem Coupled.record {k : Eval σ α} {l : Eval τ β} (e : Store → Event) (e' : Store → Event) (h : C.Coupled m R k l) :
    C.Coupled m R (do Eval.record (e (← get).store); k) (do Eval.record (e' (← get).store); l) :=
  fun w w' hw => h { w with trace := w.trace.push (e w.store) } { w' with trace := w'.trace.push (e' w'.store) } hw

theorem Coupled.newScope {p p' : Option ScopeId} (hp : Option.Rel (C.scope m) p p') :
    C.Coupled m C.scope (Eval.newScope p : Eval σ ScopeId) (Eval.newScope p' : Eval τ ScopeId) := by
  intro w w' hw
  obtain ⟨n, hg, hs, hn⟩ := C.enter hw hp
  exact .ok hg hs hn

theorem Coupled.lookup {s s' : ScopeId} (hs : C.scope m s s') (name : Name) :
    C.Coupled m C.values (Eval.lookup s name : Eval σ Value)
      (Eval.lookup s' (C.transcription.name name) : Eval τ Value) := by
  intro w w' hw
  have h := C.lookup name hw hs
  rw [Eval.run_lookup, Eval.run_lookup]
  revert h
  cases w.store.lookup s name <;> cases w'.store.lookup s' (C.transcription.name name) <;> intro h
  · cases (h : _ = _)
    exact .error (C.grows_refl m) hw
  · cases h
  · cases h
  · exact .ok (C.grows_refl m) hw h

theorem Coupled.assign {s s' : ScopeId} {v v' : Value} (hs : C.scope m s s') (name : Name) (hv : C.values m v v') :
    C.Coupled m C.values (Eval.assign s name v : Eval σ Value)
      (Eval.assign s' (C.transcription.name name) v' : Eval τ Value) := by
  intro w w' hw
  have h := C.assign name hw hs hv
  rw [Eval.run_assign, Eval.run_assign]
  revert h
  cases w.store.assignable s name <;> cases w'.store.assignable s' (C.transcription.name name) <;> intro h
  · cases (h : _ = _)
    exact .error (C.grows_refl m) hw
  · cases h
  · cases h
  · exact .ok (C.grows_refl m) h hv

theorem Coupled.declare {s s' : ScopeId} {v v' : Value} (hs : C.scope m s s') (name : Name) (constant : Bool)
    (hv : C.values m v v') :
    C.Coupled m C.values (Eval.declare s name v constant : Eval σ Value)
      (Eval.declare s' (C.transcription.name name) v' constant : Eval τ Value) := by
  intro w w' hw
  have h := C.declare name constant hw hs hv
  rw [Eval.run_declare, Eval.run_declare]
  revert h
  cases w.store.declarable s name <;> cases w'.store.declarable s' (C.transcription.name name) <;> intro h
  · cases (h : _ = _)
    exact .error (C.grows_refl m) hw
  · cases h
  · cases h
  · exact .ok (C.grows_refl m) h hv

theorem values_mono {n : C.Match} {v v' : Value} (hg : C.grows m n) (hv : C.values m v v') : C.values n v v' :=
  hv.mono (C.scope_mono hg)

theorem values_null : C.values m .null .null := .plain rfl

end

variable (C : Coupling) {σ τ : Type}

def ExprCoupled (exprs : ExprEvaluator σ) (exprs' : ExprEvaluator τ) : Prop :=
  ∀ m e s s', C.scope m s s' → C.Coupled m C.values (exprs e s) (exprs' (C.transcription.expr e) s')

def StmtCoupled (eval : StmtEvaluator σ) (eval' : StmtEvaluator τ) : Prop :=
  ∀ m stmt s s', C.scope m s s' → C.Coupled m C.values (eval stmt s) (eval' (C.transcription.stmt stmt) s')

variable {C} {m : C.Match} {s s' : ScopeId} {exprs : ExprEvaluator σ} {exprs' : ExprEvaluator τ} {eval : StmtEvaluator σ}
  {eval' : StmtEvaluator τ}

/-! ## Statements -/

theorem sequence_coupled (heval : C.StmtCoupled eval eval') (hs : C.scope m s s') {last last' : Value}
    (hl : C.values m last last') (body : Block) :
    C.Coupled m C.values (Eval.sequence eval s last body)
      (Eval.sequence eval' s' last' (C.transcription.block body)) := by
  rw [C.transcription.block_eq_map]
  induction body generalizing m last last' with
  | nil => exact .pure hl
  | cons stmt body ih =>
    refine .bind (heval m stmt s s' hs) ?_
    intro n v v' hg hv
    exact ih (C.scope_mono hg hs) hv

theorem runIn_coupled (heval : C.StmtCoupled eval eval') (hs : C.scope m s s') (body : Block) :
    C.Coupled m C.values (Eval.runIn eval body s) (Eval.runIn eval' (C.transcription.block body) s') :=
  .record (fun h => .enterBlock (h.depth s)) (fun h => .enterBlock (h.depth s'))
    (sequence_coupled heval hs values_null body)

theorem runBlock_coupled (heval : C.StmtCoupled eval eval') (hs : C.scope m s s') (body : Block) :
    C.Coupled m C.values (Eval.runBlock eval body s) (Eval.runBlock eval' (C.transcription.block body) s') := by
  refine .bind (.newScope (.some hs)) ?_
  intro n t t' _ ht
  exact runIn_coupled heval ht body

theorem condition_coupled (hexprs : C.ExprCoupled exprs exprs') (construct : Construct) (check : Expr)
    (hs : C.scope m s s') :
    C.Coupled m (fun _ b b' => b' = b) (Eval.condition exprs construct check s)
      (Eval.condition exprs' construct (C.transcription.expr check) s') := by
  refine .bind (hexprs m check s s' hs) ?_
  intro n v v' _ hv
  cases hv with
  | function => exact .fail _
  | plain hv =>
    cases v with
    | boolean b => exact .pure rfl
    | _ => exact .fail _

theorem chooseBranch_coupled (hexprs : C.ExprCoupled exprs exprs') (otherwise : Option Block) (arms : List (Expr × Block))
    (hs : C.scope m s s') :
    C.Coupled m (fun _ branch branch' => branch' = branch.map C.transcription.block)
      (Eval.chooseBranch exprs s otherwise arms)
      (Eval.chooseBranch exprs' s' (C.transcription.otherwise otherwise) (C.transcription.arms arms)) := by
  rw [C.transcription.otherwise_eq_map, C.transcription.arms_eq_map]
  induction arms generalizing m with
  | nil => exact .pure rfl
  | cons arm arms ih =>
    refine .bind (condition_coupled hexprs .conditional arm.1 hs) ?_
    intro n b b' hg hb
    cases hb
    cases b with
    | true => exact .pure rfl
    | false => exact ih (C.scope_mono hg hs)

theorem runBranch_coupled (heval : C.StmtCoupled eval eval') (hs : C.scope m s s') (branch : Option Block) :
    C.Coupled m C.values (Eval.runBranch eval branch s)
      (Eval.runBranch eval' (branch.map C.transcription.block) s') := by
  cases branch with
  | none => exact .pure values_null
  | some body =>
    refine .bind (runBlock_coupled heval hs body) ?_
    intro n _ _ _ _
    exact .pure values_null

theorem bindAll_coupled (hs : C.scope m s s') (names : List Name) {vs vs' : List Value}
    (hvs : List.Forall₂ (C.values m) vs vs') :
    C.Coupled m (fun _ _ _ => True) (Eval.bindAll s (names.zip vs) : Eval σ Unit)
      (Eval.bindAll s' ((names.map C.transcription.name).zip vs') : Eval τ Unit) := by
  induction names generalizing m vs vs' with
  | nil => exact .pure trivial
  | cons name names ih =>
    cases hvs with
    | nil => exact .pure trivial
    | cons hv hvs =>
      refine .bind (.declare hs name false hv) ?_
      intro n _ _ hg _
      exact ih (C.scope_mono hg hs) (hvs.imp fun _ _ => values_mono hg)

theorem scope?_rel {f g : Closure} (h : f.origin.Related (C.scope m) g.origin) :
    Option.Rel (C.scope m) f.scope? g.scope? := by
  obtain ⟨_, _, o, _⟩ := f
  obtain ⟨_, _, o', _⟩ := g
  cases h with
  | declaredIn hs => exact .some hs
  | supplied tag => exact .none

theorem invoke_coupled (heval : C.StmtCoupled eval eval') {f g : Closure}
    (hf : f.Related C.transcription (C.scope m) g) {vs vs' : List Value} (hvs : List.Forall₂ (C.values m) vs vs') :
    C.Coupled m C.values (Eval.invoke eval f vs) (Eval.invoke eval' g vs') := by
  obtain ⟨hname, hparams, horigin, hbody⟩ := hf
  unfold Eval.invoke
  rw [hname, hparams, hbody, hvs.length_eq, List.length_map]
  split
  · exact .fail _
  · refine .bind (.newScope (scope?_rel horigin)) ?_
    intro n s s' hg hs
    refine .bind (bindAll_coupled hs f.parameters (hvs.imp fun _ _ => values_mono hg)) ?_
    intro k _ _ hg' _
    exact .record (fun h => .call f.name (h.depth s)) (fun h => .call (C.transcription.name f.name) (h.depth s'))
      (runIn_coupled heval (C.scope_mono hg' hs) f.body)

theorem initialValue_coupled (hexprs : C.ExprCoupled exprs exprs') (value : Option Expr) (hs : C.scope m s s') :
    C.Coupled m C.values (Eval.initialValue exprs value s)
      (Eval.initialValue exprs' (value.map C.transcription.expr) s') := by
  cases value with
  | none => exact .pure values_null
  | some e => exact hexprs m e s s' hs

theorem exec_coupled (hexprs : C.ExprCoupled exprs exprs') (bound : Nat) :
    C.StmtCoupled (Eval.exec exprs bound) (Eval.exec exprs' bound) := by
  induction bound with
  | zero => exact fun m stmt s s' _ => .exhausted
  | succ bound ih =>
    intro m stmt s s' hs
    cases stmt with
    | program body => exact runIn_coupled ih hs body
    | declare kind name value =>
      refine .bind (initialValue_coupled hexprs value hs) ?_
      intro n v v' hg hv
      rw [C.transcription.isConstant_kind]
      exact .record (fun h => .declare name kind (h.depth s))
        (fun h => .declare (C.transcription.name name) (C.transcription.kind kind) (h.depth s'))
        (.declare (C.scope_mono hg hs) name kind.isConstant hv)
    | function name parameters body =>
      refine .record (fun h => .declareFunction name (h.depth s))
        (fun h => .declareFunction (C.transcription.name name) (h.depth s')) (.declare hs name true ?_)
      exact .function ⟨rfl, rfl, .declaredIn hs, rfl⟩
    | ifElse check body arms otherwise =>
      refine .bind (chooseBranch_coupled hexprs otherwise ((check, body) :: arms) hs) ?_
      intro n branch _ hg hbranch
      cases hbranch
      exact runBranch_coupled ih (C.scope_mono hg hs) branch
    | whileLoop check body =>
      refine .bind (condition_coupled hexprs .loop check hs) ?_
      intro n b _ hg hb
      cases hb
      cases b with
      | false => exact .pure values_null
      | true =>
        refine .bind (runBlock_coupled ih (C.scope_mono hg hs) body) ?_
        intro k _ _ hg' _
        exact ih k (.whileLoop check body) s s' (C.scope_mono hg' (C.scope_mono hg hs))
    | expr e => exact hexprs m e s s' hs
    | missing => exact .fail _
    | foreign type => exact .fail _

/-! ## Expressions -/

theorem operand_coupled (hexprs : C.ExprCoupled exprs exprs') (op : LogicalOp) (e : Expr) (hs : C.scope m s s') :
    C.Coupled m (fun _ b b' => b' = b) (Eval.operand exprs op e s)
      (Eval.operand exprs' op (C.transcription.expr e) s') := by
  refine .bind (hexprs m e s s' hs) ?_
  intro n v v' _ hv
  cases hv with
  | function => exact .fail _
  | plain hv =>
    cases v with
    | boolean b => exact .pure rfl
    | _ => exact .fail _

theorem logical_coupled (hexprs : C.ExprCoupled exprs exprs') (op : LogicalOp) (left right : Expr)
    (hs : C.scope m s s') :
    C.Coupled m C.values (Eval.logical exprs op left right s)
      (Eval.logical exprs' op (C.transcription.expr left) (C.transcription.expr right) s') := by
  refine .bind (operand_coupled hexprs op left hs) ?_
  intro n x _ hg hx
  cases hx
  split
  · exact .pure (.plain rfl)
  · refine .bind (operand_coupled hexprs op right (C.scope_mono hg hs)) ?_
    intro k y _ _ hy
    cases hy
    exact .pure (.plain rfl)

theorem evalAll_coupled (hexprs : C.ExprCoupled exprs exprs') (es : List Expr) (hs : C.scope m s s') :
    C.Coupled m (fun n => List.Forall₂ (C.values n)) (Eval.evalAll exprs s es)
      (Eval.evalAll exprs' s' (C.transcription.exprs es)) := by
  rw [C.transcription.exprs_eq_map]
  induction es generalizing m with
  | nil => exact .pure .nil
  | cons e es ih =>
    refine .bind (hexprs m e s s' hs) ?_
    intro n v v' hg hv
    refine .bind (ih (C.scope_mono hg hs)) ?_
    intro k vs vs' hg' hvs
    exact .pure (.cons (values_mono hg' hv) hvs)

theorem ofExcept_coupled {r : Except RuntimeError Value} (hok : ∀ v, r = .ok v → v.isPlain = true)
    (herr : ∀ e, r = .error e → C.transcription.error e = e) :
    C.Coupled m C.values (Eval.ofExcept r : Eval σ Value) (Eval.ofExcept r : Eval τ Value) := by
  cases r with
  | ok v => exact .pure (.of_isPlain (hok v rfl))
  | error e =>
    have h := Coupled.fail (σ := σ) (τ := τ) (m := m) (R := C.values) e
    rwa [herr e rfl] at h

theorem evalExpr_coupled (bound : Nat) :
    C.ExprCoupled (Eval.evalExpr bound : ExprEvaluator σ) (Eval.evalExpr bound : ExprEvaluator τ) := by
  induction bound with
  | zero => exact fun m e s s' _ => .exhausted
  | succ bound ih =>
    intro m e s s' hs
    cases e with
    | number x => exact .pure (.plain rfl)
    | string x => exact .pure (.plain rfl)
    | identifier name => exact .lookup hs name
    | assign name value =>
      refine .bind (ih m value s s' hs) ?_
      intro n v v' hg hv
      exact .assign (C.scope_mono hg hs) name hv
    | binary operator left right =>
      refine .bind (ih m left s s' hs) ?_
      intro n x x' hg hx
      refine .bind (ih n right s s' (C.scope_mono hg hs)) ?_
      intro k y y' hg' hy
      rw [C.transcription.lexeme_operator, Operator.applyBinary_related C.scope_inj (values_mono hg' hx) hy]
      refine ofExcept_coupled (fun v => Operator.applyBinary_plain) fun e h => ?_
      rw [Operator.applyBinary_eq_error h]
      rfl
    | logical operator left right =>
      simp only [Eval.evalExpr, Transcription.expr, C.transcription.meaning_connective]
      split
      · exact logical_coupled ih _ left right hs
      · rename_i hop
        rw [C.transcription.lexeme_connective hop]
        exact .fail _
    | unary operator operand =>
      refine .bind (ih m operand s s' hs) ?_
      intro n x x' _ hx
      rw [C.transcription.lexeme_operator, Operator.applyUnary_related hx]
      refine ofExcept_coupled (fun v => Operator.applyUnary_plain) fun e h => ?_
      rw [Operator.applyUnary_eq_error h]
      rfl
    | call callee arguments =>
      refine .bind (ih m callee s s' hs) ?_
      intro n f f' hg hf
      refine .bind (evalAll_coupled ih arguments (C.scope_mono hg hs)) ?_
      intro k vs vs' hg' hvs
      -- the arguments may have added scopes since the callee was evaluated
      replace hf := values_mono hg' hf
      cases hf with
      | function hf => exact invoke_coupled (exec_coupled ih bound) hf hvs
      | plain hf =>
        cases f with
        | function => cases hf
        | _ => exact .fail _
    | missing => exact .fail _
    | foreign type => exact .fail _

theorem evaluate_coupled (bound : Nat) :
    C.StmtCoupled (Eval.evaluate bound : StmtEvaluator σ) (Eval.evaluate bound : StmtEvaluator τ) :=
  exec_coupled (evalExpr_coupled bound) bound

end Coupling

end BlockScript
